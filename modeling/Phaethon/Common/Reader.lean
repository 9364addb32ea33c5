import Mathlib.Data.List.Infix

/-!
# Reading from a connection

What a connection still has for its reader: fragments of bytes as they arrive, and read deadlines that expire
between them. `readFull` is the loop that fills a buffer from it, `delivered` the bytes to come and `expiries`
the positions in the stream at which a deadline expires. `readFull_outcome` says what the loop does to them: it fills
the buffer, it stops at a deadline with the bytes before that deadline gone, or it meets the end.
-/

namespace Reader

open List

/-- What the next read of the connection gives. -/
inductive Event (α : Type*) where
  | data (bs : List α)
  | timeout
  deriving DecidableEq, Repr

/-- Why a buffer was not filled. -/
inductive Fault where
  | eof
  | unexpectedEOF
  | timeout
  deriving DecidableEq, Repr

variable {α : Type*}

/-- The bytes that arrive. -/
def delivered : List (Event α) → List α
  | [] => []
  | .data bs :: rest => bs ++ delivered rest
  | .timeout :: rest => delivered rest

/-- The positions in the stream at which a deadline expires, if it is at `pos` now. -/
def expiries : ℕ → List (Event α) → List ℕ
  | _, [] => []
  | pos, .data bs :: rest => expiries (pos + bs.length) rest
  | pos, .timeout :: rest => pos :: expiries pos rest

/-- Reads until `k` more bytes have come after those in `got`. A fragment that is longer is left in part, and
a deadline or the end of the stream gives up what was read. -/
def readFull (k : ℕ) : List (Event α) → List α → Except Fault (List α) × List (Event α)
  | [], got => if k = 0 then (.ok got, []) else (.error (if got = [] then .eof else .unexpectedEOF), [])
  | .timeout :: rest, got => if k = 0 then (.ok got, .timeout :: rest) else (.error .timeout, rest)
  | .data bs :: rest, got =>
      if k = 0 then (.ok got, .data bs :: rest)
      else if bs.length ≤ k then readFull (k - bs.length) rest (got ++ bs)
      else (.ok (got ++ bs.take k), .data (bs.drop k) :: rest)

/-- What is left after a read, as far as the stream goes: `bs` was taken, and no deadline. -/
structure Taken (input : List (Event α)) (bs : List α) (rest : List (Event α)) : Prop where
  delivered : delivered input = bs ++ Reader.delivered rest
  expiries : ∀ pos, expiries pos input = Reader.expiries (pos + bs.length) rest

theorem Taken.refl (input : List (Event α)) : Taken input [] input := ⟨rfl, fun _ => rfl⟩

theorem Taken.trans {input mid rest : List (Event α)} {bs cs : List α} (h : Taken input bs mid)
    (h' : Taken mid cs rest) : Taken input (bs ++ cs) rest where
  delivered := by rw [h.delivered, h'.delivered, append_assoc]
  expiries pos := by rw [h.expiries, h'.expiries, length_append, Nat.add_assoc]

theorem Taken.fragment (bs : List α) (rest : List (Event α)) : Taken (.data bs :: rest) bs rest :=
  ⟨rfl, fun _ => rfl⟩

theorem Taken.part {bs : List α} {k : ℕ} (hk : k ≤ bs.length) (rest : List (Event α)) :
    Taken (.data bs :: rest) (bs.take k) (.data (bs.drop k) :: rest) where
  delivered := by
    simp only [Reader.delivered]
    rw [← append_assoc, take_append_drop]
  expiries pos := by
    simp only [Reader.expiries, length_take, length_drop]
    congr 1
    omega

/-- How filling a buffer of `k` bytes ends. -/
inductive Outcome (k : ℕ) (input : List (Event α)) (got : List α) :
    Except Fault (List α) × List (Event α) → Prop where
  | filled {bs : List α} {rest : List (Event α)} (hlen : bs.length = k) (htaken : Taken input bs rest) :
      Outcome k input got (.ok (got ++ bs), rest)
  /-- The bytes before the deadline are lost. -/
  | expired {bs : List α} {rest : List (Event α)} (hlen : bs.length < k)
      (htaken : Taken input bs (.timeout :: rest)) :
      Outcome k input got (.error .timeout, rest)
  | ended {bs : List α} (hlen : bs.length < k) (htaken : Taken input bs []) :
      Outcome k input got (.error (if got ++ bs = [] then .eof else .unexpectedEOF), [])

theorem Outcome.after {k : ℕ} {input mid : List (Event α)} {got bs : List α} (hk : bs.length ≤ k)
    (htaken : Taken input bs mid) {r : Except Fault (List α) × List (Event α)}
    (h : Outcome (k - bs.length) mid (got ++ bs) r) : Outcome k input got r := by
  cases h with
  | filled hlen hmid =>
    rw [append_assoc]
    exact .filled (by rw [length_append]; omega) (htaken.trans hmid)
  | expired hlen hmid => exact .expired (by rw [length_append]; omega) (htaken.trans hmid)
  | ended hlen hmid =>
    rw [append_assoc]
    exact .ended (by rw [length_append]; omega) (htaken.trans hmid)

theorem readFull_outcome (k : ℕ) (input : List (Event α)) (got : List α) :
    Outcome k input got (readFull k input got) := by
  have hnone {k : ℕ} (hk : k = 0) (input : List (Event α)) (got : List α) :
      Outcome k input got (.ok got, input) := by
    have hfilled : Outcome k input got (.ok (got ++ []), input) := .filled hk.symm (.refl input)
    rwa [append_nil] at hfilled
  induction input generalizing k got with
  | nil =>
    rw [readFull]
    split
    case isTrue hk => exact hnone hk [] got
    case isFalse hk =>
      have hended : Outcome k [] got (.error (if got ++ [] = [] then .eof else .unexpectedEOF), []) :=
        .ended (Nat.pos_of_ne_zero hk) (.refl [])
      rwa [append_nil] at hended
  | cons e rest ih =>
    cases e with
    | timeout =>
      rw [readFull]
      split
      case isTrue hk => exact hnone hk _ got
      case isFalse hk =>
        have hnow : Taken (.timeout :: rest) [] (.timeout :: rest) := .refl _
        exact .expired (length_nil ▸ Nat.pos_of_ne_zero hk) hnow
    | data bs =>
      rw [readFull]
      split
      case isTrue hk => exact hnone hk _ got
      case isFalse hk =>
        split
        case isTrue hfits => exact (ih _ _).after hfits (.fragment bs rest)
        case isFalse hlong =>
          have hle : k ≤ bs.length := by omega
          exact .filled (length_take_of_le hle) (.part hle rest)

end Reader
