import Mathlib.Algebra.Group.Nat.Defs

/-!
# UTF-8 in byte strings

A Go string is a sequence of bytes that need not be UTF-8. `encoding/json` writes one with every byte that
is not part of a well-formed character replaced by U+FFFD (`toValid`), so that exactly the strings of
well-formed characters (`valid`) come back as they were.
-/

namespace Utf8

open List

/-- The byte lies in a range. -/
def between (low high b : UInt8) : Bool := low ≤ b && b ≤ high

/-- A continuation byte. -/
def isTail (b : UInt8) : Bool := between 0x80 0xbf b

/-- `utf8.DecodeRune`: how many bytes the well-formed character at the front has, if there is one. -/
def width : List UInt8 → Option ℕ
  | [] => none
  | a :: rest =>
      if a < 0x80 then some 1
      else
        match rest with
        | [] => none
        | b :: rest =>
            if between 0xc2 0xdf a then if isTail b then some 2 else none
            else
              match rest with
              | [] => none
              | c :: rest =>
                  if (a = 0xe0 ∧ between 0xa0 0xbf b) ∨ (between 0xe1 0xec a ∧ isTail b) ∨
                      (a = 0xed ∧ between 0x80 0x9f b) ∨ (between 0xee 0xef a ∧ isTail b) then
                    if isTail c then some 3 else none
                  else
                    match rest with
                    | [] => none
                    | d :: _ =>
                        if ((a = 0xf0 ∧ between 0x90 0xbf b) ∨ (between 0xf1 0xf3 a ∧ isTail b) ∨
                            (a = 0xf4 ∧ between 0x80 0x8f b)) ∧ isTail c ∧ isTail d then some 4
                        else none

/-- U+FFFD. -/
def replacement : List UInt8 := [0xef, 0xbf, 0xbd]

/-- The string with its malformed bytes replaced; `owed` bytes of a character are still to come. -/
def toValidFrom : ℕ → List UInt8 → List UInt8
  | _, [] => []
  | owed + 1, b :: rest => b :: toValidFrom owed rest
  | 0, b :: rest =>
      match width (b :: rest) with
      | some n => b :: toValidFrom (n - 1) rest
      | none => replacement ++ toValidFrom 0 rest

/-- A string as `encoding/json` writes it and reads it back. -/
def toValid (s : List UInt8) : List UInt8 := toValidFrom 0 s

/-- The string is well formed after the `owed` bytes of a character. -/
def validFrom : ℕ → List UInt8 → Bool
  | _, [] => true
  | owed + 1, _ :: rest => validFrom owed rest
  | 0, b :: rest =>
      match width (b :: rest) with
      | some n => validFrom (n - 1) rest
      | none => false

/-- `utf8.ValidString`. -/
def valid (s : List UInt8) : Bool := validFrom 0 s

private theorem length_le_toValidFrom (owed : ℕ) (s : List UInt8) : s.length ≤ (toValidFrom owed s).length := by
  fun_induction toValidFrom owed s with
  | case1 => exact Nat.le_refl _
  | case2 owed b rest ih => simpa using ih
  | case3 b rest n _ ih => simpa using ih
  | case4 b rest _ ih =>
    simp only [length_append, length_cons, replacement]
    omega

/-- Exactly the well-formed strings come back as they were. -/
theorem toValidFrom_eq_iff (owed : ℕ) (s : List UInt8) : toValidFrom owed s = s ↔ validFrom owed s = true := by
  fun_induction toValidFrom owed s with
  | case1 => simp [validFrom]
  | case2 owed b rest ih => simpa [validFrom] using ih
  | case3 b rest n hn ih => simpa [validFrom, hn] using ih
  | case4 b rest hn ih =>
    -- one byte became three, and nothing gets shorter
    simp only [validFrom, hn, Bool.false_eq_true, iff_false]
    intro h
    have hlen := congrArg List.length h
    have := length_le_toValidFrom 0 rest
    simp only [length_append, length_cons, length_nil, replacement] at hlen
    omega

theorem toValid_eq_iff (s : List UInt8) : toValid s = s ↔ valid s = true := toValidFrom_eq_iff 0 s

end Utf8
