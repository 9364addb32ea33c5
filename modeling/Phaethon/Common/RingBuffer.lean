import Mathlib.Data.List.TakeWhile
import Mathlib.Data.Nat.ModEq

/-!
# A ring buffer with a head and a count

The entries are the `n` slots from `head` on, wrapping around. `toList` is the abstract queue: `push` appends
to it, `pop` drops its first entry and `popWhile` is `List.dropWhile`.
-/

/-- A ring of `cap` slots of which `n` are in use. -/
structure RingBuffer (α : Type*) (cap : ℕ) where
  slots : Fin cap → α
  head : Fin cap
  n : ℕ
  le : n ≤ cap

namespace RingBuffer

open Function List

variable {α : Type*} {cap : ℕ}

variable (b : RingBuffer α cap)

/-- The slot `i` places after the head. -/
def slot (i : ℕ) : Fin cap := ⟨(b.head + i) % cap, Nat.mod_lt _ b.head.pos⟩

/-- The entries, oldest first. -/
def toList : List α := (List.range b.n).map fun i => b.slots (b.slot i)

/-- Writes the slot after the last entry. -/
def push (x : α) (h : b.n < cap) : RingBuffer α cap :=
  { b with slots := update b.slots (b.slot b.n) x, n := b.n + 1, le := h }

/-- The slot at the head. -/
def first : α := b.slots b.head

/-- Moves the head over one entry. -/
def pop : RingBuffer α cap :=
  { b with head := b.slot 1, n := b.n - 1, le := (Nat.sub_le b.n 1).trans b.le }

/-- Pops entries while there are any and the first one is `p`, at most `fuel` of them, and tells the last
entry popped. -/
def popWhile (p : α → Bool) : ℕ → RingBuffer α cap → Option α → RingBuffer α cap × Option α
  | 0, b, last => (b, last)
  | fuel + 1, b, last =>
      if b.n ≠ 0 ∧ p b.first = true then popWhile p fuel b.pop (some b.first) else (b, last)

@[simp]
theorem length_toList (b : RingBuffer α cap) : b.toList.length = b.n := by simp [toList]

/-- The slots of the entries, and the one after them while there is room, are distinct. -/
theorem slot_injOn (b : RingBuffer α cap) {i j : ℕ} (hi : i < cap) (hj : j < cap)
    (h : b.slot i = b.slot j) : i = j := by
  have hmod : (b.head + i) % cap = (b.head + j) % cap := congrArg Fin.val h
  have hmod : i ≡ j [MOD cap] := Nat.ModEq.add_left_cancel' _ hmod
  rwa [Nat.ModEq, Nat.mod_eq_of_lt hi, Nat.mod_eq_of_lt hj] at hmod

@[simp]
theorem toList_push (b : RingBuffer α cap) (x : α) (h : b.n < cap) : (b.push x h).toList = b.toList ++ [x] := by
  have hold : ∀ i ∈ List.range b.n, (b.push x h).slots (b.slot i) = b.slots (b.slot i) := by
    intro i hi
    have hi : i < b.n := mem_range.mp hi
    refine update_of_ne (fun heq => ?_) x b.slots
    exact hi.ne (b.slot_injOn (hi.trans h) h heq)
  have hnew : (b.push x h).slots (b.slot b.n) = x := update_self ..
  change ((List.range (b.n + 1)).map fun i => (b.push x h).slots (b.slot i)) = _
  rw [range_succ, map_append, map_congr_left hold, map_singleton, hnew]
  rfl

theorem slot_pop (b : RingBuffer α cap) (i : ℕ) : b.pop.slot i = b.slot (i + 1) := by
  refine Fin.ext ?_
  change ((b.head + 1) % cap + i) % cap = (b.head + (i + 1)) % cap
  rw [Nat.mod_add_mod]
  congr 1
  omega

theorem toList_eq_cons (b : RingBuffer α cap) (h : b.n ≠ 0) : b.toList = b.first :: b.pop.toList := by
  obtain ⟨k, hk⟩ := Nat.exists_eq_succ_of_ne_zero h
  have hhead : b.slot 0 = b.head := Fin.ext (Nat.mod_eq_of_lt b.head.isLt)
  have hrest : b.pop.toList = (List.range k).map fun i => b.slots (b.slot (i + 1)) := by
    simp only [toList, pop, hk, Nat.succ_sub_one]
    exact map_congr_left fun i _ => congrArg b.slots (b.slot_pop i)
  rw [hrest, toList, hk, range_succ_eq_map, map_cons, map_map, hhead]
  rfl

theorem toList_eq_nil {b : RingBuffer α cap} (h : b.n = 0) : b.toList = [] :=
  length_eq_zero_iff.mp (b.length_toList.trans h)

/-- The loop drops the entries that are `p` from the front. -/
theorem toList_popWhile (p : α → Bool) (fuel : ℕ) (b : RingBuffer α cap) (last : Option α) (h : b.n ≤ fuel) :
    (popWhile p fuel b last).1.toList = b.toList.dropWhile p := by
  induction fuel generalizing b last with
  | zero =>
    have hn : b.n = 0 := Nat.le_zero.mp h
    simp [popWhile, toList_eq_nil hn]
  | succ fuel ih =>
    by_cases hn : b.n = 0
    · simp [popWhile, hn, toList_eq_nil hn]
    · have hpop : b.pop.n ≤ fuel := Nat.sub_le_of_le_add h
      rw [toList_eq_cons b hn]
      cases hp : p b.first with
      | true => rw [popWhile, if_pos ⟨hn, hp⟩, ih _ _ hpop, dropWhile_cons_of_pos hp]
      | false =>
        rw [popWhile, if_neg (by simp [hp]), dropWhile_cons_of_neg (by simp [hp]), toList_eq_cons b hn]

end RingBuffer
