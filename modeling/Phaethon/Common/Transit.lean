import Mathlib.Algebra.BigOperators.Group.Finset.Basic
import Mathlib.Tactic.Abel

/-!
# Items in transit between queues

Finitely many places hold items in order; an item enters at the end of a place and moves from the head of
one place to the end of another. `total` is the multiset of all items, wherever they are: moving keeps it.
`line` is what a path of places holds, from its end back to its start: items that move along the path keep their
order.
-/

namespace Transit

open Function List

variable {ι α : Type*} [DecidableEq ι]

/-- `x` enters at the end of place `i`. -/
def push (q : ι → List α) (i : ι) (x : α) : ι → List α :=
  update q i (q i ++ [x])

/-- The head of place `i` moves to the end of place `j`, if there is one. -/
def move (q : ι → List α) (i j : ι) : Option (ι → List α) :=
  match q i with
  | [] => none
  | x :: l => some (push (update q i l) j x)

theorem move_eq_some {q q' : ι → List α} {i j : ι} :
    move q i j = some q' ↔ ∃ x l, q i = x :: l ∧ q' = push (update q i l) j x := by
  unfold move
  split
  case h_1 hq => simp [hq]
  case h_2 x l hq => simp [hq, eq_comm]

theorem move_apply_of_ne {q q' : ι → List α} {i j k : ι} (h : move q i j = some q') (hi : k ≠ i) (hj : k ≠ j) :
    q' k = q k := by
  obtain ⟨x, l, -, rfl⟩ := move_eq_some.mp h
  rw [push, update_of_ne hj, update_of_ne hi]

/-! ## Order -/

section Order

variable {p : α → Bool} {path before after : List ι} {q q' : ι → List α} {i j : ι} {x : α}

/-- The items that are `p` on a path of places, from its end back to its start. -/
def line (p : α → Bool) (path : List ι) (q : ι → List α) : List α := path.flatMap fun i => (q i).filter p

omit [DecidableEq ι] in
theorem line_congr (h : ∀ i ∈ path, (q' i).filter p = (q i).filter p) : line p path q' = line p path q :=
  flatMap_congr h

theorem line_update_of_notMem (hi : i ∉ path) (l : List α) : line p path (update q i l) = line p path q :=
  line_congr fun j hj => by rw [update_of_ne (ne_of_mem_of_not_mem hj hi)]

theorem line_push_of_notMem (hi : i ∉ path) (x : α) : line p path (push q i x) = line p path q :=
  line_update_of_notMem hi _

theorem line_push_of_false (hx : p x = false) : line p path (push q i x) = line p path q := by
  refine line_congr fun j _ => ?_
  by_cases hj : j = i
  · subst hj
    simp [push, hx]
  · rw [push, update_of_ne hj]

/-- An item that enters at the start of the path. -/
theorem line_push_start (hi : i ∉ path) (hx : p x = true) :
    line p (path ++ [i]) (push q i x) = line p (path ++ [i]) q ++ [x] := by
  have hrest := line_push_of_notMem (p := p) (q := q) hi x
  simp only [line, flatMap_append, flatMap_singleton] at hrest ⊢
  rw [hrest]
  simp [push, hx]

/-- An item that moves on along the path. -/
theorem line_move_along (hpath : (before ++ j :: i :: after).Nodup) (h : move q i j = some q') :
    line p (before ++ j :: i :: after) q' = line p (before ++ j :: i :: after) q := by
  obtain ⟨x, l, hq, rfl⟩ := move_eq_some.mp h
  simp only [nodup_append, nodup_cons, mem_cons, not_or] at hpath
  obtain ⟨-, ⟨⟨hji, hjafter⟩, hiafter, -⟩, hbefore⟩ := hpath
  have hj : (push (update q i l) j x) j = q j ++ [x] := by simp [push, hji]
  have hi : (push (update q i l) j x) i = l := by simp [push, Ne.symm hji]
  have hother (k : ι) (hkj : k ≠ j) (hki : k ≠ i) : (push (update q i l) j x) k = q k := by
    simp [push, hkj, hki]
  have hb : line p before (push (update q i l) j x) = line p before q := line_congr fun k hk => by
    rw [hother k (hbefore k hk j (.inl rfl)) (hbefore k hk i (.inr (.inl rfl)))]
  have ha : line p after (push (update q i l) j x) = line p after q := line_congr fun k hk => by
    rw [hother k (ne_of_mem_of_not_mem hk hjafter) (ne_of_mem_of_not_mem hk hiafter)]
  have hxl : [x].filter p ++ l.filter p = (x :: l).filter p := (filter_append [x] l).symm
  simp only [line, flatMap_append, flatMap_cons] at hb ha ⊢
  rw [hb, ha, hj, hi, hq, ← hxl, filter_append]
  simp only [append_assoc]

/-- An item that is not `p` moves unseen. -/
theorem line_move_of_false (h : move q i j = some q') (hx : ∀ x ∈ (q i).head?, p x = false) :
    line p path q' = line p path q := by
  obtain ⟨x, l, hq, rfl⟩ := move_eq_some.mp h
  have hx : p x = false := hx x (by simp [hq])
  rw [line_push_of_false hx]
  refine line_congr fun k _ => ?_
  by_cases hk : k = i
  · subst hk
    simp [hq, hx]
  · rw [update_of_ne hk]

end Order

variable [Fintype ι]

variable (q : ι → List α)

/-- All items, wherever they are. -/
def total : Multiset α := ∑ i, (q i : Multiset α)

theorem total_update (i : ι) (l : List α) :
    total (update q i l) + (q i : Multiset α) = total q + (l : Multiset α) := by
  have hsplit : ∀ f : ι → List α,
      total f = (f i : Multiset α) + ∑ j ∈ Finset.univ.erase i, (f j : Multiset α) := fun f =>
    (Finset.add_sum_erase Finset.univ (fun j => (f j : Multiset α)) (Finset.mem_univ i)).symm
  have hrest : ∑ j ∈ Finset.univ.erase i, (update q i l j : Multiset α) =
      ∑ j ∈ Finset.univ.erase i, (q j : Multiset α) := by
    refine Finset.sum_congr rfl fun j hj => ?_
    rw [update_of_ne (Finset.ne_of_mem_erase hj)]
  rw [hsplit (update q i l), hsplit q, hrest, update_self]
  abel

theorem total_push (i : ι) (x : α) : total (push q i x) = x ::ₘ total q := by
  have h := total_update q i (q i ++ [x])
  have hx : ((q i ++ [x] : List α) : Multiset α) = (q i : Multiset α) + {x} := by
    rfl
  rw [hx, ← add_assoc, add_right_comm] at h
  rw [push, add_right_cancel h, add_comm, Multiset.singleton_add]

theorem total_pop {q : ι → List α} {i : ι} {x : α} {l : List α} (h : q i = x :: l) :
    x ::ₘ total (update q i l) = total q := by
  have hu := total_update q i l
  have hx : ((x :: l : List α) : Multiset α) = {x} + (l : Multiset α) := by
    rfl
  rw [h, hx, ← add_assoc] at hu
  rw [← Multiset.singleton_add, add_comm, add_right_cancel hu]

theorem total_move {q q' : ι → List α} {i j : ι} (h : move q i j = some q') : total q' = total q := by
  unfold move at h
  split at h
  · cases h
  · next x l hq =>
      rw [← Option.some.inj h, total_push, total_pop hq]

theorem total_clear (q : ι → List α) (i : ι) : total (update q i []) + (q i : Multiset α) = total q := by
  simpa using total_update q i []

end Transit
