import Mathlib.Data.Set.Card
import Mathlib.Order.PiLex
import Mathlib.Order.WellFoundedSet

/-!
# Ranking

Sequences in the order of their first difference, sorting by a comparison, and collections from which elements are
dropped only when enough others outrank them.
-/

namespace Ranking

open List

/-! ## Place by place -/

variable {α : Type*}

/-- Sequences are compared by what follows once their first elements are equal. -/
theorem sequence_lt_iff [LinearOrder α] (f g : ℕ → α) :
    toLex f < toLex g ↔ f 0 < g 0 ∨ f 0 = g 0 ∧ toLex (fun i => f (i + 1)) < toLex fun i => g (i + 1) := by
  constructor
  · rintro ⟨i, hbefore, hat⟩
    cases i with
    | zero => exact .inl hat
    | succ i =>
      exact .inr ⟨hbefore 0 (Nat.succ_pos i), i, fun j hj => hbefore (j + 1) (Nat.succ_lt_succ hj), hat⟩
  · rintro (hlt | ⟨heq, i, hbefore, hat⟩)
    · exact ⟨0, fun j hj => absurd hj (Nat.not_lt_zero j), hlt⟩
    · refine ⟨i + 1, fun j hj => ?_, hat⟩
      cases j with
      | zero => exact heq
      | succ j => exact hbefore j (Nat.lt_of_succ_lt_succ hj)

theorem sequence_eq_iff (f g : ℕ → α) : f = g ↔ f 0 = g 0 ∧ (fun i => f (i + 1)) = fun i => g (i + 1) := by
  constructor
  · rintro rfl
    exact ⟨rfl, rfl⟩
  · rintro ⟨heq, hrest⟩
    funext i
    cases i with
    | zero => exact heq
    | succ i => exact congrFun hrest i

/-! ## Sorting -/

/-- A way to sort: nothing stands behind an element that is to come after it. Equal elements may come in any order. -/
structure Sorter {γ : Type*} (before : γ → γ → Bool) where
  run : List γ → List γ
  perm : ∀ l, (run l).Perm l
  sorted : ∀ l, (run l).Pairwise fun a b => before b a = false

/-- Insertion sort, by a comparison with ties. -/
def Sorter.insertion {γ : Type*} {before : γ → γ → Bool} (hasymm : ∀ a b, before a b = true → before b a = false)
    (htrans : ∀ a b c, before b a = false → before c b = false → before c a = false) : Sorter before where
  run := insertionSort fun a b => before b a = false
  perm := perm_insertionSort _
  sorted l := by
    have : Std.Total fun a b : γ => before b a = false := ⟨fun a b => by
      cases hba : before b a with
      | false => exact .inl rfl
      | true => exact .inr (hasymm b a hba)⟩
    have : IsTrans γ fun a b => before b a = false := ⟨htrans⟩
    exact pairwise_insertionSort _ l

/-! ## What outranks what is dropped -/

section Outranked

variable {γ : Type*} (above : γ → γ → Prop) (n : ℕ)

/-- At least so many elements of a collection are above this one. -/
def Outranked (s : Set γ) (a : γ) : Prop := n ≤ {b ∈ s | above b a}.encard

variable {above n} {s t : Set γ} {a b : γ}

theorem Outranked.mono (h : Outranked above n s a) (hst : s ⊆ t) : Outranked above n t a :=
  h.trans (Set.encard_le_encard fun _ hb => ⟨hst hb.1, hb.2⟩)

theorem Outranked.below [IsTrans γ above] (h : Outranked above n s b) (hba : above b a) : Outranked above n s a :=
  h.trans (Set.encard_le_encard fun _ hc => ⟨hc.1, IsTrans.trans _ _ _ hc.2 hba⟩)

/-- If what is dropped from a finite collection is outranked by what was there and what is there now, it is outranked
by what is there now: so is the highest of what is dropped, and the others are below it. -/
theorem outranked_iff [IsStrictOrder γ above] (hfinite : s.Finite) :
    (∀ a ∈ s, a ∈ t ∨ Outranked above n t a) ↔ ∀ a ∈ s, a ∈ t ∨ Outranked above n (s ∪ t) a := by
  constructor
  · intro h a ha
    exact (h a ha).imp id fun hout => hout.mono Set.subset_union_right
  · intro h a ha
    -- from the highest elements downwards
    refine hfinite.wellFoundedOn.induction (r := above) ha
      (P := fun a => a ∈ t ∨ Outranked above n t a) fun a ha ih => ?_
    rcases h a ha with hkept | hout
    · exact .inl hkept
    by_cases hall : ∀ b ∈ s, above b a → b ∈ t
    · refine .inr (hout.trans (Set.encard_le_encard ?_))
      rintro b ⟨hb | hb, hba⟩
      · exact ⟨hall b hb hba, hba⟩
      · exact ⟨hb, hba⟩
    · push Not at hall
      obtain ⟨b, hb, hba, hnot⟩ := hall
      exact .inr (((ih b hb hba).resolve_left hnot).below hba)

end Outranked

end Ranking
