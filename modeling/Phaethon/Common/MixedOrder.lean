import Mathlib.Order.Lattice

/-!
# Two orders in one comparison

Elements that have a value are compared by it, and by their own order as soon as one of the two has none.
That is no order: it may go round in a circle, and elements of the same value are not below each other. Who is
below no element of a list is one of two kinds, and which of them there are decides whether it is one.
-/

namespace MixedOrder

variable {α β : Type} [LinearOrder α] [LinearOrder β] (value : α → Option β)

/-- One element is below another. -/
def Below (a b : α) : Prop :=
  match value a, value b with
  | some m, some n => m < n
  | _, _ => a < b

/-- An element without a value that is greater than all others. -/
def Greatest (s : List α) (a : α) : Prop := value a = none ∧ ∀ b ∈ s, b ≤ a

/-- An element of the greatest value that is greater than all elements without one. -/
def Foremost (s : List α) (a : α) : Prop :=
  ∃ m, value a = some m ∧ (∀ b ∈ s, ∀ n, value b = some n → n ≤ m) ∧ ∀ b ∈ s, value b = none → b < a

variable {value} {s : List α} {a b : α}

theorem below_of_none (h : value a = none ∨ value b = none) : Below value a b ↔ a < b := by
  unfold Below
  rcases h with h | h
  · rw [h]
  · rw [h]
    cases value a <;> rfl

theorem below_of_some {m n : β} (ha : value a = some m) (hb : value b = some n) : Below value a b ↔ m < n := by
  simp only [Below, ha, hb]

/-- Who is below no one. -/
theorem not_below_iff : (∀ b ∈ s, ¬ Below value a b) ↔ Greatest value s a ∨ Foremost value s a := by
  cases ha : value a with
  | none =>
    have hforemost : ¬ Foremost value s a := by
      rintro ⟨m, hm, -⟩
      exact absurd (ha.symm.trans hm) (by simp)
    simp [Greatest, ha, hforemost, below_of_none]
  | some m =>
    have hgreatest : ¬ Greatest value s a := fun h => absurd (ha.symm.trans h.1) (by simp)
    rw [or_iff_right hgreatest]
    constructor
    · intro h
      refine ⟨m, ha, fun b hb n hn => ?_, fun b hb hn => ?_⟩
      · exact not_lt.mp fun hlt => h b hb ((below_of_some ha hn).mpr hlt)
      · have hle : b ≤ a := not_lt.mp fun hlt => h b hb ((below_of_none (.inr hn)).mpr hlt)
        refine lt_of_le_of_ne hle ?_
        rintro rfl
        exact absurd (ha.symm.trans hn) (by simp)
    · rintro ⟨k, hk, hvalues, hothers⟩ b hb hbelow
      obtain rfl : m = k := Option.some.inj (ha.symm.trans hk)
      cases hn : value b with
      | none => exact lt_asymm (hothers b hb hn) ((below_of_none (.inr hn)).mp hbelow)
      | some n => exact not_lt.mpr (hvalues b hb n hn) ((below_of_some ha hn).mp hbelow)

/-- One element is below no one exactly if the greatest element has no value, or a single element of the
greatest value is greater than all elements without one. -/
theorem existsUnique_not_below_iff :
    (∃! a, a ∈ s ∧ ∀ b ∈ s, ¬ Below value a b) ↔
      (∃ a ∈ s, Greatest value s a) ∨ ∃! a, a ∈ s ∧ Foremost value s a := by
  simp only [not_below_iff]
  constructor
  · rintro ⟨a, ⟨ha, hgreatest | hforemost⟩, honly⟩
    · exact .inl ⟨a, ha, hgreatest⟩
    · exact .inr ⟨a, ⟨ha, hforemost⟩, fun b hb => honly b ⟨hb.1, .inr hb.2⟩⟩
  · rintro (⟨a, ha, hgreatest⟩ | ⟨a, ⟨ha, hforemost⟩, honly⟩)
    · refine ⟨a, ⟨ha, .inl hgreatest⟩, fun b hb => ?_⟩
      rcases hb with ⟨hb, ⟨-, hle⟩ | ⟨n, -, -, hothers⟩⟩
      · exact le_antisymm (hgreatest.2 b hb) (hle a ha)
      · exact absurd (hothers a ha hgreatest.1) (not_lt.mpr (hgreatest.2 b hb))
    · refine ⟨a, ⟨ha, .inr hforemost⟩, fun b hb => ?_⟩
      rcases hb with ⟨hb, ⟨hnone, hle⟩ | hother⟩
      · obtain ⟨-, -, -, hothers⟩ := hforemost
        exact absurd (hothers b hb hnone) (not_lt.mpr (hle a ha))
      · exact honly b ⟨hb, hother⟩

end MixedOrder
