import Mathlib.Data.List.Perm.Basic

/-!
# Things that are in one place at a time

A family of lists holds things, and `Placed` says that each thing is in the list of one place, once, or in none.
A list is changed by putting a thing into it that was nowhere, or by taking one out of it. `Accounted` says that the
things of a list are all somewhere, and nothing else: it is kept when things go from place to place, and a thing that
leaves its place and goes nowhere breaks it.
-/

namespace Custody

open Function List

variable {κ τ : Type}

/-- Each thing is where `place` says, once. -/
structure Placed (contents : κ → List τ) (place : τ → Option κ) : Prop where
  mem : ∀ k a, a ∈ contents k ↔ place a = some k
  nodup : ∀ k, (contents k).Nodup

namespace Placed

variable {contents : κ → List τ} {place : τ → Option κ} {k : κ} {a : τ} {l : List τ}

theorem empty : Placed (fun _ : κ => ([] : List τ)) fun _ => none :=
  ⟨fun _ _ => by simp, fun _ => nodup_nil⟩

theorem eq_of_mem (h : Placed contents place) {j : κ} (hk : a ∈ contents k) (hj : a ∈ contents j) : k = j :=
  Option.some.inj (((h.mem k a).mp hk).symm.trans ((h.mem j a).mp hj))

variable [DecidableEq κ]

/-- The order in a list does not matter. -/
theorem perm (h : Placed contents place) (hl : l.Perm (contents k)) :
    Placed (update contents k l) place := by
  refine ⟨fun j b => ?_, fun j => ?_⟩
  · by_cases hj : j = k
    · subst hj
      rw [update_self, hl.mem_iff, h.mem]
    · rw [update_of_ne hj, h.mem]
  · by_cases hj : j = k
    · subst hj
      rw [update_self]
      exact hl.nodup_iff.mpr (h.nodup j)
    · rw [update_of_ne hj]
      exact h.nodup j

variable [DecidableEq τ]

/-- A thing that was nowhere is put into a list. -/
theorem put (h : Placed contents place) (ha : place a = none) (hl : l.Perm (a :: contents k)) :
    Placed (update contents k l) (update place a (some k)) := by
  have hnot (j : κ) : a ∉ contents j := fun hmem => absurd ((h.mem j a).mp hmem) (by simp [ha])
  refine ⟨fun j b => ?_, fun j => ?_⟩
  · by_cases hj : j = k
    · subst hj
      rw [update_self, hl.mem_iff, mem_cons, h.mem]
      by_cases hb : b = a
      · simp [hb]
      · simp [hb]
    · rw [update_of_ne hj]
      by_cases hb : b = a
      · subst hb
        simp [hnot j, Ne.symm hj]
      · rw [update_of_ne hb, h.mem]
  · by_cases hj : j = k
    · subst hj
      rw [update_self, hl.nodup_iff, nodup_cons]
      exact ⟨hnot j, h.nodup j⟩
    · rw [update_of_ne hj]
      exact h.nodup j

/-- A thing is taken out of the list that it is in. -/
theorem take (h : Placed contents place) (ha : place a = some k) (hl : l.Perm ((contents k).erase a)) :
    Placed (update contents k l) (update place a none) := by
  refine ⟨fun j b => ?_, fun j => ?_⟩
  · by_cases hj : j = k
    · subst hj
      rw [update_self, hl.mem_iff, (h.nodup j).mem_erase_iff, h.mem]
      by_cases hb : b = a
      · simp [hb]
      · simp [hb]
    · rw [update_of_ne hj, h.mem]
      by_cases hb : b = a
      · subst hb
        simp [ha, Ne.symm hj]
      · rw [update_of_ne hb]
  · by_cases hj : j = k
    · subst hj
      rw [update_self, hl.nodup_iff]
      exact (h.nodup j).erase a
    · rw [update_of_ne hj]
      exact h.nodup j

end Placed

/-! ## Nothing is lost -/

/-- The items are in one place each, once, and nothing else is. -/
structure Accounted (contents : κ → List τ) (items : List τ) : Prop where
  somewhere : ∀ a ∈ items, ∃ k, a ∈ contents k
  apart : ∀ a j k, a ∈ contents j → a ∈ contents k → j = k
  nodup : ∀ k, (contents k).Nodup
  known : ∀ k, ∀ a ∈ contents k, a ∈ items

namespace Accounted

variable {contents contents' : κ → List τ} {items batch : List τ} {j k : κ} {a : τ}

theorem empty : Accounted (fun _ : κ => ([] : List τ)) [] :=
  ⟨by simp, by simp, fun _ => nodup_nil, by simp⟩

/-- An item has left its place and has not come to another. -/
theorem not_of_lost (h : Accounted contents items) (ha : a ∈ contents k) (hgone : a ∉ contents' k)
    (hless : ∀ j, ∀ b ∈ contents' j, b ∈ contents j) : ¬ Accounted contents' items := by
  intro h'
  obtain ⟨j, hj⟩ := h'.somewhere a (h.known k a ha)
  obtain rfl := h.apart a j k (hless j a hj) ha
  exact hgone hj

/-- A batch comes to one place, and whatever else there is stays. -/
theorem of_mem {items' : List τ} (h : Accounted contents items)
    (hmem : ∀ k a, a ∈ contents' k ↔ a ∈ batch ∧ k = j ∨ a ∉ batch ∧ a ∈ contents k)
    (hnodup : ∀ k, (contents' k).Nodup) (hitems : ∀ a, a ∈ items' ↔ a ∈ items ∨ a ∈ batch) :
    Accounted contents' items' := by
  refine ⟨fun a ha => ?_, fun a i k hi hk => ?_, hnodup, fun k a ha => ?_⟩
  · by_cases hbatch : a ∈ batch
    · exact ⟨j, (hmem j a).mpr (.inl ⟨hbatch, rfl⟩)⟩
    · obtain ⟨k, hk⟩ := h.somewhere a (((hitems a).mp ha).resolve_right hbatch)
      exact ⟨k, (hmem k a).mpr (.inr ⟨hbatch, hk⟩)⟩
  · rcases (hmem i a).mp hi with ⟨hbatch, rfl⟩ | ⟨hbatch, hi⟩
    · exact (((hmem k a).mp hk).resolve_right fun hk => hk.1 hbatch).2.symm
    · exact h.apart a i k hi (((hmem k a).mp hk).resolve_left fun hk => hbatch hk.1).2
  · rcases (hmem k a).mp ha with ⟨hbatch, -⟩ | ⟨-, ha⟩
    · exact (hitems a).mpr (.inr hbatch)
    · exact (hitems a).mpr (.inl (h.known k a ha))

section

variable (h : Accounted contents items)

include h

/-- New items are put into a list. -/
theorem deposit (j : κ) (hnew : ∀ a ∈ batch, a ∉ items) (hnodup : batch.Nodup)
    (hj : (contents' j).Perm (batch ++ contents j)) (hother : ∀ k ≠ j, contents' k = contents k) :
    Accounted contents' (items ++ batch) := by
  have hout (k : κ) (a : τ) (ha : a ∈ batch) : a ∉ contents k := fun hin => hnew a ha (h.known k a hin)
  refine h.of_mem (j := j) (fun k a => ?_) (fun k => ?_) fun a => mem_append
  · have hbatch := hout k a
    by_cases hk : k = j
    · rw [hk, hj.mem_iff, mem_append]
      tauto
    · rw [hother k hk]
      tauto
  · by_cases hk : k = j
    · rw [hk, hj.nodup_iff]
      refine nodup_append.mpr ⟨hnodup, h.nodup j, ?_⟩
      rintro a ha b hb rfl
      exact hout j a ha hb
    · rw [hother k hk]
      exact h.nodup k

/-- The order in a list does not matter. -/
theorem perm (hperm : ∀ k, (contents' k).Perm (contents k)) :
    Accounted contents' items where
  somewhere a ha := (h.somewhere a ha).imp fun k => (hperm k).mem_iff.mpr
  apart a j k hj hk := h.apart a j k ((hperm j).mem_iff.mp hj) ((hperm k).mem_iff.mp hk)
  nodup k := (hperm k).nodup_iff.mpr (h.nodup k)
  known k a ha := h.known k a ((hperm k).mem_iff.mp ha)

/-- A part of a list goes to another. -/
theorem transfer (i j : κ) (batch : List τ) (hij : i ≠ j)
    (hi : (contents i).Perm (batch ++ contents' i)) (hj : (contents' j).Perm (batch ++ contents j))
    (hother : ∀ k, k ≠ i → k ≠ j → contents' k = contents k) : Accounted contents' items := by
  obtain ⟨hnodup, hrest, hdisjoint⟩ := nodup_append.mp (hi.nodup_iff.mp (h.nodup i))
  have hin (a : τ) (ha : a ∈ batch) : a ∈ contents i := hi.mem_iff.mpr (mem_append_left _ ha)
  have hout (k : κ) (hk : k ≠ i) (a : τ) (ha : a ∈ batch) : a ∉ contents k := fun hmem =>
    hk (h.apart a k i hmem (hin a ha))
  refine h.of_mem (j := j) (fun k a => ?_) (fun k => ?_) fun a =>
    (or_iff_left_of_imp fun ha => h.known i a (hin a ha)).symm
  · by_cases hki : k = i
    · subst hki
      rw [hi.mem_iff, mem_append]
      tauto
    · have hbatch := hout k hki a
      by_cases hkj : k = j
      · subst hkj
        rw [hj.mem_iff, mem_append]
        tauto
      · rw [hother k hki hkj]
        tauto
  · by_cases hki : k = i
    · rwa [hki]
    · by_cases hkj : k = j
      · rw [hkj, hj.nodup_iff]
        refine nodup_append.mpr ⟨hnodup, h.nodup j, ?_⟩
        rintro a ha b hb rfl
        exact hout j hij.symm a ha hb
      · rw [hother k hki hkj]
        exact h.nodup k

end

end Accounted

end Custody
