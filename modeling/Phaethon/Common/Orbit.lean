import Mathlib.Dynamics.PeriodicPts.Defs

/-!
# Searching along an orbit

A cursor is moved by a function `f` from element to element until it stands at one that is not used, or is
about to return to where the search began. The search ends if and only if one of the two happens
(`exists_search_iff`), and then it has looked at no element twice (`examined_nodup`). What it looked at if
it found nothing is the whole orbit (`used_of_search_none`).
-/

namespace Orbit

open Function List

variable {α : Type*} {f : α → α} {used : α → Bool} {start a : α} {k n : ℕ} {r : Option α}

/-- The element found, `some none` if the cursor came back to `start`, or `none` if `n` elements do not
bring the search to its end. -/
def search [DecidableEq α] (f : α → α) (used : α → Bool) (start : α) : ℕ → α → Option (Option α)
  | 0, _ => none
  | n + 1, a =>
      if ¬ used a then some (some a)
      else if f a = start then some none
      else search f used start n (f a)

/-- The elements that the search looks at. -/
def examined [DecidableEq α] (f : α → α) (used : α → Bool) (start : α) : ℕ → α → List α
  | 0, _ => []
  | n + 1, a => a :: if used a ∧ f a ≠ start then examined f used start n (f a) else []

/-- The search ends at the element `k` steps from `a`. -/
structure EndsAt (f : α → α) (used : α → Bool) (start a : α) (k : ℕ) (r : Option α) : Prop where
  used_before : ∀ i < k, used (f^[i] a) = true
  not_back : ∀ i < k, f^[i + 1] a ≠ start
  result : r = some (f^[k] a) ∧ used (f^[k] a) = false ∨
    r = none ∧ used (f^[k] a) = true ∧ f^[k + 1] a = start

theorem EndsAt.succ (hused : used a = true) (hback : f a ≠ start)
    (h : EndsAt f used start (f a) k r) : EndsAt f used start a (k + 1) r := by
  refine ⟨fun i hi => ?_, fun i hi => ?_, h.result⟩
  · cases i with
    | zero => exact hused
    | succ i => exact h.used_before i (by omega)
  · cases i with
    | zero => exact hback
    | succ i => exact h.not_back i (by omega)

/-! ## How a search ends -/

theorem endsAt_of_search [DecidableEq α] (h : search f used start n a = some r) :
    ∃ k, EndsAt f used start a k r ∧
      examined f used start n a = (List.range (k + 1)).map (f^[·] a) := by
  induction n generalizing a with
  | zero => cases h
  | succ n ih =>
    rw [search] at h
    by_cases hused : used a = true
    · rw [if_neg (not_not.mpr hused)] at h
      by_cases hback : f a = start
      · rw [if_pos hback] at h
        refine ⟨0, ⟨by omega, by omega, .inr ⟨(Option.some.inj h).symm, hused, hback⟩⟩, ?_⟩
        simp [examined, hback]
      · rw [if_neg hback] at h
        obtain ⟨k, hend, hexamined⟩ := ih h
        refine ⟨k + 1, hend.succ hused hback, ?_⟩
        rw [examined, if_pos ⟨hused, hback⟩, hexamined, range_succ_eq_map (n := k + 1)]
        simp [comp_def]
    · rw [if_pos hused] at h
      refine ⟨0, ⟨by omega, by omega, .inl ⟨(Option.some.inj h).symm, by simpa using hused⟩⟩, ?_⟩
      simp [examined, hused]

/-- An element that came up twice would have ended the search before: a used one begins a circle, and a
circle through `start` has one length. -/
theorem EndsAt.iterate_ne (h : EndsAt f used start start k r) {i j : ℕ} (hij : i < j) (hj : j ≤ k) :
    f^[i] start ≠ f^[j] start := by
  intro heq
  have hshift (m : ℕ) : f^[m + i] start = f^[m + j] start := by
    rw [iterate_add_apply, heq, ← iterate_add_apply]
  rcases h.result with ⟨_, hfree⟩ | ⟨_, _, hback⟩
  · have hsame := hshift (k - j)
    rw [show k - j + j = k by omega] at hsame
    have hused := h.used_before (k - j + i) (by omega)
    rw [hsame, hfree] at hused
    cases hused
  · have hsame := hshift (k + 1 - j)
    rw [show k + 1 - j + j = k + 1 by omega, hback,
      show k + 1 - j + i = k - j + i + 1 by omega] at hsame
    exact h.not_back (k - j + i) (by omega) hsame

theorem examined_nodup [DecidableEq α] (h : search f used start n start = some r) :
    (examined f used start n start).Nodup := by
  obtain ⟨k, hend, hexamined⟩ := endsAt_of_search h
  rw [hexamined]
  refine Nodup.map_on (fun i hi j hj heq => ?_) nodup_range
  rw [mem_range] at hi hj
  rcases lt_trichotomy i j with hij | hij | hij
  · exact absurd heq (hend.iterate_ne hij (by omega))
  · exact hij
  · exact absurd heq.symm (hend.iterate_ne hij (by omega))

/-- A search that comes back has seen the whole orbit. -/
theorem used_of_search_none [DecidableEq α] (h : search f used start n start = some none) (i : ℕ) :
    used (f^[i] start) = true := by
  obtain ⟨k, hend, _⟩ := endsAt_of_search h
  obtain ⟨_, hlast, hback⟩ : none = none ∧ used (f^[k] start) = true ∧ f^[k + 1] start = start := by
    rcases hend.result with ⟨hnone, _⟩ | hresult
    · cases hnone
    · exact hresult
  have hperiodic : IsPeriodicPt f (k + 1) start := hback
  rw [← hperiodic.iterate_mod_apply i]
  have hlt : i % (k + 1) < k + 1 := Nat.mod_lt i (Nat.succ_pos k)
  rcases Nat.lt_succ_iff_lt_or_eq.mp hlt with hbefore | heq
  · exact hend.used_before _ hbefore
  · rw [heq]
    exact hlast

/-! ## Whether it ends -/

theorem search_of_stops [DecidableEq α] (h : used (f^[k] a) = false ∨ f^[k + 1] a = start) :
    ∃ r, search f used start (k + 1) a = some r := by
  induction k generalizing a with
  | zero =>
    rw [search]
    rcases h with hfree | hback
    · exact ⟨some a, if_pos (by simpa using hfree)⟩
    · by_cases hused : used a = true
      · rw [if_neg (not_not.mpr hused)]
        exact ⟨none, if_pos hback⟩
      · exact ⟨some a, if_pos hused⟩
  | succ k ih =>
    rw [search]
    split
    · exact ⟨_, rfl⟩
    · split
      · exact ⟨_, rfl⟩
      · exact ih h

theorem exists_search_iff [DecidableEq α] :
    (∃ n r, search f used start n start = some r) ↔
      (∃ k, used (f^[k] start) = false) ∨ ∃ k, f^[k + 1] start = start := by
  constructor
  · rintro ⟨n, r, h⟩
    obtain ⟨k, hend, _⟩ := endsAt_of_search h
    rcases hend.result with ⟨_, hfree⟩ | ⟨_, _, hback⟩
    · exact .inl ⟨k, hfree⟩
    · exact .inr ⟨k, hback⟩
  · rintro (⟨k, hfree⟩ | ⟨k, hback⟩)
    · exact ⟨k + 1, search_of_stops (.inl hfree)⟩
    · exact ⟨k + 1, search_of_stops (.inr hback)⟩

end Orbit
