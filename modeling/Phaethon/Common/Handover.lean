import Mathlib.Data.Set.Basic

/-!
# Things that an owner closes at its end

An owner gets things one by one: a thing is held by whoever brings it, then registered with the owner, then taken by
a party that shuts it, and shut. At its end the owner sweeps: what is registered is taken. `Move` says what a step may
do to the things, and `Kept` what this keeps: a thing that was given has not been forgotten, and after the owner has
finished, each thing is shut or was never registered. What matters is that nothing is registered after the sweep.
-/

namespace Handover

variable {τ : Type*}

/-- The things of an owner by the stage they have reached. A thing may be in several stages. -/
structure View (τ : Type*) where
  given : Set τ
  held : Set τ
  registered : Set τ
  taken : Set τ
  shut : Set τ
  swept : Prop
  finished : Prop

/-- No thing is forgotten. -/
structure Kept (v : View τ) : Prop where
  home : v.given ⊆ v.held ∪ v.registered ∪ v.taken ∪ v.shut
  swept : v.swept → v.registered ⊆ v.taken ∪ v.shut
  finished : v.finished → v.swept ∧ v.given ⊆ v.held ∪ v.shut

/-- What a step may do. -/
structure Move (v w : View τ) : Prop where
  given : w.given ⊆ v.given ∪ w.held
  held : v.held ⊆ w.held ∪ w.registered
  registered : v.registered ⊆ w.registered ∪ w.taken ∪ w.shut
  taken : v.taken ⊆ w.taken ∪ w.shut
  shut : v.shut ⊆ w.shut
  late : v.swept → w.swept ∧ v.held ⊆ w.held ∧ w.registered ⊆ v.registered
  sweep : w.swept → v.swept ∨ w.registered ⊆ w.taken ∪ w.shut
  finish : w.finished → v.finished ∨ w.swept ∧ w.taken ⊆ w.shut

variable {v w : View τ}

theorem Move.refl (v : View τ) : Move v v where
  given := Set.subset_union_left
  held := Set.subset_union_left
  registered := Set.subset_union_left.trans Set.subset_union_left
  taken := Set.subset_union_left
  shut := subset_rfl
  late h := ⟨h, subset_rfl, subset_rfl⟩
  sweep := .inl
  finish := .inl

theorem Kept.empty (h : v.given = ∅) (hswept : ¬ v.swept) (hfinished : ¬ v.finished) : Kept v :=
  ⟨by simp [h], fun hs => absurd hs hswept, fun hf => absurd hf hfinished⟩

theorem Kept.move (h : Kept v) (hmove : Move v w) : Kept w := by
  have hhome : w.given ⊆ w.held ∪ w.registered ∪ w.taken ∪ w.shut := by
    intro x hx
    rcases hmove.given hx with hgiven | hheld
    · rcases h.home hgiven with ((hheld | hregistered) | htaken) | hshut
      · exact .inl (.inl (hmove.held hheld))
      · rcases hmove.registered hregistered with (hregistered | htaken) | hshut
        · exact .inl (.inl (.inr hregistered))
        · exact .inl (.inr htaken)
        · exact .inr hshut
      · rcases hmove.taken htaken with htaken | hshut
        · exact .inl (.inr htaken)
        · exact .inr hshut
      · exact .inr (hmove.shut hshut)
    · exact .inl (.inl (.inl hheld))
  have hswept : w.swept → w.registered ⊆ w.taken ∪ w.shut := by
    intro hs x hx
    rcases hmove.sweep hs with hs | hs
    · rcases h.swept hs ((hmove.late hs).2.2 hx) with htaken | hshut
      · exact hmove.taken htaken
      · exact .inr (hmove.shut hshut)
    · exact hs hx
  refine ⟨hhome, hswept, fun hf => ?_⟩
  rcases hmove.finish hf with hf | ⟨hs, htaken⟩
  · obtain ⟨hs, hgiven⟩ := h.finished hf
    obtain ⟨hs', hheld, -⟩ := hmove.late hs
    refine ⟨hs', fun x hx => ?_⟩
    rcases hmove.given hx with hx | hx
    · exact (hgiven hx).imp (hheld ·) (hmove.shut ·)
    · exact .inl hx
  · refine ⟨hs, fun x hx => ?_⟩
    rcases hhome hx with ((hx | hx) | hx) | hx
    · exact .inl hx
    · exact .inr ((hswept hs hx).elim (htaken ·) id)
    · exact .inr (htaken hx)
    · exact .inr hx

/-- Once the owner has finished and nobody holds a thing, all things are shut. -/
theorem Kept.all_shut (h : Kept v) (hfinished : v.finished) (hheld : v.held = ∅) : v.given ⊆ v.shut := by
  have hgiven := (h.finished hfinished).2
  rwa [hheld, Set.empty_union] at hgiven

end Handover
