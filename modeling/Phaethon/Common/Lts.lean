import Mathlib.Tactic.Common

/-!
# Runs of a partial step function

A system is a step function `step : σ → α → Option σ`: the label says which party moves and how its
environment answers, and `none` says that the label is not enabled. `exec` runs a list of labels, and
`Always` says that each label of a run was taken in a state that allows it. `exec_invariant` turns
what one step preserves into what every run preserves. `recorded` runs a system with a record of what its
steps show.
-/

namespace Lts

open Option

variable {σ α : Type*}

/-- The state after a run, or `none` when some label is not enabled where it is taken. -/
def exec (step : σ → α → Option σ) : σ → List α → Option σ
  | s, [] => some s
  | s, a :: as => (step s a).bind fun t => exec step t as

/-- Every label of the run is taken in a state that `ok` allows it in. -/
def Always (step : σ → α → Option σ) (ok : σ → α → Prop) : σ → List α → Prop
  | _, [] => True
  | s, a :: as =>
      ok s a ∧
        match step s a with
        | some t => Always step ok t as
        | none => True

instance Always.decidable (step : σ → α → Option σ) (ok : σ → α → Prop)
    [∀ s a, Decidable (ok s a)] : ∀ s as, Decidable (Always step ok s as)
  | _, [] => .isTrue trivial
  | s, a :: as =>
      match h : step s a with
      | some t =>
          have := Always.decidable step ok t as
          decidable_of_iff (ok s a ∧ Always step ok t as) (by simp [Always, h])
      | none => decidable_of_iff (ok s a) (by simp [Always, h])

theorem Always.append_left {step : σ → α → Option σ} {ok : σ → α → Prop} {s : σ}
    {as bs : List α} (h : Always step ok s (as ++ bs)) : Always step ok s as := by
  induction as generalizing s with
  | nil => trivial
  | cons a as ih =>
    obtain ⟨hok, hrest⟩ := h
    refine ⟨hok, ?_⟩
    cases hs : step s a with
    | none => trivial
    | some t =>
      rw [hs] at hrest
      exact ih hrest

theorem exec_cons_eq_some {step : σ → α → Option σ} {s u : σ} {a : α} {as : List α} :
    exec step s (a :: as) = some u ↔ ∃ t, step s a = some t ∧ exec step t as = some u := by
  simp [exec, bind_eq_some_iff]

theorem exec_append {step : σ → α → Option σ} (s : σ) (as bs : List α) :
    exec step s (as ++ bs) = (exec step s as).bind fun t => exec step t bs := by
  induction as generalizing s with
  | nil => rfl
  | cons a as ih => simp [exec, ih, bind_assoc]

theorem Always.append_right {step : σ → α → Option σ} {ok : σ → α → Prop} {s t : σ} {as bs : List α}
    (h : Always step ok s (as ++ bs)) (hrun : exec step s as = some t) : Always step ok t bs := by
  induction as generalizing s with
  | nil =>
    cases hrun
    exact h
  | cons a as ih =>
    obtain ⟨u, hu, hrun⟩ := exec_cons_eq_some.mp hrun
    obtain ⟨-, hrest⟩ := h
    rw [hu] at hrest
    exact ih hrest hrun

/-- What holds of all labels may be asked for at every step. -/
theorem Always.and_mem {step : σ → α → Option σ} {ok : σ → α → Prop} {p : α → Prop} {s : σ} {as : List α}
    (h : Always step ok s as) (hp : ∀ a ∈ as, p a) : Always step (fun s a => ok s a ∧ p a) s as := by
  induction as generalizing s with
  | nil => trivial
  | cons a as ih =>
    obtain ⟨hok, hrest⟩ := h
    refine ⟨⟨hok, hp a List.mem_cons_self⟩, ?_⟩
    cases hs : step s a with
    | none => trivial
    | some t =>
      rw [hs] at hrest
      exact ih hrest fun b hb => hp b (List.mem_cons_of_mem _ hb)

/-- What every allowed step preserves holds after every run whose steps are all allowed. -/
theorem exec_invariant {step : σ → α → Option σ} {ok : σ → α → Prop} {inv : σ → Prop}
    (hstep : ∀ s a t, inv s → ok s a → step s a = some t → inv t)
    {s t : σ} {as : List α} (hs : inv s) (hok : Always step ok s as)
    (hrun : exec step s as = some t) : inv t := by
  induction as generalizing s with
  | nil =>
    simp only [exec, Option.some.injEq] at hrun
    exact hrun ▸ hs
  | cons a as ih =>
    obtain ⟨u, hu, hrun⟩ := exec_cons_eq_some.mp hrun
    obtain ⟨hok, hrest⟩ := hok
    rw [hu] at hrest
    exact ih (hstep s a u hs hok hu) hrest hrun

/-- What every step preserves holds after every run. -/
theorem exec_preserves {step : σ → α → Option σ} {inv : σ → Prop}
    (hstep : ∀ s a t, inv s → step s a = some t → inv t) {s t : σ} {as : List α} (hs : inv s)
    (hrun : exec step s as = some t) : inv t := by
  induction as generalizing s with
  | nil =>
    simp only [exec, Option.some.injEq] at hrun
    exact hrun ▸ hs
  | cons a as ih =>
    obtain ⟨u, hu, hrun⟩ := exec_cons_eq_some.mp hrun
    exact ih (hstep s a u hs hu) hrun

/-- If forbidden steps are exactly those that leave the good states, a run is allowed throughout exactly if
it stays in good states. -/
theorem always_iff_exec {step : σ → α → Option σ} {ok : σ → α → Prop} {inv good : σ → Prop}
    (hstep : ∀ s a t, inv s → ok s a → step s a = some t → inv t) (hgood : ∀ s, inv s → good s)
    (hbad : ∀ s a t, inv s → ¬ ok s a → step s a = some t → ¬ good t)
    {s u : σ} {as : List α} (hs : inv s) (hrun : exec step s as = some u) :
    Always step ok s as ↔ ∀ bs, bs <+: as → ∀ t, exec step s bs = some t → good t := by
  constructor
  · intro hok bs hbs t ht
    obtain ⟨cs, rfl⟩ := hbs
    exact hgood t (exec_invariant hstep hs hok.append_left ht)
  · intro hall
    induction as generalizing s with
    | nil => trivial
    | cons a as ih =>
      obtain ⟨t, ht, hrun⟩ := exec_cons_eq_some.mp hrun
      have hok : ok s a := by
        by_contra hno
        exact hbad s a t hs hno ht (hall [a] (by simp) t (by simp [exec, ht]))
      refine ⟨hok, ?_⟩
      rw [ht]
      refine ih (hstep s a t hs hok ht) hrun fun bs hbs v hv => ?_
      exact hall (a :: bs) (by simpa using hbs) v (exec_cons_eq_some.mpr ⟨t, ht, hv⟩)

/-! ## Steps that are always enabled -/

section Total

variable {f : σ → α → σ} {ok : σ → α → Prop} {s : σ}

theorem exec_total (as : List α) : exec (fun s a => some (f s a)) s as = some (as.foldl f s) := by
  induction as generalizing s with
  | nil => rfl
  | cons a as ih => exact ih

/-- `always_iff_exec` where no step fails. -/
theorem always_iff_foldl {inv good : σ → Prop} (hstep : ∀ s a, inv s → ok s a → inv (f s a))
    (hgood : ∀ s, inv s → good s) (hbad : ∀ s a, inv s → ¬ ok s a → ¬ good (f s a)) (hs : inv s)
    (as : List α) :
    Always (fun s a => some (f s a)) ok s as ↔ ∀ bs, bs <+: as → good (bs.foldl f s) := by
  rw [always_iff_exec (fun s a t h hok ht => Option.some.inj ht ▸ hstep s a h hok) hgood
    (fun s a t h hok ht => Option.some.inj ht ▸ hbad s a h hok) hs (exec_total as)]
  simp only [exec_total, Option.some.injEq, forall_eq']

end Total

/-! ## Recorded runs -/

section Recorded

variable {β : Type*} (step : σ → α → Option σ) (observe : σ → α → σ → β → β)

/-- The system with a record beside it, which `observe` extends by what a step shows. -/
def recorded (s : σ × β) (a : α) : Option (σ × β) :=
  (step s.1 a).map fun t => (t, observe s.1 a t s.2)

variable {step observe}

theorem recorded_eq_some {s t : σ × β} {a : α} :
    recorded step observe s a = some t ↔ step s.1 a = some t.1 ∧ observe s.1 a t.1 s.2 = t.2 := by
  constructor
  · intro h
    obtain ⟨u, hu, rfl⟩ := map_eq_some_iff.mp h
    exact ⟨hu, rfl⟩
  · rintro ⟨hu, ho⟩
    simp [recorded, hu, ho]

end Recorded

end Lts
