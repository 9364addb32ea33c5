import Phaethon.Common.Lts

/-!
# Goroutines around one mutex

A goroutine is a local state, and `code` says what it does next: take the mutex, release it, or act on
the shared state. `step` runs one goroutine for one such operation, so a list of labels is an
interleaving.

As in Go, the mutex does not know its owner: a release by any goroutine frees it, a release of a free
mutex is fatal (no step), and a goroutine that takes the mutex twice waits for itself forever. Locking
is therefore a discipline of the code: `Disciplined` states it per program point, and
`Owned.step` derives from it that the mutex is owned by exactly the goroutine whose program point says
so.
-/

namespace Mutex

open Function

variable {σ ε ℓ : Type*}

/-- What a goroutine does next. -/
inductive Op (σ ε ℓ : Type*) where
  | lock (next : ℓ)
  | unlock (next : ℓ)
  | act (run : σ → ε → Option (σ × ℓ))
  | halt

/-- The mutex, the shared state and the goroutines. -/
structure Config (σ ℓ : Type*) where
  owner : Option ℕ
  shared : σ
  threads : ℕ → ℓ

/-- Goroutine `lab.1` runs its next operation; `lab.2` is how the environment answers it. -/
def step (code : ℓ → Op σ ε ℓ) (c : Config σ ℓ) (lab : ℕ × ε) : Option (Config σ ℓ) :=
  match code (c.threads lab.1) with
  | .lock l =>
      if c.owner = none then
        some { c with owner := some lab.1, threads := update c.threads lab.1 l }
      else none
  | .unlock l =>
      if c.owner = none then none
      else some { c with owner := none, threads := update c.threads lab.1 l }
  | .act run =>
      (run c.shared lab.2).map fun p =>
        { c with shared := p.1, threads := update c.threads lab.1 p.2 }
  | .halt => none

/-- Everything one step can do. -/
theorem step_cases {code : ℓ → Op σ ε ℓ} {c d : Config σ ℓ} {lab : ℕ × ε} (h : step code c lab = some d) :
    (∃ l, code (c.threads lab.1) = .lock l ∧ c.owner = none ∧
      d = ⟨some lab.1, c.shared, update c.threads lab.1 l⟩) ∨
    (∃ l, code (c.threads lab.1) = .unlock l ∧ c.owner ≠ none ∧
      d = ⟨none, c.shared, update c.threads lab.1 l⟩) ∨
    (∃ run s l, code (c.threads lab.1) = .act run ∧ run c.shared lab.2 = some (s, l) ∧
      d = ⟨c.owner, s, update c.threads lab.1 l⟩) := by
  unfold step at h
  split at h
  · next l hl =>
      split at h
      · next ho =>
          simp only [Option.some.injEq] at h
          exact Or.inl ⟨l, hl, ho, h.symm⟩
      · cases h
  · next l hl =>
      split at h
      · cases h
      · next ho =>
          simp only [Option.some.injEq] at h
          exact Or.inr (Or.inl ⟨l, hl, ho, h.symm⟩)
  · next run hr =>
      obtain ⟨⟨s, l⟩, hp, rfl⟩ := Option.map_eq_some_iff.mp h
      exact Or.inr (Or.inr ⟨run, s, l, hr, hp, rfl⟩)
  · cases h

/-- The locking discipline of `code`: `holds` says at which program points the mutex is held,
`allowed` which program points the discipline covers. Actions must respect it only where `ok` allows
them. -/
structure Disciplined (code : ℓ → Op σ ε ℓ) (holds allowed : ℓ → Prop)
    (ok : σ → ℓ → Prop) : Prop where
  lock : ∀ {l k}, allowed l → code l = .lock k → ¬ holds l ∧ holds k ∧ allowed k
  unlock : ∀ {l k}, allowed l → code l = .unlock k → holds l ∧ ¬ holds k ∧ allowed k
  act : ∀ {l k s s' e run}, allowed l → ok s l → code l = .act run → run s e = some (s', k) →
    (holds k ↔ holds l) ∧ allowed k

/-- The mutex is owned by exactly the goroutine whose program point holds it. -/
structure Owned (holds allowed : ℓ → Prop) (c : Config σ ℓ) : Prop where
  allowed : ∀ t, allowed (c.threads t)
  owner : ∀ t, c.owner = some t ↔ holds (c.threads t)

variable {code : ℓ → Op σ ε ℓ} {holds allowed : ℓ → Prop} {ok : σ → ℓ → Prop}

private theorem allowed_update {c : Config σ ℓ} (h : ∀ t, allowed (c.threads t)) {u : ℕ} {k : ℓ}
    (hk : allowed k) (t : ℕ) : allowed (update c.threads u k t) := by
  by_cases htu : t = u
  · subst htu
    simpa using hk
  · simpa [update_of_ne htu] using h t

/-- A step of disciplined code keeps the ownership of the mutex. -/
theorem Owned.step (hd : Disciplined code holds allowed ok) {c d : Config σ ℓ} {lab : ℕ × ε}
    (h : Owned holds allowed c) (hok : ok c.shared (c.threads lab.1))
    (hs : Mutex.step code c lab = some d) : Owned holds allowed d := by
  have hall := h.allowed lab.1
  rcases step_cases hs with ⟨k, hk, hfree, rfl⟩ | ⟨k, hk, -, rfl⟩ | ⟨run, s, k, hk, hr, rfl⟩
  · obtain ⟨-, hhold, hk'⟩ := hd.lock hall hk
    refine ⟨allowed_update h.allowed hk', fun t => ?_⟩
    by_cases ht : t = lab.1
    · simp [ht, hhold]
    · have hnone : ¬ holds (c.threads t) := fun hh => by
        simpa [hfree] using (h.owner t).mpr hh
      simpa [update_of_ne ht, hnone] using fun e => ht e.symm
  · obtain ⟨hhold, hrel, hk'⟩ := hd.unlock hall hk
    refine ⟨allowed_update h.allowed hk', fun t => ?_⟩
    by_cases ht : t = lab.1
    · simp [ht, hrel]
    · have hother : ¬ holds (c.threads t) := fun hh => by
        have h1 := (h.owner t).mpr hh
        have h2 := (h.owner lab.1).mpr hhold
        exact ht (Option.some.inj (h1.symm.trans h2))
      simp [update_of_ne ht, hother]
  · obtain ⟨hiff, hk'⟩ := hd.act hall hok hk hr
    refine ⟨allowed_update h.allowed hk', fun t => ?_⟩
    by_cases ht : t = lab.1
    · subst ht
      simpa [hiff] using h.owner lab.1
    · simpa [update_of_ne ht] using h.owner t

/-- Disciplined code never waits for a mutex that it holds itself. -/
theorem Owned.not_relock (hd : Disciplined code holds allowed ok) {c : Config σ ℓ}
    (h : Owned holds allowed c) {t : ℕ} {k : ℓ} (hk : code (c.threads t) = .lock k) :
    c.owner ≠ some t :=
  fun ho => (hd.lock (h.allowed t) hk).1 ((h.owner t).mp ho)

end Mutex
