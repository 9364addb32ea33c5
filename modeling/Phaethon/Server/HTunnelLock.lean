import Phaethon.Server.HTunnelSteps

/-!
# Lock discipline of the tunnel handlers

Which program points hold `ch.mu` (`Pc.holds`), and the invariant of the pending operations that keeps a
critical section from panicking while it holds the mutex (`Coherent`): an operation in flight has one
leader and an open `done` channel of its own.

A waiter of the last statement of a retry loop comes back with the mutex held and locks it again at the
head of the loop. The discipline therefore holds in every run in which no handler finds the operation it
would lead in flight (`NotInFlight`), and fails in `get_retry_relocks`.
-/

namespace HTunnel

open Function

/-! ## Pending operations -/

/-- The leaders and the pending operations agree. -/
structure Coherent (s : Sync) (leads : ℕ → Lead) : Prop where
  leader_unique : ∀ {t u p q q'}, leads t = some (p, q) → leads u = some (p, q') → t = u
  leader_active : ∀ {t p q}, leads t = some (p, q) → (s.pend p).active = true
  active_open : ∀ {p}, (s.pend p).active = true →
    ∃ d, (s.pend p).done = some d ∧ d < s.nextDone ∧ d ∉ s.closedDone
  active_distinct : ∀ {p p'}, (s.pend p).active = true → (s.pend p').active = true →
    (s.pend p).done = (s.pend p').done → p = p'
  closed_old : ∀ {d}, d ∈ s.closedDone → d < s.nextDone
  seq_nonneg : 0 ≤ s.connSeq
  ready_seq : s.connReadyClosed = true → 1 ≤ s.connSeq
  opener : ∀ {t}, leads t = some (.conn, 1) → s.connReadyClosed = false

variable {t : ℕ} {leads : ℕ → Lead}

theorem update_eq_some {u : ℕ} {a : Lead} {x : Slot × ℤ} (h : update leads t a u = some x) :
    (u = t ∧ a = some x) ∨ (u ≠ t ∧ leads u = some x) := by
  by_cases hu : u = t
  · subst hu
    exact Or.inl ⟨rfl, by simpa using h⟩
  · exact Or.inr ⟨hu, by simpa [update_of_ne hu] using h⟩

variable {s : Sync}

/-- A goroutine that gives up the operation it leads. -/
private theorem Coherent.drop (h : Coherent s leads) (t : ℕ) : Coherent s (update leads t none) := by
  have hold : ∀ {u x}, update leads t none u = some x → leads u = some x := by
    intro u x hu
    rcases update_eq_some hu with ⟨-, hx⟩ | ⟨-, hx⟩
    · cases hx
    · exact hx
  exact
    { leader_unique := fun h₁ h₂ => h.leader_unique (hold h₁) (hold h₂)
      leader_active := fun h₁ => h.leader_active (hold h₁)
      active_open := h.active_open
      active_distinct := h.active_distinct
      closed_old := h.closed_old
      seq_nonneg := h.seq_nonneg
      ready_seq := h.ready_seq
      opener := fun h₁ => h.opener (hold h₁) }

variable {p : Slot}

/-- The next `done` channel is younger than every channel of an operation in flight. -/
private theorem Coherent.done_ne_next (h : Coherent s leads) (hp : (s.pend p).active = true) :
    (s.pend p).done ≠ some s.nextDone := by
  intro he
  obtain ⟨d, hd, hlt, -⟩ := h.active_open hp
  rw [hd, Option.some.injEq] at he
  omega

/-- A goroutine becomes the leader of an operation that is not in flight. -/
private theorem Coherent.lead (h : Coherent s leads) (t : ℕ) {q : ℤ} (hidle : (s.pend p).active = false)
    (hq : p = .conn → q = s.connSeq + 1) :
    Coherent
      { s with
        pend := update s.pend p ⟨true, some s.nextDone⟩
        nextDone := s.nextDone + 1 }
      (update leads t (some (p, q))) := by
  have hfree : ∀ {u q'}, leads u ≠ some (p, q') := fun hu => by
    simp [h.leader_active hu] at hidle
  constructor
  case leader_unique =>
    intro u v p' q₁ q₂ h₁ h₂
    rcases update_eq_some h₁ with ⟨e₁, hp₁⟩ | ⟨-, hu⟩ <;>
      rcases update_eq_some h₂ with ⟨e₂, hp₂⟩ | ⟨-, hv⟩
    · exact e₁.trans e₂.symm
    · cases hp₁
      exact absurd hv hfree
    · cases hp₂
      exact absurd hu hfree
    · exact h.leader_unique hu hv
  case leader_active =>
    intro u p' q' hu
    rcases update_eq_some hu with ⟨-, e⟩ | ⟨-, hu⟩
    · simp only [Option.some.injEq, Prod.mk.injEq] at e
      simp [e.1]
    · by_cases hp : p' = p
      · simp [hp]
      · simpa [update_of_ne hp] using h.leader_active hu
  case active_open =>
    intro p' hp'
    by_cases hp : p' = p
    · subst hp
      refine ⟨s.nextDone, by simp, Nat.lt_succ_self _, fun hm => ?_⟩
      exact absurd (h.closed_old hm) (Nat.lt_irrefl _)
    · simp only [update_of_ne hp] at hp' ⊢
      obtain ⟨d, hd, hlt, hopen⟩ := h.active_open hp'
      exact ⟨d, hd, Nat.lt_succ_of_lt hlt, hopen⟩
  case active_distinct =>
    intro p₁ p₂ h₁ h₂ he
    by_cases hp₁ : p₁ = p <;> by_cases hp₂ : p₂ = p
    · exact hp₁.trans hp₂.symm
    · simp only [hp₁, update_self, update_of_ne hp₂] at h₂ he
      exact absurd he.symm (h.done_ne_next h₂)
    · simp only [hp₂, update_self, update_of_ne hp₁] at h₁ he
      exact absurd he (h.done_ne_next h₁)
    · simp only [update_of_ne hp₁, update_of_ne hp₂] at h₁ h₂ he
      exact h.active_distinct h₁ h₂ he
  case closed_old => exact fun hd => Nat.lt_succ_of_lt (h.closed_old hd)
  case seq_nonneg => exact h.seq_nonneg
  case ready_seq => exact h.ready_seq
  case opener =>
    intro u hu
    rcases update_eq_some hu with ⟨-, e⟩ | ⟨-, hu⟩
    · simp only [Option.some.injEq, Prod.mk.injEq] at e
      -- it saw content sequence 1 one above the counter, and an open counter is below 1
      have hseq := hq e.1
      by_contra hr
      have := h.ready_seq (by simpa using hr)
      omega
    · exact h.opener hu

/-- The leader of an operation completes it. -/
private theorem Coherent.complete (h : Coherent s leads) {q n : ℤ} {d : ℕ} {ready : Bool} (hl : leads t = some (p, q))
    (hd : (s.pend p).done = some d) (hn : 0 ≤ n) (hready : ready = true → n = 1 ∧ p = .conn) :
    Coherent
      { s with
        pend := update s.pend p ⟨false, some d⟩
        closedDone := d :: s.closedDone
        connSeq := s.connSeq + n
        connReadyClosed := s.connReadyClosed || ready }
      (update leads t none) := by
  have hact := h.leader_active hl
  have hother : ∀ {u x}, update leads t none u = some x → leads u = some x ∧ x.1 ≠ p := by
    intro u x hu
    rcases update_eq_some hu with ⟨-, hx⟩ | ⟨hne, hx⟩
    · cases hx
    · refine ⟨hx, fun hp => hne ?_⟩
      obtain ⟨p', q'⟩ := x
      subst hp
      exact h.leader_unique hx hl
  have hactive : ∀ {p'}, (update s.pend p ⟨false, some d⟩ p').active = true →
      p' ≠ p ∧ (s.pend p').active = true := by
    intro p' hp'
    by_cases hp : p' = p
    · simp [hp] at hp'
    · exact ⟨hp, by simpa [update_of_ne hp] using hp'⟩
  have hseq := h.seq_nonneg
  constructor
  case leader_unique => exact fun h₁ h₂ => h.leader_unique (hother h₁).1 (hother h₂).1
  case leader_active =>
    intro u p' q' hu
    obtain ⟨hu, hp⟩ := hother hu
    simpa [update_of_ne hp] using h.leader_active hu
  case active_open =>
    intro p' hp'
    obtain ⟨hne, hpa⟩ := hactive hp'
    obtain ⟨d', hd', hlt, hopen⟩ := h.active_open hpa
    refine ⟨d', by simpa [update_of_ne hne] using hd', hlt, ?_⟩
    rintro hm
    rcases List.mem_cons.mp hm with rfl | hm
    · exact hne (h.active_distinct hpa hact (hd'.trans hd.symm))
    · exact hopen hm
  case active_distinct =>
    intro p₁ p₂ h₁ h₂ he
    obtain ⟨hne₁, ha₁⟩ := hactive h₁
    obtain ⟨hne₂, ha₂⟩ := hactive h₂
    simp only [update_of_ne hne₁, update_of_ne hne₂] at he
    exact h.active_distinct ha₁ ha₂ he
  case closed_old =>
    intro d' hm
    show d' < s.nextDone
    rcases List.mem_cons.mp hm with rfl | hm
    · obtain ⟨d'', hd'', hlt, -⟩ := h.active_open hact
      rw [hd, Option.some.injEq] at hd''
      omega
    · exact h.closed_old hm
  case seq_nonneg => exact Int.add_nonneg hseq hn
  case ready_seq =>
    intro hr
    show 1 ≤ s.connSeq + n
    rcases Bool.or_eq_true _ _ ▸ hr with hr | hr
    · have := h.ready_seq hr
      omega
    · have := (hready hr).1
      omega
  case opener =>
    intro u hu
    obtain ⟨hu, hp⟩ := hother hu
    have hready' : ready = false := by
      by_contra hr
      exact hp (hready (by simpa using hr)).2.symm
    simp [hready', h.opener hu]

/-- Every step keeps the leaders and the pending operations in agreement. -/
theorem Coherent.effect {s' : Sync} {b : Lead} (h : Coherent s leads) (he : Effect s (leads t) s' b) :
    Coherent s' (update leads t b) := by
  cases he with
  | keep => simpa using h
  | drop => exact h.drop t
  | lead p q hidle hq => exact h.lead t hidle hq
  | complete p q d n ready hl hd hn hready => exact h.complete hl hd hn hready

theorem Coherent.completable {ch : HtChannel} (h : Coherent ch.sync leads) (t : ℕ) : Completable ch (leads t) := by
  intro p q hl
  obtain ⟨d, hd, -, hopen⟩ := h.active_open (h.leader_active hl)
  refine ⟨⟨d, hd, hopen⟩, ?_⟩
  rintro rfl rfl
  exact h.opener hl

/-! ## Runs -/

/-- The handlers keep to the lock discipline as long as none finds its operation in flight. -/
theorem code_disciplined :
    Mutex.Disciplined code Pc.holds Pc.disciplined
      (fun ch l => NotInFlight ch l ∧ Completable ch l.leads) where
  lock := by
    intro l k hd hcode
    obtain ⟨s, rfl, rfl⟩ | rfl := lock_cases hcode
    · exact ⟨id, trivial, hd⟩
    · exact ⟨id, hd⟩
  unlock := by
    intro l k hd hcode
    obtain rfl := unlock_eq hcode
    exact ⟨trivial, hd⟩
  act hd hok hcode h := by
    have hout := act_outcome hcode hok.2 h
    exact ⟨hout.holds, hout.disciplined hd hok.1⟩

/-- The invariant of the handlers. -/
structure Inv (c : Config) : Prop where
  owned : Mutex.Owned Pc.holds Pc.disciplined c
  coherent : Coherent c.shared.sync (Pc.leads ∘ c.threads)

theorem Inv.step {c d : Config} {lab : ℕ × Event} (h : Inv c)
    (hok : NotInFlight c.shared (c.threads lab.1)) (hs : HTunnel.step c lab = some d) : Inv d := by
  have hc : Completable c.shared (c.threads lab.1).leads := h.coherent.completable lab.1
  refine ⟨h.owned.step code_disciplined ⟨hok, hc⟩ hs, ?_⟩
  rcases Mutex.step_cases hs with ⟨k, hk, -, rfl⟩ | ⟨k, hk, -, rfl⟩ | ⟨run, s, k, hk, hr, rfl⟩
  · simpa [comp_update, lock_leads hk] using h.coherent.effect (t := lab.1) .keep
  · simpa [comp_update, unlock_leads hk] using h.coherent.effect (t := lab.1) .keep
  · have hset : ∀ s, c.threads lab.1 = .inside s → s.settled := by
      intro s hl
      simpa [hl, Pc.disciplined] using h.owned.allowed lab.1
    have heffect := (act_outcome hk hc hr).effect hset
    simpa [comp_update] using h.coherent.effect (t := lab.1) heffect

theorem Inv.init (port : ℤ) (isReverse isUDP encrypted : Bool) :
    Inv (init (newChannel port isReverse isUDP encrypted)) where
  owned := ⟨fun _ => trivial, fun t => by simp [HTunnel.init, Pc.holds]⟩
  coherent := by
    constructor <;> simp [HTunnel.init, newChannel, HtChannel.sync, Pc.leads]

/-- A goroutine does not wait for `ch.mu` while it holds it, and has released it when it ends (a panic in
a critical section ends the handler with the mutex held). -/
structure LockSafe (c : Config) (t : ℕ) : Prop where
  lock : ∀ {k}, code (c.threads t) = .lock k → c.owner ≠ some t
  returned : ∀ {resp}, c.threads t = .returned resp → c.owner ≠ some t
  not_crashed : c.threads t ≠ .crashed

theorem Inv.lockSafe {c : Config} (h : Inv c) (t : ℕ) : LockSafe c t where
  lock := h.owned.not_relock code_disciplined
  returned hr ho := by simpa [hr, Pc.holds] using (h.owned.owner t).mp ho
  not_crashed hp := by simpa [hp, Pc.disciplined] using h.owned.allowed t

/-- On a channel of any kind, with any requests and any interleaving in which no handler finds the
operation it would lead in flight, the handlers respect the mutex. -/
theorem lockSafe_of_notInFlight (port : ℤ) (isReverse isUDP encrypted : Bool) (labels : List (ℕ × Event)) (c : Config)
    (hok : Lts.Always step (fun c lab => NotInFlight c.shared (c.threads lab.1))
      (init (newChannel port isReverse isUDP encrypted)) labels)
    (hrun : Lts.exec step (init (newChannel port isReverse isUDP encrypted)) labels = some c)
    (t : ℕ) : LockSafe c t := by
  have hinv : Inv c :=
    Lts.exec_invariant (fun _ _ _ h hok hs => h.step hok hs) (Inv.init ..) hok hrun
  exact hinv.lockSafe t

/-- One GET of a channel without a target, served alone. -/
theorem lockSafe_of_notInFlight_get :
    ∃ c, Lts.exec step (init (newChannel 80 false false false))
        ((0, .request ⟨.read, 1⟩) :: List.replicate 14 (0, .next)) = some c ∧
      c.threads 0 = .status 408 ∧ LockSafe c 0 := by
  refine ⟨_, rfl, rfl, lockSafe_of_notInFlight 80 false false false
    ((0, .request ⟨.read, 1⟩) :: List.replicate 14 (0, .next)) _ ?_ rfl 0⟩
  decide

/-- Two GETs with content sequence 1. The second finds the first in flight, waits for it, and comes back
from `leaderOrWait` with `ch.mu` held; at the head of its loop it locks `ch.mu` again. -/
theorem get_retry_relocks :
    ∃ c, Lts.exec step (init (newChannel 80 false false false))
        ((0, .request ⟨.read, 1⟩) :: List.replicate 7 (0, .next) ++
          (1, .request ⟨.read, 1⟩) :: List.replicate 7 (1, .next) ++
          List.replicate 7 (0, .next) ++ List.replicate 2 (1, .next)) = some c ∧
      c.threads 0 = .status 408 ∧ c.threads 1 = .enter (.loop ⟨.read, 1⟩) ∧ ¬ LockSafe c 1 := by
  refine ⟨_, rfl, rfl, rfl, fun h => h.lock rfl rfl⟩

end HTunnel
