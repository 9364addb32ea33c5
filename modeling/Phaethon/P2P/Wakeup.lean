import Phaethon.Common.Ring
import Phaethon.P2P.PeerSteps

/-!
# The scheduler is not left asleep

`NextBatch` looks at the 256 data queues one by one, without a lock, and waits for `notifyCh` if it found nothing. A
frame may get into a queue that the round has already passed. `Awake` says what keeps it from being forgotten: of a
round that has found nothing so far, the queues it has passed are empty, or the scheduler is about to be notified.
-/

namespace P2P

open Function Transit Peer

variable {cls : Classifier} {s s' : Peer}

/-- The scheduler has a token, or a call that has inserted its frame is about to notify it. -/
def Peer.Alerted (s : Peer) : Prop := s.notifyCh = true ∨ ∃ t, s.enqueue t = .notify

/-- The queues that the current round has passed; all of them when it waits. -/
def Peer.Passed (s : Peer) (q : Fin 256) : Prop :=
  match s.sched with
  | .visit i _ | .drain i _ => ∃ j < i, (q : ℕ) = (s.round + j) % 256
  | .wait => True
  | .refund .. | .send | .stopped => False

/-- The current round has found nothing so far. -/
def Peer.Idle (s : Peer) : Prop := s.sched = .wait ∨ s.places .batch = []

/-- What keeps the scheduler awake. -/
structure Peer.Awake (s : Peer) : Prop where
  drain : ∀ {i idx}, s.sched = .drain i idx → (idx : ℕ) = (s.round + i) % 256
  refund : ∀ {i idx need}, s.sched = .refund i idx need →
    s.places .batch ≠ [] ∧ (idx : ℕ) = (s.round + i) % 256
  passed : s.Idle → ∀ {q}, s.Passed q → s.places (.dataQueue q) ≠ [] → s.Alerted

/-! ## Steps of the others -/

/-- A step that leaves the scheduler where it is: what it adds to a data queue it announces. -/
structure Announces (s s' : Peer) : Prop where
  sched : s'.sched = s.sched
  round : s'.round = s.round
  batch : s.places .batch ≠ [] → s'.places .batch ≠ []
  alerted : s.Alerted → s'.Alerted
  queues : ∀ q, s'.places (.dataQueue q) ≠ [] → s.places (.dataQueue q) ≠ [] ∨ s'.Alerted

theorem Peer.Awake.announces (h : s.Awake) (hs : Announces s s') : s'.Awake := by
  refine ⟨fun hsched => ?_, fun hsched => ?_, fun hidle q hpassed hq => ?_⟩
  · rw [hs.round]
    exact h.drain (hs.sched ▸ hsched)
  · rw [hs.round]
    obtain ⟨hbatch, hidx⟩ := h.refund (hs.sched ▸ hsched)
    exact ⟨hs.batch hbatch, hidx⟩
  · have hidle' : s.Idle := by
      refine hidle.imp (hs.sched ▸ ·) fun hempty => ?_
      by_contra hne
      exact hs.batch hne hempty
    rcases hs.queues q hq with hold | halerted
    · refine hs.alerted (h.passed hidle' ?_ hold)
      rw [Passed, hs.sched, hs.round] at hpassed
      exact hpassed
    · exact halerted

/-- The scheduler's places and what it is notified with are left alone. -/
theorem Announces.of_frame (hsched : s'.sched = s.sched) (hround : s'.round = s.round)
    (hnotify : s'.notifyCh = s.notifyCh) (henqueue : s'.enqueue = s.enqueue)
    (hbatch : s'.places .batch = s.places .batch)
    (hqueues : ∀ q, s'.places (.dataQueue q) = s.places (.dataQueue q)) : Announces s s' := by
  refine ⟨hsched, hround, fun h => hbatch.symm ▸ h, fun h => ?_, fun q hq => .inl (hqueues q ▸ hq)⟩
  rw [Alerted, hnotify, henqueue]
  exact h

variable {t i : ℕ} {pc : Enqueue}

/-- A call that is not about to notify goes on. -/
theorem Peer.Alerted.update (h : s.Alerted) (hpc : s.enqueue t ≠ .notify)
    (hnotify : s'.notifyCh = s.notifyCh) (henqueue : s'.enqueue = update s.enqueue t pc) :
    s'.Alerted := by
  rcases h with h | ⟨u, hu⟩
  · exact .inl (hnotify.trans h)
  · refine .inr ⟨u, ?_⟩
    rw [henqueue, update_of_ne, hu]
    rintro rfl
    exact hpc hu

/-- A step of a call that neither inserts a frame nor notifies. -/
theorem Announces.of_call (hpc : s.enqueue t ≠ .notify) (dataBudget : ℤ) :
    Announces s { s with dataBudget, enqueue := update s.enqueue t pc } :=
  ⟨rfl, rfl, id, fun h => h.update hpc rfl rfl, fun _ hq => .inl hq⟩

/-- A frame that a call puts into a data queue is announced with it. -/
theorem Announces.of_insert {req : WriteReq} {dst : Place}
    (hpc : s.enqueue t = .insert req dst) (hnotify : ∀ q, dst = .dataQueue q → pc = .notify) :
    Announces s { s with
      places := push s.places dst ⟨some t, req⟩
      accepted := ⟨some t, req⟩ :: s.accepted
      enqueue := update s.enqueue t pc } := by
  refine ⟨rfl, rfl, fun h => ?_, fun h => h.update (t := t) (by simp [hpc]) rfl rfl, fun q hq => ?_⟩
  · by_cases hdst : Place.batch = dst
    · simp [push, ← hdst]
    · simpa [push, update_of_ne hdst] using h
  · by_cases hdst : Place.dataQueue q = dst
    · exact .inr (.inr ⟨t, by simp [hnotify q hdst.symm]⟩)
    · exact .inl (by simpa [push, update_of_ne hdst] using hq)

theorem Called.announces (h : Called cls s t s') : Announces s s' := by
  cases h with
  | think h => exact .of_call (fun hpc => by rw [hpc] at h; cases h) _
  | reserve hpc => exact .of_call (by simp [hpc]) _
  | insert hpc hnext =>
    refine .of_insert hpc fun q hq => ?_
    rcases hnext with ⟨-, rfl⟩ | ⟨hdst, -⟩
    · rfl
    · exact absurd hq (hdst q)
  | notify => exact ⟨rfl, rfl, id, fun _ => .inl rfl, fun _ hq => .inl hq⟩
  | refund hpc => exact .of_call (by simp [hpc]) _

theorem Wrote.announces {c : Case} (h : Wrote s c s') : Announces s s' := by
  have hbatch := h.places_eq (.inl rfl)
  have hqueues (q : Fin 256) := h.places_eq (.inr ⟨q, rfl⟩)
  cases h <;> exact .of_frame rfl rfl rfl rfl hbatch hqueues

/-! ## Steps of the scheduler -/

/-- The queues before position `i` of the round have nothing that would be forgotten. -/
def Peer.Searched (s : Peer) (i : ℕ) : Prop :=
  s.places .batch = [] → ∀ j < i, ∀ q : Fin 256, (q : ℕ) = (s.round + j) % 256 →
    s.places (.dataQueue q) ≠ [] → s.Alerted

theorem Peer.Searched.zero : s.Searched 0 := fun _ j hj => absurd hj (Nat.not_lt_zero j)

theorem Peer.Searched.of_batch (h : s.places .batch ≠ []) (i : ℕ) : s.Searched i := fun hempty => absurd hempty h

theorem Peer.Awake.of_visit {last : ℕ} (hsched : s.sched = .visit i last) (h : s.Searched i) : s.Awake := by
  refine ⟨fun heq => by simp [hsched] at heq, fun heq => by simp [hsched] at heq, fun hidle q hq => ?_⟩
  rw [Passed, hsched] at hq
  obtain ⟨j, hj, hq⟩ := hq
  exact h (hidle.resolve_left (by simp [hsched])) j hj q hq

theorem Peer.Awake.of_drain {idx : Fin 256} (hsched : s.sched = .drain i idx)
    (hidx : (idx : ℕ) = (s.round + i) % 256) (h : s.Searched i) : s.Awake := by
  refine ⟨fun heq => ?_, fun heq => by simp [hsched] at heq, fun hidle q hq => ?_⟩
  · obtain ⟨rfl, rfl⟩ := Sched.drain.inj (hsched.symm.trans heq)
    exact hidx
  · rw [Passed, hsched] at hq
    obtain ⟨j, hj, hq⟩ := hq
    exact h (hidle.resolve_left (by simp [hsched])) j hj q hq

theorem Peer.Awake.of_busy (hsched : s.sched = .send ∨ s.sched = .stopped) : s.Awake := by
  rcases hsched with hsched | hsched
  all_goals refine ⟨fun heq => by simp [hsched] at heq, fun heq => by simp [hsched] at heq, fun _ q hq => ?_⟩
  all_goals
    rw [Passed, hsched] at hq
    exact hq.elim

theorem Peer.Awake.searched (hs : s.Awake)
    (hsched : (∃ last, s.sched = .visit i last) ∨ ∃ idx, s.sched = .drain i idx) : s.Searched i := by
  intro hbatch j hj q hq
  refine hs.passed (.inr hbatch) ?_
  rcases hsched with ⟨_, hsched⟩ | ⟨_, hsched⟩
  all_goals
    rw [Passed, hsched]
    exact ⟨j, hj, hq⟩

theorem Scheduled.awake {c : Case} (hs : s.Awake) (h : Scheduled s c s') : s'.Awake := by
  cases h with
  | @visit i last hsched => exact .of_drain rfl rfl (hs.searched (.inl ⟨last, hsched⟩))
  | @finish i last hsched hend =>
    by_cases hbatch : s.places .batch = []
    · -- nothing was found, so the round has passed all queues
      have hi : 256 ≤ i := hend.resolve_right (by simp [hbatch])
      simp only [hbatch, if_true]
      refine ⟨fun heq => by simp at heq, fun heq => by simp at heq, fun _ q _ hq => ?_⟩
      obtain ⟨j, hj, hidx⟩ := Ring.exists_add_mod_eq s.round q.isLt
      exact hs.searched (.inl ⟨last, hsched⟩) hbatch j (by omega) q hidx.symm hq
    · exact .of_busy (.inl (if_neg hbatch))
  | take hsched hhead hmove =>
    have hidx := hs.drain hsched
    obtain ⟨_, _, _, hplaces⟩ := move_eq_some.mp hmove
    refine ⟨fun heq => by simp at heq, fun heq => ?_, fun _ _ hq => hq.elim⟩
    obtain ⟨rfl, rfl, _⟩ := Sched.refund.inj heq
    exact ⟨by simp [hplaces, push], hidx⟩
  | @empty i idx hsched hempty =>
    refine .of_visit rfl fun hbatch j hj q hq hne => ?_
    rcases Nat.lt_succ_iff_lt_or_eq.mp hj with hj | rfl
    · exact hs.searched (.inr ⟨idx, hsched⟩) hbatch j hj q hq hne
    · -- the queue that was just found empty
      obtain rfl : q = idx := Fin.ext (hq.trans (hs.drain hsched).symm)
      exact absurd hempty hne
  | full hsched hfull =>
    exact .of_visit rfl (.of_batch (List.ne_nil_of_length_pos (Nat.lt_of_lt_of_le (by decide) hfull)) _)
  | @refund i idx need hsched =>
    obtain ⟨hbatch, hidx⟩ := hs.refund hsched
    by_cases hdeficit : s.deficits idx ≤ 0
    · exact .of_visit (if_pos hdeficit) (.of_batch hbatch _)
    · exact .of_drain (if_neg hdeficit) hidx (.of_batch hbatch _)
  | stop => exact .of_busy (.inr rfl)
  | wake => exact .of_visit rfl .zero
  | again => exact .of_visit rfl .zero
  | output hsched => exact .of_busy (.inl hsched)

theorem step_awake {l : Label} (hs : s.Awake) (h : step cls s l = some s') : s'.Awake := by
  cases step_stepped h with
  | call hidle => exact hs.announces (.of_call (by simp [hidle]) _)
  | enqueue h => exact hs.announces h.announces
  | sched h => exact h.awake hs
  | writer h => exact hs.announces h.announces
  | _ => exact hs.announces (.of_frame rfl rfl rfl rfl rfl fun _ => rfl)

/-- A scheduler that waits while a data queue has a frame has a token, or a call that has inserted its frame is about
to leave one. -/
theorem no_lost_wakeup (cls : Classifier) (labels : List Label) (s : Peer)
    (hrun : Lts.exec (step cls) {} labels = some s) (hwait : s.sched = .wait) (q : Fin 256)
    (hq : s.places (.dataQueue q) ≠ []) : s.notifyCh = true ∨ ∃ t, s.enqueue t = .notify := by
  have hawake : s.Awake := Lts.exec_preserves (fun _ _ _ hs h => step_awake hs h) (.of_visit rfl .zero) hrun
  exact hawake.passed (.inl hwait) (by rw [Passed, hwait]; trivial) hq

/-- A frame gets into the first queue after the round has found all 256 queues empty. -/
def behindTheScan : List Label :=
  List.replicate 513 (.sched .next) ++
    [.call 0 ⟨0x20, [1, 2, 3], false, false⟩, .enqueue 0, .enqueue 0, .enqueue 0, .enqueue 0]

theorem no_lost_wakeup_behindTheScan :
    ∃ s, Lts.exec (step ⟨fun _ => false, fun _ => 0⟩) {} behindTheScan = some s ∧ s.sched = .wait ∧
      s.places (.dataQueue 0) ≠ [] ∧ (s.notifyCh = true ∨ ∃ t, s.enqueue t = .notify) := by
  have hrun : ((Lts.exec (step ⟨fun _ => false, fun _ => 0⟩) {} behindTheScan).map fun s =>
      (s.sched, (s.places (.dataQueue 0)).length)) = some (.wait, 1) := by
    decide +kernel
  obtain ⟨s, hs, heq⟩ := Option.map_eq_some_iff.mp hrun
  obtain ⟨hwait, hlen⟩ := Prod.mk.inj heq
  have hq : s.places (.dataQueue 0) ≠ [] := List.ne_nil_of_length_pos (by omega)
  exact ⟨s, hs, hwait, hq, no_lost_wakeup _ _ s hs hwait 0 hq⟩

end P2P
