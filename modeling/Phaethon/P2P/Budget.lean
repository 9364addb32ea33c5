import Mathlib.Algebra.BigOperators.Fin
import Mathlib.Algebra.Order.BigOperators.Group.Finset
import Phaethon.P2P.PeerSteps

/-!
# The byte budget of the data queues

`enqueueWriteReq` takes the bytes of a data frame out of `dataBudget` before it inserts the frame, and puts them
back if the queue is full; the scheduler puts them back when it has taken the frame out. Between those steps the
bytes belong to a call, to a queue or to the scheduler, and `Balanced` says that none is lost or made. `Transfer` is
what one step of the peer can do to them.
-/

namespace P2P

open Function Finset Enqueue Transit

/-! ## Who holds bytes -/

/-- `dataQueueByteBudget`. -/
def dataQueueByteBudget : ℤ := 8388608

/-- The bytes of some frames. -/
def bytes (l : List Frame) : ℤ := (l.map fun f => (f.req.data.length : ℤ)).sum

/-- The bytes in the 256 data queues. -/
def queuedBytes (places : Place → List Frame) : ℤ := ∑ i, bytes (places (.dataQueue i))

/-- What a call has reserved and neither inserted nor put back. -/
def Enqueue.reserved : Enqueue → ℤ
  | .insert req (.dataQueue _) => req.data.length
  | .refund need => need
  | _ => 0

/-- What the scheduler has taken out of a queue and not put back. -/
def Sched.held : Sched → ℤ
  | .refund _ _ need => need
  | _ => 0

/-- The call is over, or was never made. -/
def Enqueue.AtRest : Enqueue → Prop
  | .idle => True
  | .returned _ => True
  | _ => False

/-- The whole budget is accounted for: it is left, queued, reserved by one of the calls made so far or held by the
scheduler. -/
structure Peer.Balanced (s : Peer) : Prop where
  conserved : ∃ calls : Finset ℕ, (∀ t, t ∉ calls → s.enqueue t = .idle) ∧
    s.dataBudget + queuedBytes s.places + ∑ t ∈ calls, (s.enqueue t).reserved + s.sched.held = dataQueueByteBudget
  nonneg : 0 ≤ s.dataBudget

theorem bytes_nonneg (l : List Frame) : 0 ≤ bytes l := by
  refine List.sum_nonneg fun n hn => ?_
  obtain ⟨f, -, rfl⟩ := List.mem_map.mp hn
  exact Int.natCast_nonneg _

theorem Enqueue.reserved_nonneg (pc : Enqueue) : 0 ≤ pc.reserved := by
  unfold reserved
  split <;> omega

theorem Sched.held_nonneg (pc : Sched) : 0 ≤ pc.held := by
  unfold held
  split <;> omega

theorem queuedBytes_nonneg (places : Place → List Frame) : 0 ≤ queuedBytes places :=
  sum_nonneg fun _ _ => bytes_nonneg _

/-! ## Queues -/

variable {places places' : Place → List Frame} {p q : Place} {f : Frame} {l : List Frame} {i : Fin 256}

theorem queuedBytes_update (places : Place → List Frame) (i : Fin 256) (l : List Frame) :
    queuedBytes (update places (.dataQueue i) l) + bytes (places (.dataQueue i)) =
      queuedBytes places + bytes l := by
  have hqueue : (fun j => bytes (update places (.dataQueue i) l (.dataQueue j))) =
      update (fun j => bytes (places (.dataQueue j))) i (bytes l) := by
    funext j
    by_cases hj : j = i
    · subst hj
      simp
    · rw [update_of_ne (fun h => hj (Place.dataQueue.inj h)), update_of_ne hj]
  rw [queuedBytes, hqueue, sum_update_of_mem (mem_univ i), queuedBytes,
    ← add_sum_erase univ _ (mem_univ i), sdiff_singleton_eq_erase]
  omega

theorem queuedBytes_update_of_ne (hp : ∀ i, p ≠ .dataQueue i) (l : List Frame) :
    queuedBytes (update places p l) = queuedBytes places :=
  sum_congr rfl fun i _ => by rw [update_of_ne (hp i).symm]

theorem queuedBytes_push (places : Place → List Frame) (i : Fin 256) (f : Frame) :
    queuedBytes (push places (.dataQueue i) f) = queuedBytes places + f.req.data.length := by
  have h := queuedBytes_update places i (places (.dataQueue i) ++ [f])
  have hbytes : bytes (places (.dataQueue i) ++ [f]) = bytes (places (.dataQueue i)) + f.req.data.length := by
    simp [bytes]
  rw [push]
  omega

theorem queuedBytes_push_of_ne (hp : ∀ i, p ≠ .dataQueue i) (f : Frame) :
    queuedBytes (push places p f) = queuedBytes places := queuedBytes_update_of_ne hp _

/-- Frames that move between other places. -/
theorem queuedBytes_move_of_ne (hp : ∀ i, p ≠ .dataQueue i) (hq : ∀ i, q ≠ .dataQueue i)
    (h : move places p q = some places') : queuedBytes places' = queuedBytes places := by
  unfold move at h
  split at h
  · cases h
  · cases h
    rw [queuedBytes_push_of_ne hq, queuedBytes_update_of_ne hp]

/-- A frame that the scheduler takes. -/
theorem queuedBytes_move (hhead : places (.dataQueue i) = f :: l)
    (h : move places (.dataQueue i) .batch = some places') :
    queuedBytes places' + f.req.data.length = queuedBytes places := by
  unfold move at h
  rw [hhead] at h
  cases h
  have hpop := queuedBytes_update places i l
  rw [hhead] at hpop
  rw [queuedBytes_push_of_ne (by simp)]
  have hbytes : bytes (f :: l) = f.req.data.length + bytes l := by simp [bytes]
  omega

/-! ## Steps -/

/-- One step moves bytes between the budget, the queues, one call and the scheduler. -/
structure Transfer (s s' : Peer) : Prop where
  call : ∃ t pc, s'.enqueue = update s.enqueue t pc ∧
    s'.dataBudget + queuedBytes s'.places + pc.reserved + s'.sched.held =
      s.dataBudget + queuedBytes s.places + (s.enqueue t).reserved + s.sched.held
  nonneg : 0 ≤ s.dataBudget → 0 ≤ s'.dataBudget

/-- A step of call `t`. -/
theorem Transfer.ofCall {s : Peer} {t : ℕ} {pc : Enqueue} {budget : ℤ} {places : Place → List Frame} (notify : Bool)
    (accepted : List Frame) (hsum : budget + queuedBytes places + pc.reserved =
      s.dataBudget + queuedBytes s.places + (s.enqueue t).reserved)
    (hnonneg : 0 ≤ s.dataBudget → 0 ≤ budget) :
    Transfer s { s with
      dataBudget := budget
      places := places
      notifyCh := notify
      accepted := accepted
      enqueue := update s.enqueue t pc } :=
  ⟨⟨t, pc, rfl, by dsimp only; omega⟩, hnonneg⟩

/-- A step of another party. -/
theorem Transfer.ofOther {s s' : Peer} (henqueue : s'.enqueue = s.enqueue)
    (hsum : s'.dataBudget + queuedBytes s'.places + s'.sched.held =
      s.dataBudget + queuedBytes s.places + s.sched.held)
    (hnonneg : 0 ≤ s.dataBudget → 0 ≤ s'.dataBudget) : Transfer s s' :=
  ⟨⟨0, s.enqueue 0, by rw [henqueue, update_eq_self], by omega⟩, hnonneg⟩

/-- A step of the writer, or one that only sets a flag. -/
theorem Transfer.ofQueued {s s' : Peer} (henqueue : s'.enqueue = s.enqueue) (hbudget : s'.dataBudget = s.dataBudget)
    (hsched : s'.sched.held = s.sched.held) (hqueued : queuedBytes s'.places = queuedBytes s.places) :
    Transfer s s' :=
  .ofOther henqueue (by rw [hbudget, hqueued, hsched]) (by rw [hbudget]; exact id)

theorem Enqueue.reserved_insert {req : WriteReq} {dst : Place} (hdst : ∀ i, dst ≠ .dataQueue i) :
    (Enqueue.insert req dst).reserved = 0 := by
  cases dst with
  | dataQueue i => exact absurd rfl (hdst i)
  | _ => rfl

/-- What a call has reserved stays with it until it inserts the frame or puts the bytes back. -/
theorem Thinks.reserved {cls : Classifier} {s : Peer} {pc pc' : Enqueue} (h : Thinks cls s pc pc') :
    pc'.reserved = pc.reserved := by
  cases h with
  | other _ hdst => exact reserved_insert hdst
  | fullOther hdst => exact (reserved_insert hdst).symm
  | _ => rfl

theorem Called.transfer {cls : Classifier} {s s' : Peer} {t : ℕ} (h : Called cls s t s') : Transfer s s' := by
  cases h with
  | think h => exact .ofCall _ _ (by rw [h.reserved]) id
  | @reserve req i hpc henough =>
    -- The swap has succeeded: the call has the bytes now.
    have hbefore : (s.enqueue t).reserved = 0 := by rw [hpc]; rfl
    have hafter : (Enqueue.insert req (.dataQueue i)).reserved = req.data.length := rfl
    exact .ofCall _ _ (by omega) fun _ => by omega
  | @insert req dst pc hpc hnext =>
    have hbefore : (s.enqueue t).reserved = (Enqueue.insert req dst).reserved := by rw [hpc]
    rcases hnext with ⟨⟨i, rfl⟩, rfl⟩ | ⟨hdst, rfl⟩
    · have hpush : queuedBytes (push s.places (.dataQueue i) ⟨some t, req⟩) =
          queuedBytes s.places + req.data.length := queuedBytes_push ..
      have hreserved : (Enqueue.insert req (.dataQueue i)).reserved = req.data.length := rfl
      have hafter : Enqueue.notify.reserved = 0 := rfl
      exact .ofCall _ _ (by omega) id
    · refine .ofCall _ _ ?_ id
      rw [queuedBytes_push_of_ne hdst, hbefore, reserved_insert hdst]
      rfl
  | notify hpc => exact .ofCall _ _ (by rw [hpc]; rfl) id
  | refund hpc =>
    have hafter : (returned .queueFull).reserved = 0 := rfl
    refine .ofCall _ _ ?_ fun _ => by omega
    rw [hpc, hafter, reserved]
    omega

theorem Scheduled.transfer {s s' : Peer} {c : Case} (h : Scheduled s c s') : Transfer s s' := by
  cases h with
  | visit hsched => exact .ofQueued rfl rfl (by rw [hsched]; rfl) rfl
  | finish hsched =>
    refine .ofQueued rfl rfl ?_ rfl
    rw [hsched]
    split <;> rfl
  | @take i idx f l places hsched hhead hmove =>
    have hmoved := queuedBytes_move hhead hmove
    have hheld : s.sched.held = 0 := by rw [hsched]; rfl
    have hnow : (Sched.refund i idx f.req.data.length).held = f.req.data.length := rfl
    refine .ofOther rfl ?_ id
    dsimp only
    omega
  | empty hsched => exact .ofQueued rfl rfl (by rw [hsched]; rfl) rfl
  | full hsched => exact .ofQueued rfl rfl (by rw [hsched]; rfl) rfl
  | @refund i idx need hsched =>
    have hheld : s.sched.held = need := by rw [hsched]; rfl
    have hnow : (if s.deficits idx ≤ 0 then Sched.visit (i + 1) idx else .drain i idx).held = 0 := by
      split <;> rfl
    refine .ofOther rfl ?_ fun hnonneg => ?_
    · dsimp only
      omega
    · dsimp only
      omega
  | stop hsched => exact .ofQueued rfl rfl (by rcases hsched with hsched | hsched <;> rw [hsched] <;> rfl) rfl
  | wake hsched => exact .ofQueued rfl rfl (by rw [hsched]; rfl) rfl
  | again hsched => exact .ofQueued rfl rfl (by rw [hsched]; rfl) rfl
  | output _ _ hmove => exact .ofQueued rfl rfl rfl (queuedBytes_move_of_ne (by simp) (by simp) hmove)

theorem Wrote.transfer {s s' : Peer} {c : Case} (h : Wrote s c s') : Transfer s s' := by
  have hqueued : queuedBytes s'.places = queuedBytes s.places :=
    sum_congr rfl fun i _ => by rw [h.places_eq (.inr ⟨i, rfl⟩)]
  cases h <;> exact .ofQueued rfl rfl rfl hqueued

theorem step_transfer {cls : Classifier} {s s' : Peer} {l : Label} (h : step cls s l = some s') : Transfer s s' := by
  cases step_stepped h with
  | call hidle => exact .ofCall _ _ (by rw [hidle]; rfl) id
  | enqueue h => exact h.transfer
  | sched h => exact h.transfer
  | writer h => exact h.transfer
  | _ => exact .ofQueued rfl rfl rfl rfl

/-! ## Runs -/

namespace Peer.Balanced

variable {s s' : Peer}

theorem init : Peer.Balanced {} where
  conserved := ⟨∅, by simp, by simp [queuedBytes, bytes, Sched.held, dataQueueByteBudget]⟩
  nonneg := by decide

theorem transfer (h : s.Balanced) (ht : Transfer s s') : s'.Balanced := by
  obtain ⟨calls, hidle, hsum⟩ := h.conserved
  obtain ⟨t, pc, henqueue, hmoved⟩ := ht.call
  refine ⟨⟨insert t calls, fun u hu => ?_, ?_⟩, ht.nonneg h.nonneg⟩
  · rw [mem_insert, not_or] at hu
    rw [henqueue, update_of_ne hu.1]
    exact hidle u hu.2
  · -- The sum over the calls changes at `t` only.
    have hnew : ∑ u ∈ insert t calls, (s'.enqueue u).reserved =
        pc.reserved + ∑ u ∈ (insert t calls).erase t, (s.enqueue u).reserved := by
      rw [← add_sum_erase _ _ (mem_insert_self t calls), henqueue, update_self]
      congr 1
      refine sum_congr rfl fun u hu => ?_
      rw [update_of_ne (ne_of_mem_erase hu)]
    have hold : ∑ u ∈ insert t calls, (s.enqueue u).reserved = ∑ u ∈ calls, (s.enqueue u).reserved := by
      by_cases ht : t ∈ calls
      · rw [insert_eq_of_mem ht]
      · rw [sum_insert ht, hidle t ht]
        exact zero_add _
    rw [← add_sum_erase _ _ (mem_insert_self t calls)] at hold
    omega

theorem le_budget (h : s.Balanced) : s.dataBudget ≤ dataQueueByteBudget := by
  obtain ⟨calls, -, hsum⟩ := h.conserved
  have hreserved : 0 ≤ ∑ t ∈ calls, (s.enqueue t).reserved :=
    sum_nonneg fun t _ => (s.enqueue t).reserved_nonneg
  have hqueued := queuedBytes_nonneg s.places
  have hheld := s.sched.held_nonneg
  omega

/-- With all calls over and the queues empty, the scheduler has at most the last frame's bytes still to put back. -/
theorem settled (h : s.Balanced) (hcalls : ∀ t, (s.enqueue t).AtRest)
    (hqueues : ∀ i, s.places (.dataQueue i) = []) : s.dataBudget + s.sched.held = dataQueueByteBudget := by
  obtain ⟨calls, -, hsum⟩ := h.conserved
  have hreserved : ∑ t ∈ calls, (s.enqueue t).reserved = 0 := by
    refine sum_eq_zero fun t _ => ?_
    have hrest := hcalls t
    cases hpc : s.enqueue t <;> simp_all [AtRest, reserved]
  have hqueued : queuedBytes s.places = 0 := sum_eq_zero fun i _ => by rw [hqueues]; rfl
  omega

end Peer.Balanced

/-- The scheduler is between taking a frame and putting its bytes back. -/
def Sched.refunding : Sched → Bool
  | .refund .. => true
  | _ => false

/-- In every interleaving the budget is accounted for and stays between nothing and the whole. When all calls are over
and the queues are empty it is whole, or is made whole by the next step of the scheduler. -/
theorem budget_conserved (cls : Classifier) (labels : List Label) (s : Peer)
    (hrun : Lts.exec (step cls) {} labels = some s) :
    s.Balanced ∧ s.dataBudget ≤ dataQueueByteBudget ∧
      ((∀ t, (s.enqueue t).AtRest) → (∀ i, s.places (.dataQueue i) = []) →
        if s.sched.refunding then
          ∃ s', step cls s (.sched .next) = some s' ∧ s'.dataBudget = dataQueueByteBudget
        else s.dataBudget = dataQueueByteBudget) := by
  have hinv : s.Balanced := Lts.exec_preserves (fun s l t h hs => h.transfer (step_transfer hs)) .init hrun
  refine ⟨hinv, hinv.le_budget, fun hcalls hqueues => ?_⟩
  have hsettled := hinv.settled hcalls hqueues
  cases hsched : s.sched with
  | refund i idx need =>
    have hstep : step cls s (.sched .next) = some { s with
        dataBudget := s.dataBudget + need
        sched := if s.deficits idx ≤ 0 then .visit (i + 1) idx else .drain i idx } := by
      simp only [step, schedStep, hsched]
    rw [hsched] at hsettled
    exact ⟨_, hstep, hsettled⟩
  | visit i last | drain i idx | wait | send | stopped =>
    rw [hsched] at hsettled
    exact (add_zero _).symm.trans hsettled

/-- A frame of three bytes is enqueued and taken by the scheduler, and then its bytes are put back. -/
def threeBytes : List Label :=
  [.call 0 ⟨0x20, [1, 2, 3], false, false⟩, .enqueue 0, .enqueue 0, .enqueue 0, .enqueue 0, .enqueue 0,
    .sched .next, .sched .next]

theorem budget_conserved_threeBytes :
    ∃ s, Lts.exec (step ⟨fun _ => false, fun _ => 0⟩) {} threeBytes = some s ∧ s.dataBudget = 8388605 ∧
      s.Balanced :=
  ⟨_, rfl, rfl, (budget_conserved ⟨fun _ => false, fun _ => 0⟩ threeBytes _ rfl).1⟩

end P2P
