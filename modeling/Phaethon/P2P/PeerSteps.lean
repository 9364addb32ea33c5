import Phaethon.P2P.Peer

/-!
# Steps of a peer

What the atomic steps of the send path are, with one case for each way through the code: a call of `enqueueWriteReq`
(`Called`), the scheduler (`Scheduled`) and the writer (`Wrote`). The invariants of the send path go by these cases.
-/

namespace P2P

open Transit Function Option

variable {cls : Classifier} {s t : Peer} {u : ℕ} {c : Case}

/-! ## Calls -/

/-- A step of a call that changes nothing but its program point. -/
inductive Thinks (cls : Classifier) (s : Peer) : Enqueue → Enqueue → Prop where
  | stop {req : WriteReq} : Thinks cls s (.called req) (.returned .stopped)
  | data {req req' : WriteReq} {i : Fin 256} (hclass : classify cls req = (req', .dataQueue i)) :
      Thinks cls s (.called req) (.load req' i)
  | other {req req' : WriteReq} {dst : Place} (hclass : classify cls req = (req', dst))
      (hdst : ∀ i, dst ≠ .dataQueue i) : Thinks cls s (.called req) (.insert req' dst)
  | load {req : WriteReq} {i : Fin 256} : Thinks cls s (.load req i) (.cas req i s.dataBudget)
  | short {req : WriteReq} {i : Fin 256} {cur : ℤ} : Thinks cls s (.cas req i cur) (.returned .queueFull)
  | again {req : WriteReq} {i : Fin 256} {cur : ℤ} : Thinks cls s (.cas req i cur) (.load req i)
  | full {req : WriteReq} {i : Fin 256} : Thinks cls s (.insert req (.dataQueue i)) (.refund req.data.length)
  | fullOther {req : WriteReq} {dst : Place} (hdst : ∀ i, dst ≠ .dataQueue i) :
      Thinks cls s (.insert req dst) (.returned .queueFull)

/-- A step of call `u`. -/
inductive Called (cls : Classifier) (s : Peer) (u : ℕ) : Peer → Prop where
  | think {pc : Enqueue} (h : Thinks cls s (s.enqueue u) pc) :
      Called cls s u { s with enqueue := update s.enqueue u pc }
  | reserve {req : WriteReq} {i : Fin 256} (hpc : s.enqueue u = .cas req i s.dataBudget)
      (henough : req.data.length ≤ s.dataBudget) :
      Called cls s u { s with
        dataBudget := s.dataBudget - req.data.length
        enqueue := update s.enqueue u (.insert req (.dataQueue i)) }
  | insert {req : WriteReq} {dst : Place} {pc : Enqueue} (hpc : s.enqueue u = .insert req dst)
      (hnext : (∃ i, dst = .dataQueue i) ∧ pc = .notify ∨ (∀ i, dst ≠ .dataQueue i) ∧ pc = .returned .ok) :
      Called cls s u { s with
        places := push s.places dst ⟨some u, req⟩
        accepted := ⟨some u, req⟩ :: s.accepted
        enqueue := update s.enqueue u pc }
  | notify (hpc : s.enqueue u = .notify) :
      Called cls s u { s with notifyCh := true, enqueue := update s.enqueue u (.returned .ok) }
  | refund {need : ℕ} (hpc : s.enqueue u = .refund need) :
      Called cls s u { s with
        dataBudget := s.dataBudget + need
        enqueue := update s.enqueue u (.returned .queueFull) }

theorem enqueueStep_called (h : enqueueStep cls s u = some t) : Called cls s u t := by
  unfold enqueueStep at h
  split at h
  case h_1 => cases h
  case h_2 req hpc =>
    split at h
    · exact Option.some.inj h ▸ .think (hpc ▸ .stop)
    split at h <;> cases h
    case h_1 req' i hclass => exact .think (hpc ▸ .data hclass)
    case h_2 req' dst hdst hclass => exact .think (hpc ▸ .other hclass hdst)
  case h_3 req i hpc => exact Option.some.inj h ▸ .think (hpc ▸ .load)
  case h_4 req i cur hpc =>
    split at h
    · exact Option.some.inj h ▸ .think (hpc ▸ .short)
    case isFalse henough =>
      split at h <;> cases h
      case isTrue hsame =>
        subst hsame
        exact .reserve hpc (not_lt.mp henough)
      case isFalse => exact .think (hpc ▸ .again)
  case h_5 req dst hpc =>
    split at h <;> cases h
    · refine .insert hpc ?_
      split
      · exact .inl ⟨⟨_, rfl⟩, rfl⟩
      case h_2 hdst => exact .inr ⟨hdst, rfl⟩
    · refine .think (hpc ▸ ?_)
      split
      · exact .full
      case h_2 hdst => exact .fullOther hdst
  case h_6 hpc => exact Option.some.inj h ▸ .notify hpc
  case h_7 need hpc => exact Option.some.inj h ▸ .refund hpc
  case h_8 => cases h

/-! ## The scheduler -/

/-- The queue at position `i` of a round. -/
abbrev Peer.queueAt (s : Peer) (i : ℕ) : Fin 256 := @Fin.ofNat 256 ⟨by decide⟩ (s.round + i)

/-- A step of the scheduler. -/
inductive Scheduled (s : Peer) : Case → Peer → Prop where
  | visit {i last : ℕ} (hsched : s.sched = .visit i last) (hi : i < 256) (hroom : (s.places .batch).length < 64) :
      Scheduled s .next { s with
        deficits := update s.deficits (s.queueAt i)
          (if s.deficits (s.queueAt i) ≤ 0 then s.deficits (s.queueAt i) + drrQuantum else s.deficits (s.queueAt i))
        sched := .drain i (s.queueAt i) }
  | finish {i last : ℕ} (hsched : s.sched = .visit i last) (hend : 256 ≤ i ∨ 64 ≤ (s.places .batch).length) :
      Scheduled s .next { s with
        round := (last + 1) % 256
        sched := if s.places .batch = [] then .wait else .send }
  | take {i : ℕ} {idx : Fin 256} {f : Frame} {l : List Frame} {places : Place → List Frame}
      (hsched : s.sched = .drain i idx) (hhead : s.places (.dataQueue idx) = f :: l)
      (hmove : move s.places (.dataQueue idx) .batch = some places) :
      Scheduled s .next { s with
        places
        deficits := update s.deficits idx (s.deficits idx - f.req.data.length)
        sched := .refund i idx f.req.data.length }
  | empty {i : ℕ} {idx : Fin 256} (hsched : s.sched = .drain i idx) (hempty : s.places (.dataQueue idx) = []) :
      Scheduled s .next { s with deficits := update s.deficits idx 0, sched := .visit (i + 1) idx }
  | full {i : ℕ} {idx : Fin 256} (hsched : s.sched = .drain i idx) (hfull : 64 ≤ (s.places .batch).length) :
      Scheduled s .next { s with sched := .visit (i + 1) idx }
  | refund {i : ℕ} {idx : Fin 256} {need : ℕ} (hsched : s.sched = .refund i idx need) :
      Scheduled s .next { s with
        dataBudget := s.dataBudget + need
        sched := if s.deficits idx ≤ 0 then .visit (i + 1) idx else .drain i idx }
  | stop (hsched : s.sched = .wait ∨ s.sched = .send) : Scheduled s .stop { s with sched := .stopped }
  | wake (hsched : s.sched = .wait) : Scheduled s .notify { s with notifyCh := false, sched := .visit 0 s.round }
  | again (hsched : s.sched = .send) (hbatch : s.places .batch = []) :
      Scheduled s .next { s with sched := .visit 0 s.round }
  | output {f : Frame} {l : List Frame} {places : Place → List Frame} (hsched : s.sched = .send)
      (hbatch : s.places .batch = f :: l) (hmove : move s.places .batch .drrOutput = some places) :
      Scheduled s .drrOutput { s with places }

theorem schedStep_scheduled (h : schedStep s c = some t) : Scheduled s c t := by
  unfold schedStep at h
  split at h
  case h_1 i last hsched =>
    split at h <;> cases h
    case isTrue hgo => exact .visit hsched hgo.1 hgo.2
    case isFalse hend => exact .finish hsched (by omega)
  case h_2 i idx hsched =>
    split at h
    case isTrue =>
      split at h <;> cases h
      case h_1 f l places hhead hmove => exact .take hsched hhead hmove
      case h_2 hnone =>
        refine .empty hsched ?_
        by_contra hne
        obtain ⟨f, l, hhead⟩ := List.exists_cons_of_ne_nil hne
        exact hnone f l _ hhead (move_eq_some.mpr ⟨f, l, hhead, rfl⟩)
    case isFalse hfull => exact Option.some.inj h ▸ .full hsched (not_lt.mp hfull)
  case h_3 i idx need hsched => exact Option.some.inj h ▸ .refund hsched
  case h_4 hsched =>
    obtain ⟨-, h⟩ := ite_none_right_eq_some.mp h
    exact Option.some.inj h ▸ .stop (.inl hsched)
  case h_5 hsched =>
    obtain ⟨-, h⟩ := ite_none_right_eq_some.mp h
    exact Option.some.inj h ▸ .wake hsched
  case h_6 hsched =>
    obtain ⟨hbatch, h⟩ := ite_none_right_eq_some.mp h
    exact Option.some.inj h ▸ .again hsched hbatch
  case h_7 hsched =>
    obtain ⟨-, h⟩ := ite_none_right_eq_some.mp h
    exact Option.some.inj h ▸ .stop (.inr hsched)
  case h_8 hsched =>
    obtain ⟨-, h⟩ := ite_none_right_eq_some.mp h
    obtain ⟨places, hmove, rfl⟩ := map_eq_some_iff.mp h
    obtain ⟨f, l, hbatch, -⟩ := move_eq_some.mp hmove
    exact .output hsched hbatch hmove
  case h_9 => cases h

/-! ## The writer -/

/-- The program points between which the writer moves without touching a place. -/
inductive Passes : Writer → Writer → Prop where
  | credit (c : ℤ) : Passes .top (.select c)
  | again (c : ℤ) : Passes (.select c) .top
  | stop (c : ℤ) : Passes (.select c) .stopped
  | ctrl (c : ℤ) : Passes (.drainCtrl c) (.drainDns c)
  | dns (c : ℤ) : Passes (.drainDns c) (.drainData c)

/-- The channel that a drain loop reads and the slice that it fills. -/
inductive Drains (s : Peer) : Writer → Place → Place → Prop where
  | ctrl (c : ℤ) : Drains s (.drainCtrl c) .controlCh .ctrl
  | dns (c : ℤ) : Drains s (.drainDns c) .dnsQueue .dns
  | data (c : ℤ) (hroom : s.dataBytes < c) : Drains s (.drainData c) .drrOutput .data

/-- A step of the writer. -/
inductive Wrote (s : Peer) : Case → Peer → Prop where
  | pass {c : Case} {writer : Writer} (flowNotify : Bool) (hpass : Passes s.writer writer) :
      Wrote s c { s with writer, flowNotify }
  | zero {credit : ℤ} (hwriter : s.writer = .select credit) (hcredit : credit ≤ 0) :
      Wrote s .flowNotify { s with
        flowNotify := false
        places := push s.places .data Frame.zero
        writer := .drainCtrl credit }
  | first {c : Case} {credit : ℤ} {src : Place} {f : Frame} {l : List Frame} {places : Place → List Frame}
      (hwriter : s.writer = .select credit)
      (hsrc : src = .controlCh ∨ src = .dnsQueue ∨ src = .drrOutput ∧ 0 < credit)
      (hhead : s.places src = f :: l) (hmove : move s.places src f.slice = some places) :
      Wrote s c { s with places, writer := .drainCtrl credit }
  | drain {c : Case} {src dst : Place} {places : Place → List Frame} (hdrain : Drains s s.writer src dst)
      (hmove : move s.places src dst = some places) : Wrote s c { s with places }
  | collect {c : Case} {credit : ℤ} (hwriter : s.writer = .drainData credit) :
      Wrote s c { s with writer := .write }
  | write {c : Case} {writer : Writer} (hwriter : s.writer = .write) (hnext : writer = .top ∨ writer = .stopped) :
      Wrote s c { s with
        places := update (update (update s.places .ctrl []) .dns []) .data []
        sent := s.sent ++ [s.collected]
        writer }

theorem takeFirst_wrote {credit : ℤ} {src : Place} (hwriter : s.writer = .select credit)
    (hsrc : src = .controlCh ∨ src = .dnsQueue ∨ src = .drrOutput ∧ 0 < credit)
    (h : takeFirst s src credit = some t) : Wrote s c t := by
  unfold takeFirst at h
  split at h
  case h_1 => cases h
  case h_2 f l hhead =>
    obtain ⟨places, hmove, rfl⟩ := map_eq_some_iff.mp h
    exact .first hwriter hsrc hhead hmove

/-- A round of a drain loop takes a frame or goes on to the next loop. -/
theorem drainStep_cases (s : Peer) (src dst : Place) (go : Bool) (next : Writer) :
    (∃ places, go = true ∧ move s.places src dst = some places ∧ drainStep s src dst go next = { s with places }) ∨
      drainStep s src dst go next = { s with writer := next } := by
  unfold drainStep
  split
  case isTrue hgo =>
    split
    case h_1 places hmove => exact .inl ⟨places, hgo, hmove, rfl⟩
    case h_2 => exact .inr rfl
  case isFalse => exact .inr rfl

theorem writerStep_wrote (h : writerStep s c = some t) : Wrote s c t := by
  unfold writerStep at h
  split at h
  case h_1 credit hwriter => exact Option.some.inj h ▸ .pass _ (hwriter ▸ .credit credit)
  case h_2 credit hwriter =>
    obtain ⟨-, h⟩ := ite_none_right_eq_some.mp h
    exact Option.some.inj h ▸ .pass _ (hwriter ▸ .stop credit)
  case h_3 credit hwriter =>
    obtain ⟨-, h⟩ := ite_none_right_eq_some.mp h
    split at h <;> cases h
    · exact .pass _ (hwriter ▸ .again credit)
    case isFalse hcredit => exact .zero hwriter (not_lt.mp hcredit)
  case h_4 credit hwriter => exact takeFirst_wrote hwriter (.inl rfl) h
  case h_5 credit hwriter => exact takeFirst_wrote hwriter (.inr (.inl rfl)) h
  case h_6 credit hwriter =>
    obtain ⟨hcredit, h⟩ := ite_none_right_eq_some.mp h
    exact takeFirst_wrote hwriter (.inr (.inr ⟨rfl, hcredit⟩)) h
  case h_7 credit hwriter =>
    cases h
    rcases drainStep_cases s .controlCh .ctrl (s.collected.length < 64) (.drainDns credit) with
      ⟨places, -, hmove, heq⟩ | heq
    · exact heq ▸ .drain (hwriter ▸ .ctrl credit) hmove
    · exact heq ▸ .pass _ (hwriter ▸ .ctrl credit)
  case h_8 credit hwriter =>
    cases h
    rcases drainStep_cases s .dnsQueue .dns (s.collected.length < 64) (.drainData credit) with
      ⟨places, -, hmove, heq⟩ | heq
    · exact heq ▸ .drain (hwriter ▸ .dns credit) hmove
    · exact heq ▸ .pass _ (hwriter ▸ .dns credit)
  case h_9 credit hwriter =>
    cases h
    rcases drainStep_cases s .drrOutput .data (s.collected.length < 64 && s.dataBytes < credit) .write with
      ⟨places, hgo, hmove, heq⟩ | heq
    · have hroom : s.dataBytes < credit := of_decide_eq_true (Bool.and_eq_true_iff.mp hgo).2
      exact heq ▸ .drain (hwriter ▸ .data credit hroom) hmove
    · exact heq ▸ .collect hwriter
  case h_10 hwriter =>
    split at h <;> cases h
    · exact .write hwriter (.inl rfl)
    · exact .write hwriter (.inr rfl)
  case h_11 => cases h

theorem Frame.slice_cases (f : Frame) : f.slice = .ctrl ∨ f.slice = .dns ∨ f.slice = .data := by
  unfold slice
  split_ifs <;> simp

/-- The writer leaves the data queues and the batch of the scheduler alone. -/
theorem Wrote.places_eq (h : Wrote s c t) {p : Place} (hp : p = .batch ∨ ∃ q, p = .dataQueue q) :
    t.places p = s.places p := by
  cases h with
  | zero => rcases hp with rfl | ⟨q, rfl⟩ <;> simp [push]
  | @first c credit src f l places hwriter hsrc hhead hmove =>
    refine move_apply_of_ne hmove ?_ ?_
    · rcases hp with rfl | ⟨q, rfl⟩ <;> rcases hsrc with rfl | rfl | ⟨rfl, -⟩ <;> simp
    · rcases hp with rfl | ⟨q, rfl⟩ <;> rcases f.slice_cases with hf | hf | hf <;> simp [hf]
  | drain hdrain hmove =>
    generalize s.writer = writer at hdrain
    rcases hp with rfl | ⟨q, rfl⟩ <;> cases hdrain <;> exact move_apply_of_ne hmove (by simp) (by simp)
  | write => rcases hp with rfl | ⟨q, rfl⟩ <;> simp
  | _ => rfl

/-! ## All parties -/

/-- A step of the peer. -/
inductive Stepped (cls : Classifier) (s : Peer) : Label → Peer → Prop where
  | call {u : ℕ} {req : WriteReq} (hidle : s.enqueue u = .idle) :
      Stepped cls s (.call u req)
        { s with enqueue := update s.enqueue u (.called { req with dns := false }) }
  | enqueue {u : ℕ} {t : Peer} (h : Called cls s u t) : Stepped cls s (.enqueue u) t
  | sched {c : Case} {t : Peer} (h : Scheduled s c t) : Stepped cls s (.sched c) t
  | writer {c : Case} {t : Peer} (h : Wrote s c t) : Stepped cls s (.writer c) t
  | credit : Stepped cls s .credit { s with flowNotify := true }
  | stop : Stepped cls s .stop { s with stopCh := true }

theorem step_stepped {l : Label} (h : step cls s l = some t) : Stepped cls s l t := by
  cases l with
  | call u req =>
    obtain ⟨hidle, h⟩ := ite_none_right_eq_some.mp h
    exact Option.some.inj h ▸ .call hidle
  | enqueue u => exact .enqueue (enqueueStep_called h)
  | sched c => exact .sched (schedStep_scheduled h)
  | writer c => exact .writer (writerStep_wrote h)
  | credit => exact Option.some.inj h ▸ .credit
  | stop => exact Option.some.inj h ▸ .stop

end P2P
