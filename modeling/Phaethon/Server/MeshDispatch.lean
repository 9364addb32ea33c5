import Phaethon.Server.MeshChannel

/-!
# Mesh channels over h_tunnel: no frame is lost

While the channel is open every accepted frame is in a channel, in a delivery queue, in one batch of one GET handler,
or dropped by CoDel and counted (`Conserved`).
-/

namespace MeshChannel

open Function List Prod State

variable {p : Params} {s t : State}

/-! ## Batches -/

@[simp] theorem wire_nil : wire [] = 0 := rfl

@[simp] theorem wire_cons (m : Msg) (l : List Msg) : wire (m :: l) = m.wireSize + wire l := by simp [wire]

@[simp] theorem wire_append (l k : List Msg) : wire (l ++ k) = wire l + wire k := by simp [wire]

theorem wireSize_pos (m : Msg) : 0 < m.wireSize := by
  unfold Msg.wireSize
  omega

theorem wire_nonneg (l : List Msg) : 0 ≤ wire l := by
  induction l with
  | nil => simp
  | cons m l ih =>
    have := wireSize_pos m
    rw [wire_cons]
    omega

/-- A batch is within the limit unless it is a single frame. -/
def Fits (limit : ℤ) (batch : List Msg) : Prop := batch.length ≤ 1 ∨ wire batch ≤ limit

/-- A frame that the loops take keeps the batch within the limit. -/
theorem Fits.push {limit : ℤ} {batch : List Msg} {m : Msg} (h : ¬ (batch ≠ [] ∧ limit < wire batch + m.wireSize)) :
    Fits limit (batch ++ [m]) := by
  by_cases hbatch : batch = []
  · exact .inl (by simp [hbatch])
  · refine .inr ?_
    have : ¬ limit < wire batch + m.wireSize := fun hlt => h ⟨hbatch, hlt⟩
    rw [wire_append, wire_cons, wire_nil]
    omega

/-- What `takeFrames` takes: a start of the queue, and one frame at least into an empty batch. -/
structure TookFrames (limit : ℤ) (batch q : List Msg) (r : List Msg × ℤ × List Msg) (taken : List Msg) : Prop where
  queue : q = taken ++ r.2.2
  result : r.1 = batch ++ taken
  size : r.2.1 = wire r.1
  fits : Fits limit r.1
  nonempty : batch ≠ [] ∨ q ≠ [] → r.1 ≠ []

theorem takeFrames_spec {limit size : ℤ} {batch : List Msg} (q : List Msg) (hsize : size = wire batch)
    (hfits : Fits limit batch) : ∃ taken, TookFrames limit batch q (takeFrames limit batch size q) taken := by
  induction q generalizing batch size with
  | nil => exact ⟨[], rfl, by simp [takeFrames], by simp [takeFrames, hsize], hfits, by simp [takeFrames]⟩
  | cons m q ih =>
    rw [takeFrames]
    split
    case isTrue hfull => exact ⟨[], rfl, by simp, by simp [hsize], hfits, fun _ => hfull.1⟩
    case isFalse hroom =>
      rw [hsize] at hroom
      have hsize' : size + m.wireSize = wire (batch ++ [m]) := by simp [hsize]
      obtain ⟨taken, htook⟩ := ih hsize' (Fits.push hroom)
      refine ⟨m :: taken, ?_, ?_, htook.size, htook.fits, fun _ => htook.nonempty (.inl (by simp))⟩
      · rw [cons_append, ← htook.queue]
      · rw [htook.result, append_assoc, singleton_append]

/-- A nearly empty queue is never dropped from. -/
theorem shouldDrop_backlog {c : Codel} {sojourn now : ℤ} {backlog : ℕ} (h : backlog < 2) :
    (c.shouldDrop p sojourn now backlog).1 = false := by
  simp only [Codel.shouldDrop, Codel.okToDrop, h, or_true, if_true]
  split <;> rfl

/-- What `takeData` takes: a start of the queue, of which some mesh packets are dropped and counted. -/
structure TookData (p : Params) (t : Taking) (q : List (Msg × ℤ)) (r : Taking × List (Msg × ℤ))
    (taken : List (Msg × ℤ)) (kept drops : List Msg) : Prop where
  queue : q = taken ++ r.2
  batch : r.1.batch = t.batch ++ kept
  order : kept.Sublist (taken.map fst)
  dropped : r.1.dropped = t.dropped ++ drops
  split : (taken.map fst).Perm (kept ++ drops)
  packets : ∀ m ∈ drops, m.frameType = frameMeshPacket
  count : r.1.codelDrops = t.codelDrops + drops.length
  bytes : r.1.dataBytes = t.dataBytes - wire (taken.map fst)
  fits : Fits p.limit r.1.batch
  nonempty : t.batch ≠ [] ∨ q ≠ [] → r.1.batch ≠ []

theorem takeData_spec {t : Taking} (q : List (Msg × ℤ)) (hsize : t.size = wire t.batch)
    (hfits : Fits p.limit t.batch) (now : ℤ) :
    ∃ taken kept drops, TookData p t q (takeData p now t q) taken kept drops := by
  induction q generalizing t with
  | nil =>
    exact ⟨[], [], [], rfl, by simp [takeData], by simp, by simp [takeData], by simp, by simp, by simp [takeData],
      by simp [takeData], hfits, by simp [takeData]⟩
  | cons e q ih =>
    obtain ⟨m, enq⟩ := e
    rw [takeData]
    split
    case isTrue hfull =>
      exact ⟨[], [], [], rfl, by simp, by simp, by simp, by simp, by simp, by simp, by simp, hfits,
        fun _ => hfull.1⟩
    case isFalse hroom =>
      dsimp only
      split
      case isTrue hdrop =>
        obtain ⟨hdrop, hpacket⟩ : (t.codel.shouldDrop p (now - enq) now q.length).1 = true ∧
            m.frameType = frameMeshPacket := by simpa using hdrop
        -- The frame is dropped, so there are frames behind it.
        have hmore : q ≠ [] := by
          rintro rfl
          rw [shouldDrop_backlog (by simp)] at hdrop
          cases hdrop
        obtain ⟨taken, kept, drops, htook⟩ := ih
          (t := { t with
            dataBytes := t.dataBytes - m.wireSize
            codel := (t.codel.shouldDrop p (now - enq) now q.length).2
            codelDrops := t.codelDrops + 1
            dropped := t.dropped ++ [m] }) hsize hfits
        refine ⟨(m, enq) :: taken, kept, m :: drops, ?_, htook.batch, ?_, ?_, ?_, ?_, ?_, ?_, htook.fits,
          fun _ => htook.nonempty (.inr hmore)⟩
        · rw [cons_append, ← htook.queue]
        · exact htook.order.cons m
        · rw [htook.dropped]; simp
        · exact (htook.split.cons m).trans perm_middle.symm
        · exact forall_mem_cons.mpr ⟨hpacket, htook.packets⟩
        · rw [htook.count, length_cons]; dsimp only; omega
        · rw [htook.bytes, map_cons, wire_cons]; dsimp only; omega
      case isFalse hkeep =>
        rw [hsize] at hroom
        obtain ⟨taken, kept, drops, htook⟩ := ih
          (t := { t with
            dataBytes := t.dataBytes - m.wireSize
            codel := (t.codel.shouldDrop p (now - enq) now q.length).2
            batch := t.batch ++ [m]
            size := t.size + m.wireSize }) (by simp [hsize]) (Fits.push hroom)
        refine ⟨(m, enq) :: taken, m :: kept, drops, ?_, ?_, ?_, htook.dropped, ?_, htook.packets, htook.count, ?_,
          htook.fits, fun _ => htook.nonempty (.inl (by simp))⟩
        · rw [cons_append, ← htook.queue]
        · rw [htook.batch, append_assoc, singleton_append]
        · exact htook.order.cons_cons m
        · exact htook.split.cons m
        · rw [htook.bytes, map_cons, wire_cons]; dsimp only; omega

/-! ## Frames -/

/-- The frames of the batches that were handed out, in their order. -/
def State.delivered (s : State) : List Msg := s.handed.flatMap snd

/-- What a batch looks like: control before data, not empty, and within the limit unless it is a single frame. -/
structure Composed (limit : ℤ) (batch : List Msg) : Prop where
  parts : ∃ ctrl data, batch = ctrl ++ data ∧ (∀ m ∈ ctrl, m.control = true) ∧ ∀ m ∈ data, m.control = false
  nonempty : batch ≠ []
  fits : Fits limit batch

/-- Where the frames are, when the dispatcher has `hand`: those of a kind are in their order, from the batches back to
the channel. -/
structure Frames (p : Params) (hand : List Msg) (s : State) : Prop where
  ids : s.accepted.map Msg.id = List.range s.accepted.length
  control : s.delivered.filter (·.control) ++ s.ctrlQ ++ hand.filter (·.control) ++ s.meshCtrlOut =
    s.accepted.filter (·.control)
  data : ∃ taken, taken ++ s.dataQ.map fst ++ hand.filter (!·.control) ++ s.meshOut =
      s.accepted.filter (!·.control) ∧
    (s.delivered.filter (!·.control)).Sublist taken ∧ taken.Perm (s.delivered.filter (!·.control) ++ s.dropped)
  drops : s.codelDrops = s.dropped.length ∧ ∀ m ∈ s.dropped, m.frameType = frameMeshPacket
  batches : ∀ e ∈ s.handed, Composed p.limit e.2
  bytes : s.dataBytes = wire (s.dataQ.map fst)
  cap : wire (s.dataQ.map fst).dropLast < htMeshMaxQueuedBytes
  room : ∀ m ∈ hand, m.control = false → s.dataBytes < htMeshMaxQueuedBytes

namespace Frames

variable {hand : List Msg} {m : Msg} {rest : List Msg}

theorem ctrl_of_mem (h : Frames p hand s) (hm : m ∈ s.ctrlQ ∨ m ∈ s.meshCtrlOut) : m.control = true := by
  have hmem : m ∈ s.accepted.filter (·.control) := by
    rw [← h.control]
    rcases hm with hm | hm <;> simp [hm]
  exact (mem_filter.mp hmem).2

theorem data_of_mem (h : Frames p hand s) (hm : m ∈ s.dataQ.map fst ∨ m ∈ s.meshOut) : m.control = false := by
  obtain ⟨taken, heq, -⟩ := h.data
  have hmem : m ∈ s.accepted.filter (!·.control) := by
    rw [← heq]
    rcases hm with hm | hm <;> simp [hm]
  simpa using (mem_filter.mp hmem).2

/-- A sender puts a frame into its channel. -/
theorem push (h : Frames p hand s) (hid : m.id = s.accepted.length) (senders : ℕ → List (UInt8 × List UInt8 × Bool)) :
    Frames p hand
      { s with
        senders
        accepted := s.accepted ++ [m]
        meshCtrlOut := s.meshCtrlOut ++ [m].filter (·.control)
        meshOut := s.meshOut ++ [m].filter (!·.control) } := by
  obtain ⟨taken, heq, hdata⟩ := h.data
  refine ⟨?_, ?_, ⟨taken, ?_, hdata⟩, h.drops, h.batches, h.bytes, h.cap, h.room⟩
  · simp [h.ids, hid, range_succ]
  · rw [filter_append, ← h.control]; simp [delivered]
  · rw [filter_append, ← heq]; simp

/-- The dispatcher receives a control frame. -/
theorem receiveCtrl (h : Frames p [] s) (hout : s.meshCtrlOut = m :: rest) :
    Frames p [m] { s with meshCtrlOut := rest } := by
  have hm : m.control = true := h.ctrl_of_mem (.inr (by simp [hout]))
  have hcontrol := h.control
  obtain ⟨taken, heq, hdata⟩ := h.data
  refine ⟨h.ids, ?_, ⟨taken, ?_, hdata⟩, h.drops, h.batches, h.bytes, h.cap, by simp [hm]⟩
  · rw [hout] at hcontrol
    simpa [hm, delivered] using hcontrol
  · simpa [hm] using heq

/-- The dispatcher receives a data frame. -/
theorem receiveData (h : Frames p [] s) (hout : s.meshOut = m :: rest) (hroom : s.dataBytes < htMeshMaxQueuedBytes) :
    Frames p [m] { s with meshOut := rest } := by
  have hm : m.control = false := h.data_of_mem (.inr (by simp [hout]))
  obtain ⟨taken, heq, hdata⟩ := h.data
  refine ⟨h.ids, ?_, ⟨taken, ?_, hdata⟩, h.drops, h.batches, h.bytes, h.cap, fun _ _ _ => hroom⟩
  · simpa [hm, delivered] using h.control
  · rw [hout] at heq
    simpa [hm] using heq

/-- The frame goes onto its queue. -/
theorem route (h : Frames p [m] s) (now : ℤ) : Frames p [] (routeFrameLocked now m s) := by
  obtain ⟨taken, heq, hdata⟩ := h.data
  have hcontrol := h.control
  unfold routeFrameLocked
  split
  case isTrue hm =>
    refine ⟨h.ids, ?_, ⟨taken, ?_, hdata⟩, h.drops, h.batches, h.bytes, h.cap, by simp⟩
    · simpa [hm, delivered] using hcontrol
    · simpa [hm] using heq
  case isFalse hm =>
    have hm : m.control = false := by simpa using hm
    refine ⟨h.ids, ?_, ⟨taken, ?_, hdata⟩, h.drops, h.batches, ?_, ?_, by simp⟩
    · simpa [hm, delivered] using hcontrol
    · simpa [hm] using heq
    · simp [h.bytes]
    · have hroom := h.room m (by simp) hm
      rw [h.bytes] at hroom
      simpa using hroom

/-- What one batch takes from the queues. -/
theorem handBatch_eq (hmore : s.ctrlQ ≠ [] ∨ s.dataQ ≠ []) (now : ℤ) (w : ℕ) :
    ∃ ctrl ctrlQ taken dataQ kept drops codel,
      s.ctrlQ = ctrl ++ ctrlQ ∧ s.dataQ = taken ++ dataQ ∧ kept.Sublist (taken.map fst) ∧
        (taken.map fst).Perm (kept ++ drops) ∧ (∀ m ∈ drops, m.frameType = frameMeshPacket) ∧
        ctrl ++ kept ≠ [] ∧ Fits p.limit (ctrl ++ kept) ∧
        handBatch p now w s =
          { s with
            ctrlQ, dataQ
            dataBytes := s.dataBytes - wire (taken.map fst)
            dataCodel := codel
            codelDrops := s.codelDrops + drops.length
            dropped := s.dropped ++ drops
            batch := update s.batch w (some (ctrl ++ kept))
            handed := s.handed ++ [(w, ctrl ++ kept)] } := by
  have hsize : (0 : ℤ) = wire [] := rfl
  have hfits : Fits p.limit [] := .inl (by simp)
  obtain ⟨ctrl, hctrl⟩ := takeFrames_spec s.ctrlQ hsize hfits
  rcases hframes : takeFrames p.limit [] 0 s.ctrlQ with ⟨batch, size, ctrlQ⟩
  rw [hframes] at hctrl
  obtain rfl : batch = ctrl := hctrl.result
  have hdata := takeData_spec (p := p) (t := ⟨batch, size, s.dataBytes, s.dataCodel, s.codelDrops, s.dropped⟩) s.dataQ
    hctrl.size hctrl.fits
  obtain ⟨taken, kept, drops, hdata⟩ := hdata now
  rcases htaken : takeData p now ⟨batch, size, s.dataBytes, s.dataCodel, s.codelDrops, s.dropped⟩ s.dataQ with
    ⟨t, dataQ⟩
  rw [htaken] at hdata
  have hbatch : t.batch = batch ++ kept := hdata.batch
  have hnonempty : t.batch ≠ [] := hdata.nonempty (hmore.imp (fun hq => hctrl.nonempty (.inr hq)) id)
  refine ⟨batch, ctrlQ, taken, dataQ, kept, drops, t.codel, hctrl.queue, hdata.queue, hdata.order, hdata.split,
    hdata.packets, hbatch ▸ hnonempty, hbatch ▸ hdata.fits, ?_⟩
  rw [handBatch, buildBatchLocked]
  simp only [hframes, htaken, hbatch]
  rw [hdata.bytes, hdata.count, hdata.dropped]

theorem handOut (h : Frames p [] s) (hmore : s.ctrlQ ≠ [] ∨ s.dataQ ≠ []) (now : ℤ) (w : ℕ) :
    Frames p [] (handBatch p now w s) := by
  obtain ⟨ctrl, ctrlQ, taken, dataQ, kept, drops, codel, hctrlQ, hdataQ, horder, hsplit, hpackets, hnonempty, hfits,
    heq⟩ := handBatch_eq (p := p) hmore now w
  have hctrl : ∀ m ∈ ctrl, m.control = true := fun m hm => h.ctrl_of_mem (.inl (by simp [hctrlQ, hm]))
  have hkept : ∀ m ∈ kept, m.control = false := fun m hm => by
    refine h.data_of_mem (.inl ?_)
    rw [hdataQ, map_append]
    exact mem_append_left _ (horder.subset hm)
  have hdelivered : (s.handed ++ [(w, ctrl ++ kept)]).flatMap snd = s.delivered ++ (ctrl ++ kept) := by
    simp [delivered]
  have hfilterCtrl : (ctrl ++ kept).filter (·.control) = ctrl := by
    have hnone : kept.filter (·.control) = [] := filter_eq_nil_iff.mpr (by simpa using hkept)
    rw [filter_append, filter_eq_self.mpr hctrl, hnone, append_nil]
  have hfilterData : (ctrl ++ kept).filter (!·.control) = kept := by
    have hnone : ctrl.filter (!·.control) = [] := filter_eq_nil_iff.mpr (by simpa using hctrl)
    rw [filter_append, hnone, filter_eq_self.mpr (by simpa using hkept), nil_append]
  rw [heq]
  obtain ⟨before, hdata, hsub, hperm⟩ := h.data
  refine ⟨h.ids, ?_, ⟨before ++ taken.map fst, ?_, ?_, ?_⟩, ?_, ?_, ?_, ?_, by simp⟩
  · have hcontrol := h.control
    rw [hctrlQ] at hcontrol
    rw [delivered, hdelivered, filter_append, hfilterCtrl, ← hcontrol]
    simp
  · rw [hdataQ] at hdata
    rw [← hdata]
    simp
  · rw [delivered, hdelivered, filter_append, hfilterData]
    exact hsub.append horder
  · rw [delivered, hdelivered, filter_append, hfilterData]
    refine (hperm.append hsplit).trans ?_
    simp only [append_assoc]
    exact (perm_append_comm_assoc ..).append_left _
  · refine ⟨by simp [h.drops.1], fun m hm => ?_⟩
    rcases mem_append.mp hm with hm | hm
    · exact h.drops.2 m hm
    · exact hpackets m hm
  · intro e he
    rcases mem_append.mp he with he | he
    · exact h.batches e he
    · obtain rfl := mem_singleton.mp he
      exact ⟨⟨ctrl, kept, rfl, hctrl, hkept⟩, hnonempty, hfits⟩
  · rw [h.bytes, hdataQ, map_append, wire_append]
    dsimp only
    omega
  · have hcap := h.cap
    rw [hdataQ, map_append] at hcap
    by_cases hrest : dataQ = []
    · simp [hrest, htMeshMaxQueuedBytes]
    · rw [dropLast_append_of_ne_nil (by simpa using hrest), wire_append] at hcap
      have := wire_nonneg (taken.map fst)
      dsimp only
      omega

end Frames

/-! ## GET requests -/

/-- Where the waiters are, when the dispatcher has `hand`: each is registered once and is handed one batch at most,
which its handler has or will find. -/
structure Gets (hand : List ℕ) (s : State) : Prop where
  once : (s.waiters ++ hand ++ s.getWaiters ++ s.handed.map fst).Nodup
  begun : ∀ w ∈ s.waiters ++ hand ++ s.getWaiters ++ s.handed.map fst,
    s.handlers w ≠ .idle ∧ s.handlers w ≠ .registering
  waiting : ∀ w ∈ s.waiters ++ hand ++ s.getWaiters,
    s.done w = true ∨ s.handlers w = .waiting ∨ s.handlers w = .abandoning
  kept : ∀ e ∈ s.handed, s.handlers e.1 = .answered e.2 ∨ s.batch e.1 = some e.2 ∧
    (s.handlers e.1 = .waiting ∨ s.handlers e.1 = .abandoning ∨ s.handlers e.1 = .abandoned)
  batch : ∀ w b, s.batch w = some b → (w, b) ∈ s.handed
  answered : ∀ w b, s.handlers w = .answered b → (w, b) ∈ s.handed

namespace Gets

variable {hand : List ℕ} {w : ℕ}

/-- Waiters go from the channel to the dispatcher and on to the list, or are pruned. -/
theorem shrink (h : Gets hand s) {waiters hand' getWaiters : List ℕ}
    (hsub : (waiters ++ hand' ++ getWaiters).Sublist (s.waiters ++ hand ++ s.getWaiters)) :
    Gets hand' { s with waiters, getWaiters } where
  once := h.once.sublist (hsub.append_right _)
  begun w hw := h.begun w ((hsub.append_right _).subset hw)
  waiting w hw := h.waiting w (hsub.subset hw)
  kept := h.kept
  batch := h.batch
  answered := h.answered

theorem addWaiter (h : Gets [w] s) : Gets [] (addWaiterLocked w s) := by
  refine h.shrink ?_
  rw [append_nil, pruneStale]
  exact ((dropWhile_sublist _).append_right _).append_right _

/-- A waiter whose handler has not given up is handed a batch. -/
theorem handOut {ws : List ℕ} {b : List Msg} (h : Gets [] { s with waiters := w :: ws }) (hdone : s.done w = false)
    (hwaiters : t.waiters = ws) (hget : t.getWaiters = s.getWaiters) (hhanded : t.handed = s.handed ++ [(w, b)])
    (hbatch : t.batch = update s.batch w (some b)) (hsame : t.done = s.done ∧ t.handlers = s.handlers) :
    Gets [] t := by
  have hstate : s.handlers w = .waiting ∨ s.handlers w = .abandoning :=
    (h.waiting w (by simp)).resolve_left (by simp [hdone])
  have hperm : (ws ++ [] ++ s.getWaiters ++ (s.handed ++ [(w, b)]).map fst).Perm
      (w :: ws ++ [] ++ s.getWaiters ++ s.handed.map fst) := by
    rw [map_append, ← append_assoc]
    exact perm_append_singleton w _
  have hnew (e : ℕ × List Msg) (he : e ∈ s.handed) : e.1 ≠ w := by
    rintro rfl
    have hnodup := h.once
    simp only [append_nil, cons_append, nodup_cons] at hnodup
    exact hnodup.1 (mem_append_right _ (mem_map_of_mem he))
  constructor
  · rw [hwaiters, hget, hhanded]
    exact hperm.nodup_iff.mpr h.once
  · rw [hwaiters, hget, hhanded, hsame.2]
    exact fun v hv => h.begun v (hperm.mem_iff.mp hv)
  · rw [hwaiters, hget, hsame.1, hsame.2]
    exact fun v hv => h.waiting v (mem_cons_of_mem w hv)
  · rw [hhanded, hbatch, hsame.2]
    intro e he
    rcases mem_append.mp he with he | he
    · rw [update_of_ne (hnew e he)]
      exact h.kept e he
    · obtain rfl := mem_singleton.mp he
      exact .inr ⟨update_self .., hstate.imp id .inl⟩
  · rw [hhanded, hbatch]
    intro v c hv
    by_cases hvw : v = w
    · subst hvw
      rw [update_self] at hv
      exact mem_append_right _ (by simp [Option.some.inj hv])
    · rw [update_of_ne hvw] at hv
      exact mem_append_left _ (h.batch v c hv)
  · rw [hhanded, hsame.2]
    exact fun v c hv => mem_append_left _ (h.answered v c hv)

section

variable (h : Gets hand s)

include h

/-- A handler goes on. -/
theorem setHandler (w : ℕ) (new : Handler)
    (hbegun : w ∈ s.waiters ++ hand ++ s.getWaiters ++ s.handed.map fst → new ≠ .idle ∧ new ≠ .registering)
    (hwaiting : w ∈ s.waiters ++ hand ++ s.getWaiters → s.done w = true ∨ new = .waiting ∨ new = .abandoning)
    (hkept : ∀ b, (w, b) ∈ s.handed → new = .answered b ∨ s.batch w = some b ∧
      (new = .waiting ∨ new = .abandoning ∨ new = .abandoned))
    (hanswered : ∀ b, new = .answered b → (w, b) ∈ s.handed) :
    Gets hand { s with handlers := update s.handlers w new } := by
  refine ⟨h.once, fun v hv => ?_, fun v hv => ?_, fun e he => ?_, h.batch, fun v b hv => ?_⟩
  · by_cases hvw : v = w
    · subst hvw; simpa using hbegun hv
    · simpa [hvw] using h.begun v hv
  · by_cases hvw : v = w
    · subst hvw; simpa using hwaiting hv
    · simpa [hvw] using h.waiting v hv
  · by_cases hvw : e.1 = w
    · subst hvw; simpa using hkept e.2 he
    · simpa [hvw] using h.kept e he
  · by_cases hvw : v = w
    · subst hvw; exact hanswered b (by simpa using hv)
    · exact h.answered v b (by simpa [hvw] using hv)

/-- A handler takes its batch. -/
theorem receive {b : List Msg} (hb : s.batch w = some b)
    (hstate : s.handlers w = .waiting ∨ s.handlers w = .abandoned) :
    Gets hand
      { s with
        batch := update s.batch w none
        handlers := update s.handlers w (.answered b) } := by
  have hmem := h.batch w b hb
  have honly (c : List Msg) (hc : (w, c) ∈ s.handed) : b = c := by
    rcases h.kept _ hc with hans | ⟨hc, -⟩
    · rcases hstate with hstate | hstate <;> simp [hstate] at hans
    · exact Option.some.inj (hb.symm.trans hc)
  have hpending : w ∉ s.waiters ++ hand ++ s.getWaiters := fun hw =>
    (nodup_append.mp h.once).2.2 w hw w (mem_map_of_mem hmem) rfl
  have hset := h.setHandler w (.answered b) (by simp) (fun hw => absurd hw hpending)
    (fun c hc => .inl (by rw [honly c hc])) (fun c hc => by cases hc; exact hmem)
  refine ⟨hset.once, hset.begun, hset.waiting, fun e he => ?_, fun v c hv => ?_, hset.answered⟩
  · by_cases hvw : e.1 = w
    · refine .inl ?_
      obtain ⟨v, c⟩ := e
      obtain rfl : v = w := hvw
      rw [honly c he]
      exact update_self ..
    · refine (hset.kept e he).imp id fun hkept => ⟨?_, hkept.2⟩
      exact (update_of_ne hvw ..).trans hkept.1
  · by_cases hvw : v = w
    · subst hvw; simp at hv
    · exact h.batch v c (by simpa [hvw] using hv)

/-- A handler that is not in any list registers. -/
theorem register (hw : s.handlers w = .registering) : Gets hand { s with
        getWaiters := s.getWaiters ++ [w]
        handlers := update s.handlers w .waiting } := by
  have hnew : w ∉ s.waiters ++ hand ++ s.getWaiters ++ s.handed.map fst := fun hmem => (h.begun w hmem).2 hw
  have hset := h.setHandler w .waiting (fun hmem => absurd hmem hnew)
    (fun hmem => absurd (mem_append_left _ hmem) hnew)
    (fun b hb => absurd (mem_append_right _ (mem_map_of_mem hb)) hnew) (by simp)
  have hperm : (s.waiters ++ hand ++ (s.getWaiters ++ [w]) ++ s.handed.map fst).Perm
      (w :: (s.waiters ++ hand ++ s.getWaiters ++ s.handed.map fst)) := by
    rw [← append_assoc (s.waiters ++ hand), append_assoc _ [w]]
    exact perm_middle
  refine ⟨hperm.nodup_iff.mpr (nodup_cons.mpr ⟨hnew, h.once⟩), fun v hv => ?_, fun v hv => ?_, hset.kept,
    hset.batch, hset.answered⟩
  · rcases mem_cons.mp (hperm.mem_iff.mp hv) with rfl | hv
    · simp
    · exact hset.begun v hv
  · rw [← append_assoc] at hv
    rcases mem_append.mp hv with hv | hv
    · exact hset.waiting v hv
    · obtain rfl := mem_singleton.mp hv
      simp

theorem setDone (w : ℕ) : Gets hand { s with done := update s.done w true } := by
  refine ⟨h.once, h.begun, fun v hv => (h.waiting v hv).imp (fun hdone => ?_) id, h.kept, h.batch, h.answered⟩
  by_cases hvw : v = w
  · subst hvw; exact update_self ..
  · exact (update_of_ne hvw ..).trans hdone

end

end Gets

/-! ## Steps -/

/-- The frame that the dispatcher has received and not yet put onto a queue. -/
def State.hand (s : State) : List Msg :=
  match s.dispatcher with
  | .lock (.frame m) => [m]
  | _ => []

/-- The waiter that the dispatcher has received and not yet put onto its list. -/
def State.handWaiter (s : State) : List ℕ :=
  match s.dispatcher with
  | .lock (.waiter w) => [w]
  | _ => []

structure Sound (p : Params) (s : State) : Prop where
  frames : Frames p s.hand s
  gets : Gets s.handWaiter s

theorem flushLoop_sound (clock : ℕ → ℤ) (ws : List ℕ) (hframes : Frames p [] s)
    (hgets : Gets [] { s with waiters := ws }) :
    Frames p [] (flushLoop p clock ws s) ∧ Gets [] (flushLoop p clock ws s) := by
  induction ws generalizing s with
  | nil => exact ⟨{ hframes with }, hgets⟩
  | cons w ws ih =>
    rw [flushLoop]
    split
    case isTrue => exact ⟨{ hframes with }, hgets⟩
    case isFalse hmore =>
      split
      case isTrue => exact ih hframes (hgets.shrink (((sublist_cons_self w ws).append_right _).append_right _))
      case isFalse hdone =>
        have hqueued : s.ctrlQ ≠ [] ∨ s.dataQ ≠ [] := not_and_or.mp hmore
        refine ih (hframes.handOut hqueued (clock w) w) ?_
        exact hgets.handOut (by simpa using hdone) rfl rfl rfl rfl ⟨rfl, rfl⟩

theorem flush_sound (clock : ℕ → ℤ) (hframes : Frames p [] s) (hgets : Gets [] s) :
    Frames p [] (flushLocked p clock s) ∧ Gets [] (flushLocked p clock s) := by
  refine flushLoop_sound clock _ hframes (hgets.shrink ?_)
  exact ((dropWhile_sublist _).append_right _).append_right _

/-- The dispatcher goes on, with nothing in its hands. -/
theorem Sound.goto {d : Dispatcher} (hd : ∀ task, d ≠ .lock task) (hframes : Frames p [] s) (hgets : Gets [] s) :
    Sound p { s with dispatcher := d } := by
  have hhand : ({ s with dispatcher := d } : State).hand = [] := by cases d <;> first | rfl | exact absurd rfl (hd _)
  have hwaiter : ({ s with dispatcher := d } : State).handWaiter = [] := by
    cases d <;> first | rfl | exact absurd rfl (hd _)
  refine ⟨?_, ?_⟩
  · rw [hhand]; exact { hframes with }
  · rw [hwaiter]; exact { hgets with }

theorem dispatchStep_sound {c : Case} {clock : ℕ → ℤ} (h : Sound p s) (hstep : dispatchStep p s c clock = some t) :
    Sound p t := by
  obtain ⟨hframes, hgets⟩ := h
  unfold hand at hframes
  unfold handWaiter at hgets
  unfold dispatchStep at hstep
  split at hstep
  case h_1 hd =>
    rw [hd] at hframes hgets
    split at hstep <;> cases hstep
    case h_1 m rest hout => exact ⟨{ hframes.receiveCtrl hout with }, { hgets with }⟩
  case h_2 hd =>
    rw [hd] at hframes hgets
    split at hstep
    case isTrue hroom =>
      split at hstep <;> cases hstep
      case h_1 m rest hout => exact ⟨{ hframes.receiveData hout hroom with }, { hgets with }⟩
    case isFalse => cases hstep
  case h_3 hd =>
    rw [hd] at hframes hgets
    split at hstep <;> cases hstep
    case h_1 w rest hget =>
      have hgets' : Gets [w] { s with getWaiters := rest } := hgets.shrink (by simp [hget])
      exact ⟨{ hframes with }, { hgets' with }⟩
  case h_4 hd =>
    rw [hd] at hframes hgets
    split at hstep <;> cases hstep
    exact .goto (by simp) hframes hgets
  case h_5 m hd =>
    rw [hd] at hframes hgets
    refine Option.some.inj hstep ▸ .goto (by simp) (hframes.route (clock 0)) ?_
    unfold routeFrameLocked
    split <;> exact { hgets with }
  case h_6 w hd =>
    rw [hd] at hframes hgets
    exact Option.some.inj hstep ▸ .goto (by simp) { hframes with } hgets.addWaiter
  case h_7 hd =>
    rw [hd] at hframes hgets
    exact Option.some.inj hstep ▸ .goto (by simp) hframes hgets
  case h_8 n hd =>
    rw [hd] at hframes hgets
    split at hstep <;> cases hstep
    case h_1 m rest hout =>
      refine .goto (by simp) ((hframes.receiveCtrl hout).route (clock 0)) ?_
      unfold routeFrameLocked
      split <;> exact { hgets with }
  case h_9 n hd =>
    rw [hd] at hframes hgets
    split at hstep
    case isTrue hroom =>
      split at hstep <;> cases hstep
      case h_1 m rest hout =>
        refine .goto (by simp) ((hframes.receiveData hout hroom.2).route (clock 0)) ?_
        unfold routeFrameLocked
        split <;> exact { hgets with }
    case isFalse => exact Option.some.inj hstep ▸ .goto (by simp) hframes hgets
  case h_10 hd =>
    rw [hd] at hframes hgets
    exact Option.some.inj hstep ▸ .goto (by simp) hframes hgets
  case h_11 n hd =>
    rw [hd] at hframes hgets
    split at hstep <;> cases hstep
    case h_1 w rest hget =>
      have hgets' : Gets [w] { s with getWaiters := rest } := hgets.shrink (by simp [hget])
      exact .goto (by simp) { hframes with } hgets'.addWaiter
  case h_12 hd =>
    rw [hd] at hframes hgets
    obtain ⟨hframes', hgets'⟩ := flush_sound clock hframes hgets
    exact Option.some.inj hstep ▸ .goto (by simp) hframes' hgets'
  case h_13 => cases hstep

theorem handlerStep_sound {w : ℕ} {c : Case} (h : Sound p s) (hopen : s.closed = false)
    (hstep : handlerStep s w c = some t) : Sound p t := by
  obtain ⟨hframes, hgets⟩ := h
  have hlisted (hw : s.handlers w = .idle ∨ s.handlers w = .registering) :
      w ∉ s.waiters ++ s.handWaiter ++ s.getWaiters ++ s.handed.map fst := fun hmem =>
    hw.elim (hgets.begun w hmem).1 (hgets.begun w hmem).2
  have hunhanded (hw : s.handlers w = .idle ∨ s.handlers w = .registering) (b : List Msg) : (w, b) ∉ s.handed :=
    fun hmem => hlisted hw (mem_append_right _ (mem_map_of_mem hmem))
  unfold handlerStep at hstep
  split at hstep
  case h_1 hw =>
    have hnew := hgets.setHandler w .registering (fun hmem => absurd hmem (hlisted (.inl hw)))
      (fun hmem => absurd (mem_append_left _ hmem) (hlisted (.inl hw)))
      (fun b hb => absurd hb (hunhanded (.inl hw) b)) (by simp)
    exact Option.some.inj hstep ▸ ⟨{ hframes with }, hnew⟩
  case h_2 hw =>
    split at hstep <;> cases hstep
    exact ⟨{ hframes with }, hgets.register hw⟩
  case h_3 hw =>
    have hnew := hgets.setHandler w .timedOut (by simp)
      (fun hmem => absurd (mem_append_left _ hmem) (hlisted (.inr hw)))
      (fun b hb => absurd hb (hunhanded (.inr hw) b)) (by simp)
    exact Option.some.inj hstep ▸ ⟨{ hframes with }, hnew⟩
  case h_4 hw => simp [hopen] at hstep
  case h_5 hw =>
    split at hstep <;> cases hstep
    case h_1 b hb => exact ⟨{ hframes with }, hgets.receive hb (.inl hw)⟩
  case h_6 hw =>
    have hnew := hgets.setHandler w .abandoning (by simp) (by simp)
      (fun b hb => by simpa [hw] using hgets.kept _ hb) (by simp)
    exact Option.some.inj hstep ▸ ⟨{ hframes with }, hnew⟩
  case h_7 hw => simp [hopen] at hstep
  case h_8 hw =>
    split at hstep <;> cases hstep
    have hnew := (hgets.setDone w).setHandler w .abandoned (by simp) (fun _ => .inl (update_self ..))
      (fun b hb => by simpa [hw] using hgets.kept _ hb) (by simp)
    exact ⟨{ hframes with }, hnew⟩
  case h_9 hw =>
    split at hstep <;> cases hstep
    case h_1 b hb => exact ⟨{ hframes with }, hgets.receive hb (.inr hw)⟩
    case h_2 hnone =>
      -- The handler has no batch, and none was handed to it.
      have hnew := hgets.setHandler w .timedOut (by simp)
        (fun hmem => by simpa [hw] using hgets.waiting w hmem)
        (fun b hb => by simpa [hw, hnone] using hgets.kept _ hb) (by simp)
      exact ⟨{ hframes with }, hnew⟩
  case h_10 hw =>
    split at hstep <;> cases hstep
    have hnew := (hgets.setDone w).setHandler w .gone (by simp) (fun _ => .inl (update_self ..))
      (fun b hb => by simpa [hw] using hgets.kept _ hb) (by simp)
    exact ⟨{ hframes with }, hnew⟩
  case h_11 => cases hstep

theorem step_sound {l : Label} (h : Sound p s) (hopen : s.closed = false) (hstep : step p s l = some t) :
    Sound p t := by
  cases l with
  | send u frames =>
    simp only [step] at hstep
    split at hstep <;> cases hstep
    exact ⟨{ h.frames with }, { h.gets with }⟩
  | push u =>
    simp only [step, pushStep] at hstep
    split at hstep
    case h_1 => cases hstep
    case h_2 frameType payload control rest _ =>
      have hid : (⟨s.accepted.length, frameType, payload, control⟩ : Msg).id = s.accepted.length := rfl
      have hframes := h.frames.push hid (update s.senders u rest)
      cases control with
      | true =>
        simp only [filter_cons, filter_nil, Bool.not_true, Bool.false_eq_true, if_true, if_false,
          append_nil] at hframes hstep
        split at hstep <;> cases hstep
        exact ⟨hframes, { h.gets with }⟩
      | false =>
        simp only [filter_cons, filter_nil, Bool.not_false, Bool.false_eq_true, if_true, if_false,
          append_nil] at hframes hstep
        split at hstep <;> cases hstep
        exact ⟨hframes, { h.gets with }⟩
  | dispatch c clock => exact dispatchStep_sound h hstep
  | handler w c => exact handlerStep_sound h hopen hstep
  | close => exact Option.some.inj hstep ▸ ⟨{ h.frames with }, { h.gets with }⟩

/-! ## Runs -/

/-- What the dispatcher keeps while the channel is open. -/
structure Conserved (p : Params) (s : State) : Prop where
  /-- frames are told apart -/
  ids : (s.accepted.map Msg.id).Nodup
  /-- every accepted frame is in one place, once -/
  places : s.accepted.Perm (s.meshCtrlOut ++ s.meshOut ++ s.hand ++ s.ctrlQ ++ s.dataQ.map fst ++ s.delivered ++
    s.dropped)
  /-- between its rounds the dispatcher has nothing in its hands -/
  hand : s.dispatcher = .select ∨ s.dispatcher.holds → s.hand = []
  drops : s.codelDrops = s.dropped.length ∧ ∀ m ∈ s.dropped, m.frameType = frameMeshPacket
  control : s.delivered.filter (·.control) ++ s.ctrlQ ++ s.hand.filter (·.control) ++ s.meshCtrlOut =
    s.accepted.filter (·.control)
  data : (s.delivered.filter (!·.control) ++ s.dataQ.map fst ++ s.hand.filter (!·.control) ++ s.meshOut).Sublist
    (s.accepted.filter (!·.control))
  batches : ∀ e ∈ s.handed, Composed p.limit e.2
  /-- a batch is handed to one waiter, and a waiter gets one batch at most -/
  once : (s.handed.map fst).Nodup
  /-- the handler of the waiter has answered with the batch, or the batch is there for it to take -/
  kept : ∀ e ∈ s.handed, s.handlers e.1 = .answered e.2 ∨ s.batch e.1 = some e.2 ∧
    (s.handlers e.1 = .waiting ∨ s.handlers e.1 = .abandoning ∨ s.handlers e.1 = .abandoned)
  answered : ∀ w b, s.handlers w = .answered b → (w, b) ∈ s.handed
  bytes : s.dataBytes = wire (s.dataQ.map fst)
  cap : wire (s.dataQ.map fst).dropLast < htMeshMaxQueuedBytes

theorem Sound.conserved (h : Sound p s) : Conserved p s where
  ids := by rw [h.frames.ids]; exact nodup_range
  places := by
    obtain ⟨taken, hdata, -, hperm⟩ := h.frames.data
    have hsplit (l : List Msg) (a : Msg) :
        (l.filter (·.control)).count a + (l.filter (!·.control)).count a = l.count a := by
      rw [← count_append]
      exact (filter_append_perm (·.control) l).count_eq a
    refine perm_iff_count.mpr fun a => ?_
    have haccepted := hsplit s.accepted a
    have hdelivered := hsplit s.delivered a
    have hhand := hsplit s.hand a
    have htaken := hperm.count_eq a
    rw [← h.frames.control, ← hdata] at haccepted
    simp only [count_append] at haccepted htaken ⊢
    omega
  hand := by
    rintro hd
    unfold hand
    split
    case h_1 hlock => rcases hd with hd | hd <;> simp [hlock, Dispatcher.holds] at hd
    case h_2 => rfl
  drops := h.frames.drops
  control := h.frames.control
  data := by
    obtain ⟨taken, hdata, hsub, -⟩ := h.frames.data
    rw [← hdata]
    exact ((hsub.append_right _).append_right _).append_right _
  batches := h.frames.batches
  once := (nodup_append.mp h.gets.once).2.1
  kept := h.gets.kept
  answered := h.gets.answered
  bytes := h.frames.bytes
  cap := h.frames.cap

theorem Sound.init : Sound p {} where
  frames := ⟨rfl, rfl, ⟨[], rfl, by simp [delivered], by simp [delivered]⟩, by simp, by simp, rfl,
    by simp [htMeshMaxQueuedBytes], by simp [hand]⟩
  gets := ⟨by simp [handWaiter], by simp [handWaiter], by simp [handWaiter], by simp, by simp, by simp⟩

theorem closed_route (now : ℤ) (m : Msg) (s : State) : (routeFrameLocked now m s).closed = s.closed := by
  unfold routeFrameLocked
  split <;> rfl

theorem closed_flushLoop (clock : ℕ → ℤ) (ws : List ℕ) (s : State) : (flushLoop p clock ws s).closed = s.closed := by
  induction ws generalizing s with
  | nil => rfl
  | cons w ws ih =>
    rw [flushLoop]
    split
    · rfl
    · split
      · exact ih s
      · exact ih _

/-- A closed channel stays closed. -/
theorem closed_step {l : Label} (hstep : step p s l = some t) (hclosed : s.closed = true) : t.closed = true := by
  cases l with
  | send u frames =>
    simp only [step] at hstep
    split at hstep <;> grind
  | push u =>
    simp only [step, pushStep] at hstep
    split at hstep <;> grind
  | dispatch c clock =>
    simp only [step, dispatchStep, flushLocked] at hstep
    split at hstep <;> grind [closed_route, closed_flushLoop, addWaiterLocked]
  | handler w c =>
    simp only [step, handlerStep] at hstep
    split at hstep <;> grind
  | close => exact Option.some.inj hstep ▸ rfl

/-- In every run, while the channel is open, no frame is lost or delivered twice. -/
theorem dispatcher_conserves (p : Params) (labels : List Label) (s : State)
    (hrun : Lts.exec (step p) {} labels = some s) (hopen : s.closed = false) : Conserved p s := by
  have hkeep (s : State) (l : Label) (t : State) (h : s.closed = false → Sound p s) (hstep : step p s l = some t)
      (hopen : t.closed = false) : Sound p t := by
    have hopen : s.closed = false := by
      by_contra hclosed
      simp [closed_step hstep (by simpa using hclosed)] at hopen
    exact step_sound (h hopen) hopen hstep
  have hsound : s.closed = false → Sound p s := Lts.exec_preserves hkeep (fun _ => Sound.init) hrun
  exact (hsound hopen).conserved

/-- A packet and a control frame are sent, and a GET request times out while the dispatcher builds its batch. -/
def lateTimeout : List Label :=
  [.send 0 [(0x20, [1], false), (0x12, [], true)], .push 0, .push 0, .handler 7 .next, .handler 7 .push,
    .dispatch .waiter (fun _ => 5), .dispatch .next (fun _ => 5), .dispatch .next (fun _ => 5),
    .dispatch .next (fun _ => 5), .dispatch .ctrl (fun _ => 5), .handler 7 .timer, .dispatch .next (fun _ => 5),
    .dispatch .next (fun _ => 6), .dispatch .next (fun _ => 6), .dispatch .next (fun _ => 6),
    .dispatch .next (fun _ => 7), .handler 7 .next, .handler 7 .next]

theorem dispatcher_conserves_lateTimeout :
    ∃ s, Lts.exec (step ⟨524288, fun t _ => t⟩) {} lateTimeout = some s ∧ s.closed = false ∧
      s.handlers 7 = .answered [⟨1, 0x12, [], true⟩, ⟨0, 0x20, [1], false⟩] ∧
      Conserved ⟨524288, fun t _ => t⟩ s := by
  refine ⟨_, rfl, rfl, rfl, ?_⟩
  exact dispatcher_conserves ⟨524288, fun t _ => t⟩ lateTimeout _ rfl rfl

end MeshChannel
