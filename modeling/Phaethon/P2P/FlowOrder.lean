import Phaethon.P2P.Budget
import Phaethon.P2P.SenderSteps

/-!
# Order of the frames that a peer sends

Frames with the same entry keep their order on the way to `collectWriteBatch`, so those of one flow leave in the order
in which they were enqueued, if one goroutine enqueues them.
-/

namespace P2P

open Transit Function List P2P.Frame Peer

/-! ## What is ordered -/

/-- A batch within its credit: without credit it has no data but the zero value that a credit notification leaves,
and with credit only the last data frame may go beyond it. -/
structure Within (credit : ℤ) (data : List Frame) : Prop where
  pos : 0 < credit → bytes data.dropLast < credit
  none : credit ≤ 0 → ∀ f ∈ data, f = Frame.zero

/-- What `collectWriteBatch` returns: control frames, then DNS frames, then data frames. -/
structure Composed (credit : ℤ) (batch : List Frame) : Prop where
  parts : ∃ ctrl dns data, batch = ctrl ++ dns ++ data ∧
    (∀ f ∈ ctrl, f.slice = .ctrl) ∧ (∀ f ∈ dns, f.slice = .dns) ∧ (∀ f ∈ data, f.slice = .data) ∧ Within credit data

/-- The order of what leaves `collectWriteBatch`: in each batch, and in each class over all batches. The frames of
a class come in the order in which they were put into its channel. -/
structure Ordered (s : Peer) (j : Journal) : Prop where
  batches : ∀ b ∈ collectedBatches s j, Composed b.1 b.2
  control : (outgoing s j).filter (fun f => f.slice = .ctrl) <+: s.accepted.reverse.filter fun f => f.slice = .ctrl
  dns : (outgoing s j).filter (fun f => f.slice = .dns) <+: s.accepted.reverse.filter fun f => f.slice = .dns
  data : (outgoing s j).filter Frame.isData <+: j.outputs

/-- A call is over. -/
def Enqueue.over : Enqueue → Bool
  | .returned _ => true
  | _ => false

/-- Packets of the flow are enqueued by one goroutine: a call with one starts when all earlier ones are over. -/
def OneGoroutine (flow : Flow) (s : Peer × Journal) : Label → Prop
  | .call _ req => req.flow = some flow → ∀ c ∈ s.2.calls, c.2.flow = some flow → (s.1.enqueue c.1).over = true
  | _ => True

instance (flow : Flow) (s : Peer × Journal) : ∀ l, Decidable (OneGoroutine flow s l)
  | .call .. => inferInstanceAs (Decidable (_ → ∀ c ∈ s.2.calls, _ → _))
  | .enqueue _ | .sched _ | .writer _ | .credit | .stop => .isTrue trivial

/-! ## Frames stay on their paths -/

variable {cls : Classifier} {s t : Peer} {j k : Journal} {places places' : Place → List Frame} {p q : Place}

variable {f : Frame} {e : Entry}

theorem slice_marked (h : f.req.Marked cls e) : f.slice = e.slice := h.slice

/-- Every frame is where it may be. -/
def AllFit (cls : Classifier) (places : Place → List Frame) : Prop := ∀ p, ∀ f ∈ places p, Fits cls p f

theorem AllFit.push (h : AllFit cls places) (hf : Fits cls p f) : AllFit cls (Transit.push places p f) := by
  intro q g hg
  by_cases hq : q = p
  · subst hq
    rw [Transit.push, update_self, mem_append, mem_singleton] at hg
    rcases hg with hg | rfl
    · exact h q g hg
    · exact hf
  · rw [Transit.push, update_of_ne hq] at hg
    exact h q g hg

theorem AllFit.pop (h : AllFit cls places) {l : List Frame} (hl : l ⊆ places p) :
    AllFit cls (update places p l) := by
  intro q g hg
  by_cases hq : q = p
  · subst hq
    rw [update_self] at hg
    exact h q g (hl hg)
  · rw [update_of_ne hq] at hg
    exact h q g hg

/-- The zero value goes nowhere but into a batch. -/
theorem Edge.fits (h : Edge p q) (hf : Fits cls p f) : Fits cls q f := by
  rcases hf with ⟨hcall, e, hmarked, hp⟩ | ⟨-, rfl⟩
  · obtain ⟨before, after, hpath⟩ := h.along hp
    exact .inl ⟨hcall, e, hmarked, by simp [hpath]⟩
  · cases h

theorem AllFit.move (h : AllFit cls places) (hedge : Edge p q) (hmove : Transit.move places p q = some places') :
    AllFit cls places' := by
  obtain ⟨f, l, hp, rfl⟩ := move_eq_some.mp hmove
  refine (h.pop (by simp [hp])).push (hedge.fits (h p f (by simp [hp])))

/-- The first frame of a batch goes to the slice of its channel. -/
theorem edge_slice (hf : Fits cls p f) (hp : p = .controlCh ∨ p = .dnsQueue ∨ p = .drrOutput) : Edge p f.slice := by
  rcases hf with ⟨-, e, hmarked, hpath⟩ | ⟨-, rfl⟩
  · rw [slice_marked hmarked]
    rcases hp with rfl | rfl | rfl <;> cases e <;> simp_all [Entry.path, Entry.slice, Entry.behind]
    · exact .ctrl
    · exact .dns
    · exact .data
  · simp at hp

/-- Frames with one entry keep their order. -/
theorem line_has_move (h : AllFit cls places) (hedge : Edge p q) (hmove : Transit.move places p q = some places')
    (e : Entry) : line (Frame.has cls e) e.path places' = line (Frame.has cls e) e.path places := by
  obtain ⟨f, l, hp, -⟩ := move_eq_some.mp hmove
  cases hhas : f.has cls e with
  | false => exact line_move_of_false hmove (by simp [hp, hhas])
  | true =>
    obtain ⟨hcall, hentry⟩ : f.call.isSome = true ∧ f.req.entry cls = e := by simpa [Frame.has] using hhas
    rcases h p f (by simp [hp]) with ⟨-, e', hmarked, hpath⟩ | ⟨rfl, -⟩
    · obtain rfl : e' = e := hmarked.entry.symm.trans hentry
      obtain ⟨before, after, heq⟩ := hedge.along hpath
      have hnodup := e'.nodup_path
      rw [heq] at hnodup ⊢
      exact line_move_along hnodup hmove
    · simp [Frame.zero] at hcall

/-- Frames keep the order in which they were put into `drrOutput`. -/
theorem line_isData_move (hedge : Edge p q) (hp : p ≠ .batch) (hmove : Transit.move places p q = some places') :
    line Frame.isData [.data, .drrOutput] places' = line Frame.isData [.data, .drrOutput] places := by
  have hoff (hpq : p ≠ .data ∧ p ≠ .drrOutput ∧ q ≠ .data ∧ q ≠ .drrOutput) :
      line Frame.isData [.data, .drrOutput] places' = line Frame.isData [.data, .drrOutput] places := by
    obtain ⟨f, l, -, rfl⟩ := move_eq_some.mp hmove
    rw [line_push_of_notMem (by simp [hpq]), line_update_of_notMem (by simp [hpq])]
  cases hedge with
  | schedule i => exact hoff (by simp)
  | output => exact absurd rfl hp
  | ctrl => exact hoff (by simp)
  | dns => exact hoff (by simp)
  | data =>
    have hnodup : ([] ++ Place.data :: .drrOutput :: []).Nodup := by simp
    exact line_move_along hnodup hmove

variable {req : WriteReq} {u : ℕ}

/-- An arriving frame goes to the end of its own line. -/
theorem line_has_arrive (hmarked : req.Marked cls e) (e' : Entry) :
    line (Frame.has cls e') e'.path (Transit.push places e.place ⟨some u, req⟩) =
      line (Frame.has cls e') e'.path places ++ [⟨some u, req⟩].filter (Frame.has cls e') := by
  by_cases he : e' = e
  · subst he
    have hhas : Frame.has cls e' ⟨some u, req⟩ = true := by simp [Frame.has, hmarked.entry]
    have hpath : ∃ path, e'.path = path ++ [e'.place] ∧ e'.place ∉ path := by
      cases e' with
      | control => exact ⟨[.ctrl], rfl, by simp [Entry.place]⟩
      | dns => exact ⟨[.dns], rfl, by simp [Entry.place]⟩
      | data i => exact ⟨[.data, .drrOutput, .batch], rfl, by simp [Entry.place]⟩
    obtain ⟨path, heq, hnot⟩ := hpath
    rw [heq, line_push_start hnot hhas]
    simp [hhas]
  · have hhas : Frame.has cls e' ⟨some u, req⟩ = false := by simp [Frame.has, hmarked.entry, Ne.symm he]
    rw [line_push_of_false hhas]
    simp [hhas]

/-- Of the collected frames, those with an entry are in its slice. -/
theorem filter_collected (h : AllFit cls s.places) (e : Entry) :
    s.collected.filter (Frame.has cls e) = (s.places e.slice).filter (Frame.has cls e) := by
  have hnone (p : Place) (hp : p ∉ e.path) : (s.places p).filter (Frame.has cls e) = [] := by
    refine filter_eq_nil_iff.mpr fun f hf hhas => hp ?_
    obtain ⟨hcall, hentry⟩ : f.call.isSome = true ∧ f.req.entry cls = e := by simpa [Frame.has] using hhas
    rcases h p f hf with ⟨-, e', hmarked, hpath⟩ | ⟨rfl, -⟩
    · obtain rfl : e' = e := hmarked.entry.symm.trans hentry
      exact hpath
    · simp [Frame.zero] at hcall
  rw [collected, filter_append, filter_append]
  cases e with
  | control =>
    rw [hnone .dns (by simp [Entry.path, Entry.slice, Entry.behind]),
      hnone .data (by simp [Entry.path, Entry.slice, Entry.behind])]
    simp [Entry.slice]
  | dns =>
    rw [hnone .ctrl (by simp [Entry.path, Entry.slice, Entry.behind]),
      hnone .data (by simp [Entry.path, Entry.slice, Entry.behind])]
    simp [Entry.slice]
  | data i =>
    rw [hnone .ctrl (by simp [Entry.path, Entry.slice, Entry.behind]),
      hnone .dns (by simp [Entry.path, Entry.slice, Entry.behind])]
    simp [Entry.slice]

theorem filter_collected_isData (h : AllFit cls s.places) :
    s.collected.filter Frame.isData = (s.places .data).filter Frame.isData := by
  have hnone (p : Place) (hp : p = .ctrl ∨ p = .dns) : (s.places p).filter Frame.isData = [] := by
    refine filter_eq_nil_iff.mpr fun f hf hdata => ?_
    obtain ⟨-, hslice⟩ : f.call.isSome = true ∧ f.slice = .data := by simpa [Frame.isData] using hdata
    rcases h p f hf with ⟨-, e, hmarked, hpath⟩ | ⟨-, rfl⟩
    · rw [slice_marked hmarked] at hslice
      rcases hp with rfl | rfl <;> cases e <;> simp_all [Entry.path, Entry.slice, Entry.behind]
    · simp at hp
  rw [collected, filter_append, filter_append, hnone .ctrl (.inl rfl), hnone .dns (.inr rfl)]
  simp

/-! ## The invariant -/

/-- What the writer has collected so far is within its credit. -/
def Collecting (s : Peer) (j : Journal) : Prop :=
  match s.writer with
  | .top => s.collected = []
  | .select _ => s.collected = []
  | .stopped => s.collected = []
  | .drainCtrl credit => Within credit (s.places .data)
  | .drainDns credit => Within credit (s.places .data)
  | .drainData credit => Within credit (s.places .data)
  | .write => Within j.credit (s.places .data)

/-- Frames are on their paths and have kept their order, and batches are within their credit. -/
structure Order (cls : Classifier) (s : Peer) (j : Journal) : Prop where
  fits : AllFit cls s.places
  sent : s.sent = j.batches.map Prod.snd
  known : ∀ f, f ∈ s.sent.flatten ∨ f ∈ s.accepted → f = Frame.zero ∨ f.call.isSome ∧ ∃ e, f.req.Marked cls e
  lines : ∀ e, s.sent.flatten.filter (Frame.has cls e) ++ line (Frame.has cls e) e.path s.places =
    s.accepted.reverse.filter (Frame.has cls e)
  outputs : s.sent.flatten.filter Frame.isData ++ line Frame.isData [.data, .drrOutput] s.places = j.outputs
  collecting : Collecting s j
  composed : ∀ b ∈ j.batches, Composed b.1 b.2

theorem Order.init : Order cls {} {} where
  fits := by simp [AllFit]
  sent := rfl
  known := by simp
  lines e := by simp [line]
  outputs := by simp [line]
  collecting := rfl
  composed := by simp

theorem Within.nil (credit : ℤ) : Within credit [] := ⟨fun h => by simpa [bytes] using h, by simp⟩

theorem Fits.known (h : Fits cls p f) : f = Frame.zero ∨ f.call.isSome ∧ ∃ e, f.req.Marked cls e := by
  rcases h with ⟨hcall, e, hmarked, -⟩ | ⟨hzero, -⟩
  · exact .inr ⟨hcall, e, hmarked⟩
  · exact .inl hzero

/-- Frames that move where the writer does not look. -/
theorem Collecting.of_same (h : Collecting s j) (hwriter : t.writer = s.writer)
    (hslices : ∀ p, p = .ctrl ∨ p = .dns ∨ p = .data → t.places p = s.places p) : Collecting t j := by
  have hcollected : t.collected = s.collected := by
    rw [collected, collected, hslices _ (.inl rfl), hslices _ (.inr (.inl rfl)),
      hslices _ (.inr (.inr rfl))]
  unfold Collecting at h ⊢
  rw [hwriter, hcollected, hslices _ (.inr (.inr rfl))]
  exact h

/-- A frame moves on. -/
theorem Order.move (h : Order cls s j) (hedge : Edge p q) (hmove : Transit.move s.places p q = some t.places)
    (hsent : t.sent = s.sent) (haccepted : t.accepted = s.accepted) (hbatches : k.batches = j.batches)
    (houtputs : s.sent.flatten.filter Frame.isData ++ line Frame.isData [.data, .drrOutput] t.places = k.outputs)
    (hcollecting : Collecting t k) : Order cls t k where
  fits := h.fits.move hedge hmove
  sent := by rw [hsent, hbatches, h.sent]
  known := by rw [hsent, haccepted]; exact h.known
  lines e := by rw [hsent, haccepted, line_has_move h.fits hedge hmove e, h.lines]
  outputs := by rw [hsent, houtputs]
  collecting := hcollecting
  composed := by rw [hbatches]; exact h.composed

/-- A frame enters `drrOutput`. -/
theorem line_isData_output {l : List Frame} (hfits : AllFit cls s.places)
    (hbatch : s.places .batch = f :: l) (hmove : Transit.move s.places .batch .drrOutput = some places) :
    line Frame.isData [.data, .drrOutput] places = line Frame.isData [.data, .drrOutput] s.places ++ [f] := by
  obtain ⟨f', l', hbatch', rfl⟩ := move_eq_some.mp hmove
  obtain ⟨rfl, rfl⟩ := List.cons.inj (hbatch.symm.trans hbatch')
  have hdata : f.isData = true := by
    rcases hfits .batch f (by simp [hbatch]) with ⟨hcall, e, hmarked, hpath⟩ | ⟨-, hplace⟩
    · have hslice : e.slice = .data := by cases e <;> simp_all [Entry.path, Entry.slice, Entry.behind]
      simp [Frame.isData, hcall, slice_marked hmarked, hslice]
    · cases hplace
  have hnot : Place.drrOutput ∉ [.data] := by simp
  have hpush := line_push_start (q := update s.places .batch l) hnot hdata
  rw [singleton_append] at hpush
  rw [hpush, line_update_of_notMem (by simp)]

/-- The batch at hand, when it is complete. -/
theorem Order.composed_collected (h : Order cls s j) (hwriter : s.writer = .write) :
    Composed j.credit s.collected := by
  have hslice (e : Place) (he : e = .ctrl ∨ e = .dns ∨ e = .data) (f : Frame) (hf : f ∈ s.places e) :
      f.slice = e := by
    rcases h.fits e f hf with ⟨-, e', hmarked, hpath⟩ | ⟨rfl, rfl⟩
    · rw [slice_marked hmarked]
      rcases he with rfl | rfl | rfl <;> cases e' <;> simp_all [Entry.path, Entry.slice, Entry.behind]
    · rfl
  have hwithin := h.collecting
  simp only [Collecting, hwriter] at hwithin
  exact ⟨_, _, _, rfl, hslice _ (.inl rfl), hslice _ (.inr (.inl rfl)), hslice _ (.inr (.inr rfl)), hwithin⟩

theorem Order.arrive (h : Order cls s j) {dst : Place} (enqueue : ℕ → Enqueue)
    (hclassified : (Enqueue.insert req dst).Classified cls) :
    Order cls
      { s with
        places := Transit.push s.places dst ⟨some u, req⟩
        accepted := ⟨some u, req⟩ :: s.accepted
        enqueue } j := by
  obtain ⟨e, hmarked, rfl⟩ := hclassified
  have hplace : e.place ∈ e.path := by cases e <;> simp [Entry.place, Entry.path, Entry.behind]
  have hoff (p : Place) (hp : p = .ctrl ∨ p = .dns ∨ p = .data ∨ p = .drrOutput) : p ≠ e.place := by
    rintro rfl
    cases e <;> simp [Entry.place] at hp
  refine ⟨h.fits.push (.inl ⟨rfl, e, hmarked, hplace⟩), h.sent, ?_, fun e' => ?_, ?_, ?_, h.composed⟩
  · rintro f (hf | hf)
    · exact h.known f (.inl hf)
    · rcases mem_cons.mp hf with rfl | hf
      · exact .inr ⟨rfl, e, hmarked⟩
      · exact h.known f (.inr hf)
  · rw [line_has_arrive hmarked e', ← append_assoc, h.lines e', reverse_cons, filter_append]
  · rw [line_push_of_notMem (by simp [(hoff .data (by simp)).symm, (hoff .drrOutput (by simp)).symm]), h.outputs]
  · refine h.collecting.of_same rfl fun p hp => ?_
    exact update_of_ne (hoff p (by tauto)) ..

theorem Order.write (h : Order cls s j) (hwriter : s.writer = .write) {writer : Writer}
    (hnext : writer = .top ∨ writer = .stopped) :
    Order cls
      { s with
        places := update (update (update s.places .ctrl []) .dns []) .data []
        sent := s.sent ++ [s.collected]
        writer } { j with batches := j.batches ++ [(j.credit, s.collected)] } := by
  have hbehind (e : Entry) : ∀ p ∈ e.behind, p ≠ .ctrl ∧ p ≠ .dns ∧ p ≠ .data := by
    cases e <;> simp [Entry.behind]
  have hcleared (e : Entry) :
      update (update (update s.places .ctrl []) .dns []) .data [] e.slice = [] := by
    cases e <;> simp [Entry.slice]
  refine ⟨((h.fits.pop (by simp)).pop (by simp)).pop (by simp), ?_, ?_, fun e => ?_, ?_, ?_, ?_⟩
  · simp [h.sent]
  · rintro f (hf | hf)
    · rw [flatten_append, mem_append, flatten_singleton] at hf
      rcases hf with hf | hf
      · exact h.known f (.inl hf)
      · simp only [collected, mem_append] at hf
        rcases hf with (hf | hf) | hf
        · exact (h.fits _ f hf).known
        · exact (h.fits _ f hf).known
        · exact (h.fits _ f hf).known
    · exact h.known f (.inr hf)
  · -- What was at the end of the line is sent now.
    rw [← h.lines e, flatten_append, flatten_singleton, filter_append, filter_collected h.fits e,
      append_assoc]
    congr 1
    have hrest : line (Frame.has cls e) e.behind
        (update (update (update s.places .ctrl []) .dns []) .data []) =
          line (Frame.has cls e) e.behind s.places := by
      refine line_congr fun p hp => ?_
      obtain ⟨hctrl, hdns, hdata⟩ := hbehind e p hp
      rw [update_of_ne hdata, update_of_ne hdns, update_of_ne hctrl]
    simp only [line, Entry.path, flatMap_cons] at hrest ⊢
    rw [hrest, hcleared e]
    simp
  · rw [← h.outputs, flatten_append, flatten_singleton, filter_append, filter_collected_isData h.fits]
    simp [line]
  · rcases hnext with rfl | rfl <;> simp [Collecting, collected]
  · intro b hb
    rcases mem_append.mp hb with hb | hb
    · exact h.composed b hb
    · obtain rfl := mem_singleton.mp hb
      exact h.composed_collected hwriter

variable {credit : ℤ}

/-- Data is collected while it is below the credit. -/
theorem Within.push {data : List Frame} (hroom : bytes data < credit) (f : Frame) : Within credit (data ++ [f]) where
  pos _ := by rw [dropLast_concat]; exact hroom
  none hcredit := absurd (bytes_nonneg data) (by omega)

theorem Collecting.pass (h : Collecting s j) {writer : Writer} {flowNotify : Bool} (hpass : Passes s.writer writer) :
    Collecting { s with writer, flowNotify } j := by
  unfold Collecting at h ⊢
  generalize s.writer = w at h hpass
  cases hpass with
  | credit => exact h
  | again => exact h
  | stop => exact h
  | ctrl => exact h
  | dns => exact h

section

variable (h : Order cls s j)

include h

/-- Frames move into the batch at hand. -/
theorem Order.drain (hdrain : Drains s s.writer p q)
    (hmove : Transit.move s.places p q = some places) : Order cls { s with places } j := by
  have hcollecting := h.collecting
  generalize hwriter : s.writer = w at hcollecting hdrain
  cases hdrain with
  | ctrl c =>
    have hdata : places .data = s.places .data := move_apply_of_ne hmove (by simp) (by simp)
    refine h.move .ctrl hmove rfl rfl rfl ?_ ?_
    · rw [line_isData_move .ctrl (by simp) hmove, h.outputs]
    · simpa [Collecting, hwriter, hdata] using hcollecting
  | dns c =>
    have hdata : places .data = s.places .data := move_apply_of_ne hmove (by simp) (by simp)
    refine h.move .dns hmove rfl rfl rfl ?_ ?_
    · rw [line_isData_move .dns (by simp) hmove, h.outputs]
    · simpa [Collecting, hwriter, hdata] using hcollecting
  | data c hroom =>
    refine h.move .data hmove rfl rfl rfl ?_ ?_
    · rw [line_isData_move .data (by simp) hmove, h.outputs]
    · obtain ⟨f, l, -, rfl⟩ := move_eq_some.mp hmove
      simpa [Collecting, hwriter, Transit.push] using Within.push hroom f

/-- The first frame moves into an empty batch. -/
theorem Order.first {l : List Frame}
    (hwriter : s.writer = .select credit) (hp : p = .controlCh ∨ p = .dnsQueue ∨ p = .drrOutput ∧ 0 < credit)
    (hhead : s.places p = f :: l) (hmove : Transit.move s.places p f.slice = some places) :
    Order cls { s with places, writer := .drainCtrl credit } j := by
  have hempty : s.collected = [] := by simpa [Collecting, hwriter] using h.collecting
  have hdata : s.places .data = [] := by
    simp only [collected, append_eq_nil_iff] at hempty
    exact hempty.2
  have hsource : p = .controlCh ∨ p = .dnsQueue ∨ p = .drrOutput := by tauto
  have hedge : Edge p f.slice := edge_slice (h.fits p f (by simp [hhead])) hsource
  refine h.move hedge hmove rfl rfl rfl ?_ ?_
  · rw [line_isData_move hedge (by rintro rfl; simp at hsource) hmove, h.outputs]
  · show Within credit (places .data)
    by_cases hslice : f.slice = .data
    · have hcredit : 0 < credit := by
        rw [hslice] at hedge
        cases hedge
        simpa using hp
      obtain ⟨f', l', -, rfl⟩ := move_eq_some.mp hmove
      have hroom : bytes (s.places .data) < credit := by rw [hdata]; simpa [bytes] using hcredit
      have hpush := Within.push hroom f'
      have hne : Place.data ≠ p := by rintro rfl; simp at hsource
      rw [hslice, Transit.push, update_self, update_of_ne hne]
      exact hpush
    · rw [move_apply_of_ne hmove (by rintro rfl; simp at hsource) (Ne.symm hslice), hdata]
      exact Within.nil credit

theorem Order.zero (hwriter : s.writer = .select credit) (hcredit : credit ≤ 0) :
    Order cls
      { s with
        flowNotify := false
        places := Transit.push s.places .data Frame.zero
        writer := .drainCtrl credit } j := by
  have hempty : s.collected = [] := by simpa [Collecting, hwriter] using h.collecting
  have hdata : s.places .data = [] := by
    simp only [collected, append_eq_nil_iff] at hempty
    exact hempty.2
  refine ⟨h.fits.push (.inr ⟨rfl, rfl⟩), h.sent, h.known, fun e => ?_, ?_, ?_, h.composed⟩
  · rw [line_push_of_false (by simp [Frame.has, Frame.zero]), h.lines]
  · rw [line_push_of_false (by simp [Frame.isData, Frame.zero]), h.outputs]
  · show Within credit (Transit.push s.places .data Frame.zero .data)
    rw [Transit.push, update_self, hdata, nil_append]
    refine ⟨fun hpos => absurd hpos (by omega), fun _ f hf => mem_singleton.mp hf⟩

/-- Every step keeps the order. -/
theorem Order.turn (hcalls : ∀ u, (s.enqueue u).Classified cls) (hturn : Turn s j t k) :
    Order cls t k := by
  cases hturn with
  | other => exact ⟨h.fits, h.sent, h.known, h.lines, h.outputs, h.collecting, h.composed⟩
  | @arrive u req dst hcall enqueue =>
    have hclassified := hcalls u
    rw [hcall] at hclassified
    exact h.arrive enqueue hclassified
  | @schedule i places hmove deficits sched =>
    refine h.move (.schedule i) hmove rfl rfl rfl ?_ ?_
    · rw [line_isData_move (.schedule i) (by simp) hmove, h.outputs]
    · exact h.collecting.of_same rfl fun p hp =>
        move_apply_of_ne hmove (by rintro rfl; simp at hp) (by rintro rfl; simp at hp)
  | @output f l places hbatch hmove =>
    refine h.move .output hmove rfl rfl rfl ?_ ?_
    · rw [line_isData_output h.fits hbatch hmove, ← append_assoc, h.outputs]
    · exact h.collecting.of_same rfl fun p hp =>
        move_apply_of_ne hmove (by rintro rfl; simp at hp) (by rintro rfl; simp at hp)
  | pass flowNotify hpass =>
    exact ⟨h.fits, h.sent, h.known, h.lines, h.outputs, h.collecting.pass hpass, h.composed⟩
  | zero hwriter hcredit => exact h.zero hwriter hcredit
  | first hwriter hsrc hhead hmove => exact h.first hwriter hsrc hhead hmove
  | drain hdrain hmove => exact h.drain hdrain hmove
  | collect hwriter =>
    have hwithin := h.collecting
    simp only [Collecting, hwriter] at hwithin
    exact ⟨h.fits, h.sent, h.known, h.lines, h.outputs, hwithin, h.composed⟩
  | write hwriter hnext => exact h.write hwriter hnext

end

/-! ## Calls of one flow -/

/-- The calls with packets of a flow, in their order. -/
def flowCalls (flow : Flow) (j : Journal) : List (Option ℕ × WriteReq) :=
  (j.calls.filter fun c => c.2.flow = some flow).map fun c => (some c.1, c.2.plain)

/-- The call that a frame came with. -/
def Frame.origin (f : Frame) : Option ℕ × WriteReq := (f.call, f.req.plain)

/-- The accepted frames of a flow, in their order. -/
def flowAccepted (flow : Flow) (s : Peer) : List (Option ℕ × WriteReq) :=
  (s.accepted.reverse.filter (Frame.inFlow flow)).map origin

theorem flow_plain (req : WriteReq) : req.plain.flow = req.flow := rfl

variable {l : Label}

theorem calls_observe (hlabel : ∀ u req, l ≠ .call u req) : (observe s l t j).calls = j.calls := by
  cases l with
  | call u req => exact absurd rfl (hlabel u req)
  | enqueue u => rfl
  | sched c =>
    simp only [observe]
    split <;> simp_all
  | writer c =>
    simp only [observe]
    split <;> rfl
  | credit => rfl
  | stop => rfl

/-- Every call is recorded under a number of its own. -/
structure Numbered (s : Peer) (j : Journal) : Prop where
  nodup : (j.calls.map Prod.fst).Nodup
  begun : ∀ c ∈ j.calls, s.enqueue c.1 ≠ .idle

theorem Numbered.step (h : Numbered s j) (hadvance : Advance cls s t l) : Numbered t (observe s l t j) := by
  have hupdate {u : ℕ} {pc : Enqueue} (hpc : pc ≠ .idle) (v : ℕ) (hv : s.enqueue v ≠ .idle) :
      update s.enqueue u pc v ≠ .idle := by
    by_cases huv : v = u
    · subst huv; rwa [update_self]
    · rwa [update_of_ne huv]
  cases hadvance with
  | @call u req hidle henqueue =>
    refine ⟨?_, fun c hc => ?_⟩
    · rw [observe, map_append, nodup_append]
      refine ⟨h.nodup, by simp, ?_⟩
      rintro a ha b hb rfl
      obtain ⟨c, hc, rfl⟩ := mem_map.mp ha
      refine h.begun c hc ?_
      rw [show c.1 = u by simpa using hb, hidle]
    · rw [henqueue]
      rcases mem_append.mp hc with hc | hc
      · exact hupdate (by simp) _ (h.begun c hc)
      · obtain rfl := mem_singleton.mp hc
        simp
  | enqueue hcall =>
    obtain ⟨pc, henqueue, hpc, -⟩ := hcall.next
    exact ⟨h.nodup, fun c hc => henqueue ▸ hupdate hpc _ (h.begun c hc)⟩
  | other hlabel henqueue =>
    have hcalls := calls_observe (s := s) (t := t) (j := j) hlabel
    refine ⟨by rw [hcalls]; exact h.nodup, fun c hc => ?_⟩
    rw [hcalls] at hc
    exact henqueue ▸ h.begun c hc

/-- Frames of the flow are accepted in the order of their calls; the request that is yet to be inserted belongs to
the latest call. -/
structure Single (flow : Flow) (s : Peer) (j : Journal) : Prop where
  settled : (flowAccepted flow s).Sublist (flowCalls flow j)
  pending : ∀ u req, (s.enqueue u).request = some req → req.flow = some flow →
    ∃ done, flowCalls flow j = done ++ [(some u, req.plain)] ∧ (flowAccepted flow s).Sublist done

variable {flow : Flow}

theorem Single.of_same (h : Single flow s j) (hcalls : k.calls = j.calls)
    (haccepted : flowAccepted flow t = flowAccepted flow s) (hrequest : ∀ u req, (t.enqueue u).request = some req →
      ∃ old, (s.enqueue u).request = some old ∧ req.plain = old.plain) : Single flow t k := by
  have hflow : flowCalls flow k = flowCalls flow j := by rw [flowCalls, hcalls, flowCalls]
  refine ⟨by rw [haccepted, hflow]; exact h.settled, fun u req hreq hin => ?_⟩
  obtain ⟨old, hold, hplain⟩ := hrequest u req hreq
  have hinold : old.flow = some flow := by rw [← flow_plain old, ← hplain]; exact hin
  obtain ⟨done, heq, hdone⟩ := h.pending u old hold hinold
  exact ⟨done, by rw [hflow, heq, hplain], by rw [haccepted]; exact hdone⟩

/-- A call with a packet of the flow starts when no other has one to insert. -/
theorem Single.call (h : Single flow s j) (hone : OneGoroutine flow (s, j) (.call u req))
    (henqueue : t.enqueue = update s.enqueue u (.called req.plain)) (haccepted : t.accepted = s.accepted) :
    Single flow t { j with calls := j.calls ++ [(u, req)] } := by
  have hsame : flowAccepted flow t = flowAccepted flow s := by rw [flowAccepted, haccepted, flowAccepted]
  by_cases hin : req.flow = some flow
  · have hcalls : flowCalls flow { j with calls := j.calls ++ [(u, req)] } =
        flowCalls flow j ++ [(some u, req.plain)] := by simp [flowCalls, hin]
    refine ⟨by rw [hsame, hcalls]; exact h.settled.trans (sublist_append_left ..), fun v r hr hv => ?_⟩
    by_cases hvu : v = u
    · subst hvu
      rw [henqueue, update_self] at hr
      cases hr
      exact ⟨flowCalls flow j, hcalls, by rw [hsame]; exact h.settled⟩
    · rw [henqueue, update_of_ne hvu] at hr
      obtain ⟨done, heq, -⟩ := h.pending v r hr hv
      have hmem : (some v, r.plain) ∈ flowCalls flow j := by simp [heq]
      obtain ⟨c, hc, heqc⟩ := mem_map.mp hmem
      obtain ⟨hc, hcflow⟩ := mem_filter.mp hc
      have hover := hone hin c hc (by simpa using hcflow)
      cases hpc : s.enqueue v <;> simp_all [Enqueue.over, Enqueue.request]
  · have hcalls : flowCalls flow { j with calls := j.calls ++ [(u, req)] } = flowCalls flow j := by
      simp [flowCalls, hin]
    refine ⟨by rw [hsame, hcalls]; exact h.settled, fun v r hr hv => ?_⟩
    by_cases hvu : v = u
    · subst hvu
      rw [henqueue, update_self] at hr
      cases hr
      exact absurd hv hin
    · rw [henqueue, update_of_ne hvu] at hr
      rw [hsame, hcalls]
      exact h.pending v r hr hv

/-- The request of the latest call is accepted. -/
theorem Single.accept {pc : Enqueue} (h : Single flow s j)
    (hreq : (s.enqueue u).request = some req) (henqueue : t.enqueue = update s.enqueue u pc)
    (haccepted : t.accepted = ⟨some u, req⟩ :: s.accepted) (hpc : pc.request = none) : Single flow t j := by
  have hother (v : ℕ) (r : WriteReq) (hr : (t.enqueue v).request = some r) :
      v ≠ u ∧ (s.enqueue v).request = some r := by
    by_cases hvu : v = u
    · subst hvu
      rw [henqueue, update_self, hpc] at hr
      cases hr
    · rw [henqueue, update_of_ne hvu] at hr
      exact ⟨hvu, hr⟩
  by_cases hin : req.flow = some flow
  · obtain ⟨done, heq, hdone⟩ := h.pending u req hreq hin
    have hacc : flowAccepted flow t = flowAccepted flow s ++ [(some u, req.plain)] := by
      simp [flowAccepted, haccepted, Frame.inFlow, hin, origin]
    refine ⟨by rw [hacc, heq]; exact hdone.append_right _, fun v r hr hv => ?_⟩
    obtain ⟨hvu, hr⟩ := hother v r hr
    obtain ⟨done', heq', -⟩ := h.pending v r hr hv
    have hlast := append_inj_right' (heq'.symm.trans heq) rfl
    exact absurd (by simpa using congrArg (fun l => l.map Prod.fst) hlast) hvu
  · have hacc : flowAccepted flow t = flowAccepted flow s := by
      simp [flowAccepted, haccepted, Frame.inFlow, hin]
    exact h.of_same rfl hacc fun v r hr => ⟨r, (hother v r hr).2, rfl⟩

theorem Single.step (h : Single flow s j) (hone : OneGoroutine flow (s, j) l)
    (hadvance : Advance cls s t l) : Single flow t (observe s l t j) := by
  cases hadvance with
  | call hidle henqueue haccepted => exact h.call hone henqueue haccepted
  | @enqueue u hcall =>
    obtain ⟨pc, henqueue, -, -, hrequest, haccepted⟩ := hcall.next
    rcases haccepted with haccepted | ⟨req, hreq, haccepted, hnone⟩
    · refine h.of_same rfl (by rw [flowAccepted, haccepted, flowAccepted]) fun v r hr => ?_
      by_cases hvu : v = u
      · subst hvu
        rw [henqueue, update_self] at hr
        exact hrequest r hr
      · rw [henqueue, update_of_ne hvu] at hr
        exact ⟨r, hr, rfl⟩
    · exact h.accept hreq henqueue haccepted hnone
  | other hlabel henqueue haccepted =>
    refine h.of_same (calls_observe hlabel) (by rw [flowAccepted, haccepted, flowAccepted]) fun v r hr => ?_
    rw [henqueue] at hr
    exact ⟨r, hr, rfl⟩

/-! ## Runs -/

/-- What holds of a peer with its journal. -/
structure Sound (cls : Classifier) (x : Peer × Journal) : Prop where
  classified : ∀ u, (x.1.enqueue u).Classified cls
  numbered : Numbered x.1 x.2
  order : Order cls x.1 x.2

theorem Sound.init : Sound cls ({}, {}) where
  classified _ := trivial
  numbered := ⟨by simp, by simp⟩
  order := Order.init

theorem Sound.step {x y : Peer × Journal} (h : Sound cls x) (hstep : traced cls x l = some y) : Sound cls y := by
  obtain ⟨hstep, hobserve⟩ := Lts.recorded_eq_some.mp hstep
  have hadvance := step_advance hstep
  refine ⟨hadvance.classified h.classified, ?_, ?_⟩
  · rw [← hobserve]; exact h.numbered.step hadvance
  · rw [← hobserve]; exact h.order.turn h.classified (step_turn hstep)

/-- What has left `collectWriteBatch` has been written or is about to be. -/
theorem Order.outgoing_eq (h : Order cls s j) :
    outgoing s j = s.sent.flatten ++ if s.writer = .write then s.collected else [] := by
  rw [outgoing, collectedBatches, flatMap_append, h.sent, flatMap_def]
  split <;> simp

theorem Order.known_outgoing (h : Order cls s j) (hf : f ∈ outgoing s j) :
    f = Frame.zero ∨ f.call.isSome ∧ ∃ e, f.req.Marked cls e := by
  rw [h.outgoing_eq, mem_append] at hf
  rcases hf with hf | hf
  · exact h.known f (.inl hf)
  · split at hf
    · simp only [collected, mem_append] at hf
      rcases hf with (hf | hf) | hf
      · exact (h.fits _ f hf).known
      · exact (h.fits _ f hf).known
      · exact (h.fits _ f hf).known
    · simp at hf

/-- What has been collected goes before what waits. -/
theorem Order.has_outgoing (h : Order cls s j) (e : Entry) :
    (outgoing s j).filter (Frame.has cls e) <+: s.accepted.reverse.filter (Frame.has cls e) := by
  rw [h.outgoing_eq, ← h.lines e, filter_append]
  refine (prefix_append_right_inj _).mpr ?_
  split
  · rw [filter_collected h.fits e]
    exact prefix_append ..
  · exact nil_prefix

theorem Order.isData_outgoing (h : Order cls s j) : (outgoing s j).filter Frame.isData <+: j.outputs := by
  rw [h.outgoing_eq, ← h.outputs, filter_append]
  refine (prefix_append_right_inj _).mpr ?_
  split
  · rw [filter_collected_isData h.fits]
    exact prefix_append ..
  · exact nil_prefix

/-- Control and DNS frames are told by their slice. -/
theorem slice_eq_has (hf : f = Frame.zero ∨ f.call.isSome ∧ ∃ e, f.req.Marked cls e)
    (he : e.slice ≠ .data) : decide (f.slice = e.slice) = f.has cls e := by
  rcases hf with rfl | ⟨hcall, e', hmarked⟩
  · cases e <;> simp_all [Frame.zero, slice, Frame.has, Entry.slice]
  · rw [slice_marked hmarked, Frame.has, hcall, hmarked.entry, Bool.true_and]
    cases e <;> cases e' <;> simp_all [Entry.slice]

theorem Order.slice_outgoing (h : Order cls s j) (he : e.slice ≠ .data) :
    (outgoing s j).filter (fun f => f.slice = e.slice) <+: s.accepted.reverse.filter fun f => f.slice = e.slice := by
  rw [filter_congr fun f hf => slice_eq_has (h.known_outgoing hf) he,
    filter_congr fun f hf => slice_eq_has (h.known f (.inr (mem_reverse.mp hf))) he]
  exact h.has_outgoing e

theorem Order.ordered (h : Order cls s j) : Ordered s j where
  batches b hb := by
    rcases mem_append.mp hb with hb | hb
    · exact h.composed b hb
    · split at hb
      case isTrue hwriter =>
        obtain rfl := mem_singleton.mp hb
        exact h.composed_collected hwriter
      case isFalse => simp at hb
  control := h.slice_outgoing (by simp [Entry.slice] : Entry.control.slice ≠ .data)
  dns := h.slice_outgoing (by simp [Entry.slice] : Entry.dns.slice ≠ .data)
  data := h.isData_outgoing

/-- Frames of one flow have one entry. -/
theorem Order.flow_outgoing {salt : UInt32} (h : Order (classifier salt) s j) (flow : Flow) :
    (outgoing s j).filter (Frame.inFlow flow) <+: s.accepted.reverse.filter (Frame.inFlow flow) := by
  have hboth (l : List Frame) (hl : ∀ f ∈ l, f = Frame.zero ∨ f.call.isSome ∧ ∃ e, f.req.Marked (classifier salt) e) :
      l.filter (Frame.inFlow flow) =
        (l.filter (Frame.has (classifier salt) (flow.entry salt))).filter (Frame.inFlow flow) := by
    rw [filter_filter]
    refine filter_congr fun f hf => ?_
    by_cases hin : f.req.flow = some flow
    · rcases hl f hf with rfl | ⟨hcall, -⟩
      · have hzero : Frame.zero.req.flow = none := rfl
        exact absurd hin (by simp [hzero])
      · simp [Frame.inFlow, hin, Frame.has, hcall, entry_of_flow hin]
    · simp [Frame.inFlow, hin]
  rw [hboth _ fun f hf => h.known_outgoing hf, hboth _ fun f hf => h.known f (.inr (mem_reverse.mp hf))]
  exact (h.has_outgoing _).filter _

/-- First in, first out for one flow: calls have numbers of their own, and the frames that have left
`collectWriteBatch` came with calls in the order in which these were made. -/
structure FlowFifo (flow : Flow) (s : Peer) (j : Journal) : Prop where
  calls : (j.calls.map Prod.fst).Nodup
  order : (((outgoing s j).filter (Frame.inFlow flow)).map origin).Sublist (flowCalls flow j)

/-- In every run the batches are composed and ordered as `collectWriteBatch` says, and the frames of each flow that
one goroutine enqueues leave in the order of their calls. -/
theorem sender_fifo (salt : UInt32) (labels : List Label) (s : Peer) (j : Journal)
    (hrun : Lts.exec (traced (classifier salt)) ({}, {}) labels = some (s, j)) :
    Ordered s j ∧
      ∀ flow, Lts.Always (traced (classifier salt)) (OneGoroutine flow) ({}, {}) labels → FlowFifo flow s j := by
  have hsound : Sound (classifier salt) (s, j) := Lts.exec_preserves (fun _ _ _ h => h.step) Sound.init hrun
  refine ⟨hsound.order.ordered, fun flow hone => ⟨hsound.numbered.nodup, ?_⟩⟩
  have hstep (x : Peer × Journal) (l : Label) (y : Peer × Journal) (h : Single flow x.1 x.2)
      (hok : OneGoroutine flow x l) (hxy : traced (classifier salt) x l = some y) : Single flow y.1 y.2 := by
    obtain ⟨hxy, hobserve⟩ := Lts.recorded_eq_some.mp hxy
    exact hobserve ▸ h.step hok (step_advance hxy)
  have hinit : Single flow {} {} := ⟨nil_sublist _, by simp [Enqueue.request]⟩
  have hsingle : Single flow s j := Lts.exec_invariant hstep hinit hone hrun
  exact ((hsound.order.flow_outgoing flow).sublist.map origin).trans hsingle.settled

/-- A DNS query with one byte of payload. -/
def query (b : UInt8) : WriteReq :=
  let header := [0x45, 0, 0, 0, 0, 0, 0, 0, 64, 17, 0, 0, 10, 0, 0, 1, 10, 0, 0, 2]
  ⟨frameMeshPacket, header ++ [0x30, 0x39, 0, 53, 0, 0, 0, 0, b], false, false⟩

/-- One goroutine enqueues two queries, and the writer collects both. -/
def twoQueries : List Label :=
  [.call 0 (query 1), .enqueue 0, .enqueue 0, .call 1 (query 2), .enqueue 1, .enqueue 1, .writer (.credit 0),
    .writer .dnsQueue, .writer .next, .writer .next, .writer .next, .writer .next]

def queryFlow : Flow := ⟨[10, 0, 0, 1, 10, 0, 0, 2], 17, [0x30, 0x39, 0, 53]⟩

theorem sender_fifo_twoQueries :
    ∃ s j, Lts.exec (traced (classifier 7)) ({}, {}) twoQueries = some (s, j) ∧
      ((outgoing s j).filter (Frame.inFlow queryFlow)).map call = [some 0, some 1] ∧
      Ordered s j ∧ FlowFifo queryFlow s j :=
  ⟨_, _, rfl, rfl, (sender_fifo 7 twoQueries _ _ rfl).1,
    (sender_fifo 7 twoQueries _ _ rfl).2 queryFlow (by decide +kernel)⟩

end P2P
