import Phaethon.P2P.FlowHash
import Phaethon.P2P.PeerSteps

/-!
# Steps of the sender

A frame enters one of the channels of `enqueueWriteReq` and moves along a path of places to the batch that
`collectWriteBatch` returns (`Entry.path`). `Journal` records what a run shows of this. `Turn` is what one step does
to the places, and `Advance` what it does to the calls.
-/

namespace P2P

open Transit Function Entry

/-! ## What a run shows -/

/-- The calls in their order, the frames put into `drrOutput`, and the batches that were collected and written, each
with the credit it was collected with; `credit` is that of the batch at hand. -/
structure Journal where
  calls : List (ℕ × WriteReq) := []
  outputs : List Frame := []
  credit : ℤ := 0
  batches : List (ℤ × List Frame) := []

/-- What the journal takes from a step. -/
def observe (s : Peer) (l : Label) (t : Peer) (j : Journal) : Journal :=
  match l with
  | .call u req => { j with calls := j.calls ++ [(u, req)] }
  | .sched .drrOutput => { j with outputs := j.outputs ++ (s.places .batch).take 1 }
  | .writer _ =>
      match s.writer, t.writer with
      | .drainData credit, .write => { j with credit := credit }
      | .write, _ => { j with batches := j.batches ++ [(j.credit, s.collected)] }
      | _, _ => j
  | _ => j

/-- The peer with its journal. -/
def traced (cls : Classifier) : Peer × Journal → Label → Option (Peer × Journal) :=
  Lts.recorded (step cls) observe

/-- The batches that `collectWriteBatch` has returned, with the credit it was given. -/
def collectedBatches (s : Peer) (j : Journal) : List (ℤ × List Frame) :=
  j.batches ++ if s.writer = .write then [(j.credit, s.collected)] else []

/-- The frames that have left `collectWriteBatch`. -/
def outgoing (s : Peer) (j : Journal) : List Frame := (collectedBatches s j).flatMap Prod.snd

/-- The frame came with a call, and is data. -/
def Frame.isData (f : Frame) : Bool := f.call.isSome && f.slice = .data

/-- The frame is a packet of a flow. -/
def Frame.inFlow (flow : Flow) (f : Frame) : Bool := f.req.flow = some flow

/-! ## Places -/

/-- The slice of `collectWriteBatch` that a frame ends in. -/
def Entry.slice : Entry → Place
  | .control => .ctrl
  | .dns => .dns
  | .data _ => .data

/-- Where a frame has been before its slice, latest first. -/
def Entry.behind : Entry → List Place
  | .control => [.controlCh]
  | .dns => [.dnsQueue]
  | .data i => [.drrOutput, .batch, .dataQueue i]

/-- The places of a frame, from the last back to the first. -/
def Entry.path (e : Entry) : List Place := e.slice :: e.behind

/-- The request has its entry, and the `dns` flag says so. -/
structure WriteReq.Marked (cls : Classifier) (req : WriteReq) (e : Entry) : Prop where
  entry : req.entry cls = e
  slice : (Frame.mk none req).slice = e.slice

/-- A frame may be at a place: it is on the path of its entry, or it is the zero value among the data. -/
def Fits (cls : Classifier) (p : Place) (f : Frame) : Prop :=
  (f.call.isSome ∧ ∃ e, f.req.Marked cls e ∧ p ∈ e.path) ∨ f = Frame.zero ∧ p = .data

/-- The frame came with a call and has this entry. -/
def Frame.has (cls : Classifier) (e : Entry) (f : Frame) : Bool := f.call.isSome && f.req.entry cls = e

/-- The steps that frames take between places. -/
inductive Edge : Place → Place → Prop where
  | schedule (i : Fin 256) : Edge (.dataQueue i) .batch
  | output : Edge .batch .drrOutput
  | ctrl : Edge .controlCh .ctrl
  | dns : Edge .dnsQueue .dns
  | data : Edge .drrOutput .data

theorem Entry.nodup_path (e : Entry) : e.path.Nodup := by
  cases e <;> simp [path, slice, behind]

/-- A frame on its path goes to the next place of the path. -/
theorem Edge.along {p q : Place} (h : Edge p q) {e : Entry} (hp : p ∈ e.path) :
    ∃ before after, e.path = before ++ q :: p :: after := by
  cases h with
  | schedule i =>
    obtain rfl : e = .data i := by cases e <;> simp_all [path, slice, behind]
    exact ⟨[.data, .drrOutput], [], rfl⟩
  | output =>
    obtain ⟨i, rfl⟩ : ∃ i, e = .data i := by cases e <;> simp_all [path, slice, behind]
    exact ⟨[.data], [.dataQueue i], rfl⟩
  | ctrl =>
    obtain rfl : e = .control := by cases e <;> simp_all [path, slice, behind]
    exact ⟨[], [], rfl⟩
  | dns =>
    obtain rfl : e = .dns := by cases e <;> simp_all [path, slice, behind]
    exact ⟨[], [], rfl⟩
  | data =>
    obtain ⟨i, rfl⟩ : ∃ i, e = .data i := by cases e <;> simp_all [path, slice, behind]
    exact ⟨[], [.batch, .dataQueue i], rfl⟩

/-! ## Steps of a call -/

/-- The request as its caller gave it. -/
def WriteReq.plain (req : WriteReq) : WriteReq := { req with dns := false }

/-- The request that a call has yet to insert. -/
def Enqueue.request : Enqueue → Option WriteReq
  | .called req => some req
  | .load req _ => some req
  | .cas req _ _ => some req
  | .insert req _ => some req
  | _ => none

variable (cls : Classifier)

/-- The request of a call is marked once it is classified. -/
def Enqueue.Classified : Enqueue → Prop
  | .called req => req.dns = false
  | .load req i => req.Marked cls (.data i)
  | .cas req i _ => req.Marked cls (.data i)
  | .insert req dst => ∃ e, req.Marked cls e ∧ dst = e.place
  | _ => True

theorem classify_marked {req : WriteReq} (h : req.dns = false) :
    ∃ e, (classify cls req).1.Marked cls e ∧ (classify cls req).2 = e.place := by
  unfold classify
  split
  case isTrue hcontrol =>
    exact ⟨.control, ⟨by simp [WriteReq.entry, hcontrol], by simp [Frame.slice, hcontrol, slice]⟩, rfl⟩
  case isFalse hcontrol =>
    split
    case isTrue hdns =>
      exact ⟨.dns, ⟨by simp [WriteReq.entry, hcontrol, hdns], by simp [Frame.slice, hcontrol, slice]⟩, rfl⟩
    case isFalse hdns =>
      exact ⟨.data _, ⟨by simp only [WriteReq.entry, hcontrol, hdns]; rfl,
        by simp [Frame.slice, hcontrol, h, slice]⟩, rfl⟩

theorem plain_classify (req : WriteReq) : (classify cls req).1.plain = req.plain := by
  unfold classify
  split_ifs <;> rfl

/-- What a step of call `u` does to the calls: the request is inserted, or the call goes on with it, or without. -/
structure CallStep (cls : Classifier) (s t : Peer) (u : ℕ) : Prop where
  next : ∃ pc, t.enqueue = update s.enqueue u pc ∧ pc ≠ .idle ∧
    ((s.enqueue u).Classified cls → pc.Classified cls) ∧
    (∀ req, pc.request = some req → ∃ old, (s.enqueue u).request = some old ∧ req.plain = old.plain) ∧
    (t.accepted = s.accepted ∨
      ∃ req, (s.enqueue u).request = some req ∧ t.accepted = ⟨some u, req⟩ :: s.accepted ∧ pc.request = none)

theorem Thinks.next {cls : Classifier} {s : Peer} {pc pc' : Enqueue} (h : Thinks cls s pc pc') :
    pc' ≠ .idle ∧ (pc.Classified cls → pc'.Classified cls) ∧
      ∀ req, pc'.request = some req → ∃ old, pc.request = some old ∧ req.plain = old.plain := by
  cases h with
  | @data req req' i hclass =>
    refine ⟨by simp, fun hdns => ?_, fun r hr => ⟨req, rfl, ?_⟩⟩
    · obtain ⟨e, hmarked, hplace⟩ := classify_marked cls hdns
      rw [hclass] at hmarked hplace
      obtain rfl : e = .data i := by cases e <;> simp_all [place]
      exact hmarked
    · have hplain := plain_classify cls req
      rw [hclass] at hplain
      exact Option.some.inj hr ▸ hplain
  | @other req req' dst hclass =>
    refine ⟨by simp, fun hdns => ?_, fun r hr => ⟨req, rfl, ?_⟩⟩
    · have hmarked := classify_marked cls hdns
      rw [hclass] at hmarked
      exact hmarked
    · have hplain := plain_classify cls req
      rw [hclass] at hplain
      exact Option.some.inj hr ▸ hplain
  | load => exact ⟨by simp, id, fun r hr => ⟨r, hr, rfl⟩⟩
  | again => exact ⟨by simp, id, fun r hr => ⟨r, hr, rfl⟩⟩
  | stop => exact ⟨by simp, fun _ => trivial, nofun⟩
  | short => exact ⟨by simp, fun _ => trivial, nofun⟩
  | full => exact ⟨by simp, fun _ => trivial, nofun⟩
  | fullOther => exact ⟨by simp, fun _ => trivial, nofun⟩

theorem Called.callStep {cls : Classifier} {s t : Peer} {u : ℕ} (h : Called cls s u t) : CallStep cls s t u := by
  constructor
  cases h with
  | think h => exact ⟨_, rfl, h.next.1, h.next.2.1, h.next.2.2, .inl rfl⟩
  | @reserve req i hpc =>
    rw [hpc]
    exact ⟨_, rfl, by simp, fun hmarked => ⟨.data i, hmarked, rfl⟩, fun r hr => ⟨r, hr, rfl⟩, .inl rfl⟩
  | @insert req dst pc hpc hnext =>
    rw [hpc]
    obtain ⟨hidle, hclass, hnone⟩ : pc ≠ .idle ∧ pc.Classified cls ∧ pc.request = none := by
      rcases hnext with ⟨-, rfl⟩ | ⟨-, rfl⟩ <;> exact ⟨by simp, trivial, rfl⟩
    exact ⟨pc, rfl, hidle, fun _ => hclass, by simp [hnone], .inr ⟨req, rfl, rfl, hnone⟩⟩
  | notify => exact ⟨_, rfl, by simp, fun _ => trivial, nofun, .inl rfl⟩
  | refund => exact ⟨_, rfl, by simp, fun _ => trivial, nofun, .inl rfl⟩

/-! ## Steps of the peer -/

/-- What one step does to the places, the writer and the journal. -/
inductive Turn (s : Peer) (j : Journal) : Peer → Journal → Prop where
  | other (stopCh flowNotify notifyCh : Bool) (dataBudget : ℤ) (deficits : Fin 256 → ℤ) (round : ℕ)
      (enqueue : ℕ → Enqueue) (sched : Sched) (calls : List (ℕ × WriteReq)) :
      Turn s j { s with stopCh, flowNotify, notifyCh, dataBudget, deficits, round, enqueue, sched } { j with calls }
  | arrive {u : ℕ} {req : WriteReq} {dst : Place} (hcall : s.enqueue u = .insert req dst) (enqueue : ℕ → Enqueue) :
      Turn s j { s with
        places := push s.places dst ⟨some u, req⟩
        accepted := ⟨some u, req⟩ :: s.accepted
        enqueue } j
  | schedule {i : Fin 256} {places : Place → List Frame} (hmove : move s.places (.dataQueue i) .batch = some places)
      (deficits : Fin 256 → ℤ) (sched : Sched) : Turn s j { s with places, deficits, sched } j
  | output {f : Frame} {l : List Frame} {places : Place → List Frame} (hbatch : s.places .batch = f :: l)
      (hmove : move s.places .batch .drrOutput = some places) :
      Turn s j { s with places } { j with outputs := j.outputs ++ [f] }
  | pass {writer : Writer} (flowNotify : Bool) (hpass : Passes s.writer writer) :
      Turn s j { s with writer, flowNotify } j
  | zero {credit : ℤ} (hwriter : s.writer = .select credit) (hcredit : credit ≤ 0) :
      Turn s j { s with
        flowNotify := false
        places := push s.places .data Frame.zero
        writer := .drainCtrl credit } j
  | first {credit : ℤ} {src : Place} {f : Frame} {l : List Frame} {places : Place → List Frame}
      (hwriter : s.writer = .select credit)
      (hsrc : src = .controlCh ∨ src = .dnsQueue ∨ src = .drrOutput ∧ 0 < credit)
      (hhead : s.places src = f :: l) (hmove : move s.places src f.slice = some places) :
      Turn s j { s with places, writer := .drainCtrl credit } j
  | drain {src dst : Place} {places : Place → List Frame} (hdrain : Drains s s.writer src dst)
      (hmove : move s.places src dst = some places) : Turn s j { s with places } j
  | collect {credit : ℤ} (hwriter : s.writer = .drainData credit) :
      Turn s j { s with writer := .write } { j with credit }
  | write {writer : Writer} (hwriter : s.writer = .write) (hnext : writer = .top ∨ writer = .stopped) :
      Turn s j { s with
        places := update (update (update s.places .ctrl []) .dns []) .data []
        sent := s.sent ++ [s.collected]
        writer } { j with batches := j.batches ++ [(j.credit, s.collected)] }

/-- The journal records only the end of a collection and a write. -/
theorem observe_writer {s t : Peer} {c : Case} (j : Journal) (hcollect : ∀ credit, s.writer ≠ .drainData credit)
    (hwrite : s.writer ≠ .write) : observe s (.writer c) t j = j := by
  simp only [observe]
  split
  case h_1 credit hs _ => exact absurd hs (hcollect credit)
  case h_2 hs => exact absurd hs hwrite
  case h_3 => rfl

theorem Wrote.turn {s t : Peer} {j : Journal} {c : Case} (h : Wrote s c t) :
    Turn s j t (observe s (.writer c) t j) := by
  cases h with
  | pass flowNotify hpass =>
    rw [observe_writer j (fun _ hw => by rw [hw] at hpass; cases hpass) fun hw => by rw [hw] at hpass; cases hpass]
    exact .pass flowNotify hpass
  | zero hwriter hcredit =>
    rw [observe_writer j (by simp [hwriter]) (by simp [hwriter])]
    exact .zero hwriter hcredit
  | first hwriter hsrc hhead hmove =>
    rw [observe_writer j (by simp [hwriter]) (by simp [hwriter])]
    exact .first hwriter hsrc hhead hmove
  | @drain _ src dst places hdrain hmove =>
    have hsame : observe s (.writer c) { s with places } j = j := by
      generalize hwriter : s.writer = writer at hdrain
      cases hdrain <;> simp [observe, hwriter]
    exact hsame.symm ▸ .drain hdrain hmove
  | @collect _ credit hwriter =>
    have hcollect : observe s (.writer c) { s with writer := .write } j = { j with credit } := by
      simp [observe, hwriter]
    exact hcollect.symm ▸ .collect hwriter
  | write hwriter hnext =>
    simp only [observe, hwriter]
    exact .write hwriter hnext

theorem step_turn {cls : Classifier} {s t : Peer} {j : Journal} {l : Label} (h : step cls s l = some t) :
    Turn s j t (observe s l t j) := by
  cases step_stepped h with
  | enqueue h =>
    cases h with
    | insert hpc => exact .arrive hpc _
    | _ => exact .other ..
  | sched h =>
    cases h with
    | take _ _ hmove => exact .schedule hmove _ _
    | output _ hbatch hmove =>
      have hturn := Turn.output (j := j) hbatch hmove
      simpa [observe, hbatch] using hturn
    | _ => exact .other ..
  | writer h => exact h.turn
  | _ => exact .other ..

variable {cls : Classifier} {s t : Peer}

/-! ## Calls -/

/-- What a step does to the calls. -/
inductive Advance (cls : Classifier) (s t : Peer) : Label → Prop where
  | call {u : ℕ} {req : WriteReq} (hidle : s.enqueue u = .idle)
      (henqueue : t.enqueue = update s.enqueue u (.called req.plain)) (haccepted : t.accepted = s.accepted) :
      Advance cls s t (.call u req)
  | enqueue {u : ℕ} (hcall : CallStep cls s t u) : Advance cls s t (.enqueue u)
  | other {l : Label} (hlabel : ∀ u req, l ≠ .call u req) (henqueue : t.enqueue = s.enqueue)
      (haccepted : t.accepted = s.accepted) : Advance cls s t l

theorem step_advance {l : Label} (h : step cls s l = some t) : Advance cls s t l := by
  cases step_stepped h with
  | call hidle => exact .call hidle rfl rfl
  | enqueue h => exact .enqueue h.callStep
  | sched h => cases h <;> exact .other nofun rfl rfl
  | writer h => cases h <;> exact .other nofun rfl rfl
  | _ => exact .other nofun rfl rfl

theorem Advance.classified {l : Label} (h : Advance cls s t l) (hs : ∀ u, (s.enqueue u).Classified cls) (v : ℕ) :
    (t.enqueue v).Classified cls := by
  have hupdate {u : ℕ} {pc : Enqueue} (hpc : pc.Classified cls) :
      (update s.enqueue u pc v).Classified cls := by
    by_cases hv : v = u
    · subst hv; rwa [update_self]
    · rw [update_of_ne hv]; exact hs v
  cases h with
  | call hidle henqueue => exact henqueue ▸ hupdate rfl
  | enqueue hcall =>
    obtain ⟨pc, henqueue, -, hclass, -⟩ := hcall.next
    exact henqueue ▸ hupdate (hclass (hs _))
  | other hlabel henqueue => exact henqueue ▸ hs v

end P2P
