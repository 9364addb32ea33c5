import Mathlib.Data.Fintype.Prod
import Mathlib.Data.Fintype.Sum
import Mathlib.Tactic.DeriveFintype
import Phaethon.Common.Lts
import Phaethon.Common.Transit

/-!
# The send path of a peer

`src/p2p/p2p.go`: concurrent `enqueueWriteReq` calls, the deficit-round-robin scheduler (`drrLoop` with
`NextBatch`) and the writer (`peerWriteLoop` with `collectWriteBatch`) of one peer, as atomic steps. A
frame carries the call that brought it (`Frame.call`), which the code does not see. Channels and the
goroutines' local slices are the places of a `Transit` network.
-/

namespace P2P

open Function Transit

/-- `writeReq`. -/
structure WriteReq where
  frameType : UInt8
  data : List UInt8
  isControl : Bool
  dns : Bool
  deriving DecidableEq, Repr

/-- A request and the `enqueueWriteReq` call it came with; none for Go's zero value. -/
structure Frame where
  call : Option ℕ
  req : WriteReq
  deriving DecidableEq, Repr

/-- The zero value of `writeReq`. -/
def Frame.zero : Frame := ⟨none, ⟨0, [], false, false⟩⟩

/-- Where frames are: the peer's channels, the scheduler's batch and the three slices of
`collectWriteBatch`. -/
inductive Place where
  | controlCh
  | dnsQueue
  | dataQueue (i : Fin 256)
  | batch
  | drrOutput
  | ctrl
  | dns
  | data
  deriving DecidableEq, Fintype, Repr

/-- What `enqueueWriteReq` returns. -/
inductive Result where
  | ok | stopped | queueFull
  deriving DecidableEq, Repr

/-- The program points of an `enqueueWriteReq` call. -/
inductive Enqueue where
  | idle
  | called (req : WriteReq)
  | load (req : WriteReq) (i : Fin 256)
  | cas (req : WriteReq) (i : Fin 256) (cur : ℤ)
  | insert (req : WriteReq) (dst : Place)
  | notify
  | refund (need : ℕ)
  | returned (res : Result)
  deriving DecidableEq, Repr

/-- The program points of `drrLoop`; `last` is the local of `drainRound`. -/
inductive Sched where
  | visit (i last : ℕ)
  | drain (i : ℕ) (idx : Fin 256)
  | refund (i : ℕ) (idx : Fin 256) (need : ℕ)
  | wait
  | send
  | stopped
  deriving DecidableEq, Repr

/-- The program points of `peerWriteLoop`, with the credit it read. -/
inductive Writer where
  | top
  | select (credit : ℤ)
  | drainCtrl (credit : ℤ)
  | drainDns (credit : ℤ)
  | drainData (credit : ℤ)
  | write
  | stopped
  deriving DecidableEq, Repr

/-- A peer with its goroutines. `sent` are the batches passed to the transport, `accepted` the frames that
`enqueueWriteReq` put into a channel. -/
structure Peer where
  places : Place → List Frame := fun _ => []
  stopCh : Bool := false
  flowNotify : Bool := false
  notifyCh : Bool := false
  dataBudget : ℤ := 8388608
  deficits : Fin 256 → ℤ := fun _ => 0
  round : ℕ := 0
  enqueue : ℕ → Enqueue := fun _ => .idle
  sched : Sched := .visit 0 0
  writer : Writer := .top
  sent : List (List Frame) := []
  accepted : List Frame := []

/-- The case that a `select` takes, or the answer of the environment. -/
inductive Case where
  | next
  | stop
  | flowNotify
  | notify
  | controlCh
  | dnsQueue
  | drrOutput
  | credit (c : ℤ)
  | fail
  deriving DecidableEq, Repr

/-- An atomic step of one party. -/
inductive Label where
  | call (t : ℕ) (req : WriteReq)
  | enqueue (t : ℕ)
  | sched (c : Case)
  | writer (c : Case)
  | credit
  | stop
  deriving DecidableEq, Repr

/-- The classifiers of `enqueueWriteReq`. -/
structure Classifier where
  isDNSPacket : List UInt8 → Bool
  hashFlow : List UInt8 → Fin 256

/-- The capacity of the peer's channels (`dataQueueMaxDepth` for the data queues). -/
def chanCap : ℕ := 512

/-- `frame.FrameMeshPacket`. -/
def frameMeshPacket : UInt8 := 0x20

/-- `drrQuantum`. -/
def drrQuantum : ℤ := 65536

/-! ## `enqueueWriteReq` -/

/-- The queue of a request, and the request with its `dns` flag. -/
def classify (cls : Classifier) (req : WriteReq) : WriteReq × Place :=
  if req.isControl then (req, .controlCh)
  else if req.frameType = frameMeshPacket ∧ cls.isDNSPacket req.data then
    ({ req with dns := true }, .dnsQueue)
  else (req, .dataQueue (cls.hashFlow req.data))

/-- The next atomic step of call `t`. -/
def enqueueStep (cls : Classifier) (s : Peer) (t : ℕ) : Option Peer :=
  let goto (pc : Enqueue) (s : Peer) : Option Peer :=
    some { s with enqueue := update s.enqueue t pc }
  match s.enqueue t with
  | .idle => none
  | .called req =>
      if s.stopCh then goto (.returned .stopped) s
      else
        match classify cls req with
        | (req, .dataQueue i) => goto (.load req i) s
        | (req, dst) => goto (.insert req dst) s
  | .load req i => goto (.cas req i s.dataBudget) s
  | .cas req i cur =>
      if cur < req.data.length then goto (.returned .queueFull) s
      else if s.dataBudget = cur then
        goto (.insert req (.dataQueue i)) { s with dataBudget := cur - req.data.length }
      else goto (.load req i) s
  | .insert req dst =>
      if (s.places dst).length < chanCap then
        goto (match dst with | .dataQueue _ => .notify | _ => .returned .ok)
          { s with
            places := push s.places dst ⟨some t, req⟩
            accepted := ⟨some t, req⟩ :: s.accepted }
      else
        goto (match dst with
          | .dataQueue _ => .refund req.data.length
          | _ => .returned .queueFull) s
  | .notify => goto (.returned .ok) { s with notifyCh := true }
  | .refund need => goto (.returned .queueFull) { s with dataBudget := s.dataBudget + need }
  | .returned _ => none

/-! ## `drrLoop` -/

/-- The next atomic step of the scheduler. -/
def schedStep (s : Peer) (c : Case) : Option Peer :=
  match s.sched, c with
  | .visit i last, .next =>
      if i < 256 ∧ (s.places .batch).length < 64 then
        let idx : Fin 256 := Fin.ofNat 256 (s.round + i)
        let deficit := if s.deficits idx ≤ 0 then s.deficits idx + drrQuantum else s.deficits idx
        some { s with
          deficits := update s.deficits idx deficit
          sched := .drain i idx }
      else
        some { s with
          round := (last + 1) % 256
          sched := if s.places .batch = [] then .wait else .send }
  | .drain i idx, .next =>
      if (s.places .batch).length < 64 then
        match s.places (.dataQueue idx), move s.places (.dataQueue idx) .batch with
        | f :: _, some places =>
            some { s with
              places
              deficits := update s.deficits idx (s.deficits idx - f.req.data.length)
              sched := .refund i idx f.req.data.length }
        | _, _ =>
            some { s with
              deficits := update s.deficits idx 0
              sched := .visit (i + 1) idx }
      else some { s with sched := .visit (i + 1) idx }
  | .refund i idx need, .next =>
      some { s with
        dataBudget := s.dataBudget + need
        sched := if s.deficits idx ≤ 0 then .visit (i + 1) idx else .drain i idx }
  | .wait, .stop => if s.stopCh then some { s with sched := .stopped } else none
  | .wait, .notify =>
      if s.notifyCh then some { s with notifyCh := false, sched := .visit 0 s.round } else none
  | .send, .next => if s.places .batch = [] then some { s with sched := .visit 0 s.round } else none
  | .send, .stop =>
      if s.places .batch ≠ [] ∧ s.stopCh then some { s with sched := .stopped } else none
  | .send, .drrOutput =>
      if (s.places .drrOutput).length < chanCap then
        (move s.places .batch .drrOutput).map fun places => { s with places }
      else none
  | _, _ => none

/-! ## `peerWriteLoop` -/

/-- Where `collectWriteBatch` puts its first frame. -/
def Frame.slice (f : Frame) : Place :=
  if f.req.isControl then .ctrl else if f.req.dns then .dns else .data

variable (s : Peer)

/-- The frames that the writer has collected. -/
def Peer.collected : List Frame := s.places .ctrl ++ s.places .dns ++ s.places .data

/-- `dataBytes` of `collectWriteBatch`. -/
def Peer.dataBytes : ℤ := ((s.places .data).map fun f => f.req.data.length).sum

/-- A frame taken from the head of a channel becomes the first of the batch. -/
def takeFirst (src : Place) (credit : ℤ) : Option Peer :=
  match s.places src with
  | [] => none
  | f :: _ =>
      (move s.places src f.slice).map fun places =>
        { s with places, writer := .drainCtrl credit }

/-- One round of the drain loops of `collectWriteBatch`. -/
def drainStep (src dst : Place) (go : Bool) (next : Writer) : Peer :=
  if go then
    match move s.places src dst with
    | some places => { s with places }
    | none => { s with writer := next }
  else { s with writer := next }

/-- The next atomic step of the writer. -/
def writerStep (c : Case) : Option Peer :=
  match s.writer, c with
  | .top, .credit credit => some { s with writer := .select credit }
  | .select _, .stop => if s.stopCh then some { s with writer := .stopped } else none
  | .select credit, .flowNotify =>
      if s.flowNotify then
        if 0 < credit then some { s with flowNotify := false, writer := .top }
        else
          -- no `continue` here: `first` still has its zero value
          some { s with
            flowNotify := false
            places := push s.places Frame.zero.slice Frame.zero
            writer := .drainCtrl credit }
      else none
  | .select credit, .controlCh => takeFirst s .controlCh credit
  | .select credit, .dnsQueue => takeFirst s .dnsQueue credit
  | .select credit, .drrOutput => if 0 < credit then takeFirst s .drrOutput credit else none
  | .drainCtrl credit, .next =>
      some (drainStep s .controlCh .ctrl (s.collected.length < 64) (.drainDns credit))
  | .drainDns credit, .next =>
      some (drainStep s .dnsQueue .dns (s.collected.length < 64) (.drainData credit))
  | .drainData credit, .next =>
      some (drainStep s .drrOutput .data (s.collected.length < 64 && s.dataBytes < credit) .write)
  | .write, c =>
      let written :=
        { s with
          places := update (update (update s.places .ctrl []) .dns []) .data []
          sent := s.sent ++ [s.collected] }
      match c with
      | .next => some { written with writer := .top }
      | .fail => some { written with writer := .stopped }
      | _ => none
  | _, _ => none

/-! ## The peer -/

/-- One atomic step of a party; `credit` is a notification of the credit controller. -/
def step (cls : Classifier) (s : Peer) : Label → Option Peer
  | .call t req =>
      if s.enqueue t = .idle then
        some { s with enqueue := update s.enqueue t (.called { req with dns := false }) }
      else none
  | .enqueue t => enqueueStep cls s t
  | .sched c => schedStep s c
  | .writer c => writerStep s c
  | .credit => some { s with flowNotify := true }
  | .stop => some { s with stopCh := true }

end P2P
