import Mathlib.Algebra.BigOperators.Group.List.Basic
import Mathlib.Algebra.Order.Ring.Int
import Phaethon.Common.Lts

/-!
# Mesh channels over h_tunnel: the dispatcher

`src/server/htunnel_mesh.go`: `Send` and `SendBatch` put frames into two channels, `meshDispatchLoop` moves them onto
the delivery queues and hands batches to waiting GET requests, and `takeData` drops mesh packets that CoDel marks.
Senders, GET handlers and the dispatcher take their atomic steps in any order; the code between `dispMu.Lock` and
`dispMu.Unlock` excludes `abandonWaiter`.
-/

namespace MeshChannel

open Function

/-! ## Frames -/

/-- `meshMsg` without `enq`; `id` tells frames apart. -/
structure Msg where
  id : ℕ
  frameType : UInt8
  payload : List UInt8
  control : Bool
  deriving DecidableEq, Repr

def Msg.wireSize (m : Msg) : ℤ := 3 + m.payload.length

/-- The wire size of a list of frames. -/
def wire (l : List Msg) : ℤ := (l.map Msg.wireSize).sum

/-- `frame.FrameMeshPacket`. -/
def frameMeshPacket : UInt8 := 0x20

def htMeshQueueLen : ℕ := 4096

def htMeshCtrlQueueLen : ℕ := 256

def getWaitersLen : ℕ := 64

def htMeshMaxQueuedBytes : ℤ := 8388608

/-- `GetMaxBatchSize` of the configuration, and `codelControlLaw`, which computes with a square root of floats. -/
structure Params where
  limit : ℤ
  controlLaw : ℤ → ℤ → ℤ

/-! ## CoDel -/

/-- Durations are nanoseconds. -/
structure Codel where
  firstAbove : ℤ := 0
  dropNext : ℤ := 0
  count : ℤ := 0
  lastCount : ℤ := 0
  dropping : Bool := false
  deriving DecidableEq, Repr

def codelTarget : ℤ := 50000000

def codelInterval : ℤ := 300000000

/-- `okToDrop`. -/
def Codel.okToDrop (c : Codel) (sojourn now : ℤ) (backlog : ℕ) : Bool × Codel :=
  if sojourn < codelTarget ∨ backlog < 2 then (false, { c with firstAbove := 0 })
  else if c.firstAbove = 0 then (false, { c with firstAbove := now + codelInterval })
  else (c.firstAbove ≤ now, c)

/-- `shouldDrop`. -/
def Codel.shouldDrop (p : Params) (c : Codel) (sojourn now : ℤ) (backlog : ℕ) : Bool × Codel :=
  let (ok, c) := c.okToDrop sojourn now backlog
  if c.dropping then
    if !ok then (false, { c with dropping := false })
    else if c.dropNext ≤ now then
      (true, { c with count := c.count + 1, dropNext := p.controlLaw c.dropNext (c.count + 1) })
    else (false, c)
  else if !ok then (false, c)
  else
    let delta := c.count - c.lastCount
    let count := if 1 < delta ∧ now - c.dropNext < 16 * codelInterval then delta else 1
    (true, { c with dropping := true, count, dropNext := p.controlLaw now count, lastCount := count })

/-! ## State -/

/-- What the dispatcher has received from a channel. -/
inductive Task where
  | frame (m : Msg)
  | waiter (w : ℕ)
  deriving DecidableEq, Repr

/-- Where `meshDispatchLoop` is: after `lock` it holds `dispMu`. -/
inductive Dispatcher where
  | select
  | lock (task : Task)
  | drainCtrl (n : ℕ)
  | drainData (n : ℕ)
  | addWaiters (n : ℕ)
  | flush
  | stopped
  deriving DecidableEq, Repr

/-- The dispatcher holds `dispMu`. -/
def Dispatcher.holds : Dispatcher → Bool
  | .drainCtrl _ | .drainData _ | .addWaiters _ | .flush => true
  | .select | .lock _ | .stopped => false

/-- Where a GET handler is. -/
inductive Handler where
  | idle
  | registering
  | waiting
  /-- the timer has fired: `abandonWaiter` up to its lock, and the `select` after it -/
  | abandoning
  | abandoned
  /-- the channel is closed: `abandonWaiter`, whose batch is not used -/
  | closing
  | answered (batch : List Msg)
  | timedOut
  | gone
  deriving DecidableEq, Repr

/-- A mesh channel, its handlers and its senders. A waiter has the number of its handler. -/
structure State where
  meshCtrlOut : List Msg := []
  meshOut : List Msg := []
  getWaiters : List ℕ := []
  ctrlQ : List Msg := []
  /-- frames with their `enq` -/
  dataQ : List (Msg × ℤ) := []
  dataBytes : ℤ := 0
  dataCodel : Codel := {}
  codelDrops : ℕ := 0
  waiters : List ℕ := []
  done : ℕ → Bool := fun _ => false
  batch : ℕ → Option (List Msg) := fun _ => none
  closed : Bool := false
  dispatcher : Dispatcher := .select
  handlers : ℕ → Handler := fun _ => .idle
  /-- what a call of `Send` or `SendBatch` has still to send: type, payload and `Control` -/
  senders : ℕ → List (UInt8 × List UInt8 × Bool) := fun _ => []
  /-- log: the frames that were put into a channel -/
  accepted : List Msg := []
  /-- log: the batches and their waiters -/
  handed : List (ℕ × List Msg) := []
  /-- log: the frames that CoDel dropped -/
  dropped : List Msg := []

/-! ## The queues -/

/-- `routeFrameLocked`. -/
def routeFrameLocked (now : ℤ) (m : Msg) (s : State) : State :=
  if m.control then { s with ctrlQ := s.ctrlQ ++ [m] }
  else { s with dataBytes := s.dataBytes + m.wireSize, dataQ := s.dataQ ++ [(m, now)] }

/-- `pruneStale`. -/
def pruneStale (done : ℕ → Bool) (ws : List ℕ) : List ℕ := ws.dropWhile done

/-- `addWaiterLocked`. -/
def addWaiterLocked (w : ℕ) (s : State) : State := { s with waiters := pruneStale s.done s.waiters ++ [w] }

/-- `takeFrames`: the batch, its size and the rest of the queue. -/
def takeFrames (limit : ℤ) (batch : List Msg) (size : ℤ) : List Msg → List Msg × ℤ × List Msg
  | [] => (batch, size, [])
  | m :: q =>
      if batch ≠ [] ∧ limit < size + m.wireSize then (batch, size, m :: q)
      else takeFrames limit (batch ++ [m]) (size + m.wireSize) q

/-- What `takeData` changes. -/
structure Taking where
  batch : List Msg
  size : ℤ
  dataBytes : ℤ
  codel : Codel
  codelDrops : ℕ
  dropped : List Msg

/-- `takeData`. -/
def takeData (p : Params) (now : ℤ) (t : Taking) : List (Msg × ℤ) → Taking × List (Msg × ℤ)
  | [] => (t, [])
  | (m, enq) :: q =>
      if t.batch ≠ [] ∧ p.limit < t.size + m.wireSize then (t, (m, enq) :: q)
      else
        let (drop, codel) := t.codel.shouldDrop p (now - enq) now q.length
        if drop && m.frameType = frameMeshPacket then
          takeData p now
            { t with
              dataBytes := t.dataBytes - m.wireSize
              codel
              codelDrops := t.codelDrops + 1
              dropped := t.dropped ++ [m] } q
        else
          takeData p now
            { t with
              dataBytes := t.dataBytes - m.wireSize
              codel
              batch := t.batch ++ [m]
              size := t.size + m.wireSize } q

/-- `buildBatchLocked`. -/
def buildBatchLocked (p : Params) (now : ℤ) (s : State) : List Msg × State :=
  let (batch, size, ctrlQ) := takeFrames p.limit [] 0 s.ctrlQ
  let (t, dataQ) := takeData p now ⟨batch, size, s.dataBytes, s.dataCodel, s.codelDrops, s.dropped⟩ s.dataQ
  (t.batch,
    { s with
      ctrlQ, dataQ
      dataBytes := t.dataBytes
      dataCodel := t.codel
      codelDrops := t.codelDrops
      dropped := t.dropped })

/-- `w.batch <- ch.buildBatchLocked(limit)`. -/
def handBatch (p : Params) (now : ℤ) (w : ℕ) (s : State) : State :=
  let (batch, s) := buildBatchLocked p now s
  { s with batch := update s.batch w (some batch), handed := s.handed ++ [(w, batch)] }

/-- The loop of `flushLocked` over the waiters. -/
def flushLoop (p : Params) (clock : ℕ → ℤ) : List ℕ → State → State
  | [], s => { s with waiters := [] }
  | w :: ws, s =>
      if s.ctrlQ = [] ∧ s.dataQ = [] then { s with waiters := w :: ws }
      else if s.done w then flushLoop p clock ws s
      else flushLoop p clock ws (handBatch p (clock w) w s)

/-- `flushLocked`; the clock says when the batch of a waiter is built. -/
def flushLocked (p : Params) (clock : ℕ → ℤ) (s : State) : State :=
  flushLoop p clock (pruneStale s.done s.waiters) s

/-! ## Steps -/

/-- The case of a `select`. -/
inductive Case where
  | ctrl
  | data
  | waiter
  | closed
  | batch
  | timer
  | push
  | next
  deriving DecidableEq, Repr

/-- The next atomic step of the dispatcher. The clock gives the readings of `meshNow`. -/
def dispatchStep (p : Params) (s : State) (c : Case) (clock : ℕ → ℤ) : Option State :=
  match s.dispatcher, c with
  | .select, .ctrl =>
      match s.meshCtrlOut with
      | m :: rest => some { s with meshCtrlOut := rest, dispatcher := .lock (.frame m) }
      | [] => none
  | .select, .data =>
      -- `in` is nil from the cap on
      if s.dataBytes < htMeshMaxQueuedBytes then
        match s.meshOut with
        | m :: rest => some { s with meshOut := rest, dispatcher := .lock (.frame m) }
        | [] => none
      else none
  | .select, .waiter =>
      match s.getWaiters with
      | w :: rest => some { s with getWaiters := rest, dispatcher := .lock (.waiter w) }
      | [] => none
  | .select, .closed => if s.closed then some { s with dispatcher := .stopped } else none
  | .lock (.frame m), .next =>
      some { routeFrameLocked (clock 0) m s with dispatcher := .drainCtrl s.meshCtrlOut.length }
  | .lock (.waiter w), .next =>
      some { addWaiterLocked w s with dispatcher := .addWaiters s.getWaiters.length }
  | .drainCtrl 0, .next => some { s with dispatcher := .drainData s.meshOut.length }
  | .drainCtrl (n + 1), .next =>
      match s.meshCtrlOut with
      | m :: rest =>
          some { routeFrameLocked (clock 0) m { s with meshCtrlOut := rest } with dispatcher := .drainCtrl n }
      | [] => none
  | .drainData n, .next =>
      if 0 < n ∧ s.dataBytes < htMeshMaxQueuedBytes then
        match s.meshOut with
        | m :: rest =>
            some { routeFrameLocked (clock 0) m { s with meshOut := rest } with dispatcher := .drainData (n - 1) }
        | [] => none
      else some { s with dispatcher := .flush }
  | .addWaiters 0, .next => some { s with dispatcher := .flush }
  | .addWaiters (n + 1), .next =>
      match s.getWaiters with
      | w :: rest => some { addWaiterLocked w { s with getWaiters := rest } with dispatcher := .addWaiters n }
      | [] => none
  | .flush, .next => some { flushLocked p clock s with dispatcher := .select }
  | _, _ => none

/-- The next atomic step of a GET handler. -/
def handlerStep (s : State) (w : ℕ) (c : Case) : Option State :=
  let goto (h : Handler) (s : State) : Option State := some { s with handlers := update s.handlers w h }
  match s.handlers w, c with
  | .idle, .next => goto .registering s
  | .registering, .push =>
      if s.getWaiters.length < getWaitersLen then
        goto .waiting { s with getWaiters := s.getWaiters ++ [w] }
      else none
  | .registering, .timer => goto .timedOut s
  | .registering, .closed => if s.closed then goto .gone s else none
  | .waiting, .batch =>
      match s.batch w with
      | some b => goto (.answered b) { s with batch := update s.batch w none }
      | none => none
  | .waiting, .timer => goto .abandoning s
  | .waiting, .closed => if s.closed then goto .closing s else none
  | .abandoning, .next =>
      if s.dispatcher.holds then none else goto .abandoned { s with done := update s.done w true }
  | .abandoned, .next =>
      match s.batch w with
      | some b => goto (.answered b) { s with batch := update s.batch w none }
      | none => goto .timedOut s
  | .closing, .next =>
      if s.dispatcher.holds then none else goto .gone { s with done := update s.done w true }
  | _, _ => none

/-- An atomic step of a party. -/
inductive Label where
  /-- a call of `Send` or `SendBatch` with its frames -/
  | send (u : ℕ) (frames : List (UInt8 × List UInt8 × Bool))
  /-- the call puts its next frame into a channel -/
  | push (u : ℕ)
  | dispatch (c : Case) (clock : ℕ → ℤ)
  | handler (w : ℕ) (c : Case)
  | close

/-- The next frame of a call goes into its channel. -/
def pushStep (s : State) (u : ℕ) : Option State :=
  match s.senders u with
  | [] => none
  | (frameType, payload, control) :: rest =>
      let m : Msg := ⟨s.accepted.length, frameType, payload, control⟩
      let s' := { s with senders := update s.senders u rest, accepted := s.accepted ++ [m] }
      if control then
        if s.meshCtrlOut.length < htMeshCtrlQueueLen then some { s' with meshCtrlOut := s.meshCtrlOut ++ [m] }
        else none
      else if s.meshOut.length < htMeshQueueLen then some { s' with meshOut := s.meshOut ++ [m] }
      else none

def step (p : Params) (s : State) : Label → Option State
  | .send u frames =>
      if s.senders u = [] then some { s with senders := update s.senders u frames } else none
  | .push u => pushStep s u
  | .dispatch c clock => dispatchStep p s c clock
  | .handler w c => handlerStep s w c
  | .close => some { s with closed := true }

end MeshChannel
