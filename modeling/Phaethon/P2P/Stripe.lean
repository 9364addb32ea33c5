import Mathlib.Data.List.AList
import Phaethon.P2P.FlowHash

/-!
# Stripe lanes: the sending side

`src/p2p/stripe_transport.go`: `Send` and `SendBatch` split the frames of a call among the primary transport and the
lanes, each of which has a queue and a writer. Any number of calls, removals of lanes and writers take their atomic
steps in any order; a `Choice` is what Go or the network decides. The log says which frames each transport was handed.
-/

namespace Stripe

open Function Prod

open P2P (frameMeshPacket isDNSPacket flowHash32)

/-! ## State -/

/-- A frame with the call it came with and its index there. -/
structure Frame where
  origin : ℕ × ℕ
  frameType : UInt8
  payload : List UInt8
  deriving DecidableEq, Repr

/-- `splittable`. -/
def splittable (f : Frame) : Bool := f.frameType = frameMeshPacket && !isDNSPacket f.payload

/-- What a lane's queue holds: a batch of frames, or a probe (`LinkPing`, `LinkPong`). -/
inductive Batch where
  | data (frames : List Frame)
  | probe
  deriving DecidableEq, Repr

def Batch.frames : Batch → List Frame
  | .data frames => frames
  | .probe => []

/-- `stripeLaneQueueDepth`. -/
def stripeLaneQueueDepth : ℕ := 256

/-- `stripeAffinityCap`. -/
def stripeAffinityCap : ℕ := 65536

/-- The next step of `removeLane`. -/
inductive Removal where
  | detach
  | dropAffinity
  | close
  deriving DecidableEq, Repr

/-- Where a lane's writer is. A write that failed is followed by `removeLane`. -/
inductive Writer where
  | none
  | starting
  | select
  | sending (batch : Batch)
  | failed (next : Removal)
  | stopped
  deriving DecidableEq, Repr

/-- `primary` and `perLane` of `SendBatch`. -/
structure Parts where
  primary : List Frame := []
  perLane : List (ℕ × List Frame) := []
  deriving DecidableEq, Repr

/-- `perLane[l] = append(perLane[l], f)`. -/
def appendTo (l : ℕ) (f : Frame) : List (ℕ × List Frame) → List (ℕ × List Frame)
  | [] => [(l, [f])]
  | (k, frames) :: rest => if k = l then (k, frames ++ [f]) :: rest else (k, frames) :: appendTo l f rest

/-- A frame goes to the primary transport or to a lane. -/
def Parts.add (p : Parts) (f : Frame) : Option ℕ → Parts
  | .none => { p with primary := p.primary ++ [f] }
  | some l => { p with perLane := appendTo l f p.perLane }

/-- Where a call of `Send` or `SendBatch` is. `err` says that `firstErr` is not nil. -/
inductive Call where
  | idle
  | snapshot (frames : List Frame)
  /-- about to look up the lane of the next frame -/
  | split (lanes : List ℕ) (todo : List Frame) (parts : Parts)
  /-- no lane is pinned for `f`: `pickLane` -/
  | resolve (lanes : List ℕ) (f : Frame) (todo : List Frame) (parts : Parts)
  | primary (frames : List Frame) (perLane : List (ℕ × List Frame))
  | lanes (perLane : List (ℕ × List Frame)) (err : Bool)
  /-- the first `select` of `laneEnqueue` -/
  | offer (l : ℕ) (batch : List Frame) (perLane : List (ℕ × List Frame)) (err : Bool)
  /-- the second, with the timer -/
  | wait (l : ℕ) (batch : List Frame) (perLane : List (ℕ × List Frame)) (err : Bool)
  | repin (batch : List Frame) (perLane : List (ℕ × List Frame)) (err : Bool)
  | fallback (batch : List Frame) (perLane : List (ℕ × List Frame)) (err : Bool)
  | returned (err : Bool)
  deriving DecidableEq, Repr

/-- The transport. A lane is named by a number, as Go has it by its address. -/
structure State where
  lanes : List ℕ := []
  affinity : AList (fun _ : UInt32 => Option ℕ) := ∅
  queue : ℕ → List Batch := fun _ => []
  done : ℕ → Bool := fun _ => false
  writer : ℕ → Writer := fun _ => .none
  /-- `removeLane` as the reader of a lane and the controller call it -/
  removals : ℕ → Option (ℕ × Removal) := fun _ => .none
  calls : ℕ → Call := fun _ => .idle
  closed : Bool := false
  /-- log: the frames of all calls so far -/
  given : List Frame := []
  /-- log: the frames handed to the primary transport -/
  base : List Frame := []
  /-- log: the frames that a lane's transport has written -/
  written : ℕ → List Frame := fun _ => []

/-! ## Steps -/

/-- The case of a `select`, the result of a write (true for an error) or the lane that a choice falls on. -/
inductive Choice where
  | next
  | lane (l : Option ℕ)
  | push
  | done
  | closed
  | full
  | timer
  | result (err : Bool)
  deriving DecidableEq, Repr

/-- `t.affinity[key] = l`, with the reset of a table that is full. -/
def State.pin (s : State) (key : UInt32) (l : Option ℕ) : State :=
  if key = 0 then s
  else if stripeAffinityCap ≤ s.affinity.entries.length then
    { s with affinity := (∅ : AList fun _ : UInt32 => Option ℕ).insert key l }
  else { s with affinity := s.affinity.insert key l }

/-- `repinPrimary`. -/
def repinPrimary (salt : UInt32) (s : State) (batch : List Frame) : State :=
  batch.foldl (fun s f =>
    if flowHash32 salt f.payload = 0 then s
    else { s with affinity := s.affinity.insert (flowHash32 salt f.payload) .none }) s

/-- The next atomic step of a call. `Send` goes the way of `SendBatch` with one frame. -/
def callStep (salt : UInt32) (s : State) (u : ℕ) (c : Choice) : Option State :=
  let goto (pc : Call) (s : State) : Option State := some { s with calls := update s.calls u pc }
  match s.calls u, c with
  | .snapshot frames, .next =>
      if s.lanes = [] then goto (.primary frames []) s else goto (.split s.lanes frames {}) s
  | .split _ [] parts, .next =>
      goto (if parts.primary = [] then .lanes parts.perLane false else .primary parts.primary parts.perLane) s
  | .split lanes (f :: todo) parts, .next =>
      if splittable f then
        match s.affinity.lookup (flowHash32 salt f.payload) with
        | some .none => goto (.split lanes todo (parts.add f .none)) s
        | some (some l) =>
            if l ∈ lanes then goto (.split lanes todo (parts.add f (some l))) s
            else
              goto (.resolve lanes f todo parts)
                { s with affinity := s.affinity.erase (flowHash32 salt f.payload) }
        | .none => goto (.resolve lanes f todo parts) s
      else goto (.split lanes todo (parts.add f .none)) s
  -- `pickLane` compares scores that depend on the quality of the lanes
  | .resolve lanes f todo parts, .lane l =>
      if ∀ k ∈ l, k ∈ lanes then
        goto (.split lanes todo (parts.add f l)) (s.pin (flowHash32 salt f.payload) l)
      else .none
  | .primary frames perLane, .result err => goto (.lanes perLane err) { s with base := s.base ++ frames }
  -- the loop goes through the map in any order
  | .lanes perLane err, .lane (some l) =>
      match perLane.find? fun e => e.1 = l with
      | some e => goto (.offer e.1 e.2 (perLane.erase e) err) s
      | .none => .none
  | .lanes [] err, .next => goto (.returned err) s
  | .offer l batch perLane err, .push =>
      if (s.queue l).length < stripeLaneQueueDepth then
        goto (.lanes perLane err) { s with queue := update s.queue l (s.queue l ++ [.data batch]) }
      else .none
  | .offer l batch perLane err, .done => if s.done l then goto (.repin batch perLane err) s else .none
  | .offer _ _ _ _, .closed => if s.closed then goto (.returned true) s else .none
  | .offer l batch perLane err, .full =>
      if stripeLaneQueueDepth ≤ (s.queue l).length ∧ !s.done l ∧ !s.closed then
        goto (.wait l batch perLane err) s
      else .none
  | .wait l batch perLane err, .push =>
      if (s.queue l).length < stripeLaneQueueDepth then
        goto (.lanes perLane err) { s with queue := update s.queue l (s.queue l ++ [.data batch]) }
      else .none
  | .wait l batch perLane err, .done => if s.done l then goto (.repin batch perLane err) s else .none
  | .wait _ batch perLane err, .timer => goto (.repin batch perLane err) s
  | .wait _ _ _ _, .closed => if s.closed then goto (.returned true) s else .none
  | .repin batch perLane err, .next => goto (.fallback batch perLane err) (repinPrimary salt s batch)
  | .fallback batch perLane err, .result err' =>
      goto (.lanes perLane (err || err')) { s with base := s.base ++ batch }
  | _, _ => .none

/-- A step of `removeLane`, and the next one. -/
def removalStep (s : State) (l : ℕ) : Removal → State × Option Removal
  | .detach => ({ s with lanes := s.lanes.erase l }, some .dropAffinity)
  | .dropAffinity => ({ s with affinity := ∅ }, some .close)
  | .close => ({ s with done := update s.done l true }, .none)

/-- The next atomic step of a lane's writer. -/
def writerStep (s : State) (l : ℕ) (c : Choice) : Option State :=
  let goto (w : Writer) (s : State) : Option State := some { s with writer := update s.writer l w }
  match s.writer l, c with
  | .select, .done => if s.done l then goto .stopped s else .none
  | .select, .closed => if s.closed then goto .stopped s else .none
  | .select, .next =>
      match s.queue l with
      | [] => .none
      | batch :: rest => goto (.sending batch) { s with queue := update s.queue l rest }
  | .sending batch, .result false =>
      goto .select { s with written := update s.written l (s.written l ++ batch.frames) }
  | .sending _, .result true => goto (.failed .detach) s
  | .failed next, .next =>
      let (s, after) := removalStep s l next
      goto (match after with | some next => .failed next | .none => .stopped) s
  | _, _ => .none

/-- An atomic step of a party. -/
inductive Label where
  /-- a call of `Send` or `SendBatch` with frames as type and payload -/
  | send (u : ℕ) (frames : List (UInt8 × List UInt8))
  | call (u : ℕ) (c : Choice)
  /-- `attachLane` up to the lock's release, and the rest -/
  | attach (l : ℕ)
  | start (l : ℕ)
  | writer (l : ℕ) (c : Choice)
  /-- the reader of the lane or the controller calls `removeLane` -/
  | remove (g l : ℕ)
  | removal (g : ℕ)
  | probe (l : ℕ)
  | close

/-- The frames of a call, numbered. -/
def numbered (u : ℕ) (frames : List (UInt8 × List UInt8)) : List Frame :=
  frames.zipIdx.map fun x => ⟨(u, x.2), x.1.1, x.1.2⟩

def step (salt : UInt32) (s : State) : Label → Option State
  | .send u frames =>
      if s.calls u = .idle then
        some { s with
          calls := update s.calls u (.snapshot (numbered u frames))
          given := s.given ++ numbered u frames }
      else .none
  | .call u c => callStep salt s u c
  | .attach l =>
      if s.writer l = .none then
        some { s with lanes := s.lanes ++ [l], writer := update s.writer l .starting }
      else .none
  | .start l =>
      if s.writer l = .starting then
        some { s with affinity := ∅, writer := update s.writer l .select }
      else .none
  | .writer l c => writerStep s l c
  | .remove g l =>
      if s.removals g = .none ∧ s.writer l ≠ .none then
        some { s with removals := update s.removals g (some (l, .detach)) }
      else .none
  | .removal g =>
      match s.removals g with
      | some (l, next) =>
          let (s, after) := removalStep s l next
          some { s with removals := update s.removals g (after.map fun next => (l, next)) }
      | .none => .none
  | .probe l =>
      if s.writer l ≠ .none ∧ (s.queue l).length < stripeLaneQueueDepth then
        some { s with queue := update s.queue l (s.queue l ++ [.probe]) }
      else .none
  | .close => some { s with closed := true }

/-! ## Where frames are -/

/-- The lane's writer will not read its queue again. -/
def Writer.gone : Writer → Bool
  | .failed _ | .stopped => true
  | .none | .starting | .select | .sending _ => false

/-- The frames that a writer has taken from its queue. -/
def Writer.held : Writer → List Frame
  | .sending batch => batch.frames
  | _ => []

def Parts.frames (p : Parts) : List Frame := p.primary ++ p.perLane.flatMap snd

/-- The frames that a call still has to hand over. -/
def Call.held : Call → List Frame
  | .snapshot frames => frames
  | .split _ todo parts => todo ++ parts.frames
  | .resolve _ f todo parts => f :: todo ++ parts.frames
  | .primary frames perLane => frames ++ perLane.flatMap snd
  | .lanes perLane _ => perLane.flatMap snd
  | .offer _ batch perLane _ => batch ++ perLane.flatMap snd
  | .wait _ batch perLane _ => batch ++ perLane.flatMap snd
  | .repin batch perLane _ => batch ++ perLane.flatMap snd
  | .fallback batch perLane _ => batch ++ perLane.flatMap snd
  | .idle | .returned _ => []

/-- The places of a frame that is not lost: a call, the queue of a lane that is still read, a writer, and the
transports. -/
inductive Holder where
  | call (u : ℕ)
  | queue (l : ℕ)
  | writer (l : ℕ)
  | base
  | lane (l : ℕ)
  deriving DecidableEq

/-- The frames at a place. -/
def State.contents (s : State) : Holder → List Frame
  | .call u => (s.calls u).held
  | .queue l => if (s.writer l).gone then [] else (s.queue l).flatMap Batch.frames
  | .writer l => (s.writer l).held
  | .base => s.base
  | .lane l => s.written l

end Stripe
