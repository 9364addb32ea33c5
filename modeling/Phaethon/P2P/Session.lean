import Phaethon.P2P.Stripe
import Phaethon.P2P.UdpLeg

/-!
# A session and its `Close`

`src/p2p/udp_leg_transport.go` over `src/p2p/stripe_transport.go`. Packet connections come from the dials of the UDP
leg, which run in goroutines of their own, and lane transports from the controller's dials and from inbound legs.
Meanwhile the session may be closed. Goroutines, connections and lanes are named by numbers; the steps of `Send`,
`SendBatch`, the lane writers and `removeLane` are those of `Stripe`.
-/

namespace Session

open Function

open UdpLeg (UdpLegFSM Action newUDPLegFSM)

variable {α : Type*}

/-! ## The UDP leg -/

/-- The goroutines that work on the leg: `tickLoop`, calls of `onPeerGossip` and the dials. -/
inductive Who where
  | ticker
  | gossip (u : ℕ)
  | dial (k : ℕ)
  deriving DecidableEq, Repr

/-- Where such a goroutine is. `tick` is the instant that `tickLoop` goes on with after its actions. -/
inductive Task where
  | idle
  /-- `executeActions` -/
  | acts (todo : List Action) (tick : Option ℕ)
  /-- `closeChannel` has taken the connection -/
  | close (pc : ℕ) (todo : List Action) (tick : Option ℕ)
  /-- `allocatePort` is about to tell the machine -/
  | port (p : ℤ) (todo : List Action) (tick : Option ℕ)
  /-- `maybeRedial`: the phase, the time since the last dial, and `spawnDial` -/
  | redial (now : ℕ)
  | due (now : ℕ)
  | spawn
  /-- the goroutine of `spawnDial`: in `dialFn`, with its result, and about to tell the machine -/
  | dial
  | dialled (res : Option ℕ)
  | report (ok : Bool)
  | stopped
  deriving DecidableEq, Repr

/-- `udpLegDialRetry`, in nanoseconds. -/
def udpLegDialRetry : ℕ := 60000000000

/-- `udpLegTransport`. -/
structure Leg (α : Type*) where
  fsm : UdpLegFSM α
  pc : Option ℕ := none
  dialing : Bool := false
  lastDialAt : ℕ := 0
  ep : Option ℤ := none
  closed : Bool := false
  tasks : Who → Task := fun _ => .idle
  /-- log: the connections that `dialFn` has returned -/
  returned : List ℕ := []
  /-- log: the connections that have been closed -/
  shut : List ℕ := []

/-- What a step gets from outside: a new goroutine and the time, the result of `dialFn`, a port of the registry. -/
inductive Answer where
  | next
  | goroutine (k now : ℕ)
  | conn (res : Option ℕ)
  | port (p : Option ℤ)
  deriving DecidableEq, Repr

/-- `spawnDial`. -/
def spawnDial (dialFn : Bool) (s : Leg α) (c : Answer) : Option (Leg α) :=
  if !s.fsm.active || !dialFn || s.dialing || s.pc.isSome then some s
  else
    match c with
    | .goroutine k now =>
        if s.tasks (.dial k) = .idle then
          some { s with dialing := true, lastDialAt := now, tasks := update s.tasks (.dial k) .dial }
        else none
    | _ => none

/-- The goroutine goes on. -/
def Leg.goto (s : Leg α) (w : Who) (p : Task) : Leg α := { s with tasks := update s.tasks w p }

/-- One round of the loop of `executeActions`. -/
def actStep (dialFn : Bool) (s : Leg α) (w : Who) (a : Action) (todo : List Action) (tick : Option ℕ) (c : Answer) :
    Option (Leg α) :=
  match a with
  | .dialChannel => (spawnDial dialFn s c).map (·.goto w (.acts todo tick))
  | .closeChannel =>
      match s.pc with
      | some n => some ({ s with pc := none }.goto w (.close n todo tick))
      | none => some (s.goto w (.acts todo tick))
  | .allocatePort =>
      if s.ep.isSome then some (s.goto w (.acts todo tick))
      else
        match c with
        | .port (some p) => some ({ s with ep := some p }.goto w (.port p todo tick))
        | .port none => some (s.goto w (.acts todo tick))
        | _ => none
  | .unregisterPort => some ({ s with ep := none }.goto w (.acts todo tick))
  -- `stateNotify`
  | .startAdvertise | .stopAdvertise => some (s.goto w (.acts todo tick))

/-- The next atomic step of a goroutine. -/
def legStep (dialFn : Bool) (s : Leg α) (w : Who) (c : Answer) : Option (Leg α) :=
  match s.tasks w with
  | .acts [] none => some (s.goto w .idle)
  | .acts [] (some now) => some (s.goto w (.redial now))
  | .acts (a :: todo) tick => actStep dialFn s w a todo tick c
  | .close n todo tick => some ({ s with shut := n :: s.shut }.goto w (.acts todo tick))
  | .port p todo tick => some ({ s with fsm := s.fsm.setLocalPort p }.goto w (.acts todo tick))
  | .redial now =>
      some (s.goto w (if s.fsm.active && dialFn && s.fsm.phase = .advertising then .due now else .idle))
  | .due now =>
      some (s.goto w (
        if s.dialing || s.pc.isSome then .idle
        else if s.lastDialAt = 0 ∨ s.lastDialAt + udpLegDialRetry ≤ now then .spawn
        else .idle))
  | .spawn => (spawnDial dialFn s c).map (·.goto w .idle)
  | .dial =>
      match c with
      | .conn none => some (s.goto w (.dialled none))
      | .conn (some n) =>
          if n ∈ s.returned then none
          else some ({ s with returned := n :: s.returned }.goto w (.dialled (some n)))
      | _ => none
  | .dialled res => some ({ s with dialing := false, pc := res <|> s.pc }.goto w (.report res.isSome))
  | .report ok =>
      some ({ s with fsm := (s.fsm.onChannelResult ok).1 }.goto w (.acts (s.fsm.onChannelResult ok).2 none))
  | .idle | .stopped => none

/-! ## The session -/

/-- The controller of the lanes. -/
inductive Controller where
  | idle
  /-- in `dialLane` -/
  | dialing
  /-- in `attachLane` -/
  | attaching (l : ℕ)
  | stopped
  deriving DecidableEq, Repr

/-- Where `Close` is. A session without a leg begins with the `Close` of the stripe transport and ends with it. -/
inductive Closer where
  | uncalled
  | base
  | snapshot
  | lanes (todo : List ℕ)
  | shut (l : ℕ) (todo : List ℕ)
  | dropLanes
  | primary
  | channel
  | closing (n : ℕ)
  | unregister
  | returning
  | returned
  deriving DecidableEq, Repr

/-- How a session was made. -/
structure Config where
  /-- it has a UDP leg -/
  leg : Bool
  active : Bool
  /-- `dialFn` and `dialLane` are not nil -/
  dialFn : Bool
  dialLane : Bool
  salt : UInt32

/-- A session. -/
structure State (α : Type*) where
  leg : Leg α
  stripe : Stripe.State := {}
  controller : Controller := .idle
  /-- `removeLane` has closed `done` of these lanes and not yet their transports -/
  pending : List ℕ := []
  primaryClosed : Bool := false
  closer : Closer := .uncalled
  /-- log: the lane transports that the session was handed, and those that have been closed -/
  handed : List ℕ := []
  shut : List ℕ := []

/-- A new session. -/
def new (cfg : Config) : State α := { leg := { fsm := newUDPLegFSM cfg.active true ⟨0, 0⟩ } }

/-- The lane that a step of `removeLane` marks as done. -/
def marked (s : Stripe.State) : Stripe.Label → Option ℕ
  | .writer l .next => if s.writer l = .failed .close then some l else none
  | .removal g =>
      match s.removals g with
      | some (l, .close) => some l
      | _ => none
  | _ => none

/-- The next atomic step of `Close`. -/
def closeStep (cfg : Config) (s : State α) : Option (State α) :=
  match s.closer with
  | .uncalled =>
      if cfg.leg then some { s with leg := { s.leg with closed := true }, closer := .base }
      else some { s with stripe := { s.stripe with closed := true }, closer := .snapshot }
  | .base => some { s with stripe := { s.stripe with closed := true }, closer := .snapshot }
  | .snapshot => some { s with closer := .lanes s.stripe.lanes }
  | .lanes [] => some { s with closer := .dropLanes }
  | .lanes (l :: todo) =>
      some { s with
        stripe := { s.stripe with done := update s.stripe.done l true }
        closer := .shut l todo }
  | .shut l todo => some { s with shut := l :: s.shut, closer := .lanes todo }
  | .dropLanes => some { s with stripe := { s.stripe with lanes := [] }, closer := .primary }
  | .primary => some { s with primaryClosed := true, closer := if cfg.leg then .channel else .returning }
  | .channel =>
      match s.leg.pc with
      | some n => some { s with leg := { s.leg with pc := none }, closer := .closing n }
      | none => some { s with closer := .unregister }
  | .closing n => some { s with leg := { s.leg with shut := n :: s.leg.shut }, closer := .unregister }
  | .unregister => some { s with leg := { s.leg with ep := none }, closer := .returning }
  | .returning => some { s with closer := .returned }
  | .returned => none

/-- An atomic step. -/
inductive Label (α : Type*) where
  /-- `onPeerGossip` and a tick, as far as the machine's answer -/
  | gossip (u : ℕ) (peerUDP : Bool) (peerPort : ℤ)
  | tick (now : ℕ)
  | tickStop
  /-- a sent and a received datagram, as the machine sees them -/
  | dataSent (now : ℕ)
  | udpInbound (now : ℕ) (addr : α)
  | leg (w : Who) (c : Answer)
  /-- the controller calls `dialLane`, gets its result, and has attached the lane -/
  | dialLane
  | laneDialled (res : Option ℕ)
  | laneAttached
  | controllerStop
  /-- `attachStripeLeg` calls `attachLane` -/
  | inbound (l : ℕ)
  | stripe (lb : Stripe.Label)
  /-- the end of `removeLane` -/
  | shut (l : ℕ)
  | close

/-- The steps of the leg; none in a session without one. -/
def legLabel (cfg : Config) (s : Leg α) : Label α → Option (Leg α)
  | .gossip u peerUDP peerPort =>
      if s.tasks (.gossip u) = .idle then
        some ({ s with fsm := (s.fsm.onGossip peerUDP peerPort).1 }.goto (.gossip u)
          (.acts (s.fsm.onGossip peerUDP peerPort).2 none))
      else none
  | .tick now =>
      if s.tasks .ticker = .idle then
        some ({ s with fsm := (s.fsm.tick now).1 }.goto .ticker (.acts (s.fsm.tick now).2 (some now)))
      else none
  | .tickStop => if s.closed ∧ s.tasks .ticker = .idle then some (s.goto .ticker .stopped) else none
  | .dataSent now => some { s with fsm := s.fsm.onDataSent now }
  | .udpInbound now addr => some { s with fsm := s.fsm.onUDPInbound now addr }
  | .leg w c => legStep cfg.dialFn s w c
  | _ => none

/-- The lane is through with `attachLane`. -/
def State.attached (s : State α) (l : ℕ) : Bool := s.stripe.writer l ≠ .none ∧ s.stripe.writer l ≠ .starting

/-- A step of the stripe transport other than `Close`. Only a transport that was handed over is attached. -/
def stripeStep (cfg : Config) (s : State α) (lb : Stripe.Label) : Option (State α) :=
  match lb with
  | .close => none
  | .attach l =>
      if l ∈ s.handed then (Stripe.step cfg.salt s.stripe lb).map fun stripe => { s with stripe } else none
  | lb =>
      (Stripe.step cfg.salt s.stripe lb).map fun stripe =>
        { s with stripe, pending := (marked s.stripe lb).toList ++ s.pending }

def step (cfg : Config) (s : State α) : Label α → Option (State α)
  | .dialLane =>
      if cfg.dialLane ∧ s.controller = .idle then some { s with controller := .dialing } else none
  | .laneDialled res =>
      if s.controller = .dialing then
        match res with
        | some l =>
            if l ∈ s.handed then none
            else some { s with controller := .attaching l, handed := l :: s.handed }
        | none => some { s with controller := .idle }
      else none
  | .laneAttached =>
      match s.controller with
      | .attaching l => if s.attached l then some { s with controller := .idle } else none
      | _ => none
  | .controllerStop =>
      if s.stripe.closed ∧ s.controller = .idle then some { s with controller := .stopped } else none
  | .inbound l => if l ∈ s.handed then none else some { s with handed := l :: s.handed }
  | .stripe lb => stripeStep cfg s lb
  | .shut l =>
      if l ∈ s.pending then some { s with pending := s.pending.erase l, shut := l :: s.shut } else none
  | .close => closeStep cfg s
  | lb => if cfg.leg then (legLabel cfg s.leg lb).map fun leg => { s with leg } else none

/-! ## What `Close` should leave behind -/

/-- The dials of packet connections and of lanes and the calls of `attachLane` have finished. -/
structure State.Settled (s : State α) : Prop where
  dials : ∀ k, s.leg.tasks (.dial k) = .idle
  controller : s.controller ≠ .dialing
  lanes : ∀ l ∈ s.handed, s.attached l = true

/-- Every connection of `dialFn` and every lane transport is closed. -/
def State.AllShut (s : State α) : Prop := s.leg.returned ⊆ s.leg.shut ∧ s.handed ⊆ s.shut

end Session
