import Mathlib.Data.Int.Notation
import Phaethon.Common.Alternation

/-!
# The UDP leg of a link

`src/p2p/udp_leg.go`: the state machine that decides when a peer link may use its UDP leg. Events come in,
actions for the manager go out. `Link` adds what the manager sees of one machine, the actions so far and
the latest gossip, and `Link.Sound` relates the machine's fields to that history after every run.

An instant is the number of nanoseconds since Go's zero time, so that `IsZero` is `= 0`. `SetEnabled` is not
an event of a run: the switch keeps the value the machine was made with.
-/

namespace UdpLeg

open Alternation Option

/-! ## The machine -/

/-- `udpLegPhase`. -/
inductive Phase where
  | none | advertising | channel | negotiated | pending | active | backoff
  deriving DecidableEq, Repr

/-- `udpLegAction`. -/
inductive Action where
  | startAdvertise | stopAdvertise | dialChannel | closeChannel | allocatePort | unregisterPort
  deriving DecidableEq, Repr

/-- `udpLegTimings`: durations in nanoseconds. -/
structure Timings where
  refluxTimeout : ℤ
  backoff : ℤ
  deriving DecidableEq, Repr

/-- `defaultUDPLegTimings`. -/
def defaultUDPLegTimings : Timings := ⟨10000000000, 60000000000⟩

/-- `udpLegFSM`, over the addresses `α` of the peer. -/
structure UdpLegFSM (α : Type*) where
  active : Bool
  enabled : Bool
  timings : Timings
  phase : Phase
  peerCapable : Bool
  peerPort : ℤ
  localPort : ℤ
  channelReady : Bool
  sawUDPInbound : Bool
  peerAddr : Option α
  refluxDeadline : ℕ
  backoffUntil : ℕ
  deriving DecidableEq, Repr

open UdpLegFSM

/-- What the manager feeds in, at an instant. -/
inductive Event (α : Type*) where
  | gossip (now : ℕ) (peerUDP : Bool) (peerPort : ℤ)
  | channelResult (now : ℕ) (ok : Bool)
  | dataSent (now : ℕ)
  | udpInbound (now : ℕ) (addr : α)
  | tick (now : ℕ)
  deriving DecidableEq, Repr

variable {α : Type*}

/-- `newUDPLegFSM`. -/
def newUDPLegFSM (active enabled : Bool) (timings : Timings) : UdpLegFSM α where
  active := active
  enabled := enabled
  timings :=
    { refluxTimeout :=
        if timings.refluxTimeout ≤ 0 then defaultUDPLegTimings.refluxTimeout else timings.refluxTimeout
      backoff := if timings.backoff ≤ 0 then defaultUDPLegTimings.backoff else timings.backoff }
  phase := .none
  peerCapable := false
  peerPort := 0
  localPort := 0
  channelReady := false
  sawUDPInbound := false
  peerAddr := none
  refluxDeadline := 0
  backoffUntil := 0

namespace UdpLegFSM

variable (f : UdpLegFSM α)

/-- `ShouldAdvertise`. -/
def shouldAdvertise : Bool :=
  match f.phase with
  | .advertising | .channel | .negotiated | .pending | .active => true
  | .none | .backoff => false

/-- `SendPort`. -/
def sendPort : Option ℤ :=
  if !f.active || f.peerPort == 0 then none
  else
    match f.phase with
    | .negotiated | .pending | .active => some f.peerPort
    | _ => none

/-- `RouteDataViaUDP`. -/
def routeDataViaUDP : Bool :=
  if !f.active then f.phase == .active && f.peerAddr.isSome else f.sendPort.isSome

/-- `SetLocalPort`. -/
def setLocalPort (port : ℤ) : UdpLegFSM α :=
  if !f.active then { f with localPort := port } else f

/-- `enterAdvertising`. -/
def enterAdvertising : UdpLegFSM α × List Action :=
  ({ f with phase := .advertising },
    [.startAdvertise, if f.active then .dialChannel else .allocatePort])

/-- `withdraw`. -/
def withdraw : UdpLegFSM α × List Action :=
  ({ f with
      channelReady := false
      localPort := if !f.active && f.localPort != 0 then 0 else f.localPort
      peerPort := 0
      sawUDPInbound := false
      peerAddr := none
      refluxDeadline := 0
      phase := .none },
    (if f.shouldAdvertise then [.stopAdvertise] else []) ++
      (if f.channelReady then [.closeChannel] else []) ++
      if !f.active && f.localPort != 0 then [.unregisterPort] else [])

/-- `fallback`. -/
def fallback (now : ℕ) : UdpLegFSM α × List Action :=
  ({ f.withdraw.1 with phase := .backoff, backoffUntil := now + f.timings.backoff.toNat }, f.withdraw.2)

/-- The fields that `OnGossip` updates when the peer announces its leg: only the active side keeps the
port. -/
def learn (peerPort : ℤ) : UdpLegFSM α :=
  if f.active && decide (0 < peerPort) then
    { f with
      peerCapable := true
      peerPort := peerPort
      phase := if f.phase = .channel then .negotiated else f.phase }
  else { f with peerCapable := true }

/-- `OnGossip`. -/
def onGossip (peerUDP : Bool) (peerPort : ℤ) : UdpLegFSM α × List Action :=
  if !f.enabled then (f, [])
  else if !peerUDP then
    if f.active then ({ f with peerCapable := false, peerPort := 0 }, [])
    else
      match f.phase with
      | .none | .backoff => ({ f with peerCapable := false }, [])
      | _ => { f with peerCapable := false }.withdraw
  else
    let f := f.learn peerPort
    if f.phase = .none then f.enterAdvertising else (f, [])

/-- `OnChannelResult`. -/
def onChannelResult (ok : Bool) : UdpLegFSM α × List Action :=
  if !f.active || !ok then (f, [])
  else
    match f.phase with
    | .advertising | .channel =>
        ({ f with channelReady := true, phase := if 0 < f.peerPort then .negotiated else .channel }, [])
    | _ => (f, [])

/-- `OnDataSent`. -/
def onDataSent (now : ℕ) : UdpLegFSM α :=
  if f.phase = .negotiated then
    { f with phase := .pending, refluxDeadline := now + f.timings.refluxTimeout.toNat }
  else f

/-- `OnUDPInbound`. -/
def onUDPInbound (now : ℕ) (addr : α) : UdpLegFSM α :=
  let up : UdpLegFSM α :=
    { f with
      sawUDPInbound := true
      peerAddr := some addr
      phase := .active
      refluxDeadline := now + f.timings.refluxTimeout.toNat }
  match f.phase with
  | .none | .backoff => f
  | .advertising => if f.active then f else up
  | .pending | .active => up
  | .channel | .negotiated => f

/-- `Tick`. -/
def tick (now : ℕ) : UdpLegFSM α × List Action :=
  match f.phase with
  | .pending | .active =>
      if f.refluxDeadline != 0 && decide (f.refluxDeadline ≤ now) then f.fallback now else (f, [])
  | .backoff =>
      if now < f.backoffUntil then (f, [])
      else if !f.enabled || (!f.active && !f.peerCapable) then ({ f with phase := .none }, [])
      else f.enterAdvertising
  | .none => if f.enabled && (f.active || f.peerCapable) then f.enterAdvertising else (f, [])
  | _ => (f, [])

/-- The machine's answer to an event. -/
def handle : Event α → UdpLegFSM α × List Action
  | .gossip _ peerUDP peerPort => f.onGossip peerUDP peerPort
  | .channelResult _ ok => f.onChannelResult ok
  | .dataSent now => (f.onDataSent now, [])
  | .udpInbound now addr => (f.onUDPInbound now addr, [])
  | .tick now => f.tick now

end UdpLegFSM

/-! ## A run of one machine -/

/-- A machine with the actions it has asked for and the `udp` flag of the latest gossip. -/
structure Link (α : Type*) where
  fsm : UdpLegFSM α
  actions : List Action
  gossip : Option Bool

open Link

/-- The flag a gossip carries. -/
def Event.flag : Event α → Option Bool
  | .gossip _ peerUDP _ => some peerUDP
  | _ => none

/-- The machine after the manager's answer to what it asked for. -/
def UdpLegFSM.answered (r : UdpLegFSM α × List Action) (answer : Option {p : ℤ // 0 < p}) : UdpLegFSM α :=
  if .allocatePort ∈ r.2 then answer.elim r.1 fun p => r.1.setLocalPort p else r.1

namespace Link

/-- One event. The manager answers an `AllocatePort` on the spot, with a port or with none. -/
def step (s : Link α) (e : Event α × Option {p : ℤ // 0 < p}) : Link α :=
  { fsm := answered (s.fsm.handle e.1) e.2
    actions := s.actions ++ (s.fsm.handle e.1).2
    gossip := e.1.flag <|> s.gossip }

/-- A new machine, before its first event. -/
def new (active enabled : Bool) (timings : Timings) : Link α :=
  ⟨newUDPLegFSM active enabled timings, [], none⟩

/-- The link after a sequence of events. -/
def run (s : Link α) (es : List (Event α × Option {p : ℤ // 0 < p})) : Link α := es.foldl step s

end Link

/-! ## What holds after every run -/

/-- The phases in which the dialled channel is up. -/
def Phase.connected : Phase → Bool
  | .channel | .negotiated | .pending | .active => true
  | .none | .advertising | .backoff => false

/-- The link's state as its users may rely on it. -/
structure Link.Sound (s : Link α) : Prop where
  active_ready : s.fsm.active = true → s.fsm.phase.connected = true → s.fsm.channelReady = true
  passive_phase : s.fsm.active = false →
    s.fsm.phase ≠ .channel ∧ s.fsm.phase ≠ .negotiated ∧ s.fsm.phase ≠ .pending
  passive_gossip : s.fsm.active = false → s.fsm.phase = .advertising ∨ s.fsm.phase = .active →
    s.gossip = some true
  route_active : s.fsm.active = true → s.fsm.routeDataViaUDP = true →
    s.fsm.peerPort ≠ 0 ∧ s.fsm.channelReady = true
  route_passive : s.fsm.active = false → s.fsm.routeDataViaUDP = true →
    s.fsm.phase = .active ∧ s.fsm.sawUDPInbound = true ∧ s.fsm.peerAddr ≠ none
  deadline : s.fsm.phase = .pending ∨ s.fsm.phase = .active → s.fsm.refluxDeadline ≠ 0
  idle : s.fsm.phase = .none ∨ s.fsm.phase = .backoff →
    s.fsm.shouldAdvertise = false ∧ s.fsm.channelReady = false ∧ s.fsm.localPort = 0 ∧
      s.fsm.peerAddr = none
  advertise : Alternates .startAdvertise .stopAdvertise s.actions
  dial : Alternates .dialChannel .closeChannel s.actions
  unregister : ∀ e, .unregisterPort ∈ (s.fsm.handle e).2 → s.fsm.localPort ≠ 0

/-- The machine is out of `None` and `Backoff`. -/
def Phase.up : Phase → Bool
  | .none | .backoff => false
  | _ => true

/-- The inductive invariant. The two histories are in the state that the phase tells, the channel is ready
exactly in the connected phases, and what `withdraw` clears is clear while the machine is down. -/
structure Link.Inv (s : Link α) : Prop where
  timeout : 0 < s.fsm.timings.refluxTimeout
  ready : s.fsm.channelReady = (s.fsm.active && s.fsm.phase.connected)
  passive : s.fsm.active = false →
    s.fsm.phase ≠ .channel ∧ s.fsm.phase ≠ .negotiated ∧ s.fsm.phase ≠ .pending
  enabled : s.fsm.phase ≠ .none → s.fsm.enabled = true
  capable : s.fsm.enabled = true → s.fsm.peerCapable = (s.gossip == some true)
  listening : s.fsm.active = false → s.fsm.phase.up = true → s.fsm.peerCapable = true
  inbound : s.fsm.active = false → s.fsm.phase = .active →
    s.fsm.sawUDPInbound = true ∧ s.fsm.peerAddr ≠ none
  deadline : s.fsm.phase = .pending ∨ s.fsm.phase = .active → s.fsm.refluxDeadline ≠ 0
  down : s.fsm.phase.up = false → s.fsm.localPort = 0 ∧ s.fsm.peerAddr = none
  dialer : s.fsm.active = true → s.fsm.localPort = 0
  advertise : after .startAdvertise .stopAdvertise false s.actions = some s.fsm.phase.up
  dial : after .dialChannel .closeChannel false s.actions = some (s.fsm.active && s.fsm.phase.up)

theorem UdpLegFSM.shouldAdvertise_eq (f : UdpLegFSM α) : f.shouldAdvertise = f.phase.up := by
  unfold shouldAdvertise Phase.up
  cases f.phase <;> rfl

/-! ### One event -/

theorem UdpLegFSM.answered_of_notMem {r : UdpLegFSM α × List Action} (h : .allocatePort ∉ r.2)
    (answer : Option {p : ℤ // 0 < p}) : answered r answer = r.1 := if_neg h

/-- Only the passive side takes a port when it starts to advertise. -/
theorem UdpLegFSM.answered_enterAdvertising (f : UdpLegFSM α) (answer : Option {p : ℤ // 0 < p}) :
    ∃ port, (f.active = true → port = f.localPort) ∧
      answered f.enterAdvertising answer = { f with phase := .advertising, localPort := port } := by
  cases hactive : f.active with
  | true => exact ⟨f.localPort, fun _ => rfl, by simp [answered, enterAdvertising, hactive]⟩
  | false =>
    cases answer with
    | none => exact ⟨f.localPort, nofun, by simp [answered, enterAdvertising, hactive]⟩
    | some p => exact ⟨p, nofun, by simp [answered, enterAdvertising, setLocalPort, hactive]⟩

@[simp]
theorem Phase.up_eq_false {p : Phase} : p.up = false ↔ p = .none ∨ p = .backoff := by
  cases p <;> simp [up]

theorem Phase.connected_of_down {p : Phase} (h : p.up = false) : p.connected = false := by
  rcases Phase.up_eq_false.mp h with rfl | rfl <;> rfl

namespace Link.Inv

variable {s : Link α}

/-- Entering the advertising phase, with the manager's answer to the port it asks for. -/
theorem enter (h : s.Inv) (hdown : s.fsm.phase.up = false) (henabled : s.fsm.enabled = true)
    (hcapable : s.fsm.active = false → s.fsm.peerCapable = true) (answer : Option {p : ℤ // 0 < p}) :
    Inv
      { s with
        fsm := answered s.fsm.enterAdvertising answer
        actions := s.actions ++ s.fsm.enterAdvertising.2 } := by
  obtain ⟨port, hport, hanswer⟩ := s.fsm.answered_enterAdvertising answer
  have hready := h.ready
  rw [Phase.connected_of_down hdown, Bool.and_false] at hready
  have hadvertise := h.advertise
  have hdial := h.dial
  rw [hdown] at hadvertise hdial
  rw [hanswer]
  exact
    { h with
      ready := by simp [hready, Phase.connected]
      passive := by simp
      enabled := fun _ => henabled
      listening := fun hpassive _ => hcapable hpassive
      inbound := by simp
      deadline := by simp
      down := by simp [Phase.up]
      dialer := fun hactive => (hport hactive).trans (h.dialer hactive)
      advertise := after_extend hadvertise (by
        cases hactive : s.fsm.active <;> simp [enterAdvertising, hactive, after, Phase.up])
      dial := after_extend hdial (by
        cases hactive : s.fsm.active <;> simp [enterAdvertising, hactive, after, Phase.up]) }

theorem allocatePort_notMem_withdraw (f : UdpLegFSM α) : Action.allocatePort ∉ f.withdraw.2 := by
  simp only [UdpLegFSM.withdraw, List.mem_append, not_or]
  exact ⟨⟨by split <;> simp, by split <;> simp⟩, by split <;> simp⟩

/-- Going down, from any phase but `Advertising` on the active side: there the channel is not ready, and
`withdraw` would leave a dial without its close. -/
theorem withdraw (h : s.Inv) (hclose : s.fsm.active = true → s.fsm.phase.up = s.fsm.phase.connected)
    (phase : Phase) (hdown : phase.up = false) (henabled : phase ≠ .none → s.fsm.enabled = true)
    (capable : Bool) (gossip : Option Bool)
    (hcapable : s.fsm.enabled = true → capable = (gossip == some true)) (until' : ℕ) :
    Inv
      { fsm := { s.fsm.withdraw.1 with phase := phase, peerCapable := capable, backoffUntil := until' }
        actions := s.actions ++ s.fsm.withdraw.2
        gossip := gossip } where
  timeout := h.timeout
  ready := by simp [UdpLegFSM.withdraw, Phase.connected_of_down hdown]
  passive _ := by rcases Phase.up_eq_false.mp hdown with rfl | rfl <;> simp
  enabled := henabled
  capable := hcapable
  listening _ hup := by simp [hdown] at hup
  inbound _ hphase := by
    subst hphase
    cases hdown
  deadline hphase := by rcases hphase with rfl | rfl <;> cases hdown
  down _ := by
    cases hactive : s.fsm.active with
    | true => simp [UdpLegFSM.withdraw, hactive, h.dialer hactive]
    | false => simp [UdpLegFSM.withdraw, hactive]
  dialer hactive := by
    have : s.fsm.active = true := hactive
    simp [UdpLegFSM.withdraw, this, h.dialer this]
  advertise := by
    refine after_extend h.advertise ?_
    cases hup : s.fsm.phase.up <;>
      simp only [UdpLegFSM.withdraw, UdpLegFSM.shouldAdvertise_eq, hup] <;>
      split_ifs <;> simp_all [after]
  dial := by
    -- A ready channel is the sign of a dial that has not been closed, on the active side only.
    refine after_extend h.dial ?_
    have hready := h.ready
    cases hactive : s.fsm.active with
    | true =>
      simp only [UdpLegFSM.withdraw, hready, hdown, hactive]
      split_ifs <;> simp_all [after]
    | false =>
      simp only [UdpLegFSM.withdraw, hready, hactive]
      split_ifs <;> simp_all [after]

/-- Going from one phase to another while up. -/
theorem move (h : s.Inv) (hup : s.fsm.phase.up = true) {phase : Phase} (hphase : phase.up = true)
    {ready saw : Bool} {port : ℤ} {addr : Option α} {deadline : ℕ}
    (hready : ready = (s.fsm.active && phase.connected))
    (hpassive : s.fsm.active = false → phase = .active ∧ saw = true ∧ addr ≠ none)
    (hdeadline : phase = .pending ∨ phase = .active → deadline ≠ 0) :
    Inv
      { s with
        fsm :=
          { s.fsm with
            phase := phase
            channelReady := ready
            peerPort := port
            sawUDPInbound := saw
            peerAddr := addr
            refluxDeadline := deadline } } :=
  { h with
    ready := hready
    passive := fun hactive => by simp [(hpassive hactive).1]
    enabled := fun _ => h.enabled fun hnone => by simp [hnone, Phase.up] at hup
    listening := fun hactive _ => h.listening hactive hup
    inbound := fun hactive _ => (hpassive hactive).2
    deadline := hdeadline
    down := fun hdown => by simp [hphase] at hdown
    advertise := by rw [h.advertise, hup, hphase]
    dial := by rw [h.dial, hup, hphase] }

/-- Taking in the peer's latest word, in a phase that does not need it to be capable. -/
theorem hear (h : s.Inv) (capable : Bool) (gossip : Option Bool)
    (hcapable : s.fsm.enabled = true → capable = (gossip == some true))
    (hlisten : s.fsm.active = false → s.fsm.phase.up = true → capable = true) (port : ℤ) :
    Inv { s with fsm := { s.fsm with peerCapable := capable, peerPort := port }, gossip := gossip } :=
  { h with capable := hcapable, listening := hlisten }

/-- A handler that asks for nothing. -/
theorem quiet {f : UdpLegFSM α} {gossip : Option Bool} (h : Inv ⟨f, s.actions, gossip⟩)
    (answer : Option {p : ℤ // 0 < p}) :
    Inv ⟨answered (f, []) answer, s.actions ++ [], gossip⟩ := by
  simpa [answered] using h

section

variable (h : s.Inv)

include h

/-- Losing the peer's announcement: the active side only forgets the port, the passive side stops
listening. -/
theorem onGossip_lost (henabled : s.fsm.enabled = true) (peerPort : ℤ)
    (answer : Option {p : ℤ // 0 < p}) :
    Inv
      { fsm := answered (s.fsm.onGossip false peerPort) answer
        actions := s.actions ++ (s.fsm.onGossip false peerPort).2
        gossip := some false } := by
  have hdeaf (hdown : s.fsm.active = false → s.fsm.phase.up = false) (port : ℤ) :=
    h.hear false (some false) (fun _ => rfl)
      (fun hpassive hup => absurd (hdown hpassive) (by simp [hup])) port
  cases hactive : s.fsm.active with
  | true =>
    have heq : s.fsm.onGossip false peerPort = ({ s.fsm with peerCapable := false, peerPort := 0 }, []) := by
      simp [UdpLegFSM.onGossip, henabled, hactive]
    rw [heq]
    exact quiet (hdeaf (by simp [hactive]) 0) answer
  | false =>
    cases hup : s.fsm.phase.up with
    | false =>
      have heq : s.fsm.onGossip false peerPort = ({ s.fsm with peerCapable := false }, []) := by
        rcases Phase.up_eq_false.mp hup with hp | hp <;> simp [UdpLegFSM.onGossip, henabled, hactive, hp]
      rw [heq]
      exact quiet (hdeaf (fun _ => hup) _) answer
    | true =>
      have heq : s.fsm.onGossip false peerPort = { s.fsm with peerCapable := false }.withdraw := by
        have hne : ¬ (s.fsm.phase = .none ∨ s.fsm.phase = .backoff) := by simp [← Phase.up_eq_false, hup]
        unfold UdpLegFSM.onGossip
        cases hp : s.fsm.phase <;> simp_all
      rw [heq, answered_of_notMem (allocatePort_notMem_withdraw _)]
      exact h.withdraw (by simp [hactive]) .none rfl (by simp) false (some false) (fun _ => rfl)
        s.fsm.backoffUntil

theorem learn (peerPort : ℤ) : Inv { s with fsm := s.fsm.learn peerPort, gossip := some true } := by
  have hheard (port : ℤ) := h.hear true (some true) (fun _ => rfl) (fun _ _ => rfl) port
  unfold UdpLegFSM.learn
  split
  case isFalse hkeep => exact hheard s.fsm.peerPort
  case isTrue hport =>
    have hactive : s.fsm.active = true := (Bool.and_eq_true _ _ ▸ hport).1
    split
    case isFalse hphase => exact hheard peerPort
    case isTrue hphase =>
      refine (hheard peerPort).move (by rw [hphase]; rfl) rfl ?_ (by simp [hactive]) (by simp)
      rw [h.ready, hphase]
      rfl

/-- Hearing the peer's announcement. -/
theorem onGossip_heard (henabled : s.fsm.enabled = true) (peerPort : ℤ)
    (answer : Option {p : ℤ // 0 < p}) :
    Inv
      { fsm := answered (s.fsm.onGossip true peerPort) answer
        actions := s.actions ++ (s.fsm.onGossip true peerPort).2
        gossip := some true } := by
  have hlearn := h.learn peerPort
  have heq : s.fsm.onGossip true peerPort =
      if (s.fsm.learn peerPort).phase = .none then (s.fsm.learn peerPort).enterAdvertising
      else (s.fsm.learn peerPort, []) := by simp [UdpLegFSM.onGossip, henabled]
  have hknown : (s.fsm.learn peerPort).enabled = true ∧ (s.fsm.learn peerPort).peerCapable = true := by
    unfold UdpLegFSM.learn
    split <;> exact ⟨henabled, rfl⟩
  rw [heq]
  split
  case isTrue hphase => exact hlearn.enter (by simp [hphase]) hknown.1 (fun _ => hknown.2) answer
  case isFalse hphase => exact quiet hlearn answer

theorem onGossip (peerUDP : Bool) (peerPort : ℤ) (answer : Option {p : ℤ // 0 < p}) :
    Inv
      { fsm := answered (s.fsm.onGossip peerUDP peerPort) answer
        actions := s.actions ++ (s.fsm.onGossip peerUDP peerPort).2
        gossip := some peerUDP } := by
  cases henabled : s.fsm.enabled with
  | false =>
    have hnone : s.fsm.phase = .none := by
      by_contra hne
      exact absurd (h.enabled hne) (by simp [henabled])
    have heq : s.fsm.onGossip peerUDP peerPort = (s.fsm, []) := by simp [UdpLegFSM.onGossip, henabled]
    rw [heq]
    exact quiet (h.hear _ _ (by simp [henabled]) (by simp [hnone, Phase.up]) s.fsm.peerPort) answer
  | true =>
    cases peerUDP with
    | false => exact h.onGossip_lost henabled peerPort answer
    | true => exact h.onGossip_heard henabled peerPort answer

theorem onChannelResult (ok : Bool) (answer : Option {p : ℤ // 0 < p}) :
    Inv
      { s with
        fsm := answered (s.fsm.onChannelResult ok) answer
        actions := s.actions ++ (s.fsm.onChannelResult ok).2 } := by
  unfold UdpLegFSM.onChannelResult
  split
  case isTrue hdrop => exact h.quiet answer
  case isFalse hdrop =>
    have hactive : s.fsm.active = true := by
      simp only [Bool.or_eq_true, Bool.not_eq_true', not_or, Bool.not_eq_false] at hdrop
      exact hdrop.1
    have hconnect (hup : s.fsm.phase.up = true) :
        Inv { s with fsm := { s.fsm with
          channelReady := true, phase := if 0 < s.fsm.peerPort then .negotiated else .channel } } := by
      refine h.move hup ?_ ?_ (by simp [hactive]) ?_ <;> split <;>
        simp [hactive, Phase.up, Phase.connected]
    cases hphase : s.fsm.phase with
    | advertising | channel => exact quiet (hconnect (by rw [hphase]; rfl)) answer
    | none | negotiated | pending | active | backoff => exact h.quiet answer

variable (now : ℕ)

theorem onDataSent : Inv { s with fsm := s.fsm.onDataSent now } := by
  unfold UdpLegFSM.onDataSent
  split
  case isFalse hphase => exact h
  case isTrue hphase =>
    have htimeout := h.timeout
    refine h.move (by rw [hphase]; rfl) rfl (by rw [h.ready, hphase]; rfl) ?_ fun _ => by omega
    exact fun hpassive => absurd hphase (h.passive hpassive).2.1

theorem onUDPInbound (addr : α) : Inv { s with fsm := s.fsm.onUDPInbound now addr } := by
  have htimeout := h.timeout
  have hraise (hup : s.fsm.phase.up = true)
      (hready : s.fsm.channelReady = (s.fsm.active && Phase.active.connected)) :
      Inv { s with fsm := { s.fsm with
        sawUDPInbound := true, peerAddr := some addr, phase := .active,
        refluxDeadline := now + s.fsm.timings.refluxTimeout.toNat } } :=
    h.move hup rfl hready (fun _ => by simp) fun _ => by omega
  unfold UdpLegFSM.onUDPInbound
  cases hphase : s.fsm.phase with
  | none | backoff | channel | negotiated => exact h
  | pending | active => exact hraise (by rw [hphase]; rfl) (by simp [h.ready, hphase, Phase.connected])
  | advertising =>
    dsimp only
    split
    case isTrue hactive => exact h
    case isFalse hactive =>
      exact hraise (by rw [hphase]; rfl) (by rw [h.ready, Bool.eq_false_iff.mpr hactive]; rfl)

theorem fallback (hphase : s.fsm.phase = .pending ∨ s.fsm.phase = .active)
    (answer : Option {p : ℤ // 0 < p}) :
    Inv
      { s with
        fsm := answered (s.fsm.fallback now) answer
        actions := s.actions ++ (s.fsm.fallback now).2 } := by
  rw [answered_of_notMem (r := s.fsm.fallback now) (allocatePort_notMem_withdraw s.fsm)]
  have hup : s.fsm.phase.up = s.fsm.phase.connected := by rcases hphase with hp | hp <;> rw [hp] <;> rfl
  have henabled : s.fsm.enabled = true := h.enabled (by rcases hphase with hp | hp <;> simp [hp])
  exact h.withdraw (fun _ => hup) .backoff rfl (fun _ => henabled) _ _ h.capable _

theorem tick (answer : Option {p : ℤ // 0 < p}) :
    Inv
      { s with
        fsm := answered (s.fsm.tick now) answer
        actions := s.actions ++ (s.fsm.tick now).2 } := by
  have hstay := h.quiet answer
  unfold UdpLegFSM.tick
  cases hphase : s.fsm.phase with
  | none =>
    dsimp only
    split
    case isTrue hgo =>
      simp only [Bool.and_eq_true, Bool.or_eq_true] at hgo
      exact h.enter (by rw [hphase]; rfl) hgo.1 (fun hpassive => by simpa [hpassive] using hgo.2) answer
    case isFalse hgo => exact hstay
  | pending | active =>
    dsimp only
    split
    case isTrue hlate => exact h.fallback now (by simp [hphase]) answer
    case isFalse hlate => exact hstay
  | backoff =>
    have henabled : s.fsm.enabled = true := h.enabled (by simp [hphase])
    dsimp only
    split
    case isTrue hearly => exact hstay
    case isFalse hearly =>
      split
      case isTrue hoff =>
        -- The passive side lost its peer during the backoff.
        have hdown : s.fsm.phase.up = false := by rw [hphase]; rfl
        have hrest : Inv { s with fsm := { s.fsm with phase := .none } } :=
          { h with
            ready := by rw [h.ready, hphase]; rfl
            passive := by simp
            enabled := by simp
            listening := by simp [Phase.up]
            inbound := by simp
            deadline := by simp
            down := fun _ => h.down hdown
            advertise := by rw [h.advertise, hdown]; rfl
            dial := by rw [h.dial, hdown]; rfl }
        simpa [answered] using hrest
      case isFalse hoff =>
        refine h.enter (by rw [hphase]; rfl) henabled (fun hpassive => ?_) answer
        simpa [henabled, hpassive] using hoff
  | advertising | channel | negotiated => exact hstay

theorem step (e : Event α × Option {p : ℤ // 0 < p}) : (s.step e).Inv := by
  obtain ⟨e, answer⟩ := e
  cases e with
  | gossip now peerUDP peerPort => exact h.onGossip peerUDP peerPort answer
  | channelResult now ok => exact h.onChannelResult ok answer
  | dataSent now => exact quiet (h.onDataSent now) answer
  | udpInbound now addr => exact quiet (h.onUDPInbound now addr) answer
  | tick now => exact h.tick now answer

end

theorem new (active enabled : Bool) (timings : Timings) : (Link.new active enabled timings : Link α).Inv where
  timeout := by
    simp only [Link.new, newUDPLegFSM, defaultUDPLegTimings]
    split <;> omega
  ready := by simp [Link.new, newUDPLegFSM, Phase.connected]
  passive _ := by simp [Link.new, newUDPLegFSM]
  enabled := by simp [Link.new, newUDPLegFSM]
  capable _ := rfl
  listening := by simp [Link.new, newUDPLegFSM, Phase.up]
  inbound := by simp [Link.new, newUDPLegFSM]
  deadline := by simp [Link.new, newUDPLegFSM]
  down _ := ⟨rfl, rfl⟩
  dialer _ := rfl
  advertise := rfl
  dial := by simp [Link.new, newUDPLegFSM, after, Phase.up]

theorem run (h : s.Inv) (es : List (Event α × Option {p : ℤ // 0 < p})) : (s.run es).Inv := by
  induction es generalizing s with
  | nil => exact h
  | cons e es ih => exact ih (h.step e)

end Link.Inv

/-! ### Every run -/

theorem UdpLegFSM.unregisterPort_mem_withdraw {f : UdpLegFSM α} (h : .unregisterPort ∈ f.withdraw.2) :
    f.localPort ≠ 0 := by
  intro hport
  simp only [withdraw, hport, List.mem_append] at h
  rcases h with (h | h) | h <;> split at h <;> simp_all

/-- A port is given back only if there is one. -/
theorem UdpLegFSM.unregisterPort_mem_handle {f : UdpLegFSM α} {e : Event α}
    (h : .unregisterPort ∈ (f.handle e).2) : f.localPort ≠ 0 := by
  have henter (g : UdpLegFSM α) : Action.unregisterPort ∉ g.enterAdvertising.2 := by
    unfold enterAdvertising
    cases g.active <;> simp
  cases e with
  | gossip now peerUDP peerPort =>
    simp only [handle, onGossip] at h
    split_ifs at h
    · simp at h
    · simp at h
    · split at h
      · simp at h
      · simp at h
      · exact unregisterPort_mem_withdraw h
    · exact absurd h (henter _)
    · simp at h
  | channelResult now ok =>
    simp only [handle, onChannelResult] at h
    split at h
    · simp at h
    · split at h <;> simp at h
  | dataSent now => simp [handle] at h
  | udpInbound now addr => simp [handle] at h
  | tick now =>
    simp only [handle, tick] at h
    split at h
    · split at h
      · exact unregisterPort_mem_withdraw h
      · simp at h
    · split at h
      · exact unregisterPort_mem_withdraw h
      · simp at h
    · split_ifs at h
      · simp at h
      · simp at h
      · exact absurd h (henter _)
    · split at h
      · exact absurd h (henter _)
      · simp at h
    · simp at h

theorem Link.Inv.sound {s : Link α} (h : s.Inv) : s.Sound where
  active_ready hactive hphase := by rw [h.ready, hactive, hphase]; rfl
  passive_phase := h.passive
  passive_gossip hactive hphase := by
    have hup : s.fsm.phase.up = true := by rcases hphase with hp | hp <;> rw [hp] <;> rfl
    have hcapable := h.capable (h.enabled (by rcases hphase with hp | hp <;> simp [hp]))
    rw [h.listening hactive hup] at hcapable
    simpa using hcapable.symm
  route_active hactive hroute := by
    have hsend : s.fsm.sendPort.isSome = true := by simpa [routeDataViaUDP, hactive] using hroute
    unfold sendPort at hsend
    split_ifs at hsend with hport
    · simp at hsend
    refine ⟨fun hzero => hport (by simp [hzero]), ?_⟩
    rw [h.ready, hactive]
    cases hphase : s.fsm.phase <;> simp_all [Phase.connected]
  route_passive hactive hroute := by
    have hphase : s.fsm.phase = .active := by
      simp [routeDataViaUDP, hactive] at hroute
      exact hroute.1
    exact ⟨hphase, h.inbound hactive hphase⟩
  deadline := h.deadline
  idle hphase := by
    have hdown : s.fsm.phase.up = false := Phase.up_eq_false.mpr hphase
    refine ⟨by rw [UdpLegFSM.shouldAdvertise_eq, hdown], ?_, h.down hdown⟩
    rw [h.ready, Phase.connected_of_down hdown, Bool.and_false]
  advertise := ⟨_, h.advertise⟩
  dial := ⟨_, h.dial⟩
  unregister _ := unregisterPort_mem_handle

/-- After any events at any times, on either side of the link. -/
theorem Link.run_sound (active enabled : Bool) (timings : Timings)
    (es : List (Event α × Option {p : ℤ // 0 < p})) : (run (.new active enabled timings) es).Sound :=
  ((Inv.new active enabled timings).run es).sound

end UdpLeg
