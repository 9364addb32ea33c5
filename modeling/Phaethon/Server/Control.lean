import Phaethon.Common.GoMap
import Phaethon.Db.Matcher

/-!
# Control sessions of reverse clients

`src/server/control_server.go` and `src/server/binding.go`: a reverse client registers over a control connection
and is given a port, a listener on it, and a proxy, a mapping and a rule that send what comes in by the listener
back to the client. `HandleClose` takes all of that away again. Registrations and closes are taken one at a time,
so that none finds another one in progress for its identity (`pendingRegs`).

What a registration makes carries its number, as objects in memory are told apart. The session of a connection
is an object too: the map of the sessions only refers to it, and may refer to that of another connection.
-/

namespace Control

open Config Function
open GoMap (Table Shuffle)

/-! ## Bindings -/

/-- `PortBinding`. There is no time of disconnection as long as it is zero. -/
structure PortBinding where
  reverseID : String
  seq : ℤ
  port : ℤ
  listenerProto : String
  identity : String
  directDstHost : String
  directDstPort : ℤ
  registryProxy : String
  controlAddr : String
  registryAddr : String
  createdAt : ℕ
  updatedAt : ℕ
  disconnectedAt : Option ℕ

/-- `BindingStore`; what is saved is what is in memory. -/
structure BindingStore where
  bindings : Table PortBinding

/-- `makeKey`. -/
def makeKey (reverseID : String) (seq : ℤ) : String := s!"{reverseID}#{seq}"

namespace BindingStore

variable (s : BindingStore)

/-- `(*BindingStore).Get`. -/
def get (reverseID : String) (seq : ℤ) : Option PortBinding :=
  s.bindings.lookup (makeKey reverseID seq)

/-- `(*BindingStore).Set`, for a binding with the fields of `b`; an old one keeps its time of creation. -/
def set (now : ℕ) (b : PortBinding) : BindingStore :=
  match s.get b.reverseID b.seq with
  | some old =>
      ⟨s.bindings.insert (makeKey b.reverseID b.seq)
        { b with
          reverseID := old.reverseID, seq := old.seq, createdAt := old.createdAt, updatedAt := now
          disconnectedAt := none }⟩
  | none =>
      ⟨s.bindings.insert (makeKey b.reverseID b.seq)
        { b with createdAt := now, updatedAt := now, disconnectedAt := none }⟩

/-- `(*BindingStore).Remove`. -/
def remove (reverseID : String) (seq : ℤ) : BindingStore :=
  ⟨s.bindings.erase (makeKey reverseID seq)⟩

/-- `(*BindingStore).IsPortBoundByOther`. -/
def isPortBoundByOther (port : ℤ) (excludeReverseID : String) : Bool :=
  s.bindings.values.any fun b => b.port = port ∧ b.reverseID ≠ excludeReverseID

/-- `(*BindingStore).SetDisconnected`. -/
def setDisconnected (now : ℕ) (reverseID : String) (seq : ℤ) : BindingStore :=
  match s.get reverseID seq with
  | some b => ⟨s.bindings.insert (makeKey reverseID seq) { b with disconnectedAt := some now }⟩
  | none => s

/-- `(*BindingStore).FindBindingByPort`. -/
def findBindingByPort (order : Shuffle) (port : ℤ) : Option PortBinding :=
  (order.run s.bindings.values).find? (·.port = port)

/-- One round of `FindOldestDisconnectedBinding`. -/
def older (portMin portMax : ℤ) (oldest : Option PortBinding) (b : PortBinding) : Option PortBinding :=
  match b.disconnectedAt with
  | none => oldest
  | some t =>
      if b.port < portMin ∨ b.port > portMax then oldest
      else if oldest.all fun o => o.disconnectedAt.any fun u => t < u then some b
      else oldest

/-- `(*BindingStore).FindOldestDisconnectedBinding`. -/
def findOldestDisconnectedBinding (s : BindingStore) (order : Shuffle) (portMin portMax : ℤ) :
    Option PortBinding :=
  (order.run s.bindings.values).foldl (older portMin portMax) none

end BindingStore

/-! ## The manager -/

/-- `ControlSession`. It is closed when its channel and its connection are. -/
structure ControlSession where
  address : String
  registryAddr : String
  dynAddr : String
  reverseID : String
  seq : ℤ
  lastActivity : ℕ
  closed : Bool

/-- `DynamicResource`, with the number of its registration for the listener and the proxy. -/
structure DynamicResource where
  id : ℕ
  address : String
  proto : String
  port : ℤ
  proxyName : String
  mappingName : String
  reverseID : String
  seq : ℤ

/-- The proxy of a registration. -/
structure DynProxy extends Proxy where
  id : ℕ

/-- The `MatchAllMatcher` of a registration. -/
structure DynMatcher where
  id : ℕ
  proxyName : String
  mappingName : String

/-- The maps of the global `RuleMatcher`: under each name, the registration that the entry is from, if it is
from one. -/
structure Routing where
  proxies : Table (Option ℕ)
  mappings : Table (Option ℕ)
  rules : List (Option ℕ × Rule)

/-- `ControlManager`, with the session objects of all connections, the open listeners with their ports, the
global matcher and the number of registrations so far. -/
structure ControlManager where
  objects : ℕ → ControlSession
  sessions : Table ℕ
  resources : Table DynamicResource
  dynamicProxies : Table DynProxy
  dynamicMatchers : List DynMatcher
  dynamicTimeRanges : List TimeRange
  dynamicRules : List (ℕ × String)
  portMin : ℤ
  portMax : ℤ
  portNext : ℤ
  bindingStore : BindingStore
  listeners : List (ℕ × ℤ)
  routing : Routing
  count : ℕ

/-- `ControlRequest`. -/
structure ControlRequest where
  cmd : String
  name : String
  seq : ℤ
  preferredPort : ℤ
  listenerProto : String
  listenerUser : String
  listenerPassword : String
  listenerSNI : String
  directDstHost : String
  directDstPort : ℤ
  registryProxy : String
  reverseID : String

/-- `ControlReply`. -/
inductive ControlReply where
  | ok (address : String) (port : ℤ)
  | error (text : String)
  deriving DecidableEq

/-- `Mapping`, as far as it occupies a port. -/
structure StaticMapping where
  name : String
  enabled : Bool
  port : ℤ

/-- What a command meets outside: the time, the random bytes of an address, the ports that others hold, the
ports that the system offers, the error of a listener, the mappings of the database, whether there is a matcher,
and the order of maps. -/
structure Env where
  now : ℕ
  random : BitVec 64
  occupied : ℤ → Bool
  offered : ℕ → Option ℤ
  listenError : String → ℤ → Option String
  mappings : List StaticMapping
  matcher : Bool
  order : Shuffle

/-- All ports are free, and everything else works. -/
def quietEnv (now : ℕ) (random : BitVec 64) : Env :=
  ⟨now, random, fun _ => false, fun _ => none, fun _ _ => none, [], true, .asListed⟩

/-! ## Closing -/

/-- The rules of `HandleClose`: each matcher that is left out gives all rules but the one at its place. -/
def withoutRule (targetProxy targetMap : String) (m : ControlManager) : ControlManager :=
  let drops (x : DynMatcher) : Bool := x.proxyName = targetProxy ∧ x.mappingName = targetMap
  let indexed := m.dynamicMatchers.zipIdx
  { m with
    dynamicMatchers := m.dynamicMatchers.filter fun x => !drops x
    dynamicTimeRanges := (indexed.filter fun x => !drops x.1).filterMap fun x => m.dynamicTimeRanges[x.2]?
    dynamicRules := (indexed.filter fun x => drops x.1 ∧ x.2 < m.dynamicRules.length).flatMap fun x =>
      m.dynamicRules.eraseIdx x.2 }

/-- `RemoveProxy`, `RemoveRule` and `RemoveMapping` of the matcher. -/
def Routing.remove (g : Routing) (proxyName mappingName : String) : Routing where
  proxies := g.proxies.erase proxyName
  rules := g.rules.filter (·.2.proxyName ≠ proxyName)
  mappings := if mappingName ≠ "" then g.mappings.erase mappingName else g.mappings

/-- What `HandleClose` does to a resource that it took out of the map. -/
def ControlManager.cleanUp (m : ControlManager) (matcher : Bool) (r : DynamicResource) : ControlManager :=
  let m := { m with
    listeners := m.listeners.filter (·.1 ≠ r.id)
    dynamicProxies := m.dynamicProxies.erase r.proxyName }
  let m := if r.mappingName ≠ "" then withoutRule r.proxyName r.mappingName m else m
  if r.proxyName ≠ "" ∧ matcher then { m with routing := m.routing.remove r.proxyName r.mappingName } else m

/-- What `HandleClose` does to a session that it took out of the map. -/
def ControlManager.shut (m : ControlManager) (now : ℕ) (c : ℕ) : ControlManager :=
  let session := m.objects c
  { m with
    objects := update m.objects c { session with closed := true }
    bindingStore :=
      if session.reverseID = "" then m.bindingStore.setDisconnected now session.dynAddr 0
      else m.bindingStore.setDisconnected now session.reverseID session.seq }

/-- `(*ControlManager).HandleClose`. -/
def ControlManager.handleClose (m : ControlManager) (now : ℕ) (matcher : Bool) (address : String) :
    ControlManager :=
  let session := m.sessions.lookup address
  let dynAddr := (session.map fun c => (m.objects c).dynAddr).getD ""
  let direct := m.resources.lookup address
  let resources := m.resources.erase address
  let resource := direct <|> if dynAddr ≠ "" then resources.lookup dynAddr else none
  let m := { m with
    sessions := m.sessions.erase address
    resources := if dynAddr ≠ "" then resources.erase dynAddr else resources }
  let m := (session.map (m.shut now)).getD m
  (resource.map (m.cleanUp matcher)).getD m

/-- `(*ControlSession).isActive`, within 45 seconds. -/
def ControlSession.isActive (s : ControlSession) (now : ℕ) : Bool := now - s.lastActivity < 45

variable (m : ControlManager)

variable (env : Env)

/-- `(*ControlManager).closeSessionByIdentity`: whether an active session has the identity. -/
def ControlManager.closeSessionByIdentity (reverseID : String) (seq : ℤ) :
    Bool × ControlManager :=
  if reverseID = "" then (false, m)
  else
    let found := (env.order.run m.sessions.entries).find? fun e =>
      (m.objects e.2).reverseID = reverseID ∧ (m.objects e.2).seq = seq
    match found with
    | none => (false, m)
    | some ⟨address, c⟩ =>
        if address = "" then (false, m)
        else if (m.objects c).isActive env.now then (true, m)
        else (false, m.handleClose env.now env.matcher address)

/-! ## Ports -/

/-- `(*ControlManager).isPortAvailable`. A port with an own listener is not free either. -/
def ControlManager.isPortAvailable (port : ℤ) (reverseID : String) : Bool :=
  !(m.resources.values.any (·.port = port)) &&
  !(env.mappings.any fun mapping => mapping.enabled ∧ mapping.port = port) &&
  !(reverseID ≠ "" && m.bindingStore.isPortBoundByOther port reverseID) &&
  !(env.occupied port || m.listeners.any (·.2 = port))

/-- `(*ControlManager).portConflictReason`. -/
def ControlManager.portConflictReason (port : ℤ) (reverseID : String) : String :=
  if m.resources.values.any (·.port = port) then "already allocated to an active reverse session"
  else
    match env.mappings.find? fun mapping => mapping.enabled ∧ mapping.port = port with
    | some mapping => s!"already used by static mapping {mapping.name}"
    | none =>
        if reverseID ≠ "" ∧ m.bindingStore.isPortBoundByOther port reverseID then
          match m.bindingStore.findBindingByPort env.order port with
          | some b => s!"already bound to reverse identity {b.reverseID}#{b.seq}"
          | none => "already bound to another reverse identity"
        else if env.occupied port ∨ m.listeners.any (·.2 = port) then "occupied by an external process"
        else "already in use"

/-- The first port that `allocatePort` looks at. -/
def ControlManager.cursor : ℤ :=
  if m.portMin ≤ m.portNext ∧ m.portNext ≤ m.portMax then m.portNext else m.portMin

/-- The port that is so many places behind the cursor, back at the start behind the end. -/
def ControlManager.portAt (i : ℕ) : ℤ :=
  let p := m.cursor + i
  if p > m.portMax then m.portMin + (p - m.portMax - 1) else p

/-- The ports of the range, from the cursor on. -/
def ControlManager.roundRobin : List ℤ :=
  (List.range (m.portMax - m.portMin + 1).toNat).map m.portAt

/-- The ports of the range. -/
def ControlManager.ports : List ℤ :=
  (List.range (m.portMax - m.portMin + 1).toNat).map fun i => m.portMin + i

/-- A port is given away, and the cursor moves behind it. -/
def ControlManager.advance (p : ℤ) : ControlManager :=
  { m with portNext := if p + 1 > m.portMax then m.portMin else p + 1 }

/-- The binding that was disconnected first is given up, unless there is a session under its id. -/
def ControlManager.reclaim (env : Env) : ControlManager :=
  match m.bindingStore.findOldestDisconnectedBinding env.order m.portMin m.portMax with
  | none => m
  | some oldest =>
      if (m.sessions.lookup oldest.reverseID).isSome then m
      else { m with bindingStore := m.bindingStore.remove oldest.reverseID oldest.seq }

/-- `(*ControlManager).allocatePort`. -/
def ControlManager.allocatePort (env : Env) (reverseID : String) :
    Except String ℤ × ControlManager :=
  let free (m : ControlManager) (p : ℤ) : Bool := m.isPortAvailable env p reverseID
  if m.portMin ≤ 0 ∨ m.portMax ≤ 0 ∨ m.portMin > m.portMax then
    match ((List.range 10).filterMap env.offered).find? (free m) with
    | some p => (.ok p, m)
    | none => (.error "no free port available (unrestricted range)", m)
  else
    match m.roundRobin.find? (free m) <|> m.ports.find? (free m) with
    | some p => (.ok p, m.advance p)
    | none =>
        let m := m.reclaim env
        match m.ports.find? (free m) with
        | some p => (.ok p, m.advance p)
        | none => (.error s!"port range {m.portMin}-{m.portMax} exhausted", m)

/-! ## Registering -/

/-- A hexadecimal digit of the random bytes. -/
def hexDigit (random : BitVec 64) (i : ℕ) : Char := Nat.digitChar (random.extractLsb' (60 - 4 * i) 4).toNat

/-- `generateDynAddress`. -/
def generateDynAddress (random : BitVec 64) : String :=
  "dyn-" ++ String.ofList ((List.range 16).map (hexDigit random))

/-- The first eight digits of a dynamic address. -/
def hexID (dynAddr : String) : String := String.ofList ((dynAddr.toList.drop 4).take 8)

/-- `(*ControlManager).createListener`, without the listener itself. -/
def createListener (env : Env) (proto : String) (port : ℤ) : Except String Unit :=
  if proto = "socks5" ∨ proto = "trojan" ∨ proto = "direct" then
    match env.listenError proto port with
    | some err => .error err
    | none => .ok ()
  else .error s!"unsupported listener protocol: {proto}"

/-- The port for a request: the preferred one, that of the binding, or a new one. -/
def ControlManager.choosePort (m : ControlManager) (env : Env) (req : ControlRequest) :
    Except String ℤ × ControlManager :=
  if req.preferredPort > 0 then
    if req.preferredPort > 65535 then
      (.error s!"preferred port {req.preferredPort} out of valid range (1-65535)", m)
    else if m.portMin > 0 ∧ m.portMax > 0 ∧ (req.preferredPort < m.portMin ∨ req.preferredPort > m.portMax) then
      (.error s!"preferred port {req.preferredPort} outside configured range {m.portMin}-{m.portMax}", m)
    else if !m.isPortAvailable env req.preferredPort req.reverseID then
      let reason := m.portConflictReason env req.preferredPort req.reverseID
      (.error s!"preferred port {req.preferredPort} unavailable: {reason}", m)
    else (.ok req.preferredPort, m)
  else
    let bound := if req.reverseID ≠ "" then m.bindingStore.get req.reverseID req.seq else none
    match bound.filter fun b => b.port > 0 ∧
        (m.portMin ≤ 0 ∨ m.portMin ≤ b.port ∧ b.port ≤ m.portMax) ∧ m.isPortAvailable env b.port req.reverseID with
    | some b => (.ok b.port, m)
    | none => m.allocatePort env req.reverseID

/-- `insertRoutingRule`, for the registration `id`. -/
def ControlManager.insertRoutingRule (m : ControlManager) (env : Env) (id : ℕ) (mappingName proxyName : String) :
    ControlManager :=
  let ruleStr := s!"MATCH,{proxyName}#{mappingName}"
  match Text.splitN ',' 2 ruleStr.toList with
  | _ :: target :: _ =>
      let parsed := parseProxyName (Text.trim "'".toList target)
      { m with
        dynamicMatchers := ⟨id, String.ofList parsed.name, String.ofList parsed.mapping⟩ :: m.dynamicMatchers
        dynamicTimeRanges := ⟨0, 0⟩ :: m.dynamicTimeRanges
        dynamicRules := (id, ruleStr) :: m.dynamicRules
        routing :=
          if env.matcher then
            { proxies := m.routing.proxies.insert proxyName (some id)
              mappings := m.routing.mappings.insert mappingName (some id)
              rules := (some id, ⟨"MATCH", "", proxyName, mappingName, ⟨0, 0⟩⟩) :: m.routing.rules }
          else m.routing }
  | _ => m

/-- The end of `handleRegister`, from the listener on: everything is recorded for the registration. -/
def ControlManager.install (m : ControlManager) (env : Env) (controlAddr registryAddr listenerProto dynAddr : String)
    (port : ℤ) (req : ControlRequest) : ControlManager :=
  let id := m.count
  let identity := if s!"{req.name}#{req.seq}" = "#0" then s!"{listenerProto}|{dynAddr}" else s!"{req.name}#{req.seq}"
  let proxyName := "dyn-proxy-" ++ hexID dynAddr
  let mappingName := "dyn-map-" ++ hexID dynAddr
  let reverseProto := if listenerProto = "direct" then "socks5" else listenerProto
  let m := { m with
    count := id + 1
    listeners := (id, port) :: m.listeners
    bindingStore := m.bindingStore.set env.now
      { reverseID := if req.reverseID = "" then dynAddr else req.reverseID
        seq := if req.reverseID = "" then 0 else req.seq
        port, listenerProto, identity, controlAddr, registryAddr
        directDstHost := req.directDstHost, directDstPort := req.directDstPort
        registryProxy := req.registryProxy, createdAt := env.now, updatedAt := env.now, disconnectedAt := none }
    dynamicProxies := m.dynamicProxies.insert proxyName ⟨⟨proxyName, reverseProto, none, dynAddr⟩, id⟩
    resources := m.resources.insert dynAddr
      ⟨id, dynAddr, listenerProto, port, proxyName, mappingName, req.reverseID, req.seq⟩
    objects :=
      match m.sessions.lookup controlAddr with
      | some c => update m.objects c { m.objects c with reverseID := req.reverseID, seq := req.seq }
      | none => m.objects }
  m.insertRoutingRule env id mappingName proxyName

/-- The protocol of the listener, in lower case. -/
def ControlRequest.listener (req : ControlRequest) : String :=
  if req.listenerProto = "" then "socks5" else Text.toLower req.listenerProto

/-- The binding of the identity is removed. -/
def ControlManager.forget (m : ControlManager) (req : ControlRequest) : ControlManager :=
  if req.reverseID ≠ "" then { m with bindingStore := m.bindingStore.remove req.reverseID req.seq } else m

/-- `handleRegister` once no session of the identity is active. The binding is removed before it is looked up. -/
def ControlManager.register (m : ControlManager) (env : Env) (controlAddr registryAddr : String)
    (req : ControlRequest) : ControlReply × ControlManager :=
  let dynAddr := generateDynAddress env.random
  match (m.forget req).choosePort env req with
  | (.error err, m) => (.error err, m)
  | (.ok port, m) =>
      match createListener env req.listener port with
      | .error err => (.error s!"create listener fail: {err}", m.forget req)
      | .ok () => (.ok dynAddr port, m.install env controlAddr registryAddr req.listener dynAddr port req)

/-- `(*ControlManager).handleRegister`. -/
def ControlManager.handleRegister (m : ControlManager) (env : Env) (controlAddr registryAddr : String)
    (req : ControlRequest) : ControlReply × ControlManager :=
  if req.name = "" ∧ req.reverseID = "" then
    (.error "registration requires name or reverse_id for identification", m)
  else if req.listener = "direct" ∧ (req.directDstHost = "" ∨ req.directDstPort = 0) then
    (.error "direct listener requires direct-dst-host and direct-dst-port", m)
  else
    match m.closeSessionByIdentity env req.reverseID req.seq with
    | (true, m) => (.error "reverse identity already connected from another instance", m)
    | (false, m) => m.register env controlAddr registryAddr req

/-- `(*ControlManager).handleCommand`; without a request the payload was not read. -/
def ControlManager.handleCommand (m : ControlManager) (env : Env) (c : ℕ) : Option ControlRequest →
    ControlReply × ControlManager
  | none => (.error "invalid json", m)
  | some req =>
      if req.cmd = "register" then
        m.handleRegister env (m.objects c).address (m.objects c).registryAddr req
      else (.error ("unknown command: " ++ req.cmd), m)

/-! ## Sessions -/

/-- `HandleControlConnection`, up to the loop: the connection `c` gets a session under its remote address. -/
def ControlManager.connect (m : ControlManager) (now c : ℕ) (remoteAddr registryAddr : String) : ControlManager :=
  { m with
    objects := update m.objects c ⟨remoteAddr, registryAddr, "", "", 0, now, false⟩
    sessions := m.sessions.insert remoteAddr c }

/-- `(*ControlSession).touch`. -/
def ControlManager.touch (m : ControlManager) (now c : ℕ) : ControlManager :=
  { m with objects := update m.objects c { m.objects c with lastActivity := now } }

/-- The loop of `runSession` for a command: the session keeps the address that it is given. -/
def ControlManager.command (m : ControlManager) (env : Env) (c : ℕ) (payload : Option ControlRequest) :
    ControlReply × ControlManager :=
  match (m.touch env.now c).handleCommand env c payload with
  | (.error text, m) => (.error text, m)
  | (.ok address port, m) =>
      (.ok address port,
        if address ≠ "" then
          { m with objects := update m.objects c { m.objects c with dynAddr := address } }
        else m)

/-- `NewControlManager`, with the range of the ports. -/
def newControlManager (portMin portMax : ℤ) (routing : Routing) : ControlManager where
  objects _ := ⟨"", "", "", "", 0, 0, true⟩
  sessions := ∅
  resources := ∅
  dynamicProxies := ∅
  dynamicMatchers := []
  dynamicTimeRanges := []
  dynamicRules := []
  portMin := portMin
  portMax := portMax
  portNext := 0
  bindingStore := ⟨∅⟩
  listeners := []
  routing := routing
  count := 0

end Control
