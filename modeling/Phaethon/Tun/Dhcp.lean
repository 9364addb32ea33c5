import Mathlib.Data.List.AList
import Phaethon.Common.Lts
import Phaethon.Common.NetIp

/-!
# The DHCP server

`src/tun/dhcp_linux.go`: the pool that `newDHCPServerImpl` sets up, the handling of messages and the
search for a free address. Leases and static bindings are maps keyed by the text of a MAC address. A
handler reads the clock twice, once to look at the leases and once to stamp a new one.
-/

namespace Dhcp

open Ipv4 (Addr)

/-- A Go map with these keys. -/
abbrev Table (β : Type) := AList fun _ : String => β

/-- One byte in hexadecimal. -/
def hexPair (b : UInt8) : List Char :=
  [Nat.digitChar (b.toNat / 16), Nat.digitChar (b.toNat % 16)]

/-- `(HardwareAddr).String`. -/
def macString (mac : List UInt8) : String :=
  String.ofList ([':'].intercalate (mac.map hexPair))

/-! ## Messages -/

/-- `dhcpMessage`, as far as the server reads it. -/
structure Message where
  op : UInt8
  hlen : UInt8
  ciaddr : Addr
  chaddr : List UInt8
  options : UInt8 → Option (List UInt8)

def optHostName : UInt8 := 12
def optRequestedIP : UInt8 := 50
def optMessageType : UInt8 := 53

def dhcpDiscover : UInt8 := 1
def dhcpRequest : UInt8 := 3
def dhcpDecline : UInt8 := 4
def dhcpRelease : UInt8 := 7

variable (m : Message)

/-- `(*dhcpMessage).messageType`. -/
def Message.messageType : UInt8 :=
  match m.options optMessageType with
  | some [t] => t
  | _ => 0

/-- `(*dhcpMessage).clientMAC`. -/
def Message.clientMAC : List UInt8 :=
  m.chaddr.take (min m.hlen.toNat 16)

/-- `(*dhcpMessage).requestedIP`. -/
def Message.requestedIP : Option Addr :=
  match m.options optRequestedIP with
  | some [a, b, c, d] => some (a.toBitVec ++ b.toBitVec ++ c.toBitVec ++ d.toBitVec)
  | _ => none

/-- `(*dhcpMessage).hostName`. -/
def Message.hostName : List UInt8 :=
  (m.options optHostName).getD []

/-- The address that a request is for, before static bindings: the option, else a `ciaddr` that is not
zero. -/
def Message.wanted : Option Addr :=
  match m.requestedIP with
  | some a => some a
  | none => if m.ciaddr = 0 then none else some m.ciaddr

/-! ## Configuration -/

/-- `DHCPStaticBinding`, with its MAC address parsed. -/
structure StaticBinding where
  mac : List UInt8
  ip : Addr

/-- `DHCPConfig`; `leaseTime` is the parsed duration, if there is one. -/
structure DHCPConfig where
  poolStart : String
  poolEnd : String
  leaseTime : Option ℤ
  staticBindings : List StaticBinding

/-- `(*DHCPConfig).LeaseDuration`, in nanoseconds: 24 hours unless a positive one is given. -/
def DHCPConfig.leaseDuration (cfg : DHCPConfig) : ℕ :=
  match cfg.leaseTime with
  | some d => if d ≤ 0 then 86400000000000 else d.toNat
  | none => 86400000000000

/-- The interface: its first IPv4 address, the length of its mask, and its MAC address as text. -/
structure Iface where
  ip : Addr
  len : ℕ
  mac : Option String

/-- `net.ParseIP(s).To4()`. -/
def parse4 (s : String) : Option Addr :=
  match NetIp.parseIP s with
  | some (.v4 a) => some a
  | _ => none

/-- How many addresses a generated pool has. -/
def autoPoolSize (len : ℕ) : BitVec 32 :=
  let totalHosts : BitVec 32 := 1#32 <<< (32 - len)
  let poolSize := if totalHosts < 100#32 then totalHosts / 2#32 else 50#32
  if poolSize < 10#32 then 10#32 else poolSize

/-- The generated pool, from its first to its last address. -/
def autoPool (iface : Iface) : Addr × Addr :=
  let last := Ipv4.broadcast iface.ip iface.len - 1
  (last - autoPoolSize iface.len + 1, last)

/-- Both ends of the pool are configured. -/
def DHCPConfig.Explicit (cfg : DHCPConfig) : Prop :=
  cfg.poolStart ≠ "" ∧ cfg.poolEnd ≠ ""

instance (cfg : DHCPConfig) : Decidable cfg.Explicit := inferInstanceAs (Decidable (_ ∧ _))

/-- The pool, as `newDHCPServerImpl` determines it. -/
def DHCPConfig.pool (cfg : DHCPConfig) (iface : Iface) : Except String (Addr × Addr) :=
  if cfg.Explicit then
    match parse4 cfg.poolStart, parse4 cfg.poolEnd with
    | some first, some last => .ok (first, last)
    | _, _ => .error "dhcp: invalid pool-start or pool-end"
  else .ok (autoPool iface)

/-! ## The server -/

/-- `lease`. -/
structure Lease where
  ip : Addr
  mac : List UInt8
  hostname : List UInt8
  expires : ℕ
  deriving DecidableEq

/-- `dhcpServerImpl`; `poolStart` is what `advancePool` parses from the configuration. -/
structure Server where
  leases : Table Lease
  poolNext : Addr
  poolEnd : Addr
  poolStart : Option Addr
  leaseDur : ℕ
  staticBindings : Table Addr
  ifaceMac : Option String

/-- `newDHCPServerImpl`, with an empty lease table. -/
def newDHCPServerImpl (iface : Iface) (cfg : DHCPConfig) : Except String Server :=
  (cfg.pool iface).map fun pool =>
    { leases := ∅
      poolNext := pool.1
      poolEnd := pool.2
      poolStart := parse4 cfg.poolStart
      leaseDur := cfg.leaseDuration
      staticBindings :=
        cfg.staticBindings.foldl (fun t b => t.insert (macString b.mac) b.ip) ∅
      ifaceMac := iface.mac }

variable (s : Server)

/-- `s.leases[mac] = lease`. -/
def Server.setLease (mac : String) (lease : Lease) : Server :=
  { s with leases := s.leases.insert mac lease }

variable (now : ℕ)

/-- Someone holds the address. -/
def Server.leased (ip : Addr) : Bool :=
  s.leases.entries.any fun e => e.2.ip = ip ∧ now < e.2.expires

/-- Someone else holds the address. -/
def Server.conflict (mac : String) (ip : Addr) : Bool :=
  s.leases.entries.any fun e => e.1 ≠ mac ∧ e.2.ip = ip ∧ now < e.2.expires

/-- The test of a candidate in `allocateIP`. -/
def Server.inUse (ip : Addr) : Bool :=
  s.leased now ip || s.staticBindings.entries.any fun e => e.2 = ip

/-- `(*dhcpServerImpl).advancePool`. Without a configured start nothing is copied at the end of the
pool. -/
def Server.advancePool : Server :=
  let ip := s.poolNext + 1
  { s with poolNext := if s.poolEnd < ip then s.poolStart.getD s.poolNext else ip }

/-- The lease that `allocateIP` enters, without the data of the client. -/
def Server.hold (mac : String) (ip : Addr) (now : ℕ) : Server :=
  s.setLease mac ⟨ip, [], [], now + s.leaseDur⟩

/-- The loop of `allocateIP`: the candidates from the cursor on, until it is back at `startIP`. The outer
`none` says that `n` candidates do not bring it to an end. -/
def Server.scan (mac : String) (now : ℕ) (startIP : Addr) : ℕ → Server → Option (Option Addr × Server)
  | 0, _ => none
  | n + 1, s =>
      let candidate := s.poolNext
      let inUse := s.inUse now candidate
      let s := s.advancePool
      if ¬ inUse then some (some candidate, s.hold mac candidate now)
      else if s.poolNext = startIP then some (none, s)
      else scan mac now startIP n s

/-- What `allocateIP` does without a static binding that is free. -/
def Server.allocateDynamic (s : Server) (mac : String) (now n : ℕ) : Option (Option Addr × Server) :=
  match s.leases.lookup mac with
  | some l => if now < l.expires then some (some l.ip, s) else s.scan mac now s.poolNext n
  | none => s.scan mac now s.poolNext n

/-- `(*dhcpServerImpl).allocateIP`. -/
def Server.allocateIP (s : Server) (mac : String) (now n : ℕ) : Option (Option Addr × Server) :=
  match s.staticBindings.lookup mac with
  | some ip =>
      if s.conflict now mac ip then s.allocateDynamic mac now n
      else some (some ip, s.hold mac ip now)
  | none => s.allocateDynamic mac now n

/-- The reply to a `DISCOVER`. -/
def Server.discover (s : Server) (m : Message) (mac : String) (now later n : ℕ) : Option Server :=
  (s.allocateIP mac now n).map fun r =>
    match r.1 with
    | some ip => r.2.setLease mac ⟨ip, m.clientMAC, m.hostName, later + s.leaseDur⟩
    | none => r.2

/-- The reply to a `REQUEST` for an address, which a static binding overrides. -/
def Server.request (s : Server) (m : Message) (mac : String) (wanted : Addr) (now later : ℕ) : Server :=
  let ip := (s.staticBindings.lookup mac).getD wanted
  let entered := s.setLease mac ⟨ip, m.clientMAC, m.hostName, later + s.leaseDur⟩
  match s.leases.lookup mac with
  | some l =>
      if l.ip = ip ∧ now < l.expires then
        s.setLease mac
          { l with
            expires := later + s.leaseDur
            hostname := if m.hostName ≠ [] then m.hostName else l.hostname }
      else entered
  | none => entered

/-- `(*dhcpServerImpl).handleMessage`. -/
def Server.handleMessage (s : Server) (m : Message) (now later n : ℕ) : Option Server :=
  let mac := macString m.clientMAC
  if s.ifaceMac = some mac then some s
  else if m.messageType = dhcpDiscover then s.discover m mac now later n
  else if m.messageType = dhcpRequest then
    match m.wanted with
    | some wanted => some (s.request m mac wanted now later)
    | none => some s
  else if m.messageType = dhcpRelease ∨ m.messageType = dhcpDecline then
    some { s with leases := s.leases.erase mac }
  else some s

/-! ## Runs -/

/-- The server, and when it last read the clock. -/
structure Running where
  server : Server
  clock : ℕ

/-- A message with the two readings of the clock. -/
structure Arrival where
  message : Message
  now : ℕ
  later : ℕ
  steps : ℕ

/-- One round of `serve`: a message that is not a request is dropped. -/
def receive (r : Running) (a : Arrival) : Option Running :=
  if r.clock ≤ a.now ∧ a.now ≤ a.later then
    if a.message.op ≠ 1 then some ⟨r.server, a.later⟩
    else (r.server.handleMessage a.message a.now a.later a.steps).map (⟨·, a.later⟩)
  else none

end Dhcp
