import Phaethon.Common.Json
import Phaethon.Common.SocksAddr
import Phaethon.Db.Matcher

/-!
# UDP flows

`HandleUDPConn` of `src/handler/connection_handler.go`, `NewUDPDialer` of `src/dialer/dialer.go` and what
the packet connections of the proxy types write for a datagram. The destination reaches them as a
`net.UDPAddr`, which holds an IP address or none, but never a name.
-/

namespace Handler

open Config NetIp SocksAddr

/-- `net.UDPAddr`; `none` is a nil IP. -/
structure UdpAddr where
  ip : Option Ip
  port : ℕ
  deriving DecidableEq

/-! ## Packet connections -/

/-- The dialers of `NewUDPDialer`. -/
inductive UdpKind where
  | direct
  | reverse
  | socks5
  | shadowsocks
  | vless
  | hTunnel
  | trojan
  | hysteria2
  deriving DecidableEq, Repr

/-- `NewUDPDialer`; `none` is the dialer that only returns an error. -/
def newUDPDialer (p : Proxy) : Option UdpKind :=
  let type := Text.toUpper p.type
  if p.reverseAddress ≠ "" then some .reverse
  else if type = "DIRECT" then some .direct
  else if type = "SOCKS5" then some .socks5
  else if type = "SS" then some .shadowsocks
  else if type = "VLESS" then some .vless
  else if type = "H_TUNNEL" then some .hTunnel
  else if type = "TROJAN" then some .trojan
  else if type = "HYSTERIA2" then some .hysteria2
  else none

/-- The host that an encoder writes: the IP, or `standIn` where there is none. -/
def hostOr (standIn : Host) (a : UdpAddr) : Host :=
  match a.ip with
  | some ip => .ip ip
  | none => standIn

variable (a : UdpAddr)

variable (payload : List UInt8)

/-- `WriteTo` of a SOCKS5 relay. A nil IP prints as `<nil>`, which is sent for a domain. -/
def socks5Packet : List UInt8 :=
  [0, 0, 0] ++ encode ⟨hostOr (.domain (Json.bytes "<nil>")) a, a.port⟩ ++ payload

/-- `WriteTo` of an HTTP tunnel, with `BuildUDPAddrHeader`: a nil IP leaves the sixteen bytes zero. -/
def hTunnelPacket : List UInt8 :=
  encode ⟨hostOr (.ip (.v6 0)) a, a.port⟩ ++ payload

/-- `WriteTo` of Shadowsocks, with `buildSSAddr` of the printed IP. -/
def shadowsocksPacket : List UInt8 :=
  encode ⟨hostOr (.domain (Json.bytes "<nil>")) a, a.port⟩ ++ payload

/-- `WriteTo` of Trojan: the printed address of a nil IP has an empty host. -/
def trojanPacket : List UInt8 :=
  encode ⟨hostOr (.domain []) a, a.port⟩ ++ toBytes 2 payload.length ++ [0x0d, 0x0a] ++ payload

/-- `WriteTo` of a reverse connection, with `BuildReverseUDPFrame`, before encryption. -/
def reverseFrame : List UInt8 :=
  [0, 0] ++ encode ⟨hostOr (.ip (.v6 0)) a, a.port⟩ ++ payload

/-- `WriteTo` of Hysteria2 hands the printed address on with the datagram. -/
def hysteria2Target : Target :=
  ⟨hostOr (.domain []) a, a.port⟩

/-- `DialPacket` of VLESS names one target for all datagrams; `WriteTo` ignores its address. -/
def vlessTarget : Target := ⟨.ip (.v4 0), 0⟩

/-- The target that the proxy reads from a datagram. -/
def datagramTarget (k : UdpKind) (a : UdpAddr) (payload : List UInt8) : Option Target :=
  match k with
  | .direct => none
  | .reverse => decode ((reverseFrame a payload).drop 2)
  | .socks5 => decode ((socks5Packet a payload).drop 3)
  | .shadowsocks => decode (shadowsocksPacket a payload)
  | .vless => some vlessTarget
  | .hTunnel => decode (hTunnelPacket a payload)
  | .trojan => decode (trojanPacket a payload)
  | .hysteria2 => some (hysteria2Target a)

/-! ## The handler -/

/-- `ConnectionHandler`, as far as UDP flows read it: the fake-IP table (the empty name where an address is not in it), the
node id and the resolver for direct connections. -/
structure ConnectionHandler where
  lookupDomain : String → String
  localMeshNodeID : String
  resolveForDirect : Option (String → List Ip)

/-- How a flow ends up: with the address that each of its datagrams is written to, or not relayed. -/
inductive Outcome where
  | rejected
  | failed
  | direct (a : UdpAddr)
  | proxied (k : UdpKind) (a : UdpAddr)
  deriving DecidableEq

/-- The domain is `<node id>.phn` of this node. -/
def ConnectionHandler.isLocalDomain (h : ConnectionHandler) (domain : String) : Bool :=
  domain ≠ "" ∧ h.localMeshNodeID ≠ "" ∧ domain = h.localMeshNodeID ++ ".phn"

/-- The request that a flow is matched with: its domain where the address is a fake one. -/
def ConnectionHandler.request (h : ConnectionHandler) (dstAddr : String) (dstPort : ℕ) : AddrRequest :=
  let domain := h.lookupDomain dstAddr
  ⟨if domain ≠ "" then domain else dstAddr, dstPort, "CONNECT", "udp"⟩

/-- The first IPv4 address of a list. -/
def preferIpv4 (ips : List Ip) : Option Ip :=
  ips.find? fun ip => match ip with
    | .v4 _ => true
    | .v6 _ => false

variable (h : ConnectionHandler)

/-- The direct branch of `HandleUDPConn`. -/
def ConnectionHandler.dialDirect (dialOk : Bool) (domain : String) (req : AddrRequest) : Outcome :=
  let listen (ip : Option Ip) : Outcome := if dialOk then .direct ⟨ip, req.dstPort⟩ else .failed
  if h.isLocalDomain domain then listen (parseIP "127.0.0.1")
  else
    match parseIP req.dstAddr, h.resolveForDirect with
    | some ip, _ => listen (some ip)
    | none, none => .failed
    | none, some resolve =>
        if resolve req.dstAddr = [] then .failed else listen (preferIpv4 (resolve req.dstAddr))

/-- `HandleUDPConn`, up to the relay: `result` is what `ResolveMatch` returned, and `dialOk` says whether
the packet connection could be opened. -/
def ConnectionHandler.relayTo (dialOk : Bool) (dstAddr : String) (result : Db.Outcome Proxy) :
    Outcome :=
  match result.proxy.map (·.1) with
  | none => h.dialDirect dialOk (h.lookupDomain dstAddr) result.request
  | some p =>
      if Text.toUpper p.type = "REJECT" then .rejected
      else if Text.toUpper p.type ≠ "DIRECT" then
        match newUDPDialer p, dialOk with
        | some k, true => .proxied k ⟨parseIP result.request.dstAddr, result.request.dstPort⟩
        | _, _ => .failed
      else h.dialDirect dialOk (h.lookupDomain dstAddr) result.request

/-- `HandleUDPConn`; `mappingName` is `TUN` or the mapping of the inbound. -/
def ConnectionHandler.handleUDPConn (M : Db.RuleMatcher Proxy) (sel : Selection) (fuel : ℕ)
    (idx : String → ℕ) (clock : Db.Clock) (dialOk : Bool) (dstAddr : String) (dstPort : ℕ)
    (mappingName : String) : Outcome :=
  h.relayTo dialOk dstAddr
    (M.resolveMatch (.singleton "DIRECT") sel fuel idx (h.request dstAddr dstPort) mappingName clock)

end Handler
