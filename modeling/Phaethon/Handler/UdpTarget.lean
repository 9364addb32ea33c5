import Phaethon.Handler.Udp

/-!
# Where proxied datagrams go

A flow to a fake address is matched by its domain, but its datagrams are written to an IP address. When
the resolved host is a name there is none, and each encoder writes something in its place.
-/

namespace Handler

open Config NetIp SocksAddr

/-- What an encoder writes for an address without an IP. -/
def standIn : UdpKind → Host
  | .socks5 | .shadowsocks => .domain (Json.bytes "<nil>")
  | .trojan | .hysteria2 | .direct => .domain []
  | .hTunnel | .reverse => .ip (.v6 0)
  | .vless => .ip (.v4 0)

/-- The port as the proxy reads it. Only Hysteria2 sends it as text. -/
def wirePort (k : UdpKind) (port : ℕ) : ℕ :=
  match k with
  | .hysteria2 => port
  | .vless => 0
  | _ => port % 65536

/-- The target that an encoder writes. VLESS writes the same one for every address. -/
def writtenTarget (k : UdpKind) (a : UdpAddr) : Target :=
  ⟨match k with
    | .vless => standIn .vless
    | _ => hostOr (standIn k) a, wirePort k a.port⟩

theorem length_lt_of_hostOr {standIn : Host} {a : UdpAddr} (h : ∀ s, standIn = .domain s → s.length < 256) :
    ∀ s, hostOr standIn a = .domain s → s.length < 256 := by
  intro s hs
  unfold hostOr at hs
  split at hs
  · cases hs
  · exact h s hs

theorem datagramTarget_eq {k : UdpKind} (hk : k ≠ .direct) (a : UdpAddr) (payload : List UInt8) :
    datagramTarget k a payload = some (writtenTarget k a) := by
  have hread (standIn : Host) (rest : List UInt8) (h : ∀ s, standIn = .domain s → s.length < 256) :
      decode (encode ⟨hostOr standIn a, a.port⟩ ++ rest) =
        some ⟨hostOr standIn a, a.port % 65536⟩ :=
    decode_encode ⟨hostOr standIn a, a.port⟩ rest (length_lt_of_hostOr h)
  have hnil : ∀ s, Host.domain (Json.bytes "<nil>") = .domain s → s.length < 256 := by
    intro s hs
    obtain rfl := Host.domain.inj hs
    decide
  have hempty : ∀ s, Host.domain [] = .domain s → s.length < 256 := by
    intro s hs
    obtain rfl := Host.domain.inj hs
    decide
  have hzero : ∀ s, Host.ip (.v6 0) = .domain s → s.length < 256 := by
    intro s hs
    cases hs
  cases k with
  | direct => exact absurd rfl hk
  | reverse => exact hread _ _ hzero
  | socks5 => exact hread _ _ hnil
  | shadowsocks => exact hread _ _ hnil
  | vless => rfl
  | hTunnel => exact hread _ _ hzero
  | trojan =>
    rw [datagramTarget, trojanPacket, List.append_assoc, List.append_assoc]
    exact hread _ _ hempty
  | hysteria2 => rfl

/-! ## Proxied flows -/

variable {h : ConnectionHandler} {M : Db.RuleMatcher Proxy} {sel : Selection} {fuel : ℕ}
  {idx : String → ℕ} {clock : Db.Clock} {dialOk : Bool} {dstAddr mappingName : String} {dstPort : ℕ}
  {k : UdpKind} {a : UdpAddr}

theorem dialDirect_ne_proxied {domain : String} {req : AddrRequest} :
    h.dialDirect dialOk domain req ≠ .proxied k a := by
  have hlisten (ip : Option Ip) :
      (if dialOk then Outcome.direct ⟨ip, req.dstPort⟩ else .failed) ≠ .proxied k a := by
    split <;> exact fun heq => by cases heq
  unfold ConnectionHandler.dialDirect
  dsimp only
  split
  · exact hlisten _
  · split
    · exact hlisten _
    · exact fun heq => by cases heq
    · split
      · exact fun heq => by cases heq
      · exact hlisten _

theorem newUDPDialer_ne_direct {p : Proxy} (hp : Text.toUpper p.type ≠ "DIRECT") : newUDPDialer p ≠ some .direct := by
  unfold newUDPDialer
  dsimp only
  repeat' split
  all_goals exact fun heq => by cases heq

/-- A proxied flow goes out through a proxy's packet connection, to the address of the resolved host. -/
theorem relayTo_eq_proxied {result : Db.Outcome Proxy} (hres : h.relayTo dialOk dstAddr result = .proxied k a) :
    k ≠ .direct ∧ a = ⟨parseIP result.request.dstAddr, result.request.dstPort⟩ ∧
      ∃ p hops, result.proxy = some (p, hops) ∧ Text.toUpper p.type ≠ "DIRECT" := by
  unfold ConnectionHandler.relayTo at hres
  split at hres
  case h_1 => exact absurd hres dialDirect_ne_proxied
  case h_2 p hp =>
      obtain ⟨⟨_, hops⟩, hproxy, rfl⟩ := Option.map_eq_some_iff.mp hp
      split at hres
      · cases hres
      · split at hres
        case isTrue htype =>
            split at hres
            case h_1 k' hk =>
                obtain ⟨rfl, rfl⟩ := Outcome.proxied.inj hres
                refine ⟨?_, rfl, _, hops, hproxy, htype⟩
                rintro rfl
                exact newUDPDialer_ne_direct htype hk
            case h_2 => cases hres
        case isFalse => exact absurd hres dialDirect_ne_proxied

theorem matchRule_request {req : AddrRequest} {mapping : Option String} :
    (M.matchRule sel fuel idx req mapping clock).request = req := by
  unfold Db.RuleMatcher.matchRule
  split <;> rfl

/-- The datagrams of a proxied flow are for the host and the port that the resolvers made of it. -/
theorem handleUDPConn_eq_proxied
    (hres : h.handleUDPConn M sel fuel idx clock dialOk dstAddr dstPort mappingName = .proxied k a) :
    k ≠ .direct ∧ a = ⟨parseIP (resolving M.resolvers (h.request dstAddr dstPort)).dstAddr,
      (resolving M.resolvers (h.request dstAddr dstPort)).dstPort⟩ := by
  obtain ⟨hk, ha, p, hops, hproxy, htype⟩ := relayTo_eq_proxied hres
  refine ⟨hk, ?_⟩
  unfold Db.RuleMatcher.resolveMatch at ha hproxy
  split at hproxy
  case isTrue =>
      -- the loopback name is answered with the built-in proxy, which is direct
      obtain ⟨rfl, _⟩ := Prod.mk.inj (Option.some.inj hproxy)
      exact absurd (by decide +kernel) htype
  case isFalse hloop =>
      rw [if_neg hloop, matchRule_request] at ha
      exact ha

/-! ## The destination -/

variable (resolves : String → Ip → Prop)

/-- A target denotes the destination of a flow: it has the resolved port, and its host is the flow's
domain, an address that `resolves` gives for the domain, or the resolved host, as text or as address. -/
def Denotes (domain resolved : String) (port : ℕ) (t : Target) :
    Prop :=
  t.port = port ∧
    (t.host = .domain (Json.bytes domain) ∨ t.host = .domain (Json.bytes resolved) ∨
      ∃ ip, t.host = .ip ip ∧ (parseIP resolved = some ip ∨ resolves domain ip))

/-- The flow is not for this node's own domain, and the proxy reads the flow's destination from each of
its datagrams. -/
def KeepsDestination (h : ConnectionHandler)
    (M : Db.RuleMatcher Proxy) (dstAddr : String) (dstPort : ℕ) (k : UdpKind) (a : UdpAddr) : Prop :=
  let req := resolving M.resolvers (h.request dstAddr dstPort)
  h.isLocalDomain (h.lookupDomain dstAddr) = false ∧
    ∀ payload, ∃ t, datagramTarget k a payload = some t ∧
      Denotes resolves (h.lookupDomain dstAddr) req.dstAddr req.dstPort t

/-- The resolved host is an IP address that the proxy's protocol carries, with a port of 16 bits where
it is sent in two bytes. -/
def CarriesAddress (k : UdpKind) (req : AddrRequest) : Prop :=
  (parseIP req.dstAddr).isSome ∧ k ≠ .vless ∧ (k = .hysteria2 ∨ req.dstPort < 65536)

theorem wirePort_eq_iff {port : ℕ} (hk : k ≠ .vless) : wirePort k port = port ↔ k = .hysteria2 ∨ port < 65536 := by
  cases k with
  | vless => exact absurd rfl hk
  | _ => simp [wirePort]

/-- An encoder that writes the IP of the resolved host writes its destination, up to the port. -/
theorem denotes_written_iff (resolves : String → Ip → Prop) (domain : String) {req : AddrRequest}
    {ip : Ip} (hip : parseIP req.dstAddr = some ip) (hk : k ≠ .vless) :
    Denotes resolves domain req.dstAddr req.dstPort
        (writtenTarget k ⟨parseIP req.dstAddr, req.dstPort⟩) ↔
      k = .hysteria2 ∨ req.dstPort < 65536 := by
  have hhost : (writtenTarget k ⟨parseIP req.dstAddr, req.dstPort⟩).host = .ip ip := by
    cases k with
    | vless => exact absurd rfl hk
    | _ => simp [writtenTarget, hostOr, hip]
  unfold Denotes
  rw [hhost, ← wirePort_eq_iff hk]
  exact and_iff_left (.inr (.inr ⟨ip, rfl, .inl hip⟩))

/-- A proxied flow keeps its destination exactly if it is not for this node's own domain, and the
resolved host is an IP address that the protocol carries or the encoder's stand-in happens to be the
destination. -/
theorem keepsDestination_iff (resolves : String → Ip → Prop)
    (hres : h.handleUDPConn M sel fuel idx clock dialOk dstAddr dstPort mappingName = .proxied k a) :
    KeepsDestination resolves h M dstAddr dstPort k a ↔
      let req := resolving M.resolvers (h.request dstAddr dstPort)
      h.isLocalDomain (h.lookupDomain dstAddr) = false ∧
        (CarriesAddress k req ∨
          (parseIP req.dstAddr = none ∨ k = .vless) ∧
            Denotes resolves (h.lookupDomain dstAddr) req.dstAddr req.dstPort
              ⟨standIn k, wirePort k req.dstPort⟩) := by
  obtain ⟨hk, rfl⟩ := handleUDPConn_eq_proxied hres
  unfold KeepsDestination CarriesAddress
  generalize resolving M.resolvers (h.request dstAddr dstPort) = req
  refine and_congr_right fun _ => ?_
  simp only [datagramTarget_eq hk, Option.some.injEq, exists_eq_left', forall_const]
  by_cases hv : k = .vless
  · subst hv
    simp [writtenTarget]
  · cases hip : parseIP req.dstAddr with
    | some ip =>
      have hiff := denotes_written_iff resolves (h.lookupDomain dstAddr) hip hv
      rw [hip] at hiff
      simp [hiff, hv]
    | none =>
      have hwritten : writtenTarget k ⟨none, req.dstPort⟩ = ⟨standIn k, wirePort k req.dstPort⟩ := by
        cases k with
        | vless => rfl
        | _ => rfl
      simp [hwritten]

/-! ## A name behind a SOCKS5 proxy -/

/-- One SOCKS5 proxy. -/
def relayPool : Pool Proxy :=
  .ofProxies (fun n => if n = "P" then some ⟨"P", "socks5", none, ""⟩ else none)
    (if_neg (by decide))

/-- Everything goes to the proxy. -/
def relayMatcher (resolvers : List Resolver) : Db.RuleMatcher Proxy :=
  ⟨relayPool, fun n => n = "TUN", ["MATCH,P"].filterMap parseRule, resolvers, "node1"⟩

/-- A resolver that rewrites `example.com` to an address. -/
def exampleResolver : Resolver :=
  ⟨"r", true, "", "example.com", 0, "192.0.2.7", 0, false, ""⟩

/-- The fake addresses of `example.com` and of the node's own domain. -/
def relayHandler : ConnectionHandler where
  lookupDomain ip :=
    if ip = "198.18.0.5" then "example.com" else if ip = "198.18.0.6" then "node1.phn" else ""
  localMeshNodeID := "node1"
  resolveForDirect := none

/-- The handling of a flow to port 53 of an address. -/
def relayFlow (resolvers : List Resolver) (dstAddr : String) : Outcome :=
  relayHandler.handleUDPConn (relayMatcher resolvers) default 1 (fun _ => 0) ⟨12, 0⟩ true dstAddr 53
    "TUN"

theorem domain_lost :
    (relayFlow [] "198.18.0.5" = .proxied .socks5 ⟨none, 53⟩ ∧
      ∀ resolves, ¬ KeepsDestination resolves relayHandler (relayMatcher []) "198.18.0.5" 53 .socks5
        ⟨none, 53⟩) ∧
    relayFlow [] "198.18.0.6" = .proxied .socks5 ⟨none, 53⟩ ∧
      relayHandler.isLocalDomain (relayHandler.lookupDomain "198.18.0.6") = true := by
  refine ⟨⟨by decide +kernel, ?_⟩, by decide +kernel, by decide +kernel⟩
  rintro resolves ⟨_, hall⟩
  obtain ⟨t, ht, _, hhost⟩ := hall []
  have hnil : t.host = .domain (Json.bytes "<nil>") := by
    exact (congrArg Target.host (Option.some.inj ht)).symm
  rw [hnil] at hhost
  rcases hhost with h | h | ⟨ip, h, _⟩
  · exact absurd h (by decide +kernel)
  · exact absurd h (by decide +kernel)
  · cases h

theorem keepsDestination_iff_rewritten :
    relayFlow [exampleResolver] "198.18.0.5" = .proxied .socks5 ⟨some (.v4 0xc0000207), 53⟩ ∧
      KeepsDestination (fun _ _ => False) relayHandler (relayMatcher [exampleResolver]) "198.18.0.5" 53
        .socks5 ⟨some (.v4 0xc0000207), 53⟩ := by
  have hflow : relayFlow [exampleResolver] "198.18.0.5" =
      .proxied .socks5 ⟨some (.v4 0xc0000207), 53⟩ := by decide +kernel
  refine ⟨hflow, (keepsDestination_iff _ hflow).mpr ⟨by decide +kernel, .inl ⟨?_, ?_, ?_⟩⟩⟩
  · decide +kernel
  · decide
  · exact .inr (by decide +kernel)

end Handler
