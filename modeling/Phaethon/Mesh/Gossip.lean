import Mathlib.Combinatorics.SimpleGraph.Basic
import Phaethon.Common.GoMap
import Phaethon.Common.NetIp

/-!
# Gossip between mesh nodes

`src/mesh/mesh.go` (`broadcastGossip`, `claimHopFor`) and `src/mesh/topology.go` (`UpdateGossip`): what a node
stores of the last message on each of its links, and what it sends on. Node ids decide who is who, subnets and
prefixes are compared as text. The order in which Go goes through a map is chosen with every broadcast, and so are
the measured qualities of links, which gossip only passes on (`Q`).
-/

namespace Gossip

open GoMap List
open NetIp (IPNet parseCIDR)

/-! ## Messages -/

/-- `GossipLink`. -/
structure GossipLink (Q : Type) where
  localSeq : UInt16
  remoteSeq : UInt16
  friendlyName : String
  quality : Q

/-- `GossipNeighbor`. -/
structure GossipNeighbor (Q : Type) where
  nodeID : String
  links : List (GossipLink Q)

/-- `GossipClaimedSubnet`. -/
structure GossipClaimedSubnet (Q : Type) where
  subnet : String
  nodeID : String
  hop : Int64
  neighbors : List (GossipNeighbor Q)

/-- `GossipRoute`. -/
structure GossipRoute where
  network : String
  nodeID : String

/-- `GossipDomainSuffix`, and `PeerDomainSuffixEntry`. -/
structure GossipDomainSuffix where
  suffix : String
  nodeID : String
  deriving DecidableEq

/-- `GossipInfo`, as far as it is about the topology. -/
structure GossipInfo (Q : Type) where
  domainSuffixes : List GossipDomainSuffix
  routes : List GossipRoute
  claimedSubnets : List (GossipClaimedSubnet Q)

/-! ## What is stored of a peer -/

/-- `PeerRouteEntry`. -/
structure PeerRouteEntry where
  network : IPNet
  prefixStr : String
  nodeID : String

/-- `PeerClaimedSubnetEntry`. -/
structure PeerClaimedSubnetEntry (Q : Type) where
  subnet : IPNet
  subnetStr : String
  nodeID : String
  hop : Int64
  neighbors : List (GossipNeighbor Q)

/-- `PeerInfo`, for one link. -/
structure PeerInfo (Q : Type) where
  subnet : Option IPNet
  subnetStr : String
  domainSuffixes : List GossipDomainSuffix
  routes : List PeerRouteEntry
  claimedSubnets : List (PeerClaimedSubnetEntry Q)

variable {Q : Type}

/-- A peer that has just been registered. -/
def PeerInfo.empty : PeerInfo Q := ⟨none, "", [], [], []⟩

/-- Two lists of the same length whose elements agree one by one. -/
def agree {α : Type} (same : α → α → Bool) (as bs : List α) : Bool :=
  as.length = bs.length ∧ (as.zip bs).all fun ab => same ab.1 ab.2

/-- `routesEqual`. -/
def routesEqual : List PeerRouteEntry → List PeerRouteEntry → Bool :=
  agree fun a b => a.prefixStr = b.prefixStr ∧ a.nodeID = b.nodeID

/-- `domainSuffixesEqual`. -/
def domainSuffixesEqual : List GossipDomainSuffix → List GossipDomainSuffix → Bool :=
  agree fun a b => a.suffix = b.suffix ∧ a.nodeID = b.nodeID

/-- `compareGossipNeighbors`: the qualities do not count. -/
def compareGossipNeighbors (a b : GossipNeighbor Q) : Bool :=
  a.nodeID = b.nodeID ∧
    agree (fun l m : GossipLink Q =>
      l.localSeq = m.localSeq ∧ l.remoteSeq = m.remoteSeq ∧ l.friendlyName = m.friendlyName)
      a.links b.links

/-- `claimedSubnetsEqual`. -/
def claimedSubnetsEqual :
    List (PeerClaimedSubnetEntry Q) → List (PeerClaimedSubnetEntry Q) → Bool :=
  agree fun a b => a.subnetStr = b.subnetStr ∧ a.nodeID = b.nodeID ∧ a.hop = b.hop ∧
    agree compareGossipNeighbors a.neighbors b.neighbors

/-- A received claim, one hop further; a subnet that does not parse is left out. -/
def GossipClaimedSubnet.received (cs : GossipClaimedSubnet Q) : Option (PeerClaimedSubnetEntry Q) :=
  (parseCIDR cs.subnet).map fun net => ⟨net, cs.subnet, cs.nodeID, cs.hop + 1, cs.neighbors⟩

/-- A received route. -/
def GossipRoute.received (r : GossipRoute) : Option PeerRouteEntry :=
  (parseCIDR r.network).map fun net => ⟨net, r.network, r.nodeID⟩

/-- `(*Topology).UpdateGossip` for a peer that is found: what is stored now, and whether that is new. -/
def updateGossip (peer : PeerInfo Q) (info : GossipInfo Q) : PeerInfo Q × Bool :=
  let routes := info.routes.filterMap (·.received)
  let claimedSubnets := info.claimedSubnets.filterMap (·.received)
  let own := claimedSubnets.find? fun cs => cs.hop = 1 ∧ cs.nodeID ≠ ""
  let subnetStr := (own.map (·.subnetStr)).getD ""
  let changed := peer.subnetStr ≠ subnetStr ∨
    ¬ domainSuffixesEqual peer.domainSuffixes info.domainSuffixes ∨
    ¬ routesEqual peer.routes routes ∨ ¬ claimedSubnetsEqual peer.claimedSubnets claimedSubnets
  (⟨own.map (·.subnet), subnetStr, info.domainSuffixes, routes, claimedSubnets⟩, changed)

/-! ## What a node sends -/

/-- An entry is taken that is the first for its key, or nearer than the one before. -/
def offer {β : Type} (hop : β → Int64) (t : Table β) (o : String × β) : Table β :=
  if (t.lookup o.1).all fun e => hop o.2 < hop e then t.insert o.1 o.2 else t

/-- The best of what others offer, after the own entries. -/
def bestOf {β : Type} (hop : β → Int64) (own offers : List (String × β)) : Table β :=
  offers.foldl (offer hop) (own.foldl (fun t o => t.insert o.1 o.2) ∅)

/-- `PeerSender`: who is at the other end of a link. -/
structure Sender where
  nodeID : String
  localSeq : UInt16
  remoteSeq : UInt16
  friendlyName : String

/-- A peer as a broadcast sees it. -/
structure Seen (Q : Type) where
  sender : Sender
  quality : Q
  info : PeerInfo Q

/-- The own neighbors: the links to each node, under its id. -/
def ownNeighbors (order : Shuffle) (peers : List (Seen Q)) : List (GossipNeighbor Q) :=
  let neighborMap : Table (GossipNeighbor Q) := peers.foldl (fun t p =>
    let before := ((t.lookup p.sender.nodeID).map (·.links)).getD []
    t.insert p.sender.nodeID ⟨p.sender.nodeID, before ++
      [⟨p.sender.localSeq, p.sender.remoteSeq, p.sender.friendlyName, p.quality⟩]⟩) ∅
  order.run neighborMap.values

/-- `globalClaimEntry`; `nextHop` is the id of the peer it came from. -/
structure GlobalClaimEntry (Q : Type) where
  hop : Int64
  nextHop : Option String
  nodeID : String
  subnet : String
  neighbors : List (GossipNeighbor Q)

/-- `bestClaims`. -/
def bestClaims (own : GlobalClaimEntry Q) (peers : List (Seen Q)) : Table (GlobalClaimEntry Q) :=
  bestOf (·.hop) [(own.subnet, own)] (peers.flatMap fun p => p.info.claimedSubnets.map fun cs =>
    (cs.subnetStr, ⟨cs.hop, some p.sender.nodeID, cs.nodeID, cs.subnetStr, cs.neighbors⟩))

/-- `nodeIDToClaim`: a later claim of a node replaces an earlier one. -/
def claimOf (claims : List (GlobalClaimEntry Q)) (nodeID : String) : Option (GlobalClaimEntry Q) :=
  claims.reverse.find? (·.nodeID = nodeID)

/-- The links that the other side declares too, with the two numbers the other way round. -/
def validatedLinks (nodeID : String) (reverse : List (GossipNeighbor Q)) (links : List (GossipLink Q)) :
    List (GossipLink Q) :=
  links.filter fun l =>
    match reverse.find? (·.nodeID = nodeID) with
    | some n => n.links.any fun r => r.localSeq = l.remoteSeq ∧ r.remoteSeq = l.localSeq
    | none => false

variable (index : String → Option (GlobalClaimEntry Q))

variable (claim : GlobalClaimEntry Q)

/-- The neighbors of a claim to which a link is left. -/
def validatedNeighbors :
    List (GossipNeighbor Q) :=
  claim.neighbors.filterMap fun n => (index n.nodeID).bind fun other =>
    let links := validatedLinks claim.nodeID other.neighbors n.links
    if links = [] then none else some ⟨n.nodeID, links⟩

/-- The link-level validation of one claim. -/
def validate :
    Option (GlobalClaimEntry Q) :=
  if claim.hop = 0 then some claim
  else
    let neighbors := validatedNeighbors index claim
    if neighbors = [] then none else some { claim with neighbors := neighbors }

/-- `validatedClaims`. -/
def validatedClaims (order : Shuffle) (best : Table (GlobalClaimEntry Q)) : List (GlobalClaimEntry Q) :=
  best.values.filterMap (validate (claimOf (order.run best.values)))

/-- `claimHopFor`. -/
def claimHopFor (peer : PeerInfo Q) (nodeID : String) : Option Int64 :=
  (peer.claimedSubnets.find? (·.nodeID = nodeID)).map (·.hop)

/-- `globalRouteEntry`, and `globalDSEntry`. -/
structure GlobalEntry where
  nextHop : Option String
  nodeID : String
  hop : Int64

/-- `bestRoutes`, and `bestDS`: own keys, and those of peers that have a claim of the owner. -/
def bestEntries (nodeID : String) (own : List String) (peers : List (Seen Q))
    (offered : PeerInfo Q → List (String × String)) : Table GlobalEntry :=
  bestOf (·.hop) (own.map fun key => (key, ⟨none, nodeID, 0⟩)) (peers.flatMap fun p =>
    (offered p.info).filterMap fun (key, owner) => (claimHopFor p.info owner).map fun hop =>
      (key, ⟨some p.sender.nodeID, owner, hop⟩))

/-- The orders of a broadcast: of the own neighbors, of `nodeIDToClaim`, and of what goes to each peer. -/
structure Orders where
  neighbors : Shuffle
  index : Shuffle
  sent : ℕ → Shuffle

/-- What a node announces. -/
structure Announced where
  nodeID : String
  subnetStr : String
  advertise : List String
  domainSuffixes : List String

/-- The own claim, with hop count 0. -/
def ownClaim (self : Announced) (order : Shuffle) (peers : List (Seen Q)) : GlobalClaimEntry Q :=
  ⟨0, none, self.nodeID, self.subnetStr, ownNeighbors order peers⟩

/-- A claim as it is sent. -/
def GlobalClaimEntry.sent (e : GlobalClaimEntry Q) : GossipClaimedSubnet Q :=
  ⟨e.subnet, e.nodeID, e.hop, e.neighbors⟩

/-- `(*MeshManager).broadcastGossip`: the message that goes out on `link`, to `receiver`. What was learned from a
node is not sent to it. -/
def broadcastGossip (self : Announced) (orders : Orders) (peers : List (Seen Q)) (link : ℕ)
    (receiver : String) : GossipInfo Q :=
  let own := ownClaim self orders.neighbors peers
  let claims := validatedClaims orders.index (bestClaims own peers)
  let routes := bestEntries self.nodeID self.advertise peers fun info =>
    info.routes.map fun r => (r.prefixStr, r.nodeID)
  let suffixes := bestEntries self.nodeID self.domainSuffixes peers fun info =>
    info.domainSuffixes.map fun d => (d.suffix, d.nodeID)
  let split (t : Table GlobalEntry) : List (String × String) :=
    (((orders.sent link).run t.entries).filter fun e => e.2.nextHop ≠ some receiver).map fun e =>
      (e.1, e.2.nodeID)
  { domainSuffixes := (split suffixes).map fun e => ⟨e.1, e.2⟩
    routes := (split routes).map fun e => ⟨e.1, e.2⟩
    claimedSubnets :=
      (((orders.sent link).run claims).filter fun e => e.nextHop ≠ some receiver).map (·.sent) }

/-! ## The mesh -/

/-- A link of a node: its identity, the node at its other end and what the node knows of it. -/
structure Peer (ι : Type) where
  link : ℕ
  node : ι
  localSeq : UInt16
  remoteSeq : UInt16
  friendlyName : String
  deriving DecidableEq

/-- Nodes and the live links between them. -/
structure Mesh (ι : Type) where
  self : ι → Announced
  peers : ι → List (Peer ι)
  nodeID_injective : Function.Injective fun u => (self u).nodeID
  one_link : ∀ u, ∀ p ∈ peers u, ∀ q ∈ peers u, p.link = q.link → p = q
  two_ends : ∀ u, ∀ p ∈ peers u, p.node ≠ u ∧ ∃ q ∈ peers p.node, q.node = u ∧ q.link = p.link

/-- Which nodes have a live link. -/
def Mesh.graph {ι : Type} (M : Mesh ι) : SimpleGraph ι where
  Adj u v := ∃ p ∈ M.peers u, p.node = v
  symm := ⟨by
    rintro u _ ⟨p, hp, rfl⟩
    obtain ⟨_, q, hq, hnode, _⟩ := M.two_ends u p hp
    exact ⟨q, hq, hnode⟩⟩
  loopless := ⟨by
    rintro u ⟨p, hp, hnode⟩
    exact (M.two_ends u p hp).1 hnode⟩

/-- What each node stores for each of its links. -/
abbrev State (ι Q : Type) := ι → ℕ → PeerInfo Q

/-- A broadcast: who makes it, in which orders, and the quality of each link at that time. -/
structure Broadcast (ι Q : Type) where
  node : ι
  orders : Orders
  quality : ℕ → Q

variable {ι : Type}

/-- What the node of a broadcast knows of its peers. -/
def Mesh.seen (M : Mesh ι) (s : State ι Q) (b : Broadcast ι Q) : List (Seen Q) :=
  (M.peers b.node).map fun p =>
    ⟨⟨(M.self p.node).nodeID, p.localSeq, p.remoteSeq, p.friendlyName⟩, b.quality p.link,
      s b.node p.link⟩

/-- A broadcast, and its receipt at the other ends of the links. -/
def Mesh.round [DecidableEq ι] (M : Mesh ι) (s : State ι Q) (b : Broadcast ι Q) : State ι Q :=
  fun v link =>
    if (M.peers b.node).any fun p => p.node = v ∧ p.link = link then
      (updateGossip (s v link)
        (broadcastGossip (M.self b.node) b.orders (M.seen s b) link (M.self v).nodeID)).1
    else s v link

/-! ## What is passed on -/

section Tables

variable {β : Type} {hop : β → Int64} {own offers : List (String × β)} {k : String} {e : β}

theorem lookup_offer_cases {t : Table β} {o : String × β} (h : (offer hop t o).lookup k = some e) :
    t.lookup k = some e ∨ (k, e) = o := by
  unfold offer at h
  split at h
  · exact lookup_insert_cases h
  · exact .inl h

/-- What is kept under a key was offered under it. -/
theorem mem_of_lookup_bestOf (h : (bestOf hop own offers).lookup k = some e) : (k, e) ∈ own ∨ (k, e) ∈ offers := by
  rcases lookup_foldl_cases lookup_offer_cases h with hown | hoffer
  · rcases lookup_foldl_cases lookup_insert_cases hown with hempty | hmem
    · cases hempty
    · exact .inl hmem
  · exact .inr hoffer

theorem isSome_lookup_offer {t : Table β} {o : String × β} (h : (t.lookup k).isSome ∨ k = o.1) :
    ((offer hop t o).lookup k).isSome := by
  unfold offer
  by_cases hk : k = o.1
  · subst hk
    split
    · rw [AList.lookup_insert]
      rfl
    case isFalse hnot =>
        cases hlookup : t.lookup o.1 with
        | none =>
          rw [hlookup] at hnot
          exact absurd rfl hnot
        | some e => rfl
  · have hsome : (t.lookup k).isSome := h.resolve_right hk
    split
    · rwa [AList.lookup_insert_ne hk]
    · exact hsome

theorem isSome_lookup_foldl {t : Table β} (h : (t.lookup k).isSome ∨ ∃ e, (k, e) ∈ offers) :
    ((offers.foldl (offer hop) t).lookup k).isSome := by
  induction offers generalizing t with
  | nil =>
    rcases h with h | ⟨_, h⟩
    · exact h
    · cases h
  | cons o offers ih =>
    apply ih
    rcases h with h | ⟨e, h⟩
    · exact .inl (isSome_lookup_offer (.inl h))
    · rcases mem_cons.mp h with rfl | h
      · exact .inl (isSome_lookup_offer (.inr rfl))
      · exact .inr ⟨e, h⟩

/-- A key that is offered is kept. -/
theorem isSome_lookup_bestOf (h : (k, e) ∈ offers) : ((bestOf hop own offers).lookup k).isSome :=
  isSome_lookup_foldl (.inr ⟨e, h⟩)

end Tables

section Claims

variable {own c : GlobalClaimEntry Q} {peers : List (Seen Q)} {order : Shuffle}

/-- A best claim is the own one or stored for a peer. -/
theorem bestClaims_cases {k : String} (h : (bestClaims own peers).lookup k = some c) :
    k = c.subnet ∧ (c = own ∨ ∃ p ∈ peers, ∃ cs ∈ p.info.claimedSubnets,
      c = ⟨cs.hop, some p.sender.nodeID, cs.nodeID, cs.subnetStr, cs.neighbors⟩) := by
  rcases mem_of_lookup_bestOf h with hown | hoffer
  · obtain ⟨rfl, rfl⟩ := Prod.mk.inj (mem_singleton.mp hown)
    exact ⟨rfl, .inl rfl⟩
  · obtain ⟨p, hp, hmem⟩ := mem_flatMap.mp hoffer
    obtain ⟨cs, hcs, heq⟩ := mem_map.mp hmem
    cases heq
    exact ⟨rfl, .inr ⟨p, hp, cs, hcs, rfl⟩⟩

/-- Validation only takes neighbors from a claim. -/
theorem eq_of_validate {index : String → Option (GlobalClaimEntry Q)} {d : GlobalClaimEntry Q}
    (h : validate index c = some d) : d = { c with neighbors := d.neighbors } := by
  unfold validate at h
  split at h
  · cases h
    rfl
  · simp only at h
    split at h
    · cases h
    · cases h
      rfl

variable {self : Announced} {orders : Orders} {link : ℕ} {receiver : String} {info : PeerInfo Q}
  {cs : PeerClaimedSubnetEntry Q}

/-- The claims that a peer stores after a broadcast, in terms of those that the sender has chosen. -/
theorem mem_received_iff :
    cs ∈ (updateGossip info (broadcastGossip self orders peers link receiver)).1.claimedSubnets ↔
      ∃ k e d, (bestClaims (ownClaim self orders.neighbors peers) peers).lookup k = some e ∧
        validate (claimOf (orders.index.run
          (bestClaims (ownClaim self orders.neighbors peers) peers).values)) e = some d ∧
        d.nextHop ≠ some receiver ∧ d.sent.received = some cs := by
  constructor
  · intro h
    obtain ⟨sent, hsent, hreceived⟩ := mem_filterMap.mp h
    obtain ⟨d, hd, rfl⟩ := mem_map.mp hsent
    obtain ⟨hd, hhop⟩ := mem_filter.mp hd
    obtain ⟨e, he, hvalid⟩ := mem_filterMap.mp ((Shuffle.perm _ _).mem_iff.mp hd)
    obtain ⟨k, hk⟩ := Table.mem_values.mp he
    exact ⟨k, e, d, hk, hvalid, of_decide_eq_true hhop, hreceived⟩
  · rintro ⟨k, e, d, hk, hvalid, hhop, hreceived⟩
    have he := Table.mem_values.mpr ⟨k, hk⟩
    have hd := mem_filterMap.mpr ⟨e, he, hvalid⟩
    refine mem_filterMap.mpr ⟨d.sent, mem_map.mpr ⟨d, ?_, rfl⟩, hreceived⟩
    exact mem_filter.mpr ⟨(Shuffle.perm _ _).mem_iff.mpr hd, decide_eq_true hhop⟩

/-- What a peer stores after a broadcast: the claim of the sender, and what the sender has from others than the
peer, one hop further. -/
theorem received_cases
    (h : cs ∈ (updateGossip info (broadcastGossip self orders peers link receiver)).1.claimedSubnets) :
    cs.nodeID = self.nodeID ∧ cs.subnetStr = self.subnetStr ∧ cs.hop = 1 ∨
      ∃ p ∈ peers, p.sender.nodeID ≠ receiver ∧ ∃ old ∈ p.info.claimedSubnets,
        cs.nodeID = old.nodeID ∧ cs.subnetStr = old.subnetStr ∧ cs.hop = old.hop + 1 := by
  obtain ⟨k, e, d, hk, hvalid, hhop, hreceived⟩ := mem_received_iff.mp h
  obtain ⟨net, _, rfl⟩ := Option.map_eq_some_iff.mp hreceived
  rw [eq_of_validate hvalid] at hhop ⊢
  obtain ⟨_, rfl | ⟨p, hp, old, hold, rfl⟩⟩ := bestClaims_cases hk
  · exact .inl ⟨rfl, rfl, rfl⟩
  · exact .inr ⟨p, hp, fun hid => hhop (congrArg some hid), old, hold, rfl, rfl, rfl⟩

end Claims

section Round

variable [DecidableEq ι] {M : Mesh ι} {s : State ι Q} {b : Broadcast ι Q} {v : ι} {q : Peer ι}

/-- A link of the sender stores what the sender has sent. -/
theorem Mesh.round_of_eq (hq : q ∈ M.peers v) (hnode : q.node = b.node) :
    M.round s b v q.link = (updateGossip (s v q.link)
      (broadcastGossip (M.self b.node) b.orders (M.seen s b) q.link (M.self v).nodeID)).1 := by
  obtain ⟨_, p, hp, hpnode, hlink⟩ := M.two_ends v q hq
  exact if_pos (any_eq_true.mpr ⟨p, hnode ▸ hp, decide_eq_true ⟨hpnode, hlink⟩⟩)

/-- Other links are as they were. -/
theorem Mesh.round_of_ne (hq : q ∈ M.peers v) (hnode : q.node ≠ b.node) : M.round s b v q.link = s v q.link := by
  refine if_neg fun hany => hnode ?_
  obtain ⟨p, hp, hfound⟩ := any_eq_true.mp hany
  obtain ⟨rfl, hlink⟩ := of_decide_eq_true hfound
  obtain ⟨_, q', hq', hnode', hlink'⟩ := M.two_ends b.node p hp
  rw [M.one_link _ q hq q' hq' (hlink.symm.trans hlink'.symm), hnode']

end Round

end Gossip
