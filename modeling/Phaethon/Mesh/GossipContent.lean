import Phaethon.Mesh.Gossip

/-!
# What a gossip message says

The identity of what a message says: routes, domain suffixes, and claims with their owners, hops and links, but not
the measured qualities. `Listing` has it in the order in which it was sent, `Content` in none. A sender takes the
order from Go's maps, so that one state gives different listings with the same content. `UpdateGossip` compares the
listings (`exact_iff_in_order`).
-/

namespace Gossip

open GoMap List
open NetIp (IPNet)

variable {Q : Type}

/-- What identifies a link: the two numbers and the name. -/
structure LinkId where
  localSeq : UInt16
  remoteSeq : UInt16
  friendlyName : String
  deriving DecidableEq

/-- A neighbor and its links, in order. -/
structure NeighborListing where
  nodeID : String
  links : List LinkId
  deriving DecidableEq

/-- A claim and its neighbors, in order. -/
structure ClaimListing where
  subnet : String
  nodeID : String
  hop : Int64
  neighbors : List NeighborListing
  deriving DecidableEq

/-- A neighbor and its links. -/
structure NeighborContent where
  nodeID : String
  links : Multiset LinkId

/-- A claim and its neighbors. -/
structure ClaimContent where
  subnet : String
  nodeID : String
  hop : Int64
  neighbors : Multiset NeighborContent

def GossipLink.id (l : GossipLink Q) : LinkId := ⟨l.localSeq, l.remoteSeq, l.friendlyName⟩

def GossipNeighbor.listing (n : GossipNeighbor Q) : NeighborListing := ⟨n.nodeID, n.links.map (·.id)⟩

def PeerClaimedSubnetEntry.listing (c : PeerClaimedSubnetEntry Q) : ClaimListing :=
  ⟨c.subnetStr, c.nodeID, c.hop, c.neighbors.map (·.listing)⟩

def PeerRouteEntry.listing (r : PeerRouteEntry) : String × String := (r.prefixStr, r.nodeID)

def NeighborListing.content (n : NeighborListing) : NeighborContent := ⟨n.nodeID, n.links⟩

def ClaimListing.content (c : ClaimListing) : ClaimContent :=
  ⟨c.subnet, c.nodeID, c.hop, (c.neighbors.map (·.content) : List NeighborContent)⟩

/-- What is said, in order. -/
structure Listing where
  routes : List (String × String)
  domainSuffixes : List GossipDomainSuffix
  claims : List ClaimListing
  deriving DecidableEq

/-- What is said. -/
structure Content where
  routes : Multiset (String × String)
  domainSuffixes : Multiset GossipDomainSuffix
  claims : Multiset ClaimContent

def Listing.content (l : Listing) : Content :=
  ⟨l.routes, l.domainSuffixes, (l.claims.map (·.content) : List ClaimContent)⟩

/-- What is stored of a peer. -/
def PeerInfo.listing (p : PeerInfo Q) : Listing :=
  ⟨p.routes.map (·.listing), p.domainSuffixes, p.claimedSubnets.map (·.listing)⟩

/-- What a message says to its receiver, who leaves out what does not parse and is one hop further. -/
def GossipInfo.listing (info : GossipInfo Q) : Listing :=
  ⟨(info.routes.filterMap (·.received)).map (·.listing), info.domainSuffixes,
    (info.claimedSubnets.filterMap (·.received)).map (·.listing)⟩

def PeerInfo.content (p : PeerInfo Q) : Content := p.listing.content

def GossipInfo.content (info : GossipInfo Q) : Content := info.listing.content

/-! ## Stored entries -/

/-- The subnet that is taken for the peer's own: the first that it claims at hop 1. -/
def ownSubnetStr (claims : List (PeerClaimedSubnetEntry Q)) : String :=
  ((claims.find? fun cs => cs.hop = 1 ∧ cs.nodeID ≠ "").map (·.subnetStr)).getD ""

/-- The entry of a peer: its own subnet is the one of its claims. -/
structure StoredPeer (Q : Type) where
  info : PeerInfo Q
  own : info.subnetStr = ownSubnetStr info.claimedSubnets

/-- `RegisterPeer`. -/
def StoredPeer.registered : StoredPeer Q := ⟨.empty, rfl⟩

/-- The entry after a message. -/
def StoredPeer.update (p : StoredPeer Q) (message : GossipInfo Q) : StoredPeer Q :=
  ⟨(updateGossip p.info message).1, rfl⟩

/-- The own subnet can be told from the listing. -/
theorem ownSubnetStr_congr {as bs : List (PeerClaimedSubnetEntry Q)} (h : as.map (·.listing) = bs.map (·.listing)) :
    ownSubnetStr as = ownSubnetStr bs := by
  have hlisting (cs : List (PeerClaimedSubnetEntry Q)) : ownSubnetStr cs =
      (((cs.map (·.listing)).find? fun c => c.hop = 1 ∧ c.nodeID ≠ "").map (·.subnet)).getD "" := by
    rw [find?_map, Option.map_map]
    rfl
  rw [hlisting, hlisting, h]

/-! ## The comparisons -/

/-- Two lists agree if what is compared of their elements is the same. -/
theorem agree_iff_map_eq {α β : Type} {same : α → α → Bool} {key : α → β}
    (hsame : ∀ a b, same a b = true ↔ key a = key b) (as bs : List α) :
    agree same as bs = true ↔ as.map key = bs.map key := by
  unfold agree
  rw [decide_eq_true_iff]
  induction as generalizing bs with
  | nil => cases bs <;> simp
  | cons a as ih =>
    cases bs with
    | nil => simp
    | cons b bs =>
      rw [map_cons, map_cons, List.cons.injEq, ← ih bs, ← hsame]
      simp only [length_cons, Nat.add_right_cancel_iff, zip_cons_cons, all_cons,
        Bool.and_eq_true]
      tauto

theorem routesEqual_iff (as bs : List PeerRouteEntry) :
    routesEqual as bs = true ↔ as.map (·.listing) = bs.map (·.listing) :=
  agree_iff_map_eq (fun a b => by simp [PeerRouteEntry.listing]) as bs

theorem domainSuffixesEqual_iff (as bs : List GossipDomainSuffix) : domainSuffixesEqual as bs = true ↔ as = bs := by
  have hsame (a b : GossipDomainSuffix) :
      decide (a.suffix = b.suffix ∧ a.nodeID = b.nodeID) = true ↔ id a = id b := by
    cases a
    cases b
    simp
  have hagree := agree_iff_map_eq hsame as bs
  rwa [map_id, map_id] at hagree

theorem compareGossipNeighbors_iff (a b : GossipNeighbor Q) :
    compareGossipNeighbors a b = true ↔ a.listing = b.listing := by
  unfold compareGossipNeighbors GossipNeighbor.listing
  rw [decide_eq_true_iff, NeighborListing.mk.injEq]
  refine and_congr_right fun _ => agree_iff_map_eq (fun l m => ?_) _ _
  simp [GossipLink.id]

theorem claimedSubnetsEqual_iff (as bs : List (PeerClaimedSubnetEntry Q)) :
    claimedSubnetsEqual as bs = true ↔ as.map (·.listing) = bs.map (·.listing) := by
  refine agree_iff_map_eq (fun a b => ?_) as bs
  simp only [PeerClaimedSubnetEntry.listing, decide_eq_true_iff, ClaimListing.mk.injEq,
    agree_iff_map_eq compareGossipNeighbors_iff]

/-- A change is reported exactly if the message lists something else. -/
theorem updateGossip_changed_iff (p : StoredPeer Q) (message : GossipInfo Q) :
    (updateGossip p.info message).2 = true ↔ p.info.listing ≠ message.listing := by
  have hown (h : p.info.claimedSubnets.map (·.listing) =
      (message.claimedSubnets.filterMap (·.received)).map (·.listing)) :
      p.info.subnetStr = ownSubnetStr (message.claimedSubnets.filterMap (·.received)) :=
    p.own.trans (ownSubnetStr_congr h)
  have hchanged : (updateGossip p.info message).2 = true ↔
      ¬ (p.info.subnetStr = ownSubnetStr (message.claimedSubnets.filterMap (·.received)) ∧
        domainSuffixesEqual p.info.domainSuffixes message.domainSuffixes = true ∧
        routesEqual p.info.routes (message.routes.filterMap (·.received)) = true ∧
        claimedSubnetsEqual p.info.claimedSubnets (message.claimedSubnets.filterMap (·.received)) = true) := by
    simp only [updateGossip, ownSubnetStr, decide_eq_true_iff]
    tauto
  rw [hchanged, ne_eq, not_iff_not, domainSuffixesEqual_iff, routesEqual_iff, claimedSubnetsEqual_iff,
    PeerInfo.listing, GossipInfo.listing, Listing.mk.injEq]
  constructor
  · rintro ⟨_, hsuffixes, hroutes, hclaims⟩
    exact ⟨hroutes, hsuffixes, hclaims⟩
  · rintro ⟨hroutes, hsuffixes, hclaims⟩
    exact ⟨hown hclaims, hsuffixes, hroutes, hclaims⟩

/-- A state that gives two messages with the same content, of which the second is reported as a change of the first:
the sender announces two domain suffixes, which it goes through in one order and in the other. -/
theorem same_state_reported_as_change :
    let sender : Announced := ⟨"a", "10.1.0.0/16", [], ["x", "y"]⟩
    let peers : List (Seen Unit) := [⟨⟨"b", 1, 1, ""⟩, (), .empty⟩]
    let message (order : Shuffle) := broadcastGossip sender ⟨.asListed, .asListed, fun _ => order⟩ peers 0 "b"
    let first := message .asListed
    let second := message ⟨List.reverse, reverse_perm⟩
    let stored := StoredPeer.registered.update first
    (updateGossip stored.info second).2 = true ∧ stored.info.content = second.content := by
  intro sender peers message first second stored
  let claim : ClaimListing := ⟨"10.1.0.0/16", "a", 1, [⟨"b", [⟨1, 1, ""⟩]⟩]⟩
  have hfirst : stored.info.listing = ⟨[], [⟨"y", "a"⟩, ⟨"x", "a"⟩], [claim]⟩ := by decide +kernel
  have hsecond : second.listing = ⟨[], [⟨"x", "a"⟩, ⟨"y", "a"⟩], [claim]⟩ := by decide +kernel
  refine ⟨(updateGossip_changed_iff stored second).mpr ?_, ?_⟩
  · decide
  · rw [PeerInfo.content, GossipInfo.content, hfirst, hsecond, Listing.content, Listing.content,
      Content.mk.injEq]
    exact ⟨rfl, Multiset.coe_eq_coe.mpr (.swap _ _ _), rfl⟩

/-- The report is exact, for an entry and a message, exactly if the message does not say the same in another order. -/
theorem exact_iff_in_order (p : StoredPeer Q) (message : GossipInfo Q) :
    ((updateGossip p.info message).2 = true ↔ p.info.content ≠ message.content) ↔
      (p.info.content = message.content → p.info.listing = message.listing) := by
  have hcontent (h : p.info.listing = message.listing) : p.info.content = message.content :=
    congrArg Listing.content h
  rw [updateGossip_changed_iff, ne_eq, ne_eq, not_iff_not]
  exact ⟨fun h => h.mpr, fun h => ⟨hcontent, h⟩⟩

end Gossip
