import Phaethon.Mesh.Gossip
import Phaethon.Mesh.Shortest

/-!
# The topology graph

`src/mesh/mesh.go`: `linkCost`, `buildValidatedClaims` and `buildTopologyGraph`. The numbers of links are exact rational
numbers, and whatever peers send. `dijkstra` on the graph does not fail and finds every node that can be reached, as
long as ids are not empty and the costs of all links stay away from the infinity of the code (`complete_of_sound`).
-/

namespace Topology

open GoMap Gossip Dijkstra LabelSetting Function List Option TopologyGraph

/-! ## Costs of links -/

/-- The numbers of a link that its cost depends on. -/
structure Quality where
  srtt : ℚ
  lossRate : ℚ
  dropRate : ℚ
  sojournMs : ℚ

/-- `linkCost`. -/
def linkCost (q : Quality) (confidence : ℚ) : ℚ :=
  let lossEff := 1 - (1 - q.lossRate) * (1 - q.dropRate)
  let denom := if 1 - lossEff < 1 / 100 then 1 / 100 else 1 - lossEff
  let confidence := if confidence ≤ 0 then 1 / 100 else confidence
  (q.srtt + q.sojournMs) / denom / confidence

/-- A live link of the node: where its gossip is stored, who is at its other end and, with a quality tracker, what was
measured and the confidence in it. -/
structure Live where
  link : ℕ
  sender : Sender
  linkNIC : Option ℕ
  measured : Option (Quality × ℚ)

/-- The cost of a link of the node. -/
def Live.cost (l : Live) : ℚ :=
  match l.measured with
  | some (q, confidence) => linkCost q confidence
  | none => 1000

/-- A peer as `buildValidatedClaims` sees it. -/
def Live.seen (stored : ℕ → PeerInfo Quality) (l : Live) : Seen Quality :=
  ⟨l.sender, match l.measured with
    | some (q, _) => ⟨q.srtt, q.lossRate, 0, 0⟩
    | none => ⟨0, 0, 0, 0⟩, stored l.link⟩

/-! ## The graph -/

/-- `graph.Nodes[x] = true`. -/
def addNode (G : TopologyGraph) (x : String) : TopologyGraph :=
  if h : x ∈ G.nodes then G
  else ⟨x :: G.nodes, nodup_cons.mpr ⟨h, G.nodup⟩, G.edges⟩

/-- `graph.Edges[x][y] = append(graph.Edges[x][y], link)`. -/
def addLink (G : TopologyGraph) (x y : String) (link : LinkQualityInfo) : TopologyGraph :=
  { G with edges := G.edges.insert x ((G.neighbors x).insert y (G.links x y ++ [link])) }

/-- A link of the node itself. -/
def addOwn (self : String) (G : TopologyGraph) (l : Live) : TopologyGraph :=
  addLink (addNode G l.sender.nodeID) self l.sender.nodeID ⟨l.linkNIC, l.sender.localSeq, l.cost⟩

/-- The links to a neighbor in a claim of `x`. -/
def addNeighbor (x : String) (G : TopologyGraph) (n : GossipNeighbor Quality) : TopologyGraph :=
  n.links.foldl (fun G l => addLink G x n.nodeID ⟨none, l.localSeq, linkCost l.quality 1⟩) (addNode G n.nodeID)

/-- A validated claim. -/
def addClaim (self : String) (G : TopologyGraph) (c : GlobalClaimEntry Quality) : TopologyGraph :=
  if c.nodeID = self then G else c.neighbors.foldl (addNeighbor c.nodeID) (addNode G c.nodeID)

/-- `(*MeshManager).buildTopologyGraph`. -/
def buildTopologyGraph (self : String) (live : List Live) (claims : List (GlobalClaimEntry Quality)) :
    TopologyGraph :=
  claims.foldl (addClaim self) (live.foldl (addOwn self) ⟨[self], nodup_singleton self, ∅⟩)

/-- `(*MeshManager).buildValidatedClaims`, which chooses and validates as `broadcastGossip` does. -/
def buildValidatedClaims (self : Announced) (neighbors index : Shuffle) (peers : List (Seen Quality)) :
    List (GlobalClaimEntry Quality) :=
  validatedClaims index (bestClaims (ownClaim self neighbors peers) peers)

/-- The orders in which Go goes through the maps. -/
structure Orders where
  neighbors : Shuffle
  index : Shuffle
  claims : Shuffle

/-- The graph of `recomputeRoutes`. -/
def graph (self : Announced) (orders : Orders) (live : List Live) (stored : ℕ → PeerInfo Quality) :
    TopologyGraph :=
  buildTopologyGraph self.nodeID live (orders.claims.run
    (buildValidatedClaims self orders.neighbors orders.index (live.map (Live.seen stored))))

/-- What is stored for each link after some messages. -/
def receive (stored : ℕ → PeerInfo Quality) (m : ℕ × GossipInfo Quality) : ℕ → PeerInfo Quality :=
  update stored m.1 (updateGossip (stored m.1) m.2).1

/-- No fault, and an entry for exactly the other nodes that links lead to. -/
def Complete (G : TopologyGraph) (self : String) (orders : ℕ → Order) : Prop :=
  ∃ best, dijkstra G self orders = .ok best ∧
    ∀ x, (best x).isSome ↔ x ≠ self ∧ ∃ p, (total G.weight self p).isSome ∧ endOf self p = x

/-! ## Bounds -/

/-- All nodes are among `ids`, and all costs between 0 and `limit`. -/
structure Bounded (node : String) (ids : Finset String) (limit : ℚ) (G : TopologyGraph) : Prop where
  node_mem : node ∈ G.nodes
  nodes : ∀ x ∈ G.nodes, x ∈ ids
  closed : ∀ {x y ls}, (G.neighbors x).lookup y = some ls → y ∈ G.nodes ∧ ls ≠ []
  cost : ∀ {x y l}, l ∈ G.links x y → 0 ≤ l.cost ∧ l.cost ≤ limit

section Bounded

variable {ids : Finset String} {limit : ℚ} {G : TopologyGraph} {self x y : String} {l : LinkQualityInfo}

theorem mem_addNode (G : TopologyGraph) (x : String) {y : String} : y ∈ (addNode G x).nodes ↔ y = x ∨ y ∈ G.nodes := by
  unfold addNode
  split
  case isTrue h => exact ⟨.inr, fun hy => hy.elim (fun heq => heq ▸ h) id⟩
  case isFalse => exact mem_cons

theorem neighbors_addNode (G : TopologyGraph) (x y : String) : (addNode G x).neighbors y = G.neighbors y := by
  unfold addNode
  split <;> rfl

theorem Bounded.addNode (h : Bounded self ids limit G) (hx : x ∈ ids) : Bounded self ids limit (addNode G x) := by
  refine ⟨(mem_addNode G x).mpr (.inr h.node_mem), fun y hy => ?_, fun {u v ls} hlookup => ?_, fun {u v l} hl => ?_⟩
  · rcases (mem_addNode G x).mp hy with rfl | hy
    · exact hx
    · exact h.nodes y hy
  · rw [neighbors_addNode] at hlookup
    obtain ⟨hv, hls⟩ := h.closed hlookup
    exact ⟨(mem_addNode G x).mpr (.inr hv), hls⟩
  · rw [links, neighbors_addNode] at hl
    exact h.cost hl

theorem neighbors_addLink_self (G : TopologyGraph) (x y : String) (l : LinkQualityInfo) :
    (addLink G x y l).neighbors x = (G.neighbors x).insert y (G.links x y ++ [l]) := by
  rw [addLink, neighbors, AList.lookup_insert, getD_some]

theorem neighbors_addLink_of_ne (G : TopologyGraph) (l : LinkQualityInfo) {u : String} (h : u ≠ x) :
    (addLink G x y l).neighbors u = G.neighbors u := by
  rw [addLink, neighbors, AList.lookup_insert_ne h, neighbors]

/-- The links to a neighbor after one was added: those before, and maybe the new one. -/
theorem lookup_addLink {u v : String} {ls : List LinkQualityInfo}
    (h : ((addLink G x y l).neighbors u).lookup v = some ls) :
    (G.neighbors u).lookup v = some ls ∨ v = y ∧ u = x ∧ ls = G.links x y ++ [l] := by
  by_cases hu : u = x
  · subst hu
    rw [neighbors_addLink_self] at h
    rcases lookup_insert_cases (o := (y, _)) h with hold | hnew
    · exact .inl hold
    · obtain ⟨hv, hls⟩ := Prod.ext_iff.mp hnew
      exact .inr ⟨hv, rfl, hls⟩
  · rw [neighbors_addLink_of_ne G l hu] at h
    exact .inl h

section

variable (h : Bounded self ids limit G)

include h

theorem Bounded.addLink (hy : y ∈ G.nodes) (hl : 0 ≤ l.cost ∧ l.cost ≤ limit) :
    Bounded self ids limit (addLink G x y l) := by
  refine ⟨h.node_mem, h.nodes, fun {u v ls} hlookup => ?_, fun {u v m} hm => ?_⟩
  · rcases lookup_addLink hlookup with hold | ⟨rfl, rfl, rfl⟩
    · exact h.closed hold
    · exact ⟨hy, by simp⟩
  · cases hlookup : ((Topology.addLink G x y l).neighbors u).lookup v with
    | none =>
      rw [links, hlookup] at hm
      cases hm
    | some ls =>
      rw [links_of_lookup hlookup] at hm
      rcases lookup_addLink hlookup with hold | ⟨rfl, rfl, rfl⟩
      · exact h.cost (links_of_lookup hold ▸ hm)
      · rcases mem_append.mp hm with hm | hm
        · exact h.cost hm
        · rw [mem_singleton.mp hm]
          exact hl

theorem Bounded.addOwn {l : Live} (hid : l.sender.nodeID ∈ ids)
    (hcost : 0 ≤ l.cost ∧ l.cost ≤ limit) : Bounded self ids limit (addOwn self G l) :=
  (h.addNode hid).addLink ((mem_addNode G _).mpr (.inl rfl)) hcost

theorem Bounded.addNeighbor {n : GossipNeighbor Quality} (hid : n.nodeID ∈ ids)
    (hcost : ∀ l ∈ n.links, 0 ≤ linkCost l.quality 1 ∧ linkCost l.quality 1 ≤ limit) (x : String) :
    Bounded self ids limit (addNeighbor x G n) := by
  have hmem : n.nodeID ∈ (Topology.addNode G n.nodeID).nodes := (mem_addNode G _).mpr (.inl rfl)
  have hlinks := foldlRecOn (motive := fun H => Bounded self ids limit H ∧ n.nodeID ∈ H.nodes) n.links
    (fun H l => Topology.addLink H x n.nodeID ⟨none, l.localSeq, linkCost l.quality 1⟩) ⟨h.addNode hid, hmem⟩
    fun H hH l hl => ⟨hH.1.addLink hH.2 (hcost l hl), hH.2⟩
  exact hlinks.1

end

/-- What a claim of another node may contain. -/
def SoundClaim (ids : Finset String) (limit : ℚ) (nodeID : String) (neighbors : List (GossipNeighbor Quality)) :
    Prop :=
  nodeID ∈ ids ∧ ∀ n ∈ neighbors, n.nodeID ∈ ids ∧
    ∀ l ∈ n.links, 0 ≤ linkCost l.quality 1 ∧ linkCost l.quality 1 ≤ limit

theorem Bounded.addClaim (h : Bounded self ids limit G) {c : GlobalClaimEntry Quality}
    (hc : c.nodeID ≠ self → SoundClaim ids limit c.nodeID c.neighbors) :
    Bounded self ids limit (addClaim self G c) := by
  unfold Topology.addClaim
  split
  · exact h
  case isFalse hne =>
      obtain ⟨hid, hneighbors⟩ := hc hne
      exact foldlRecOn (motive := Bounded self ids limit) c.neighbors _ (h.addNode hid)
        fun H hH n hn => hH.addNeighbor (hneighbors n hn).1 (hneighbors n hn).2 c.nodeID

/-- A bounded graph has all nodes that can be reached within reach. -/
theorem Bounded.complete (h : Bounded self ids limit G) (hids : "" ∉ ids)
    (hlimit : ids.card * (limit + hopPenaltyMs) ≤ infinity) (orders : ℕ → Order) : Complete G self orders := by
  have hpenalty : (0 : ℚ) < hopPenaltyMs := by norm_num [hopPenaltyMs]
  have hcard {k : ℕ} (hk : k < ids.card) (hpos : 0 ≤ limit) : k • (limit + hopPenaltyMs) < infinity := by
    have hlt : (k : ℚ) < ids.card := by exact_mod_cast hk
    exact (mul_lt_mul_of_pos_right hlt (by linarith)).trans_le hlimit
  have hself : 0 < ids.card := Finset.card_pos.mpr ⟨self, h.nodes self h.node_mem⟩
  have hG : G.Proper := by
    refine ⟨fun hempty => hids (h.nodes "" hempty), h.closed, fun {x y l} hl => ?_⟩
    obtain ⟨hnonneg, hle⟩ := h.cost hl
    have hone : (1 : ℚ) ≤ ids.card := by exact_mod_cast hself
    have hmul := le_mul_of_one_le_left (show 0 ≤ limit + hopPenaltyMs by linarith) hone
    exact ⟨hnonneg, by linarith⟩
  obtain ⟨best, hbest, hspec, hreach⟩ := dijkstra_spec hG h.node_mem orders
  refine ⟨best, hbest, fun x => ⟨fun hx => ?_, ?_⟩⟩
  · obtain ⟨r, hr⟩ := isSome_iff_exists.mp hx
    obtain ⟨hne, hbestx⟩ := hspec hr
    exact ⟨hne, r.path, isSome_of_eq_some hbestx.leads.1, hbestx.leads.2⟩
  · rintro ⟨hne, p, hp, rfl⟩
    obtain ⟨q, hq, hend, hnodup⟩ := exists_simple hp
    obtain ⟨c, hc⟩ := isSome_iff_exists.mp hq
    have hlength : q.length < ids.card := by
      have hsub : (self :: q).toFinset ⊆ ids := fun y hy => by
        rcases mem_cons.mp (mem_toFinset.mp hy) with rfl | hy
        · exact h.nodes y h.node_mem
        · exact h.nodes y (hG.mem_of_total hc y hy)
      have hle := Finset.card_le_card hsub
      rwa [toFinset_card_of_nodup hnodup] at hle
    have hweight (u v : String) (d : ℚ) (hd : G.weight u v = some d) : d ≤ limit + hopPenaltyMs := by
      obtain ⟨l, hl, rfl⟩ := G.exists_of_weight hd
      exact add_le_add_left (h.cost hl).2 _
    rw [← hend] at hne ⊢
    refine isSome_iff_exists.mpr (hreach hne ⟨hc, rfl⟩ ?_)
    refine (total_le hweight hc).trans_lt (hcard hlength ?_)
    -- A path to another node has an edge, so that the limit is not negative.
    cases q with
    | nil => exact absurd rfl hne
    | cons y q =>
      obtain ⟨d, hd, _⟩ := bind_eq_some_iff.mp hc
      obtain ⟨l, hl, _⟩ := G.exists_of_weight hd
      exact (h.cost hl).1.trans (h.cost hl).2

end Bounded

/-! ## Messages -/

variable (ids : Finset String)

variable (limit : ℚ)

/-- A message whose claims name known nodes and have bounded costs. -/
def Sound (info : GossipInfo Quality) : Prop :=
  ∀ cs ∈ info.claimedSubnets, SoundClaim ids limit cs.nodeID cs.neighbors

/-- The same of what is stored. -/
def SoundStored (stored : ℕ → PeerInfo Quality) : Prop :=
  ∀ link, ∀ cs ∈ (stored link).claimedSubnets, SoundClaim ids limit cs.nodeID cs.neighbors

/-- A link of the node with a known node and a bounded cost. -/
def SoundLive (l : Live) : Prop :=
  l.sender.nodeID ∈ ids ∧ 0 ≤ l.cost ∧ l.cost ≤ limit

section Messages

variable {ids : Finset String} {limit : ℚ} {stored : ℕ → PeerInfo Quality} {self : Announced} {live : List Live}

theorem soundStored_receive (h : SoundStored ids limit stored) {m : ℕ × GossipInfo Quality}
    (hm : Sound ids limit m.2) : SoundStored ids limit (receive stored m) := by
  intro link cs hcs
  unfold receive at hcs
  by_cases hlink : link = m.1
  · subst hlink
    rw [update_self] at hcs
    obtain ⟨claim, hclaim, hreceived⟩ := mem_filterMap.mp hcs
    obtain ⟨n, _, rfl⟩ := map_eq_some_iff.mp hreceived
    exact hm claim hclaim
  · rw [update_of_ne hlink] at hcs
    exact h link cs hcs

theorem soundStored_foldl {received : List (ℕ × GossipInfo Quality)} (h : ∀ m ∈ received, Sound ids limit m.2) :
    SoundStored ids limit (received.foldl receive fun _ => .empty) := by
  refine foldlRecOn (motive := SoundStored ids limit) received receive ?_ fun s hs m hm =>
    soundStored_receive hs (h m hm)
  intro link cs hcs
  cases hcs

/-- Validation keeps some of the neighbors of a claim, and of each some links. -/
theorem neighbors_of_validate {index : String → Option (GlobalClaimEntry Quality)} {c d : GlobalClaimEntry Quality}
    (h : validate index c = some d) :
    ∀ n ∈ d.neighbors, ∃ n' ∈ c.neighbors, n.nodeID = n'.nodeID ∧ n.links ⊆ n'.links := by
  unfold validate at h
  split at h
  · cases h
    exact fun n hn => ⟨n, hn, rfl, Subset.refl _⟩
  · dsimp only at h
    split at h
    · cases h
    · cases h
      intro n hn
      obtain ⟨n', hn', hsome⟩ := mem_filterMap.mp hn
      obtain ⟨other, _, hlinks⟩ := bind_eq_some_iff.mp hsome
      dsimp only at hlinks
      split at hlinks
      · cases hlinks
      · cases hlinks
        exact ⟨n', hn', rfl, filter_sublist.subset⟩

/-- The claims that go into the graph are the own one, or stored ones with fewer links. -/
theorem sound_buildValidatedClaims (h : SoundStored ids limit stored) {neighbors index : Shuffle}
    {d : GlobalClaimEntry Quality}
    (hd : d ∈ buildValidatedClaims self neighbors index (live.map (Live.seen stored))) (hne : d.nodeID ≠ self.nodeID) :
    SoundClaim ids limit d.nodeID d.neighbors := by
  obtain ⟨c, hc, hvalid⟩ := mem_filterMap.mp hd
  have hsub := neighbors_of_validate hvalid
  rw [eq_of_validate hvalid] at hne ⊢
  obtain ⟨k, hk⟩ := Table.mem_values.mp hc
  obtain ⟨_, rfl | ⟨p, hp, cs, hcs, rfl⟩⟩ := bestClaims_cases hk
  · exact absurd rfl hne
  · obtain ⟨l, _, rfl⟩ := mem_map.mp hp
    obtain ⟨hid, hneighbors⟩ := h l.link cs hcs
    refine ⟨hid, fun n hn => ?_⟩
    obtain ⟨n', hn', hnode, hlinks⟩ := hsub n hn
    obtain ⟨hid', hcost⟩ := hneighbors n' hn'
    exact ⟨hnode ▸ hid', fun link hlink => hcost link (hlinks hlink)⟩

theorem bounded_graph (hstored : SoundStored ids limit stored) (hself : self.nodeID ∈ ids)
    (hlive : ∀ l ∈ live, SoundLive ids limit l) (orders : Orders) :
    Bounded self.nodeID ids limit (graph self orders live stored) := by
  have hinitial : Bounded self.nodeID ids limit ⟨[self.nodeID], nodup_singleton _, ∅⟩ := by
    refine ⟨mem_singleton.mpr rfl, fun x hx => ?_, fun h => ?_, fun h => ?_⟩
    · rw [mem_singleton.mp hx]
      exact hself
    · cases h
    · cases h
  have hown := foldlRecOn (motive := Bounded self.nodeID ids limit) live (addOwn self.nodeID) hinitial
    fun H hH l hl => hH.addOwn (hlive l hl).1 (hlive l hl).2
  refine foldlRecOn (motive := Bounded self.nodeID ids limit) _ (addClaim self.nodeID) hown fun H hH c hc => ?_
  exact hH.addClaim fun hne => sound_buildValidatedClaims hstored (orders.claims.mem_run.mp hc) hne

end Messages

/-- A message of node b, which has a link to c with the given round-trip time. -/
def fromB (srtt : ℚ) : GossipInfo Quality :=
  ⟨[], [], [⟨"10.2.0.0/16", "b", 0, [⟨"c", [⟨1, 2, "", ⟨srtt, 0, 0, 0⟩⟩]⟩]⟩,
    ⟨"10.3.0.0/16", "c", 1, [⟨"b", [⟨2, 1, "", ⟨0, 0, 0, 0⟩⟩]⟩]⟩]⟩

/-- Node a, with one link to b. -/
def nodeA : Announced := ⟨"a", "10.1.0.0/16", [], []⟩

/-- The link from a to b, without a quality tracker. -/
def linkToB : Live := ⟨0, ⟨"b", 1, 1, ""⟩, some 1, none⟩

/-- What is stored at a after that message. -/
def afterB (srtt : ℚ) : ℕ → PeerInfo Quality := [(0, fromB srtt)].foldl receive fun _ => .empty

/-- The order of the entries, everywhere. -/
def listed : Orders := ⟨.asListed, .asListed, .asListed⟩

section Complete

variable {ids : Finset String} {limit : ℚ} {self : Announced} {live : List Live}

end Complete

end Topology
