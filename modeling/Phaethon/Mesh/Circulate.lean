import Phaethon.Common.Tour
import Phaethon.Mesh.Settle

/-!
# Gossip that goes round

Claims of nodes that are gone are dropped unless they confirm each other. If they do, and the links of the mesh
contain a cycle, they can be passed round it for ever, with ever larger hop counts: a node forgets them when it
hears nothing of them from its own source, but by then they are ahead of it. So a mesh settles if and only if its
links form a forest.
-/

namespace Gossip

open GoMap List Option
open NetIp (parseCIDR)

variable {ι Q : Type}

/-! ## Claims that confirm each other -/

/-- Claims of nodes that are not in the mesh, each of whose links another one of them confirms. -/
structure Ghosts (M : Mesh ι) (Q : Type) where
  claims : List (PeerClaimedSubnetEntry Q)
  ne_nil : claims ≠ []
  parsed : ∀ g ∈ claims, parseCIDR g.subnetStr = some g.subnet
  unique : ∀ g ∈ claims, ∀ g' ∈ claims, g.nodeID = g'.nodeID ∨ g.subnetStr = g'.subnetStr → g = g'
  foreign : ∀ g ∈ claims, ∀ u, (M.self u).nodeID ≠ g.nodeID ∧ (M.self u).subnetStr ≠ g.subnetStr
  neighbors_ne : ∀ g ∈ claims, g.neighbors ≠ []
  confirmed : ∀ g ∈ claims, ∀ n ∈ g.neighbors, n.links ≠ [] ∧ ∃ g' ∈ claims, g'.nodeID = n.nodeID ∧
    validatedLinks g.nodeID g'.neighbors n.links = n.links

/-- A claim with another hop count. -/
def PeerClaimedSubnetEntry.atHop (g : PeerClaimedSubnetEntry Q) (h : Int64) :
    PeerClaimedSubnetEntry Q :=
  { g with hop := h }

/-- The node or the subnet of one of the claims. -/
def Ghosts.Names {M : Mesh ι} (G : Ghosts M Q) (nodeID subnet : String) : Prop :=
  ∃ g ∈ G.claims, nodeID = g.nodeID ∨ subnet = g.subnetStr

/-- A link on which the claims are stored with the hop count `h`, or on which none of them is stored. -/
structure Ghosts.Held {M : Mesh ι} (G : Ghosts M Q) (info : PeerInfo Q) (h : Option Int64) : Prop where
  stored : ∀ k, h = some k → ∀ g ∈ G.claims, g.atHop k ∈ info.claimedSubnets
  only : ∀ cs ∈ info.claimedSubnets, G.Names cs.nodeID cs.subnetStr →
    ∃ k, h = some k ∧ ∃ g ∈ G.claims, cs = g.atHop k

variable {g : PeerClaimedSubnetEntry Q}

section Broadcast

variable {M : Mesh ι} {G : Ghosts M Q} {own c : GlobalClaimEntry Q} {peers : List (Seen Q)}
  {via : String} {h : Int64}

/-- The entry of a claim in `bestClaims`. -/
def PeerClaimedSubnetEntry.entry (g : PeerClaimedSubnetEntry Q) (h : Int64) (via : String) :
    GlobalClaimEntry Q :=
  ⟨h, some via, g.nodeID, g.subnetStr, g.neighbors⟩

/-- The claims are stored for the peer `via` and for no other. -/
structure Ghosts.HeldVia (G : Ghosts M Q) (peers : List (Seen Q)) (via : String) (h : Int64) : Prop where
  held : ∀ p ∈ peers, G.Held p.info (if p.sender.nodeID = via then some h else none)
  exists_via : ∃ p ∈ peers, p.sender.nodeID = via

section

variable (hvia : G.HeldVia peers via h)

include hvia

section

variable (hown : ¬ G.Names own.nodeID own.subnet)

include hown

theorem Ghosts.eq_entry_of_names
    {k : String} (hc : (bestClaims own peers).lookup k = some c) (hnames : G.Names c.nodeID c.subnet) :
    ∃ g ∈ G.claims, c = g.entry h via := by
  obtain ⟨_, rfl | ⟨p, hp, cs, hcs, rfl⟩⟩ := bestClaims_cases hc
  · exact absurd hnames hown
  · obtain ⟨j, hj, g, hg, rfl⟩ := (hvia.held p hp).only cs hcs hnames
    split at hj
    case isTrue hid =>
        cases hj
        exact ⟨g, hg, by rw [hid]; rfl⟩
    case isFalse => cases hj

theorem Ghosts.lookup_bestClaims (hg : g ∈ G.claims) :
    (bestClaims own peers).lookup g.subnetStr = some (g.entry h via) := by
  obtain ⟨p, hp, hid⟩ := hvia.exists_via
  have hstored : g.atHop h ∈ p.info.claimedSubnets :=
    (hvia.held p hp).stored h (if_pos hid) g hg
  have hsome : ((bestClaims own peers).lookup g.subnetStr).isSome :=
    isSome_lookup_bestOf (mem_flatMap.mpr ⟨p, hp, mem_map.mpr ⟨_, hstored, rfl⟩⟩)
  obtain ⟨c, hc⟩ := isSome_iff_exists.mp hsome
  have hsubnet := (bestClaims_cases hc).1
  obtain ⟨g', hg', rfl⟩ := eq_entry_of_names hvia hown hc ⟨g, hg, .inr hsubnet.symm⟩
  rw [hc, G.unique g hg g' hg' (.inr hsubnet)]

/-- Every order of `nodeIDToClaim` finds the claim of a node. -/
theorem Ghosts.claimOf_eq (order : Shuffle) (hg : g ∈ G.claims) :
    claimOf (order.run (bestClaims own peers).values) g.nodeID = some (g.entry h via) := by
  have hmem : g.entry h via ∈ (order.run (bestClaims own peers).values).reverse := by
    rw [mem_reverse, (order.perm _).mem_iff]
    exact Table.mem_values.mpr ⟨_, lookup_bestClaims hvia hown hg⟩
  cases hfind : claimOf (order.run (bestClaims own peers).values) g.nodeID with
  | none => exact absurd (decide_eq_true rfl) (find?_eq_none.mp hfind _ hmem)
  | some c =>
    have hfound := find?_some hfind
    have hid : c.nodeID = g.nodeID := of_decide_eq_true hfound
    have hc := mem_of_find?_eq_some hfind
    rw [mem_reverse, (order.perm _).mem_iff] at hc
    obtain ⟨k, hk⟩ := Table.mem_values.mp hc
    obtain ⟨g', hg', rfl⟩ := eq_entry_of_names hvia hown hk ⟨g, hg, .inl hid⟩
    rw [G.unique g hg g' hg' (.inl hid.symm)]

end

end

/-- The claims pass the validation as they are. -/
theorem Ghosts.validate_entry {index : String → Option (GlobalClaimEntry Q)}
    (hindex : ∀ g ∈ G.claims, index g.nodeID = some (g.entry h via)) (hg : g ∈ G.claims) :
    validate index (g.entry h via) = some (g.entry h via) := by
  have hneighbors : validatedNeighbors index (g.entry h via) = g.neighbors := by
    have hkept : ∀ n ∈ g.neighbors, ((index n.nodeID).bind fun other =>
        let links := validatedLinks g.nodeID other.neighbors n.links
        if links = [] then none else some ⟨n.nodeID, links⟩) = some n := by
      intro n hn
      obtain ⟨hlinks, g', hg', hid, hvalid⟩ := G.confirmed g hg n hn
      rw [← hid, hindex g' hg', bind_some]
      show (if validatedLinks g.nodeID g'.neighbors n.links = [] then none else
        some ⟨g'.nodeID, validatedLinks g.nodeID g'.neighbors n.links⟩) = some n
      rw [hvalid, if_neg hlinks, hid]
    exact (filterMap_congr hkept).trans filterMap_some
  unfold validate
  split
  · rfl
  · simp only [hneighbors]
    rw [if_neg (G.neighbors_ne g hg)]
    rfl

variable {self : Announced} {orders : Orders} {link : ℕ} {receiver : String} {info : PeerInfo Q}

theorem Ghosts.not_names_self (G : Ghosts M Q) (u : ι) : ¬ G.Names (M.self u).nodeID (M.self u).subnetStr := by
  rintro ⟨g, hg, hid | hsubnet⟩
  · exact (G.foreign g hg u).1 hid
  · exact (G.foreign g hg u).2 hsubnet

/-- A node that stores none of the claims sends none of them. -/
theorem Ghosts.held_none (hself : ¬ G.Names self.nodeID self.subnetStr) (hnone : ∀ p ∈ peers, G.Held p.info none) :
    G.Held (updateGossip info (broadcastGossip self orders peers link receiver)).1 none := by
  constructor
  · intro k hk
    cases hk
  · intro cs hcs hnames
    rcases received_cases hcs with ⟨hid, hsubnet, _⟩ | ⟨p, hp, _, old, hold, hid, hsubnet, _⟩
    · rw [hid, hsubnet] at hnames
      exact absurd hnames hself
    · rw [hid, hsubnet] at hnames
      obtain ⟨k, hk, _⟩ := (hnone p hp).only old hold hnames
      cases hk

/-- A claim as it is stored one hop further. -/
theorem Ghosts.received_sent (hg : g ∈ G.claims) : (g.entry h via).sent.received = some (g.atHop (h + 1)) :=
  map_eq_some_iff.mpr ⟨g.subnet, G.parsed g hg, rfl⟩

/-- A node that has the claims from one peer sends them to all others. -/
theorem Ghosts.held_pass (hself : ¬ G.Names self.nodeID self.subnetStr) (hvia : G.HeldVia peers via h) :
    G.Held (updateGossip info (broadcastGossip self orders peers link receiver)).1
      (if receiver = via then none else some (h + 1)) := by
  have hown : ¬ G.Names (ownClaim self orders.neighbors peers).nodeID
    (ownClaim self orders.neighbors peers).subnet := hself
  have hindex (g : PeerClaimedSubnetEntry Q) (hg : g ∈ G.claims) :=
    claimOf_eq hvia hown orders.index hg
  constructor
  · intro k hk g hg
    split at hk
    case isTrue => cases hk
    case isFalse hne =>
        cases hk
        refine mem_received_iff.mpr ⟨_, _, _, lookup_bestClaims hvia hown hg,
          validate_entry hindex hg, fun hid => ?_, received_sent hg⟩
        exact hne (Option.some.inj hid).symm
  · intro cs hcs hnames
    obtain ⟨k, e, d, hk, hvalid, hhop, hreceived⟩ := mem_received_iff.mp hcs
    obtain ⟨g, hg, rfl⟩ : ∃ g ∈ G.claims, e = g.entry h via := by
      refine eq_entry_of_names hvia hown hk ?_
      obtain ⟨net, _, rfl⟩ := map_eq_some_iff.mp hreceived
      rw [eq_of_validate hvalid] at hnames
      exact hnames
    rw [validate_entry hindex hg] at hvalid
    cases hvalid
    rw [received_sent hg] at hreceived
    cases hreceived
    exact ⟨h + 1, if_neg fun hid => hhop (congrArg some hid.symm), g, hg, rfl⟩

end Broadcast

/-! ## Where the claims are -/

/-- The hop count that each node stores the claims with for each sender. -/
def Ghosts.Marked {M : Mesh ι} (G : Ghosts M Q) (s : State ι Q) (mark : ι → ι → Option Int64) : Prop :=
  ∀ v, ∀ p ∈ M.peers v, G.Held (s v p.link) (mark v p.node)

/-- The claims are stored where `u` has sent them: at its neighbours other than `v`. -/
def token [DecidableEq ι] (u v : ι) (h : Int64) (x y : ι) : Option Int64 :=
  if y = u ∧ x ≠ v then some h else none

section Token

variable [DecidableEq ι] {M : Mesh ι} {G : Ghosts M Q} {s : State ι Q} {mark mark' : ι → ι → Option Int64}
  {b : Broadcast ι Q} {h : Int64} {u v w : ι}

/-- A broadcast of a node that stores none of the claims. -/
theorem Ghosts.Marked.silent (hs : G.Marked s mark)
    (hnone : ∀ p ∈ M.peers b.node, mark b.node p.node = none) (hsent : ∀ x, mark' x b.node = none)
    (hrest : ∀ x y, y ≠ b.node → mark' x y = mark x y) : G.Marked (M.round s b) mark' := by
  intro x q hq
  by_cases hnode : q.node = b.node
  · rw [M.round_of_eq hq hnode, hnode, hsent]
    refine G.held_none (G.not_names_self b.node) fun seen hseen => ?_
    obtain ⟨p, hp, rfl⟩ := mem_map.mp hseen
    exact hnone p hp ▸ hs b.node p hp
  · rw [M.round_of_ne hq hnode, hrest x q.node hnode]
    exact hs x q hq

/-- A broadcast of a node that has the claims from `u`. -/
theorem Ghosts.Marked.pass (hs : G.Marked s mark) (hadj : M.graph.Adj b.node u)
    (hmark : ∀ p ∈ M.peers b.node, mark b.node p.node = if p.node = u then some h else none)
    (hsent : ∀ x, mark' x b.node = if x = u then none else some (h + 1))
    (hrest : ∀ x y, y ≠ b.node → mark' x y = mark x y) : G.Marked (M.round s b) mark' := by
  have hid (x : ι) : (M.self x).nodeID = (M.self u).nodeID ↔ x = u := M.nodeID_injective.eq_iff
  have hvia : G.HeldVia (M.seen s b) (M.self u).nodeID h := by
    constructor
    · intro seen hseen
      obtain ⟨p, hp, rfl⟩ := mem_map.mp hseen
      simp only [hid]
      exact hmark p hp ▸ hs b.node p hp
    · obtain ⟨p, hp, rfl⟩ := hadj
      exact ⟨_, mem_map.mpr ⟨p, hp, rfl⟩, rfl⟩
  intro x q hq
  by_cases hnode : q.node = b.node
  · rw [M.round_of_eq hq hnode, hnode, hsent, ← if_congr (hid x) rfl rfl]
    exact G.held_pass (G.not_names_self b.node) hvia
  · rw [M.round_of_ne hq hnode, hrest x q.node hnode]
    exact hs x q hq

theorem token_of_ne {x y : ι} (h' : y ≠ u) : token u v h x y = none :=
  if_neg fun hy => h' hy.1

/-- A node that does not have the claims may broadcast. -/
theorem Ghosts.Marked.idle (hs : G.Marked s (token u v h)) (hu : b.node ≠ u)
    (hfree : b.node = v ∨ ¬ M.graph.Adj b.node u) : G.Marked (M.round s b) (token u v h) := by
  refine hs.silent (fun p hp => if_neg ?_) (fun x => token_of_ne hu) fun x y _ => rfl
  rintro ⟨hnode, hne⟩
  rcases hfree with hv | hadj
  · exact hne hv
  · exact hadj ⟨p, hp, hnode⟩

/-- The claims move on to another neighbour: it broadcasts, and then the node that it has them from, which does not
have them any more. -/
theorem Ghosts.Marked.move (hs : G.Marked s (token u v h)) (hadj : M.graph.Adj u w) (hne : w ≠ v)
    {b' : Broadcast ι Q} (hb : b.node = w) (hb' : b'.node = u) :
    G.Marked (M.round (M.round s b) b') (token w u (h + 1)) := by
  subst hb hb'
  have hpassed : G.Marked (M.round s b) fun x y =>
      if y = b.node then token b.node b'.node (h + 1) x y else token b'.node v h x y := by
    refine hs.pass (h := h) hadj.symm (fun p _ => ?_) (fun x => ?_) fun x y hy => if_neg hy
    · simp only [token, hne, ne_eq, not_false_eq_true, and_true]
    · simp only [token, if_true, true_and, ne_eq, ite_not]
  refine hpassed.silent (fun p hp => ?_) (fun x => token_of_ne hadj.ne) fun x y hy => ?_
  · have hloop : p.node ≠ b'.node := (M.two_ends b'.node p hp).1
    simp only [token, hloop, ne_eq, not_true_eq_false, and_false, false_and, if_false, ite_self]
  · by_cases hyb : y = b.node
    · exact (if_pos hyb).symm
    · rw [token_of_ne hyb]
      exact ((if_neg hyb).trans (token_of_ne hy)).symm

end Token

/-! ## Round and round -/

/-- Every map in the order of its entries. -/
def Orders.asListed : Orders :=
  ⟨.asListed, .asListed, fun _ => .asListed⟩

/-- Broadcasts of the nodes in a list. -/
def broadcasts (orders : Orders) (quality : ℕ → Q) (nodes : List ι) : List (Broadcast ι Q) :=
  nodes.map fun u => ⟨u, orders, quality⟩

section Laps

variable [DecidableEq ι] {M : Mesh ι} {G : Ghosts M Q} {s : State ι Q} {h : Int64} {u v w : ι}
  {orders : Orders} {quality : ℕ → Q}

theorem Ghosts.Marked.idles (hs : G.Marked s (token u v h)) {nodes : List ι}
    (hfree : ∀ z ∈ nodes, z ≠ u ∧ ¬ M.graph.Adj z u) :
    G.Marked (M.run s (broadcasts orders quality nodes)) (token u v h) := by
  induction nodes generalizing s with
  | nil => exact hs
  | cons z nodes ih =>
    obtain ⟨hu, hadj⟩ := hfree z mem_cons_self
    have hidle : G.Marked (M.round s ⟨z, orders, quality⟩) (token u v h) := hs.idle hu (.inr hadj)
    exact ih hidle fun x hx => hfree x (mem_cons_of_mem z hx)

variable [Fintype ι] (t : Tour M.graph)

open Classical in
/-- What happens at one stop: all nodes broadcast that are not near, and then the claims move on. -/
noncomputable def visit (i : ℕ) : List ι :=
  (Finset.univ.filter fun z => z ≠ t.stop i ∧ ¬ M.graph.Adj z (t.stop i)).toList ++
    [t.stop (i + 1), t.stop i]

/-- Once around the tour. -/
noncomputable def lap : List ι :=
  (List.range t.len).flatMap (visit t)

theorem fair_lap : Fair (broadcasts orders quality (lap t)) := by
  intro u
  have hmem : u ∈ lap t := by
    obtain ⟨i, hi, hvisit⟩ := t.meets u
    refine mem_flatMap.mpr ⟨i, mem_range.mpr hi, ?_⟩
    by_cases hstop : u = t.stop i
    · simp [visit, hstop]
    · simp [visit, hstop, hvisit.resolve_left hstop]
  exact ⟨_, mem_map.mpr ⟨u, hmem, rfl⟩, rfl⟩

theorem Ghosts.Marked.visit {i : ℕ} (hs : G.Marked s (token (t.stop i) (t.stop (i + t.len - 1)) h)) :
    G.Marked (M.run s (broadcasts orders quality (visit t i)))
      (token (t.stop (i + 1)) (t.stop (i + 1 + t.len - 1)) (h + 1)) := by
  rw [broadcasts, Gossip.visit, map_append, Mesh.run, foldl_append, t.stop_previous_succ]
  refine Ghosts.Marked.move (hs.idles fun z hz => ?_) (t.adj i) (t.stop_succ_ne i) rfl rfl
  simpa using hz

section

variable (hs : G.Marked s (token (t.stop 0) (t.stop (0 + t.len - 1)) h))

include hs

theorem Ghosts.Marked.visits (k : ℕ) :
    ∃ h', G.Marked (M.run s (broadcasts orders quality ((List.range k).flatMap (Gossip.visit t))))
      (token (t.stop k) (t.stop (k + t.len - 1)) h') := by
  induction k with
  | zero => exact ⟨h, hs⟩
  | succ k ih =>
    obtain ⟨h', hk⟩ := ih
    refine ⟨h' + 1, ?_⟩
    rw [range_succ, flatMap_append, flatMap_singleton, broadcasts, map_append,
      Mesh.run, foldl_append]
    exact hk.visit t

theorem Ghosts.Marked.lap :
    ∃ h', G.Marked (M.run s (broadcasts orders quality (lap t)))
      (token (t.stop 0) (t.stop (0 + t.len - 1)) h') := by
  obtain ⟨h', hlap⟩ := hs.visits t t.len
  rw [show t.stop t.len = t.stop 0 by simpa using t.periodic 0,
    show t.len + t.len - 1 = 0 + t.len - 1 + t.len by omega, t.periodic] at hlap
  exact ⟨h', hlap⟩

/-- After any number of laps the claims are where they were. -/
theorem Ghosts.Marked.laps (k : ℕ) :
    ∃ h', G.Marked
      (M.run s (List.replicate k (broadcasts orders quality (Gossip.lap t))).flatten)
      (token (t.stop 0) (t.stop (0 + t.len - 1)) h') := by
  induction k generalizing s h with
  | zero => exact ⟨h, hs⟩
  | succ k ih =>
    obtain ⟨h', hlap⟩ := hs.lap t
    rw [replicate_succ, flatten_cons, Mesh.run, foldl_append]
    exact ih hlap

end

/-- Where the claims are, the mesh has not settled. -/
theorem Ghosts.Marked.not_settled (hs : G.Marked s (token u v h)) (hadj : M.graph.Adj u w) (hne : w ≠ v) :
    ¬ M.Settled s := by
  intro hsettled
  obtain ⟨p, hp, hnode⟩ := hadj.symm
  obtain ⟨g, hg⟩ := exists_mem_of_ne_nil _ G.ne_nil
  have hmem := (hs w p hp).stored h (if_pos ⟨hnode, hne⟩) g hg
  obtain ⟨x, hid, _⟩ := hsettled.origin w p hp _ hmem
  exact (G.foreign g hg x).1 hid

end Laps

/-! ## Which meshes settle -/

/-- A claim that confirms itself, of a node and a subnet that are not in the mesh. -/
theorem exists_ghosts [Fintype ι] [Inhabited Q] (M : Mesh ι) : Nonempty (Ghosts M Q) := by
  obtain ⟨name, hname, hparse⟩ := NetIp.exists_parseCIDR_notMem
    (Finset.univ.image (fun u => (M.self u).nodeID) ∪ Finset.univ.image fun u => (M.self u).subnetStr)
  obtain ⟨net, hnet⟩ := isSome_iff_exists.mp hparse
  rw [Finset.mem_union, not_or, Finset.mem_image, Finset.mem_image] at hname
  let g : PeerClaimedSubnetEntry Q := ⟨net, name, name, 0, [⟨name, [⟨0, 0, "", default⟩]⟩]⟩
  refine ⟨⟨[g], by simp, ?_, ?_, ?_, ?_, ?_⟩⟩
  · simpa [g] using hnet
  · simp
  · intro g' hg' u
    obtain rfl := mem_singleton.mp hg'
    exact ⟨fun hid => hname.1 ⟨u, Finset.mem_univ u, hid⟩,
      fun hsubnet => hname.2 ⟨u, Finset.mem_univ u, hsubnet⟩⟩
  · simp [g]
  · simp [g, validatedLinks]

section Settling

variable [DecidableEq ι] {M : Mesh ι}

/-- A state in which nothing else is stored. -/
def Ghosts.spread (G : Ghosts M Q) (u v : ι) (h : Int64) : State ι Q := fun x link =>
  if (M.peers x).any (fun p => p.link = link ∧ p.node = u) ∧ x ≠ v then
    ⟨none, "", [], [], G.claims.map (·.atHop h)⟩
  else PeerInfo.empty

theorem Ghosts.marked_spread (G : Ghosts M Q) (u v : ι) (h : Int64) : G.Marked (G.spread u v h) (token u v h) := by
  intro x p hp
  have hfrom : (M.peers x).any (fun q => q.link = p.link ∧ q.node = u) = true ↔ p.node = u := by
    constructor
    · intro hany
      obtain ⟨q, hq, hfound⟩ := any_eq_true.mp hany
      obtain ⟨hlink, hnode⟩ := of_decide_eq_true hfound
      rw [M.one_link x p hp q hq hlink.symm, hnode]
    · intro hnode
      exact any_eq_true.mpr ⟨p, hp, decide_eq_true ⟨rfl, hnode⟩⟩
  unfold spread token
  by_cases hheld : p.node = u ∧ x ≠ v
  · rw [if_pos hheld, if_pos ⟨hfrom.mpr hheld.1, hheld.2⟩]
    constructor
    · intro k hk g hg
      cases hk
      exact mem_map.mpr ⟨g, hg, rfl⟩
    · intro cs hcs _
      obtain ⟨g, hg, rfl⟩ := mem_map.mp hcs
      exact ⟨h, rfl, g, hg, rfl⟩
  · rw [if_neg hheld, if_neg fun hany => hheld ⟨hfrom.mp hany.1, hany.2⟩]
    constructor
    · intro k hk
      cases hk
    · intro cs hcs
      cases hcs

theorem not_settles_of_tour [Fintype ι] [Inhabited Q] (t : Tour M.graph) (bound : ℕ) : ¬ M.Settles Q bound := by
  intro hsettles
  obtain ⟨G⟩ := exists_ghosts (Q := Q) M
  let rounds := List.replicate bound (broadcasts .asListed (fun _ => (default : Q)) (lap t))
  have hfair : ∀ round ∈ rounds, Fair round := fun round hround =>
    eq_of_mem_replicate hround ▸ fair_lap t
  have hsettled := hsettles (G.spread (t.stop 0) (t.stop (0 + t.len - 1)) 1) rounds [] hfair
    (length_replicate ..).ge
  obtain ⟨h', hmarked⟩ := (G.marked_spread (t.stop 0) (t.stop (0 + t.len - 1)) 1).laps t bound
  rw [append_nil] at hsettled
  exact hmarked.not_settled (t.adj 0) (t.stop_succ_ne 0) hsettled

/-- A mesh settles in a bounded number of rounds if and only if its live links form a forest, and then in as many
rounds as it has nodes. -/
theorem settles_tfae [Fintype ι] [Inhabited Q] (M : Mesh ι) :
    TFAE [M.graph.IsAcyclic, M.Settles Q (Fintype.card ι), ∃ bound, M.Settles Q bound] := by
  tfae_have 1 → 2 := Mesh.settles_of_isAcyclic
  tfae_have 2 → 3 := fun h => ⟨_, h⟩
  tfae_have 3 → 1 := by
    rintro ⟨bound, hsettles⟩
    by_contra hcycle
    obtain ⟨t⟩ := Tour.exists_of_not_isAcyclic hcycle
    exact not_settles_of_tour t bound hsettles
  tfae_finish

end Settling

/-! ## Three nodes and two dead ones -/

/-- Three nodes `a`, `b` and `c`, each with a link to the other two. -/
def triangle : Mesh (Fin 3) where
  self u := ⟨["a", "b", "c"].get u, ["10.1.0.0/16", "10.2.0.0/16", "10.3.0.0/16"].get u, [], []⟩
  peers u := [⟨u.val, u + 1, 1, 1, ""⟩, ⟨(u + 2).val, u + 2, 1, 1, ""⟩]
  nodeID_injective := by decide
  one_link := by decide
  two_ends := by decide

/-- Two nodes `d` and `e` that are gone, with what they said of the link between them. -/
def deadPair : Ghosts triangle Unit where
  claims := [⟨.v4 0x0a040000 16, "10.4.0.0/16", "d", 0, [⟨"e", [⟨1, 2, "", ()⟩]⟩]⟩,
    ⟨.v4 0x0a050000 16, "10.5.0.0/16", "e", 0, [⟨"d", [⟨2, 1, "", ()⟩]⟩]⟩]
  ne_nil := by simp
  parsed := by
    simp only [forall_mem_cons]
    exact ⟨by decide +kernel, by decide +kernel, by simp⟩
  unique := by simp
  foreign := by
    simp only [forall_mem_cons]
    exact ⟨by decide, by decide, by simp⟩
  neighbors_ne := by simp
  confirmed := by simp [validatedLinks]

/-- A round: `b`, `a`, `c`, and once more. -/
def triangleRound : List (Broadcast (Fin 3) Unit) :=
  broadcasts .asListed (fun _ => ()) [1, 0, 2, 1, 0, 2]

theorem triangle_adj (u : Fin 3) : triangle.graph.Adj u (u + 1) :=
  ⟨_, mem_cons_self, rfl⟩

theorem triangle_lap {s : State (Fin 3) Unit} {h : Int64} (hs : deadPair.Marked s (token 0 2 h)) :
    deadPair.Marked (triangle.run s triangleRound) (token 0 2 (h + 1 + 1 + 1)) := by
  have hb : deadPair.Marked (triangle.run s (broadcasts .asListed (fun _ => ()) [1, 0]))
      (token 1 0 (h + 1)) := hs.move (triangle_adj 0) (by decide) rfl rfl
  have hc : deadPair.Marked (triangle.run s (broadcasts .asListed (fun _ => ()) [1, 0, 2, 1]))
      (token 2 1 (h + 1 + 1)) := hb.move (triangle_adj 1) (by decide) rfl rfl
  exact hc.move (triangle_adj 2) (by decide) rfl rfl

theorem triangle_laps {s : State (Fin 3) Unit} {n : ℕ} (hs : deadPair.Marked s (token 0 2 (.ofNat n)))
    (k : ℕ) : deadPair.Marked (triangle.run s (List.replicate k triangleRound).flatten)
      (token 0 2 (.ofNat (3 * k + n))) := by
  induction k generalizing s n with
  | zero =>
    rw [Nat.mul_zero, Nat.zero_add]
    exact hs
  | succ k ih =>
    have hlap : deadPair.Marked (triangle.run s triangleRound) (token 0 2 (.ofNat (n + 3))) := by
      have hthree : Int64.ofNat (n + 3) = Int64.ofNat n + 1 + 1 + 1 := by
        rw [Int64.add_assoc, Int64.add_assoc, Int64.ofNat_add]
        rfl
      exact hthree ▸ triangle_lap hs
    rw [replicate_succ, flatten_cons, Mesh.run, foldl_append,
      show 3 * (k + 1) + n = 3 * k + (n + 3) by omega]
    exact ih hlap

/-- The claims of `d` and `e`, once stored at `b` as heard from `a`, are there after every number of rounds, with
three hops more for each. -/
theorem triangle_counts_up :
    Fair triangleRound ∧ ∀ k : ℕ,
      (∃ cs ∈ (triangle.run (deadPair.spread 0 2 1)
          (List.replicate k triangleRound).flatten 1 0).claimedSubnets,
        cs.nodeID = "d" ∧ cs.hop = Int64.ofNat (3 * k + 1)) ∧
      ¬ triangle.Settled (triangle.run (deadPair.spread 0 2 1)
        (List.replicate k triangleRound).flatten) := by
  constructor
  · unfold Fair triangleRound broadcasts
    decide
  · intro k
    have hmarked := triangle_laps (n := 1) (deadPair.marked_spread 0 2 1) k
    constructor
    · have hheld := hmarked 1 ⟨0, 0, 1, 1, ""⟩ (by decide)
      exact ⟨_, hheld.stored _ rfl _ mem_cons_self, rfl, rfl⟩
    · exact hmarked.not_settled (triangle_adj 0) (by decide)

end Gossip
