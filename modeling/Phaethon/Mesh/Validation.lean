import Phaethon.Mesh.GossipContent

/-!
# Two passes that validate links

`src/mesh/mesh.go`: `buildValidatedClaims` keeps the links that both sides declare, for the topology graph, and
`broadcastGossip` does the same on its own for what it sends on. Both come down to `confirmed`, which looks at what
one node declares about another. If every node holds the best claim of one subnet only, the orders in which they go
through their maps do not matter, and they accept the same claims with the same links (`validation_consistent`).
-/

namespace Validation

open GoMap Gossip List Option Table GossipNeighbor Prod

variable {Q : Type}

/-! ## What is confirmed -/

/-- The other side declares the link too, with the numbers the other way round. -/
def reversed (other : Option NeighborListing) (i : LinkId) : Bool :=
  other.any fun m => m.links.any fun j => j.localSeq = i.remoteSeq ∧ j.remoteSeq = i.localSeq

/-- A neighbor with the links that are left of it; `declared y x` is what `y` declares about `x`. -/
def confirmed (declared : String → String → Option NeighborListing) (nodeID : String) (n : NeighborListing) :
    Option NeighborListing :=
  let links := n.links.filter (reversed (declared n.nodeID nodeID))
  if links = [] then none else some ⟨n.nodeID, links⟩

/-- What a list of neighbors says about a node. -/
def about (nodeID : String) (neighbors : List (GossipNeighbor Q)) : Option NeighborListing :=
  (neighbors.find? (·.nodeID = nodeID)).map (·.listing)

/-! ## `buildValidatedClaims` -/

/-- `rawClaim`, and `validatedClaim`. -/
structure RawClaim (Q : Type) where
  hop : Int64
  nodeID : String
  subnet : String
  neighbors : List (GossipNeighbor Q)

/-- `best`. -/
def best (own : RawClaim Q) (peers : List (Seen Q)) : Table (RawClaim Q) :=
  bestOf (·.hop) [(own.subnet, own)] (peers.flatMap fun p => p.info.claimedSubnets.map fun cs =>
    (cs.subnetStr, ⟨cs.hop, cs.nodeID, cs.subnetStr, cs.neighbors⟩))

/-- `nodeIDToClaim`. -/
def nodeIDToClaim (claims : List (RawClaim Q)) : Table (RawClaim Q) :=
  claims.foldl (fun t c => t.insert c.nodeID c) ∅

/-- The loop over `reverseNeighbor.Links`: the first match takes the link, and ends the loop. -/
def scanLinks (link : GossipLink Q) (validated : List (GossipLink Q)) : List (GossipLink Q) → List (GossipLink Q)
  | [] => validated
  | r :: rs =>
      if r.localSeq = link.remoteSeq ∧ r.remoteSeq = link.localSeq then validated ++ [link]
      else scanLinks link validated rs

/-- The loop over `neighborClaim.neighbors`: it ends at the first entry for the node. -/
def scanNeighbors (nodeID : String) (link : GossipLink Q) (validated : List (GossipLink Q)) :
    List (GossipNeighbor Q) → List (GossipLink Q)
  | [] => validated
  | n :: ns =>
      if n.nodeID = nodeID then scanLinks link validated n.links
      else scanNeighbors nodeID link validated ns

variable (index : Table (RawClaim Q))

/-- The body of the loop over `claim.neighbors`. -/
def validateNeighbor (claim : RawClaim Q) (validated : List (GossipNeighbor Q))
    (n : GossipNeighbor Q) : List (GossipNeighbor Q) :=
  match index.lookup n.nodeID with
  | none => validated
  | some neighborClaim =>
      let links := n.links.foldl (fun acc l => scanNeighbors claim.nodeID l acc neighborClaim.neighbors) []
      if links = [] then validated else validated ++ [⟨n.nodeID, links⟩]

/-- The body of the loop over `best`. -/
def validateClaim (result : Table (RawClaim Q)) (e : (_ : String) × RawClaim Q) :
    Table (RawClaim Q) :=
  if e.2.hop = 0 then result.insert e.1 e.2
  else
    let neighbors := e.2.neighbors.foldl (validateNeighbor index e.2) []
    if neighbors = [] then result else result.insert e.1 { e.2 with neighbors := neighbors }

/-- The orders in which `buildValidatedClaims` goes through `neighborMap`, and twice through `best`. -/
structure Orders where
  neighbors : Shuffle
  index : Shuffle
  claims : Shuffle

/-- The own claim. -/
def own (self : Announced) (order : Shuffle) (peers : List (Seen Q)) : RawClaim Q :=
  ⟨0, self.nodeID, self.subnetStr, ownNeighbors order peers⟩

/-- `(*MeshManager).buildValidatedClaims`. -/
def buildValidatedClaims (self : Announced) (orders : Orders) (peers : List (Seen Q)) : Table (RawClaim Q) :=
  let claims := best (own self orders.neighbors peers) peers
  let index := nodeIDToClaim (orders.index.run claims.values)
  (orders.claims.run claims.entries).foldl (validateClaim index) ∅

/-! ## The loops -/

theorem reversed_listing (m : GossipNeighbor Q) (l : GossipLink Q) :
    reversed (some m.listing) l.id =
      m.links.any fun r => decide (r.localSeq = l.remoteSeq ∧ r.remoteSeq = l.localSeq) :=
  any_map

theorem scanLinks_eq (link : GossipLink Q) (validated rs : List (GossipLink Q)) :
    scanLinks link validated rs = validated ++
      if rs.any fun r => r.localSeq = link.remoteSeq ∧ r.remoteSeq = link.localSeq then [link] else [] := by
  induction rs with
  | nil => simp [scanLinks]
  | cons r rs ih =>
    rw [scanLinks, any_cons]
    by_cases hr : r.localSeq = link.remoteSeq ∧ r.remoteSeq = link.localSeq
    · rw [if_pos hr, if_pos (by simp [hr])]
    · rw [if_neg hr, ih, decide_eq_false hr, Bool.false_or]

/-- A link is taken if the first entry for the node has its reverse. -/
theorem scanNeighbors_eq (nodeID : String) (link : GossipLink Q) (validated : List (GossipLink Q))
    (ns : List (GossipNeighbor Q)) :
    scanNeighbors nodeID link validated ns =
      validated ++ if reversed (about nodeID ns) link.id then [link] else [] := by
  induction ns with
  | nil => simp [scanNeighbors, about, reversed]
  | cons n ns ih =>
    rw [scanNeighbors]
    by_cases hn : n.nodeID = nodeID
    · rw [if_pos hn, scanLinks_eq, about, find?_cons_of_pos (by simpa using hn), Option.map_some,
        reversed_listing]
    · rw [if_neg hn, ih, about, about, find?_cons_of_neg (by simpa using hn)]

variable {α : Type}

theorem foldl_append_ite (p : α → Bool) (as acc : List α) :
    as.foldl (fun acc a => acc ++ if p a then [a] else []) acc = acc ++ as.filter p := by
  induction as generalizing acc with
  | nil => simp
  | cons a as ih =>
    rw [foldl_cons, ih, filter_cons]
    cases p a <;> simp

theorem foldl_append_toList {β : Type} (f : α → Option β) (as : List α) (acc : List β) :
    as.foldl (fun acc a => acc ++ (f a).toList) acc = acc ++ as.filterMap f := by
  induction as generalizing acc with
  | nil => simp
  | cons a as ih =>
    rw [foldl_cons, ih, filterMap_cons]
    cases f a <;> simp

/-! ## Both passes confirm -/

variable (index : String → Option (List (GossipNeighbor Q)))

variable (nodeID : String)

/-- What is left of a neighbor; `index` gives the neighbors in the claim that a node holds. -/
def kept (n : GossipNeighbor Q) :
    Option (GossipNeighbor Q) :=
  (index n.nodeID).bind fun others =>
    let links := n.links.filter fun l => reversed (about nodeID others) l.id
    if links = [] then none else some ⟨n.nodeID, links⟩

theorem listing_kept (n : GossipNeighbor Q) :
    (kept index nodeID n).map (·.listing) = confirmed (fun y x => (index y).bind (about x)) nodeID n.listing := by
  have hlinks (other : Option NeighborListing) : n.listing.links.filter (reversed other) =
      (n.links.filter fun l => reversed other l.id).map (·.id) :=
    filter_map ..
  unfold kept confirmed
  rw [hlinks]
  cases hindex : index n.nodeID with
  | none => simp [listing, hindex, reversed]
  | some others =>
    simp only [listing, hindex, bind_some, map_eq_nil_iff]
    split <;> rfl

/-- The neighbors that are left, without qualities. -/
theorem listing_filterMap_kept (ns : List (GossipNeighbor Q)) :
    (ns.filterMap (kept index nodeID)).map (·.listing) =
      (ns.map (·.listing)).filterMap (confirmed (fun y x => (index y).bind (about x)) nodeID) := by
  rw [map_filterMap, filterMap_map]
  exact filterMap_congr fun n _ => listing_kept index nodeID n

theorem foldl_validateNeighbor (index : Table (RawClaim Q)) (claim : RawClaim Q) :
    claim.neighbors.foldl (validateNeighbor index claim) [] =
      claim.neighbors.filterMap (kept (fun y => (index.lookup y).map (·.neighbors)) claim.nodeID) := by
  have hround : validateNeighbor index claim = fun acc n =>
      acc ++ (kept (fun y => (index.lookup y).map (·.neighbors)) claim.nodeID n).toList := by
    funext acc n
    cases hindex : index.lookup n.nodeID with
    | none => simp [validateNeighbor, kept, hindex]
    | some other =>
      simp only [validateNeighbor, kept, hindex, scanNeighbors_eq, foldl_append_ite, nil_append,
        Option.map_some, bind_some]
      split <;> simp
  rw [hround, foldl_append_toList, nil_append]

/-- `broadcastGossip` keeps the same of a claim. -/
theorem validatedNeighbors_eq (index : String → Option (GlobalClaimEntry Q)) (claim : GlobalClaimEntry Q) :
    validatedNeighbors index claim =
      claim.neighbors.filterMap (kept (fun y => (index y).map (·.neighbors)) claim.nodeID) := by
  refine filterMap_congr fun n _ => ?_
  cases hindex : index n.nodeID with
  | none => simp [kept, hindex]
  | some other =>
    have hlinks : validatedLinks claim.nodeID other.neighbors n.links =
        n.links.filter fun l => reversed (about claim.nodeID other.neighbors) l.id := by
      refine filter_congr fun l _ => ?_
      unfold about
      cases other.neighbors.find? (·.nodeID = claim.nodeID) with
      | none => rfl
      | some m => exact (reversed_listing m l).symm
    simp only [kept, hindex, bind_some, Option.map_some, hlinks]

/-! ## Claims -/

/-- What is left of a claim. -/
def RawClaim.validated (index : String → Option (List (GossipNeighbor Q))) (c : RawClaim Q) : Option (RawClaim Q) :=
  if c.hop = 0 then some c
  else
    let neighbors := c.neighbors.filterMap (kept index c.nodeID)
    if neighbors = [] then none else some { c with neighbors := neighbors }

theorem validateClaim_eq (index : Table (RawClaim Q)) :
    validateClaim index = putSome (RawClaim.validated fun y => (index.lookup y).map (·.neighbors)) := by
  funext result e
  unfold validateClaim putSome RawClaim.validated
  rw [foldl_validateNeighbor]
  split
  · rfl
  · dsimp only
    split <;> rfl

theorem lookup_nodeIDToClaim (claims : List (RawClaim Q)) (n : String) :
    (nodeIDToClaim claims).lookup n = claims.reverse.find? (·.nodeID = n) := by
  induction claims using reverseRecOn with
  | nil => rfl
  | append_singleton claims c ih =>
    rw [nodeIDToClaim, foldl_append, reverse_append]
    by_cases hn : n = c.nodeID
    · subst hn
      rw [reverse_singleton, singleton_append, find?_cons_of_pos (by simp)]
      exact AList.lookup_insert _
    · rw [reverse_singleton, singleton_append, find?_cons_of_neg (by simpa using Ne.symm hn), ← ih]
      exact AList.lookup_insert_ne hn

/-- With distinct keys the order of a list does not matter to a search. -/
theorem find?_eq_of_perm {key : α → String} {l l' : List α} (hperm : l.Perm l')
    (hnodup : (l'.map key).Nodup) (k : String) : l.find? (key · = k) = l'.find? (key · = k) := by
  have hsome {l l' : List α} (hperm : l.Perm l') (hnodup : (l'.map key).Nodup) {a : α}
      (ha : l.find? (key · = k) = some a) : l'.find? (key · = k) = some a := by
    have hkey : key a = k := by simpa using find?_some ha
    have hmem : a ∈ l' := hperm.mem_iff.mp (mem_of_find?_eq_some ha)
    have hfound : (l'.find? (key · = k)).isSome := find?_isSome.mpr ⟨a, hmem, decide_eq_true hkey⟩
    obtain ⟨b, hb⟩ := isSome_iff_exists.mp hfound
    have hkey' : key b = k := by simpa using find?_some hb
    rw [hb, inj_on_of_nodup_map hnodup (mem_of_find?_eq_some hb) hmem (hkey'.trans hkey.symm)]
  cases hl : l.find? (key · = k) with
  | some a => exact (hsome hperm hnodup hl).symm
  | none =>
    cases hl' : l'.find? (key · = k) with
    | none => rfl
    | some a =>
      rw [hsome hperm.symm ((hperm.map key).nodup_iff.mpr hnodup) hl'] at hl
      cases hl

/-- The neighbors of a claim, without order and qualities. -/
def neighborsContent (ns : List (GossipNeighbor Q)) : Multiset NeighborContent :=
  ((ns.map (·.listing)).map (·.content) : List NeighborContent)

def RawClaim.content (c : RawClaim Q) : ClaimContent :=
  ⟨c.subnet, c.nodeID, c.hop, neighborsContent c.neighbors⟩

/-- The same of a claim in a broadcast. -/
def entryContent (e : GlobalClaimEntry Q) : ClaimContent :=
  ⟨e.subnet, e.nodeID, e.hop, neighborsContent e.neighbors⟩

theorem neighborsContent_eq {ns ms : List (GossipNeighbor Q)}
    (h : (ns.map (·.listing)).Perm (ms.map (·.listing))) : neighborsContent ns = neighborsContent ms :=
  Multiset.coe_eq_coe.mpr (h.map _)

/-- A claim of one pass and a claim of the other that say the same. -/
structure Alike (c : RawClaim Q) (e : GlobalClaimEntry Q) : Prop where
  hop : c.hop = e.hop
  nodeID : c.nodeID = e.nodeID
  subnet : c.subnet = e.subnet
  about : ∀ x, about x c.neighbors = about x e.neighbors
  listing : (c.neighbors.map (·.listing)).Perm (e.neighbors.map (·.listing))

variable {c : RawClaim Q} {index : String → Option (List (GossipNeighbor Q))}

/-- Of claims that say the same the same is left, if the same is declared. -/
theorem Alike.validated {e : GlobalClaimEntry Q} (h : Alike c e) {index' : String → Option (GlobalClaimEntry Q)}
    (hdeclared : ∀ y x, (index y).bind (Validation.about x) =
      ((index' y).map (·.neighbors)).bind (Validation.about x)) :
    (c.validated index).map RawClaim.content = (validate index' e).map entryContent := by
  unfold RawClaim.validated validate
  rw [h.hop]
  split
  · simp only [Option.map_some, RawClaim.content, entryContent, h.hop, h.nodeID, h.subnet,
      neighborsContent_eq h.listing]
  · have hdeclared' : (fun y x => (index y).bind (Validation.about x)) =
        fun y x => ((index' y).map (·.neighbors)).bind (Validation.about x) :=
      funext fun y => funext fun x => hdeclared y x
    have hperm : ((c.neighbors.filterMap (kept index c.nodeID)).map (·.listing)).Perm
        ((validatedNeighbors index' e).map (·.listing)) := by
      rw [validatedNeighbors_eq, listing_filterMap_kept, listing_filterMap_kept, hdeclared', h.nodeID]
      exact h.listing.filterMap _
    have hnil : c.neighbors.filterMap (kept index c.nodeID) = [] ↔ validatedNeighbors index' e = [] := by
      have hlength := hperm.length_eq
      rw [length_map, length_map] at hlength
      rw [← length_eq_zero_iff, ← length_eq_zero_iff, hlength]
    by_cases hempty : validatedNeighbors index' e = []
    · rw [if_pos hempty, if_pos (hnil.mpr hempty)]
      rfl
    · rw [if_neg hempty, if_neg (mt hnil.mp hempty)]
      refine congrArg some ?_
      show ClaimContent.mk c.subnet c.nodeID e.hop (neighborsContent _) = ⟨e.subnet, e.nodeID, e.hop, _⟩
      rw [neighborsContent_eq hperm, h.nodeID, h.subnet]

/-! ## The best claims of both passes -/

/-- The peers that a pass sees in a snapshot, with the qualities that it measures. -/
def seen (quality : Sender → Q) (snapshot : List (Sender × PeerInfo Q)) : List (Seen Q) :=
  snapshot.map fun p => ⟨p.1, quality p.1, p.2⟩

section Tables

variable {β γ : Type} {R : β → γ → Prop}

theorem foldl_rel {α' : Type} {P : α → α' → Prop} {f : Table β → α → Table β} {g : Table γ → α' → Table γ}
    (hstep : ∀ {t u a b}, Table.Rel R t u → P a b → Table.Rel R (f t a) (g u b)) {as : List α} {bs : List α'}
    (h : Forall₂ P as bs) {t : Table β} {u : Table γ} (htu : Table.Rel R t u) :
    Table.Rel R (as.foldl f t) (bs.foldl g u) := by
  induction h generalizing t u with
  | nil => exact htu
  | cons hab _ ih => exact ih (hstep htu hab)

/-- Related offers with the same hops lead to related choices. -/
theorem bestOf_rel {hop : β → Int64} {hop' : γ → Int64} (hhop : ∀ b c, R b c → hop b = hop' c)
    {own offers : List (String × β)} {own' offers' : List (String × γ)}
    (hown : Forall₂ (fun a b => a.1 = b.1 ∧ R a.2 b.2) own own')
    (hoffers : Forall₂ (fun a b => a.1 = b.1 ∧ R a.2 b.2) offers offers') :
    Table.Rel R (bestOf hop own offers) (bestOf hop' own' offers') := by
  refine foldl_rel (fun {t u a b} htu hab => ?_) hoffers (foldl_rel (fun {t u a b} htu hab => ?_) hown .empty)
  · have hcond : (t.lookup a.1).all (fun e => hop a.2 < hop e) = (u.lookup b.1).all fun e => hop' b.2 < hop' e := by
      have hlookup := htu.lookup a.1
      rw [hab.1] at hlookup ⊢
      generalize t.lookup b.1 = e, u.lookup b.1 = e' at hlookup
      cases hlookup with
      | none => rfl
      | some hR => simp only [all_some, hhop _ _ hR, hhop _ _ hab.2]
    unfold offer
    rw [hcond]
    split
    · exact hab.1 ▸ htu.insert a.1 hab.2
    · exact htu
  · exact hab.1 ▸ htu.insert a.1 hab.2

theorem forall₂_flatMap {σ α' : Type} {P : α → α' → Prop} {f : σ → List α} {g : σ → List α'}
    (h : ∀ s, Forall₂ P (f s) (g s)) (ss : List σ) : Forall₂ P (ss.flatMap f) (ss.flatMap g) := by
  induction ss with
  | nil => exact .nil
  | cons s ss ih =>
    exact rel_append (h s) ih

theorem map_eq_map_of_forall₂ {δ : Type} {f : β → δ} {g : γ → δ} (hR : ∀ b c, R b c → f b = g c) {bs : List β}
    {cs : List γ} (h : Forall₂ R bs cs) : bs.map f = cs.map g := by
  induction h with
  | nil => rfl
  | cons hbc _ ih => rw [map_cons, map_cons, hR _ _ hbc, ih]

end Tables

section Passes

variable {self : Announced} {snapshot : List (Sender × PeerInfo Q)} {quality quality' : Sender → Q}

variable (peers : List (Seen Q))

/-- The own neighbors, before they are put in order. -/
def neighborMap : Table (GossipNeighbor Q) :=
  peers.foldl (fun t p =>
    let before := ((t.lookup p.sender.nodeID).map (·.links)).getD []
    t.insert p.sender.nodeID ⟨p.sender.nodeID, before ++
      [⟨p.sender.localSeq, p.sender.remoteSeq, p.sender.friendlyName, p.quality⟩]⟩) ∅

theorem nodeID_neighborMap : ∀ e ∈ (neighborMap peers).entries, e.2.nodeID = e.1 := by
  refine foldlRecOn (motive := fun t : Table (GossipNeighbor Q) => ∀ e ∈ t.entries, e.2.nodeID = e.1) peers _
    (fun e he => by cases he) fun t ht p _ e he => ?_
  rw [AList.entries_insert, mem_cons] at he
  rcases he with rfl | he
  · rfl
  · exact ht e ((kerase_sublist _ _).subset he)

theorem nodup_neighborMap : (((neighborMap peers).values).map (·.nodeID)).Nodup := by
  have hkeys : (neighborMap peers).values.map (·.nodeID) = (neighborMap peers).entries.map (·.1) := by
    rw [values, List.map_map]
    exact List.map_congr_left fun e he => nodeID_neighborMap peers e he
  rw [hkeys]
  exact (neighborMap peers).nodupKeys

/-- The own neighbors do not depend on the qualities, but for them. -/
theorem neighborMap_rel (quality quality' : Sender → Q) (snapshot : List (Sender × PeerInfo Q)) :
    Table.Rel (fun n m => n.listing = m.listing) (neighborMap (seen quality snapshot))
      (neighborMap (seen quality' snapshot)) := by
  have hseen : Forall₂ (fun p q => p.sender = q.sender) (seen quality snapshot) (seen quality' snapshot) := by
    rw [seen, seen, forall₂_map_left_iff, forall₂_map_right_iff, forall₂_same]
    exact fun _ _ => rfl
  refine foldl_rel (fun {t u p q} htu hpq => ?_) hseen .empty
  rw [hpq]
  refine htu.insert _ ?_
  have hlinks : (((t.lookup q.sender.nodeID).map (·.links)).getD []).map (·.id) =
      (((u.lookup q.sender.nodeID).map (·.links)).getD []).map (·.id) := by
    have hlookup := htu.lookup q.sender.nodeID
    generalize t.lookup q.sender.nodeID = n, u.lookup q.sender.nodeID = m at hlookup
    cases hlookup with
    | none => rfl
    | some hlisting => exact congrArg NeighborListing.links hlisting
  simp only [listing, map_append, hlinks]
  rfl

theorem about_eq (x : String) (ns : List (GossipNeighbor Q)) :
    about x ns = (ns.map (·.listing)).find? (·.nodeID = x) := by
  rw [about, find?_map]
  rfl

/-- The own claims of the two passes. -/
theorem alike_own (order order' : Shuffle) :
    Alike (own self order (seen quality snapshot)) (ownClaim self order' (seen quality' snapshot)) := by
  have hmap : (neighborMap (seen quality snapshot)).values.map (·.listing) =
      (neighborMap (seen quality' snapshot)).values.map (·.listing) :=
    map_eq_map_of_forall₂ (fun _ _ h => h) (neighborMap_rel quality quality' snapshot).values
  have hperm (o : Shuffle) (peers : List (Seen Q)) :
      ((ownNeighbors o peers).map (·.listing)).Perm ((neighborMap peers).values.map (·.listing)) :=
    (o.perm _).map _
  have hnodup (peers : List (Seen Q)) :
      (((neighborMap peers).values.map (·.listing)).map (·.nodeID)).Nodup := by
    rw [List.map_map]
    exact nodup_neighborMap peers
  refine ⟨rfl, rfl, rfl, fun x => ?_, ?_⟩
  · rw [about_eq, about_eq]
    show (List.map _ (ownNeighbors order _)).find? _ = (List.map _ (ownNeighbors order' _)).find? _
    rw [find?_eq_of_perm (hperm order _) (hnodup _), hmap, ← find?_eq_of_perm (hperm order' _) (hnodup _)]
  · exact (hperm order _).trans (hmap ▸ (hperm order' _).symm)

section

variable (self : Announced)

/-- The best claims of the two passes. -/
theorem best_rel (order order' : Shuffle) (quality quality' : Sender → Q)
    (snapshot : List (Sender × PeerInfo Q)) :
    Table.Rel Alike (best (own self order (seen quality snapshot)) (seen quality snapshot))
      (bestClaims (ownClaim self order' (seen quality' snapshot)) (seen quality' snapshot)) := by
  refine bestOf_rel (fun _ _ h => h.hop) (.cons ⟨rfl, alike_own order order'⟩ .nil) ?_
  rw [seen, seen, flatMap_map, flatMap_map]
  refine forall₂_flatMap (fun p => ?_) snapshot
  rw [forall₂_map_left_iff, forall₂_map_right_iff, forall₂_same]
  exact fun cs _ => ⟨rfl, rfl, rfl, rfl, fun _ => rfl, .refl _⟩

/-! ## Which node holds which best claim -/

/-- The hop and the holder of the best claim of each subnet. -/
def holders (snapshot : List (Sender × PeerInfo Q)) : Table (Int64 × String) :=
  bestOf fst [(self.subnetStr, (0, self.nodeID))] (snapshot.flatMap fun p =>
    p.2.claimedSubnets.map fun cs => (cs.subnetStr, (cs.hop, cs.nodeID)))

/-- The holders are those of the best claims. -/
theorem holders_rel (order : Shuffle) (quality : Sender → Q)
    (snapshot : List (Sender × PeerInfo Q)) :
    Table.Rel (fun h c => h.1 = c.hop ∧ h.2 = c.nodeID) (holders self snapshot)
      (best (own self order (seen quality snapshot)) (seen quality snapshot)) := by
  refine bestOf_rel (fun _ _ h => h.1) (.cons ⟨rfl, rfl, rfl⟩ .nil) ?_
  rw [seen, flatMap_map]
  refine forall₂_flatMap (fun p => ?_) snapshot
  rw [forall₂_map_left_iff, forall₂_map_right_iff, forall₂_same]
  exact fun cs _ => ⟨rfl, rfl, rfl⟩

/-- The claims that `broadcastGossip` accepts. -/
def broadcastClaims (orders : Gossip.Orders) (peers : List (Seen Q)) :
    List (GlobalClaimEntry Q) :=
  validatedClaims orders.index (bestClaims (ownClaim self orders.neighbors peers) peers)

end

/-- With one subnet to a holder, the index has the best claim of a node, whatever the order. -/
theorem find?_rel {c : List (RawClaim Q)} {e : List (GlobalClaimEntry Q)} (h : Forall₂ Alike c e) (n : String) :
    Rel Alike (c.find? (·.nodeID = n)) (e.find? (·.nodeID = n)) := by
  induction h with
  | nil => exact .none
  | @cons a b as bs hab _ ih =>
    by_cases hn : a.nodeID = n
    · rw [find?_cons_of_pos (by simpa using hn), find?_cons_of_pos (by simpa using hab.nodeID ▸ hn)]
      exact .some hab
    · rw [find?_cons_of_neg (by simpa using hn), find?_cons_of_neg (by simpa using hab.nodeID ▸ hn)]
      exact ih

section

variable (hholders : ((holders self snapshot).values.map snd).Nodup)

include hholders

theorem nodup_best (order : Shuffle)
    (quality : Sender → Q) :
    ((best (own self order (seen quality snapshot)) (seen quality snapshot)).values.map (·.nodeID)).Nodup := by
  rw [← map_eq_map_of_forall₂ (fun _ _ h => h.2) (holders_rel self order quality snapshot).values]
  exact hholders

/-- The accepted claims are what is left of the best ones. -/
theorem mem_buildValidatedClaims (orders : Orders)
    {v : RawClaim Q} :
    let claims := (best (own self orders.neighbors (seen quality snapshot)) (seen quality snapshot)).values
    v ∈ (buildValidatedClaims self orders (seen quality snapshot)).values ↔
      ∃ c ∈ claims, c.validated (fun y => (claims.find? (·.nodeID = y)).map (·.neighbors)) = some v := by
  intro claims
  have hnodup : (claims.map (·.nodeID)).Nodup := nodup_best hholders orders.neighbors quality
  have hindex (y : String) : (nodeIDToClaim (orders.index.run claims)).lookup y = claims.find? (·.nodeID = y) := by
    rw [lookup_nodeIDToClaim]
    exact find?_eq_of_perm ((reverse_perm _).trans (orders.index.perm _)) hnodup y
  simp only [mem_values, buildValidatedClaims, validateClaim_eq, lookup_foldl_shuffle, bind_eq_some_iff]
  simp only [hindex, claims, mem_values]
  constructor
  · rintro ⟨k, c, hc, hv⟩
    exact ⟨c, ⟨k, hc⟩, hv⟩
  · rintro ⟨c, ⟨k, hc⟩, hv⟩
    exact ⟨k, c, hc, hv⟩

end

/-- What is left of a neighbor is declared by the other side. -/
theorem exists_reverse {nodeID : String} {n n' : GossipNeighbor Q}
    (h : kept index nodeID n = some n') {l : GossipLink Q} (hl : l ∈ n'.links) :
    ∃ others, index n'.nodeID = some others ∧ ∃ m ∈ others, m.nodeID = nodeID ∧
      ∃ r ∈ m.links, r.localSeq = l.remoteSeq ∧ r.remoteSeq = l.localSeq := by
  obtain ⟨others, hothers, hlinks⟩ := bind_eq_some_iff.mp h
  dsimp only at hlinks
  split at hlinks
  · cases hlinks
  cases hlinks
  refine ⟨others, hothers, ?_⟩
  have hreversed := (mem_filter.mp hl).2
  unfold about at hreversed
  cases hfind : others.find? (·.nodeID = nodeID) with
  | none =>
    rw [hfind] at hreversed
    cases hreversed
  | some m =>
    rw [hfind, Option.map_some, reversed_listing, List.any_eq_true] at hreversed
    obtain ⟨r, hr, hmatch⟩ := hreversed
    exact ⟨m, mem_of_find?_eq_some hfind, by simpa using find?_some hfind, r, hr,
      of_decide_eq_true hmatch⟩

theorem validated_cases {v : RawClaim Q} (h : c.validated index = some v) :
    v.nodeID = c.nodeID ∧ (c.hop = 0 ∨ v.neighbors = c.neighbors.filterMap (kept index c.nodeID)) := by
  unfold RawClaim.validated at h
  split at h
  case isTrue hzero => exact ⟨Option.some.inj h ▸ rfl, .inl hzero⟩
  case isFalse =>
      dsimp only at h
      split at h <;> cases h
      exact ⟨rfl, .inr rfl⟩

/-- A best claim is the own one, or has the hop of a stored one. -/
theorem best_cases {order : Shuffle} {peers : List (Seen Q)} (h : c ∈ (best (own self order peers) peers).values) :
    c.nodeID = self.nodeID ∨ ∃ p ∈ peers, ∃ cs ∈ p.info.claimedSubnets, c.hop = cs.hop := by
  obtain ⟨k, hk⟩ := mem_values.mp h
  rcases mem_of_lookup_bestOf hk with hown | hoffer
  · obtain ⟨_, rfl⟩ := mk.inj (mem_singleton.mp hown)
    exact .inl rfl
  · obtain ⟨p, hp, hmem⟩ := mem_flatMap.mp hoffer
    obtain ⟨cs, hcs, heq⟩ := mem_map.mp hmem
    obtain ⟨_, rfl⟩ := mk.inj heq
    exact .inr ⟨p, hp, cs, hcs, rfl⟩

/-- In a snapshot in which no node holds the best claims of two subnets, a link of another node that
`buildValidatedClaims` accepts is declared in reverse in the best claim of the node at its other end, and
`broadcastGossip` accepts the same claims with the same links. -/
theorem validation_consistent (self : Announced) (snapshot : List (Sender × PeerInfo Q))
    (hhops : ∀ p ∈ snapshot, ∀ cs ∈ p.2.claimedSubnets, 1 ≤ cs.hop)
    (hholders : ((holders self snapshot).values.map snd).Nodup) (orders : Orders) (orders' : Gossip.Orders)
    (quality quality' : Sender → Q) :
    let claims := (best (own self orders.neighbors (seen quality snapshot)) (seen quality snapshot)).values
    let accepted := (buildValidatedClaims self orders (seen quality snapshot)).values
    (∀ v ∈ accepted, v.nodeID ≠ self.nodeID → ∀ n ∈ v.neighbors, ∀ l ∈ n.links,
      ∃ c ∈ claims, c.nodeID = n.nodeID ∧ ∃ m ∈ c.neighbors, m.nodeID = v.nodeID ∧
        ∃ r ∈ m.links, r.localSeq = l.remoteSeq ∧ r.remoteSeq = l.localSeq) ∧
      ∀ content, (∃ v ∈ accepted, v.content = content) ↔
        ∃ e ∈ broadcastClaims self orders' (seen quality' snapshot), entryContent e = content := by
  intro claims accepted
  refine ⟨fun v hv hne n hn l hl => ?_, fun content => ?_⟩
  · obtain ⟨c, hc, hvalid⟩ := (mem_buildValidatedClaims hholders orders).mp hv
    obtain ⟨hnodeID, hneighbors⟩ := validated_cases hvalid
    have hhop : c.hop ≠ 0 := by
      intro hzero
      rcases best_cases hc with hself | ⟨p, hp, cs, hcs, hhop⟩
      · exact hne (hnodeID.trans hself)
      · obtain ⟨q, hq, rfl⟩ := mem_map.mp hp
        have hone := hhops q hq cs hcs
        rw [← hhop, hzero] at hone
        exact absurd hone (by decide)
    rw [hneighbors.resolve_left hhop] at hn
    obtain ⟨n', _, hkept⟩ := mem_filterMap.mp hn
    obtain ⟨others, hothers, hreverse⟩ := exists_reverse hkept hl
    obtain ⟨d, hd, rfl⟩ := map_eq_some_iff.mp hothers
    exact ⟨d, mem_of_find?_eq_some hd, by simpa using find?_some hd, hnodeID ▸ hreverse⟩
  · have halike := (best_rel self orders.neighbors orders'.neighbors quality quality' snapshot).values
    set claims' := (bestClaims (ownClaim self orders'.neighbors (seen quality' snapshot))
      (seen quality' snapshot)).values
    have hnodup : (claims'.map (·.nodeID)).Nodup := by
      rw [← map_eq_map_of_forall₂ (fun _ _ h => h.nodeID) halike]
      exact nodup_best hholders orders.neighbors quality
    -- both passes find the best claim of a node in their index, and these say the same
    have hdeclared (y x : String) : ((claims.find? (·.nodeID = y)).map (·.neighbors)).bind (about x) =
        ((claimOf (orders'.index.run claims') y).map (·.neighbors)).bind (about x) := by
      rw [claimOf, find?_eq_of_perm ((reverse_perm _).trans (orders'.index.perm _)) hnodup]
      have hfind := find?_rel halike y
      generalize claims.find? (·.nodeID = y) = c, claims'.find? (·.nodeID = y) = e at hfind
      cases hfind with
      | none => rfl
      | some h => exact h.about x
    have hleft := map_eq_map_of_forall₂ (fun _ _ h => h.validated hdeclared) halike
    calc (∃ v ∈ accepted, v.content = content)
        ↔ some content ∈ claims.map fun c =>
            (c.validated fun y => (claims.find? (·.nodeID = y)).map (·.neighbors)).map RawClaim.content := by
          simp only [accepted, mem_buildValidatedClaims hholders, List.mem_map, Option.map_eq_some_iff]
          tauto
      _ ↔ some content ∈ claims'.map fun e =>
            (validate (claimOf (orders'.index.run claims')) e).map entryContent := by rw [hleft]
      _ ↔ ∃ e ∈ broadcastClaims self orders' (seen quality' snapshot), entryContent e = content := by
          simp only [broadcastClaims, validatedClaims, List.mem_map, List.mem_filterMap, Option.map_eq_some_iff]
          tauto

/-- A snapshot of a node with one peer, which declares the link between them. -/
def onePeer : List (Sender × PeerInfo Unit) :=
  [(⟨"b", 1, 2, ""⟩, ⟨none, "10.2.0.0/16", [], [],
    [⟨.v4 0x0a020000 16, "10.2.0.0/16", "b", 1, [⟨"a", [⟨2, 1, "", ()⟩]⟩]⟩]⟩)]

theorem validation_consistent_onePeer :
    let self : Announced := ⟨"a", "10.1.0.0/16", [], []⟩
    let orders : Orders := ⟨.asListed, .asListed, .asListed⟩
    let accepted := (buildValidatedClaims self orders (seen (fun _ => ()) onePeer)).values
    (∀ p ∈ onePeer, ∀ cs ∈ p.2.claimedSubnets, 1 ≤ cs.hop) ∧
      ((holders self onePeer).values.map snd).Nodup ∧
      ∀ content, (∃ v ∈ accepted, v.content = content) ↔
        ∃ e ∈ broadcastClaims self ⟨.asListed, .asListed, fun _ => .asListed⟩ (seen (fun _ => ()) onePeer),
          entryContent e = content := by
  intro self orders accepted
  have hhops : ∀ p ∈ onePeer, ∀ cs ∈ p.2.claimedSubnets, 1 ≤ cs.hop := by
    simp [onePeer]
  have hholders : ((holders self onePeer).values.map snd).Nodup := by decide +kernel
  exact ⟨hhops, hholders, (validation_consistent self onePeer hhops hholders orders
    ⟨.asListed, .asListed, fun _ => .asListed⟩ (fun _ => ()) fun _ => ()).2⟩

end Passes

end Validation
