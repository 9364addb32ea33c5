import Phaethon.Mesh.Loop

/-!
# Best paths and the table they are kept in

`dijkstra` gives an entry to every node that can be reached and to no other, and of an entry only the path may depend
on the orders in which Go goes through its maps (`dijkstra_correct`). A table that is recomputed on one graph after
another may keep a path from an earlier graph, but only one that is still there and at most 15 percent worse than the
best (`installed_of_recompute`).
-/

namespace Dijkstra

open GoMap LabelSetting Function List Option DijkstraResult TopologyGraph

/-- The NIC of the best link from the source to a neighbour. -/
def TopologyGraph.nicTo (G : TopologyGraph) (source hop : String) : Option ℕ :=
  match bestLink (G.links source hop) with
  | .ok (_, some l) => l.linkNIC
  | _ => none

/-- The NIC of a node that was reached is that of its next hop. -/
def Wired (G : TopologyGraph) (source : String) (labels : Labels) : Prop :=
  ∀ x ≠ source, (labels x).cost < infinity → (labels x).linkNIC = G.nicTo source (labels x).nextHop

/-! ## The NIC of the first hop -/

section Wired

variable {G : TopologyGraph} {source x : String} {labels labels' : Labels} {orders : ℕ → Order}
  {e : (_ : String) × List LinkQualityInfo}

/-- A neighbour keeps its record, or gets one that goes over `x`. -/
theorem relax_cases (h : relax G source x labels e = .ok labels') :
    labels' = labels ∨ (labels e.1).visited = false ∧ ∃ best hop cost visited, bestLink e.2 = .ok best ∧
      firstHop source x e.1 (labels x) best.2 = .ok hop ∧
      labels' = update labels e.1 ⟨cost, hop.1, hop.2.1, hop.2.2, visited⟩ := by
  unfold relax at h
  split at h
  · cases h
  split at h
  · exact .inl (Except.ok.inj h).symm
  case isFalse hnew =>
      cases hbest : bestLink e.2 with
      | error f =>
        rw [hbest] at h
        cases h
      | ok best =>
        cases hhop : firstHop source x e.1 (labels x) best.2 with
        | error f =>
          simp only [hbest, bind, Except.bind, hhop] at h
          cases h
        | ok hop =>
          simp only [hbest, bind, Except.bind, hhop] at h
          split at h
          · exact .inr ⟨Bool.not_eq_true _ ▸ hnew, best, hop, _, _, rfl, hhop, (Except.ok.inj h).symm⟩
          · exact .inl (Except.ok.inj h).symm

theorem Wired.relax (hwired : Wired G source labels) (hx : (labels x).cost < infinity)
    (he : (G.neighbors x).lookup e.1 = some e.2) (h : relax G source x labels e = .ok labels') :
    Wired G source labels' := by
  rcases relax_cases h with rfl | ⟨_, best, hop, cost, visited, hbest, hhop, rfl⟩
  · exact hwired
  · intro y hy hnear
    by_cases hye : y = e.1
    · subst hye
      rw [update_self]
      unfold firstHop at hhop
      split at hhop
      case isTrue hsource =>
          -- a direct neighbour: its own best link
          subst hsource
          split at hhop
          case h_1 l hl =>
              obtain rfl := Except.ok.inj hhop
              obtain ⟨c, _⟩ := best
              obtain rfl := hl
              rw [nicTo, links_of_lookup he, hbest]
          case h_2 => cases hhop
      case isFalse hsource =>
          obtain rfl := Except.ok.inj hhop
          exact hwired x hsource hx
    · rw [update_of_ne hye] at hnear ⊢
      exact hwired y hy hnear

theorem Wired.foldlM_relax {es : List ((_ : String) × List LinkQualityInfo)} (hwired : Wired G source labels)
    (hx : (labels x).cost < infinity) (hvisited : (labels x).visited = true)
    (hes : ∀ e ∈ es, (G.neighbors x).lookup e.1 = some e.2)
    (h : es.foldlM (Dijkstra.relax G source x) labels = .ok labels') : Wired G source labels' := by
  induction es generalizing labels with
  | nil => exact Except.ok.inj h ▸ hwired
  | cons e es ih =>
    rw [foldlM_cons] at h
    cases hrelax : Dijkstra.relax G source x labels e with
    | error f =>
      rw [hrelax] at h
      cases h
    | ok labels₁ =>
      rw [hrelax] at h
      have hsame : labels₁ x = labels x := by
        rcases relax_cases hrelax with rfl | ⟨hnew, _, _, _, _, _, _, rfl⟩
        · rfl
        · refine update_of_ne ?_ _ _
          rintro rfl
          rw [hvisited] at hnew
          cases hnew
      exact ih (hwired.relax hx (hes e mem_cons_self) hrelax) (hsame ▸ hx) (hsame ▸ hvisited)
        (fun e' he' => hes e' (mem_cons_of_mem e he')) h

theorem Wired.visit (hwired : Wired G source labels) (hx : (labels x).cost < infinity) {order : Shuffle}
    (h : visit G source x order labels = .ok labels') : Wired G source labels' := by
  have hmark : Wired G source (markVisited labels x) := by
    intro y hy hnear
    rw [markVisited_eq] at hnear ⊢
    exact hwired y hy hnear
  refine hmark.foldlM_relax ((cost_markVisited labels x x).trans_lt hx)
    ((visited_markVisited ..).mpr (.inr rfl)) (fun e he => ?_) h
  exact AList.mem_lookup_iff.mpr (order.mem_run.mp he)

theorem Wired.search {n : ℕ} (hwired : Wired G source labels)
    (h : search G source orders n labels = .ok labels') : Wired G source labels' := by
  induction n generalizing labels with
  | zero => exact Except.ok.inj h ▸ hwired
  | succ n ih =>
    unfold Dijkstra.search at h
    dsimp only at h
    split at h
    case isTrue => exact Except.ok.inj h ▸ hwired
    case isFalse hgo =>
        obtain ⟨_, _, hnear, _⟩ := minNode_go hgo
        cases hvisit : Dijkstra.visit G source (minNode labels ((orders n).nodes.run G.nodes)).1
            (orders n).neighbors labels with
        | error f =>
          rw [hvisit] at h
          cases h
        | ok labels₁ =>
          rw [hvisit] at h
          exact ih (hwired.visit hnear hvisit) h

theorem wired_initial : Wired G source (initial source) := by
  intro x hx hnear
  rw [show (initial source x).cost = infinity from if_neg hx] at hnear
  exact absurd hnear (lt_irrefl _)

/-- The NIC of a result is that of its next hop. -/
theorem linkNIC_of_dijkstra {best : BestPaths} {r : DijkstraResult} (h : dijkstra G source orders = .ok best)
    (hr : best x = some r) : r.linkNIC = G.nicTo source r.nextHop := by
  unfold dijkstra at h
  split at h
  · cases h
  cases hsearch : search G source orders G.nodes.length (initial source) with
  | error f =>
    rw [hsearch] at h
    cases h
  | ok labels =>
    rw [hsearch] at h
    obtain rfl := Except.ok.inj h
    unfold results at hr
    split at hr
    case isTrue hx =>
        cases hr
        exact wired_initial.search hsearch x hx.2.1 hx.2.2
    case isFalse => cases hr

end Wired

/-! ## Every node within reach, and nothing that depends on an order -/

/-- Paths from the source that visit no node twice stay below the bound. -/
def TopologyGraph.SumsBelow (G : TopologyGraph) (source : String) (bound : ℚ) : Prop :=
  ∀ p c, total G.weight source p = some c → (source :: p).Nodup → c < bound

/-- The node can be reached from the source. -/
def TopologyGraph.Reachable (G : TopologyGraph) (source x : String) : Prop :=
  ∃ p c, G.Leads source p x c

/-- What does not depend on the order: the next hop, the NIC and the cost. -/
def DijkstraResult.route (r : DijkstraResult) : String × Option ℕ × ℚ :=
  (r.nextHop, r.linkNIC, r.cost)

/-- An entry for exactly the nodes within reach, each with a shortest path that begins with the least first hop. -/
structure Correct (G : TopologyGraph) (source : String) (best : BestPaths) : Prop where
  targets : ∀ x, (∃ r, best x = some r) ↔ x ∈ G.nodes ∧ x ≠ source ∧ G.Reachable source x
  leads : ∀ {x r}, best x = some r → G.Leads source r.path x r.cost
  least : ∀ {x r p c}, best x = some r → G.Leads source p x c → r.cost ≤ c
  cost : ∀ {x r}, best x = some r → pathCost source G r.path = r.cost
  head : ∀ {x r}, best x = some r → r.path.head? = some r.nextHop
  first : ∀ {x r p y}, best x = some r → G.Leads source p x r.cost → p.head? = some y → r.nextHop ≤ y

section Correct

variable {G : TopologyGraph} {source x : String} {bound : ℚ}

/-- What can be reached can be reached within the bound. -/
theorem TopologyGraph.SumsBelow.exists_lt (h : G.SumsBelow source bound) (hx : G.Reachable source x) :
    ∃ p c, G.Leads source p x c ∧ c < bound := by
  obtain ⟨p, c, hp, rfl⟩ := hx
  obtain ⟨q, hq, hend, hnodup⟩ := exists_simple (isSome_of_eq_some hp)
  obtain ⟨d, hd⟩ := isSome_iff_exists.mp hq
  exact ⟨q, d, ⟨hd, hend⟩, h q d hd hnodup⟩

theorem TopologyGraph.Leads.mem_nodes (hG : G.Proper) {p : List String} {c : ℚ} (h : G.Leads source p x c)
    (hx : x ≠ source) : x ∈ G.nodes := by
  obtain ⟨htotal, rfl⟩ := h
  cases p with
  | nil => exact absurd rfl hx
  | cons y p => exact hG.mem_of_total htotal _ (endOf_mem (b := y) rfl)

/-- Two best paths to one target. -/
theorem IsBest.unique {r r' : DijkstraResult} (h : IsBest G source x r) (h' : IsBest G source x r') :
    r.cost = r'.cost ∧ r.nextHop = r'.nextHop := by
  have hcost : r.cost = r'.cost := le_antisymm (h.least h'.leads) (h'.least h.leads)
  refine ⟨hcost, le_antisymm ?_ ?_⟩
  · exact h.first (hcost ▸ h'.leads) h'.head
  · exact h'.first (hcost ▸ h.leads) h.head

/-- `dijkstra` returns shortest paths to exactly the nodes within reach. The next hop, which is the least that a
shortest path can have, its NIC and the cost are the same in every order. -/
theorem dijkstra_correct (G : TopologyGraph) (hG : G.Proper) (source : String) (hs : source ∈ G.nodes)
    (hsums : G.SumsBelow source infinity) :
    (∀ orders, ∃ best, dijkstra G source orders = .ok best ∧ Correct G source best) ∧
      ∀ {orders orders' best best'}, dijkstra G source orders = .ok best →
        dijkstra G source orders' = .ok best' →
          ∀ x, (best x).map route = (best' x).map route := by
  have hcorrect (orders : ℕ → Order) : ∃ best, dijkstra G source orders = .ok best ∧ Correct G source best ∧
      ∀ {x r}, best x = some r → IsBest G source x r := by
    obtain ⟨best, hbest, hspec, hreach⟩ := dijkstra_spec hG hs orders
    refine ⟨best, hbest, ⟨fun x => ⟨?_, ?_⟩, fun h => (hspec h).2.leads, fun h => (hspec h).2.least,
      fun h => ?_, fun h => (hspec h).2.head, fun h => (hspec h).2.first⟩, fun h => (hspec h).2⟩
    · rintro ⟨r, hr⟩
      obtain ⟨hne, hr⟩ := hspec hr
      exact ⟨hr.leads.mem_nodes hG hne, hne, r.path, r.cost, hr.leads⟩
    · rintro ⟨_, hne, hx⟩
      obtain ⟨p, c, hp, hc⟩ := hsums.exists_lt hx
      exact hreach hne hp hc
    · have hr := (hspec h).2
      refine pathCost_of_total (fun hnil => ?_) hr.leads.1
      have hhead := hr.head
      rw [hnil] at hhead
      cases hhead
  refine ⟨fun orders => ?_, fun {orders orders' best best'} h h' x => ?_⟩
  · obtain ⟨best, hbest, h, _⟩ := hcorrect orders
    exact ⟨best, hbest, h⟩
  · obtain ⟨_, hb, hc, hbest⟩ := hcorrect orders
    obtain ⟨_, hb', hc', hbest'⟩ := hcorrect orders'
    obtain rfl := Except.ok.inj (h.symm.trans hb)
    obtain rfl := Except.ok.inj (h'.symm.trans hb')
    have htargets := (hc.targets x).trans (hc'.targets x).symm
    cases hx : best x with
    | none =>
      have hnone : best' x = none := by
        by_contra hsome
        obtain ⟨r, hr⟩ := htargets.mpr (ne_none_iff_exists'.mp hsome)
        rw [hx] at hr
        cases hr
      rw [hnone]
    | some r =>
      obtain ⟨r', hr'⟩ := htargets.mp ⟨r, hx⟩
      obtain ⟨hcost, hnext⟩ := (hbest hx).unique (hbest' hr')
      rw [hr', map_some, map_some, route, route,
        linkNIC_of_dijkstra h hx, linkNIC_of_dijkstra h' hr', hcost, hnext]

/-- A path that visits no node twice has no more hops than there are other nodes. -/
theorem TopologyGraph.Proper.sumsBelow (hG : G.Proper) (hs : source ∈ G.nodes) {d : ℚ} (hd : 0 ≤ d)
    (hweight : ∀ x y c, G.weight x y = some c → c ≤ d) (hbound : G.nodes.length • d < bound) :
    G.SumsBelow source bound := by
  intro p c hc hnodup
  have hsub : source :: p ⊆ G.nodes := by
    intro y hy
    rcases mem_cons.mp hy with rfl | hy
    · exact hs
    · exact hG.mem_of_total hc y hy
  have hlength : p.length ≤ G.nodes.length :=
    (Nat.le_succ _).trans (subperm_of_subset hnodup hsub).length_le
  exact (total_le hweight hc).trans_lt ((nsmul_le_nsmul_left hd hlength).trans_lt hbound)

/-- The shortest paths from one of the two nodes of the corner. -/
theorem dijkstra_correct_corner :
    (corner 5).Proper ∧ (corner 5).SumsBelow "a" infinity ∧
      (∀ orders, ∃ best, dijkstra (corner 5) "a" orders = .ok best ∧ Correct (corner 5) "a" best) ∧
      ∀ {orders orders' best best'}, dijkstra (corner 5) "a" orders = .ok best →
        dijkstra (corner 5) "a" orders' = .ok best' →
          ∀ x, (best x).map route = (best' x).map route := by
  have hG : (corner 5).Proper := corner_proper (by norm_num) (by norm_num [infinity])
  have hs : "a" ∈ (corner 5).nodes := mem_cons_self
  have hsums : (corner 5).SumsBelow "a" infinity := by
    refine hG.sumsBelow (d := 105) hs (by norm_num) (fun x y c hc => ?_) (by norm_num [corner, infinity])
    obtain ⟨ls, hls⟩ := exists_lookup_of_weight hc
    obtain ⟨_, l, rfl, hl⟩ := corner_links hls
    rw [weight, links_of_lookup hls] at hc
    cases hc
    rcases hl with ⟨h, _⟩ | ⟨h, _⟩
    all_goals norm_num [cheapest, h, hopPenaltyMs]
  exact ⟨hG, hsums, dijkstra_correct (corner 5) hG "a" hs hsums⟩

end Correct

/-! ## One graph after another -/

/-- What a recomputation works on: the graph, the NICs of the peers, and the orders in which Go goes through the maps
of `dijkstra`. Path sums stay below 1e17; a link is a path of one hop. -/
structure Round (node : String) where
  graph : TopologyGraph
  nic : String → Option ℕ
  orders : ℕ → Order
  present : node ∈ graph.nodes
  named : "" ∉ graph.nodes
  closed : ∀ {x y ls}, (graph.neighbors x).lookup y = some ls → y ∈ graph.nodes ∧ ls ≠ []
  nonneg : ∀ {x y l}, l ∈ graph.links x y → 0 ≤ l.cost
  hop : ∀ {x y l}, l ∈ graph.links x y → l.cost + hopPenaltyMs < 10 ^ 17
  sums : graph.SumsBelow node (10 ^ 17)

/-- The recomputation of the table, as `recomputeRoutes` does it. -/
def recomputeTable (node : String) (old : Option BestPaths) (round : Round node) :
    Except Fault (Option BestPaths) :=
  (dijkstra round.graph node round.orders).map fun best =>
    some (applyHysteresis node round.nic round.graph old best)

/-- The table of a manager that has not computed any routes. -/
def emptyTable : BestPaths := fun _ => none

/-- A table that fits the graph: its targets are the nodes within reach, and its paths are there, with their costs, and
at most 15 percent worse than the best. -/
structure Installed (node : String) (G : TopologyGraph) (best : BestPaths) : Prop where
  targets : ∀ x, (∃ r, best x = some r) ↔ x ∈ G.nodes ∧ x ≠ node ∧ G.Reachable node x
  leads : ∀ {x r}, best x = some r → G.Leads node r.path x r.cost
  head : ∀ {x r}, best x = some r → r.path.head? = some r.nextHop
  cost : ∀ {x r}, best x = some r → pathCost node G r.path = r.cost
  close : ∀ {x r p c}, best x = some r → G.Leads node p x c → r.cost ≤ c / (85 / 100)

section Rounds

variable {node : String}

theorem Round.proper (round : Round node) : round.graph.Proper := by
  refine ⟨round.named, round.closed, fun hl => ⟨round.nonneg hl, ?_⟩⟩
  have hhop := round.hop hl
  have hpenalty : (0 : ℚ) < hopPenaltyMs := by norm_num [hopPenaltyMs]
  have := ten_pow_lt_infinity
  linarith

/-- A recomputation after a table whose paths lead to their targets. -/
theorem recomputeTable_spec (round : Round node) (old : RouteTable node) :
    ∃ t : RouteTable node, recomputeTable node (some old.best) round = .ok (some t.best) ∧
      Installed node round.graph t.best := by
  have hG := round.proper
  obtain ⟨new, hnew, hspec, hreach⟩ := dijkstra_spec hG round.present round.orders
  have hrec : recompute node round.nic round.graph round.orders (some old) =
      .ok (applyHysteresis node round.nic round.graph (some old.best) new) := by
    rw [recompute, hnew]
    rfl
  obtain ⟨t, ht⟩ := exists_table_of_recompute hG hrec
  refine ⟨t, by rw [recomputeTable, hnew, ht]; rfl, ?_⟩
  rw [← ht] at hrec
  have hentry {x : String} : (∃ r, t.best x = some r) ↔ ∃ n, new x = some n := by
    rw [ht]
    simp [applyHysteresis, map_eq_some_iff]
  have hleads {x : String} {r : DijkstraResult} (hr : t.best x = some r) :
      round.graph.Leads node r.path x r.cost := by
    rcases recompute_cases hG hrec hr with hbest | hkeep
    · exact hbest.leads
    · exact hkeep.leads
  refine ⟨fun x => hentry.trans ⟨?_, ?_⟩, hleads, fun hr => (t.path_spec hr).1, fun hr => ?_,
    fun {x r p c} hr hp => ?_⟩
  · rintro ⟨n, hn⟩
    obtain ⟨hne, hbest⟩ := hspec hn
    exact ⟨hbest.leads.mem_nodes hG hne, hne, n.path, n.cost, hbest.leads⟩
  · rintro ⟨_, hne, hx⟩
    obtain ⟨p, c, hp, hc⟩ := round.sums.exists_lt hx
    exact hreach hne hp (hc.trans ten_pow_lt_infinity)
  · refine pathCost_of_total (fun hnil => ?_) (hleads hr).1
    have hhead := (t.path_spec hr).1
    rw [hnil] at hhead
    cases hhead
  · have hclose : r.cost * (1 - routeHysteresis) ≤ c := by
      rcases recompute_cases hG hrec hr with hbest | hkeep
      · have hnonneg := total_nonneg hG.weight_nonneg hbest.leads.1
        refine le_trans (mul_le_of_le_one_right hnonneg ?_) (hbest.least hp)
        norm_num [routeHysteresis]
      · exact hkeep.close hp
    norm_num [routeHysteresis] at hclose
    linarith

end Rounds

end Dijkstra
