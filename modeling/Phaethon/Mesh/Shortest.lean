import Mathlib.Data.List.Induction
import Mathlib.Data.Prod.Lex
import Mathlib.Data.String.Basic
import Mathlib.Tactic.Linarith
import Phaethon.Mesh.Dijkstra

/-!
# Best paths are shortest paths

In a graph with proper link costs `dijkstra` returns, for every node that can be reached, a path that is there and
that no other path beats; of the first hops of such paths it takes the least. The orders in which it goes through its
maps do not matter (`dijkstra_spec`).
-/

namespace Dijkstra

open GoMap LabelSetting Function List Option Dijkstra Prod.Lex

/-- What a hop costs, if there is a link. -/
def TopologyGraph.weight (G : TopologyGraph) (x y : String) : Option ℚ :=
  match G.links x y with
  | [] => none
  | l :: ls => some (cheapest l ls + hopPenaltyMs)

/-- A graph as it should be: ids are not empty, neighbours are nodes and have links, and costs are not negative and
do not reach the infinity of the code. -/
structure TopologyGraph.Proper (G : TopologyGraph) : Prop where
  named : "" ∉ G.nodes
  closed : ∀ {x y ls}, (G.neighbors x).lookup y = some ls → y ∈ G.nodes ∧ ls ≠ []
  cost : ∀ {x y l}, l ∈ G.links x y → 0 ≤ l.cost ∧ l.cost < infinity

/-- The path leads from one node to another at the cost `c`. -/
def TopologyGraph.Leads (G : TopologyGraph) (x : String) (path : List String) (y : String) (c : ℚ) : Prop :=
  total G.weight x path = some c ∧ endOf x path = y

/-! ## Links -/

variable {c : ℚ} {p : List String}

section Links

variable {G : TopologyGraph} {l : LinkQualityInfo} {ls : List LinkQualityInfo} {x y : String}

/-- With a link in hand the choice does not fail. -/
theorem betterLink_some (b m : LinkQualityInfo) :
    ∃ b', betterLink (b.cost, some b) m = .ok (b'.cost, some b') ∧
      b'.cost = if m.cost < b.cost then m.cost else b.cost := by
  unfold betterLink
  by_cases hlt : m.cost < b.cost
  · exact ⟨m, if_pos hlt, (if_pos hlt).symm⟩
  · simp only [if_neg hlt]
    by_cases heq : m.cost = b.cost
    · rw [if_pos heq]
      by_cases hseq : m.localSeq < b.localSeq
      · exact ⟨m, by rw [if_pos hseq], heq⟩
      · exact ⟨b, by rw [if_neg hseq], rfl⟩
    · exact ⟨b, if_neg heq, rfl⟩

/-- From a first link on, the choice takes the least cost. -/
theorem foldlM_betterLink (l : LinkQualityInfo) (ls : List LinkQualityInfo) :
    ∃ b, ls.foldlM betterLink (l.cost, some l) = .ok (cheapest l ls, some b) := by
  induction ls generalizing l with
  | nil => exact ⟨l, rfl⟩
  | cons m ls ih =>
    obtain ⟨b, hb, hcost⟩ := betterLink_some l m
    obtain ⟨b', hb'⟩ := ih b
    refine ⟨b', ?_⟩
    rw [foldlM_cons, hb, cheapest, foldl_cons, ← hcost]
    exact hb'

theorem bestLink_cons (ls : List LinkQualityInfo) (h : l.cost < infinity) :
    ∃ b, bestLink (l :: ls) = .ok (cheapest l ls, some b) := by
  obtain ⟨b, hb⟩ := foldlM_betterLink l ls
  refine ⟨b, ?_⟩
  rw [bestLink, foldlM_cons, show betterLink (infinity, none) l = .ok (l.cost, some l) from if_pos h]
  exact hb

theorem exists_cheapest (l : LinkQualityInfo) (ls : List LinkQualityInfo) :
    ∃ m ∈ l :: ls, cheapest l ls = m.cost := by
  induction ls generalizing l with
  | nil => exact ⟨l, mem_cons_self, rfl⟩
  | cons m ls ih =>
    by_cases hlt : m.cost < l.cost
    · obtain ⟨m', hm', hcost⟩ := ih m
      refine ⟨m', mem_cons_of_mem l hm', ?_⟩
      rw [← hcost, cheapest, foldl_cons, if_pos hlt]
      rfl
    · obtain ⟨m', hm', hcost⟩ := ih l
      refine ⟨m', ?_, ?_⟩
      · rcases mem_cons.mp hm' with rfl | hm'
        · exact mem_cons_self
        · exact mem_cons_of_mem l (mem_cons_of_mem m hm')
      · rw [← hcost, cheapest, foldl_cons, if_neg hlt]
        rfl

theorem TopologyGraph.links_of_lookup (h : (G.neighbors x).lookup y = some ls) : G.links x y = ls := by
  rw [links, h]
  rfl

/-- The choice of a link to a neighbour, in a proper graph. -/
theorem TopologyGraph.Proper.bestLink (hG : G.Proper) (h : (G.neighbors x).lookup y = some ls) :
    ∃ c b, bestLink ls = .ok (c, some b) ∧ G.weight x y = some (c + hopPenaltyMs) := by
  have hlinks := G.links_of_lookup h
  cases ls with
  | nil => exact absurd rfl (hG.closed h).2
  | cons l ls =>
    have hl : l ∈ G.links x y := hlinks ▸ mem_cons_self
    obtain ⟨b, hb⟩ := bestLink_cons ls (hG.cost hl).2
    refine ⟨cheapest l ls, b, hb, ?_⟩
    rw [weight, hlinks]

/-- A hop costs as much as one of its links, and the penalty. -/
theorem TopologyGraph.exists_of_weight (h : G.weight x y = some c) :
    ∃ l ∈ G.links x y, c = l.cost + hopPenaltyMs := by
  unfold weight at h
  split at h
  · cases h
  case h_2 l ls hlinks =>
      obtain ⟨m, hm, hcost⟩ := exists_cheapest l ls
      exact ⟨m, hlinks ▸ hm, by rw [← Option.some.inj h, hcost]⟩

theorem TopologyGraph.Proper.weight_pos (hG : G.Proper) (h : G.weight x y = some c) : hopPenaltyMs ≤ c := by
  obtain ⟨l, hl, rfl⟩ := G.exists_of_weight h
  exact le_add_of_nonneg_left (hG.cost hl).1

theorem TopologyGraph.Proper.weight_nonneg (hG : G.Proper) (x y : String) (c : ℚ)
    (h : G.weight x y = some c) : 0 ≤ c :=
  le_trans (by norm_num [hopPenaltyMs]) (hG.weight_pos h)

/-- An edge with a weight is one that the loop goes over. -/
theorem TopologyGraph.exists_lookup_of_weight (h : G.weight x y = some c) :
    ∃ ls, (G.neighbors x).lookup y = some ls := by
  cases hlookup : (G.neighbors x).lookup y with
  | none =>
    rw [weight, links, hlookup] at h
    cases h
  | some ls => exact ⟨ls, rfl⟩

/-- A path goes over nodes of the graph. -/
theorem TopologyGraph.Proper.mem_of_total (hG : G.Proper)
    (h : total G.weight x p = some c) : ∀ y ∈ p, y ∈ G.nodes := by
  induction p generalizing x c with
  | nil => exact fun y hy => absurd hy not_mem_nil
  | cons z p ih =>
    obtain ⟨d, hd, hrest⟩ := bind_eq_some_iff.mp h
    obtain ⟨e, he, _⟩ := map_eq_some_iff.mp hrest
    obtain ⟨ls, hls⟩ := G.exists_lookup_of_weight hd
    intro y hy
    rcases mem_cons.mp hy with rfl | hy
    · exact (hG.closed hls).1
    · exact ih he y hy

end Links

/-! ## One node -/

/-- The records of nodes that were reached: a path that is there, does not come back and begins with the next
hop. -/
structure Realised (G : TopologyGraph) (source : String) (labels : Labels) : Prop where
  leads : ∀ x, (labels x).cost < infinity → G.Leads source (labels x).path x (labels x).cost
  away : ∀ x, source ∉ (labels x).path
  head : ∀ x, (labels x).cost < infinity → x ≠ source → (labels x).path.head? = some (labels x).nextHop

/-- Records are compared by their costs and then by their next hops. -/
def NodeInfo.rank (info : NodeInfo) : ℚ ×ₗ String :=
  toLex (info.cost, info.nextHop)

variable {info : NodeInfo}

/-- Of two records with the same cost, the better has the smaller next hop. -/
theorem NodeInfo.nextHop_le {hop : String} (h : info.rank ≤ toLex (c, hop))
    (hc : c ≤ info.cost) : info.nextHop ≤ hop := by
  rcases toLex_le_toLex.mp h with hlt | ⟨_, hle⟩
  · exact absurd hlt (not_lt.mpr hc)
  · exact hle

/-- The next hop of the path to `y` over `x`. -/
def hopOver (source : String) (labels : Labels) (x y : String) : String :=
  if x = source then y else (labels x).nextHop

/-- What going through neighbours of `x` does to the records. -/
structure Improved (G : TopologyGraph) (x : String) (labels labels' : Labels) : Prop where
  visited : ∀ v, (labels' v).visited = (labels v).visited
  kept : ∀ v, (labels v).visited = true ∨ v ∉ G.nodes → labels' v = labels v
  rank : ∀ v, (labels' v).rank ≤ (labels v).rank
  ge : ∀ v, (labels' v).cost = (labels v).cost ∨ (labels x).cost ≤ (labels' v).cost

section Visit

variable {G : TopologyGraph} {source x : String} {labels labels' labels'' : Labels}

theorem Improved.refl (labels : Labels) : Improved G x labels labels :=
  ⟨fun _ => rfl, fun _ _ => rfl, fun _ => le_rfl, fun _ => .inl rfl⟩

theorem Improved.le (h : Improved G x labels labels') (v : String) : (labels' v).cost ≤ (labels v).cost :=
  monotone_fst _ _ (h.rank v)

theorem Improved.trans (h : Improved G x labels labels') (h' : Improved G x labels' labels'')
    (hx : (labels x).visited = true) : Improved G x labels labels'' := by
  have hsame : labels' x = labels x := h.kept x (.inl hx)
  refine ⟨fun v => (h'.visited v).trans (h.visited v), fun v hv => ?_,
    fun v => (h'.rank v).trans (h.rank v), fun v => ?_⟩
  · rw [h'.kept v (hv.imp_left fun hvisited => (h.visited v).trans hvisited), h.kept v hv]
  · rcases h'.ge v with heq | hge
    · rw [heq]
      exact h.ge v
    · exact .inr (hsame ▸ hge)

section

variable (h : Realised G source labels)

include h

/-- The source is where it is. -/
theorem Realised.source_path (hx : (labels source).cost < infinity) :
    (labels source).path = [] ∧ (labels source).cost = 0 := by
  obtain ⟨htotal, hend⟩ := h.leads source hx
  have hpath : (labels source).path = [] := by
    by_contra hne
    have hlast := getLast_mem hne
    rw [endOf, getLast?_eq_some_getLast hne, getD_some] at hend
    rw [hend] at hlast
    exact h.away source hlast
  rw [hpath] at htotal
  exact ⟨hpath, (Option.some.inj htotal).symm⟩

/-- The path to a neighbour over a node that was reached. -/
theorem Realised.firstHop (hx : (labels x).cost < infinity)
    (b : LinkQualityInfo) {y : String} (hc : G.weight x y = some c) (hy : y ≠ source) :
    ∃ hop, firstHop source x y (labels x) (some b) = .ok hop ∧
      hop.1 = hopOver source labels x y ∧ G.Leads source hop.2.2 y ((labels x).cost + c) ∧
      source ∉ hop.2.2 ∧ hop.2.2.head? = some hop.1 := by
  by_cases hsource : x = source
  · subst hsource
    refine ⟨(y, b.linkNIC, [y]), if_pos rfl, (if_pos rfl).symm, ⟨?_, rfl⟩, by simpa using hy.symm, rfl⟩
    rw [(h.source_path hx).2, zero_add, total, hc]
    simp [total]
  · obtain ⟨htotal, hend⟩ := h.leads x hx
    refine ⟨_, if_neg hsource, (if_neg hsource).symm, ⟨?_, endOf_append_singleton _ _ _⟩, ?_, ?_⟩
    · exact total_append_singleton htotal (hend.symm ▸ hc)
    · simpa using ⟨h.away x, hy.symm⟩
    · rw [List.head?_append, h.head x hx hsource]
      rfl

/-- A record that is replaced by a path that is there. -/
theorem Realised.update {y : String}
    (hleads : G.Leads source info.path y info.cost) (haway : source ∉ info.path)
    (hhead : info.path.head? = some info.nextHop) :
    Realised G source (update labels y info) := by
  constructor
  · intro v hv
    by_cases hvy : v = y
    · subst hvy
      rwa [update_self]
    · rw [update_of_ne hvy] at hv ⊢
      exact h.leads v hv
  · intro v
    by_cases hvy : v = y
    · subst hvy
      rwa [update_self]
    · rw [update_of_ne hvy]
      exact h.away v
  · intro v hv hne
    by_cases hvy : v = y
    · subst hvy
      rwa [update_self]
    · rw [update_of_ne hvy] at hv ⊢
      exact h.head v hv hne

end

theorem improved_update {y : String} (hy : (labels y).visited = false)
    (hmem : y ∈ G.nodes) (hvisited : info.visited = false) (hle : info.rank ≤ (labels y).rank)
    (hge : (labels x).cost ≤ info.cost) : Improved G x labels (update labels y info) := by
  refine ⟨fun v => ?_, fun v hv => ?_, fun v => ?_, fun v => ?_⟩
  all_goals by_cases hvy : v = y
  · rw [hvy, update_self, hvisited, hy]
  · rw [update_of_ne hvy]
  · subst hvy
    rcases hv with hv | hv
    · rw [hy] at hv
      cases hv
    · exact absurd hmem hv
  · rw [update_of_ne hvy]
  · rw [hvy, update_self]
    exact hle
  · rw [update_of_ne hvy]
  · rw [hvy, update_self]
    exact .inr hge
  · rw [update_of_ne hvy]
    exact .inl rfl

/-- A neighbour: no fault, and its record is at least as good as the path over `x`. -/
theorem relax_spec (hG : G.Proper) (hreal : Realised G source labels) (hx : (labels x).cost < infinity)
    (hsource : (labels source).visited = true) {e : (_ : String) × List LinkQualityInfo}
    (he : (G.neighbors x).lookup e.1 = some e.2) :
    ∃ labels', relax G source x labels e = .ok labels' ∧ Realised G source labels' ∧
      Improved G x labels labels' ∧ ((labels e.1).visited = false → ∀ c, G.weight x e.1 = some c →
        (labels' e.1).rank ≤ toLex ((labels x).cost + c, hopOver source labels x e.1)) := by
  have hmem := (hG.closed he).1
  unfold relax
  rw [if_neg (not_not.mpr hmem)]
  by_cases hvisited : (labels e.1).visited = true
  · exact ⟨labels, if_pos hvisited, hreal, .refl labels, fun hnot => by rw [hvisited] at hnot; cases hnot⟩
  rw [if_neg hvisited]
  rw [Bool.not_eq_true] at hvisited
  have hne : e.1 ≠ source := by
    rintro heq
    rw [heq, hsource] at hvisited
    cases hvisited
  obtain ⟨c, b, hbest, hweight⟩ := hG.bestLink he
  obtain ⟨hop, hhop, hover, hleads, haway, hhead⟩ := hreal.firstHop hx b hweight hne
  have hnonneg := hG.weight_nonneg _ _ _ hweight
  have hedge (d : ℚ) (hd : G.weight x e.1 = some d) : d = c + hopPenaltyMs :=
    Option.some.inj (hd.symm.trans hweight)
  rw [hbest]
  simp only [bind, Except.bind, hhop, add_assoc]
  rw [← hover]
  split
  case isTrue hless =>
      have hle : toLex ((labels x).cost + (c + hopPenaltyMs), hop.1) ≤ (labels e.1).rank :=
        (toLex_lt_toLex.mpr hless).le
      refine ⟨_, rfl, hreal.update hleads haway hhead,
        improved_update hvisited hmem hvisited hle (le_add_of_nonneg_right hnonneg), fun _ d hd => ?_⟩
      rw [update_self, hedge d hd]
      exact le_rfl
  case isFalse hless =>
      refine ⟨labels, rfl, hreal, .refl labels, fun _ d hd => ?_⟩
      rw [hedge d hd]
      exact not_lt.mp fun hlt => hless (toLex_lt_toLex.mp hlt)

/-- All neighbours. -/
theorem foldlM_relax (hG : G.Proper) (hreal : Realised G source labels) (hx : (labels x).cost < infinity)
    (hvisited : (labels x).visited = true) (hsource : (labels source).visited = true)
    {es : List ((_ : String) × List LinkQualityInfo)} (hes : ∀ e ∈ es, (G.neighbors x).lookup e.1 = some e.2) :
    ∃ labels', es.foldlM (relax G source x) labels = .ok labels' ∧ Realised G source labels' ∧
      Improved G x labels labels' ∧ ∀ e ∈ es, (labels e.1).visited = false → ∀ c,
        G.weight x e.1 = some c →
          (labels' e.1).rank ≤ toLex ((labels x).cost + c, hopOver source labels x e.1) := by
  induction es generalizing labels with
  | nil => exact ⟨labels, rfl, hreal, .refl labels, fun e he => absurd he not_mem_nil⟩
  | cons e es ih =>
    obtain ⟨labels₁, hrelax, hreal₁, himproved₁, hedge₁⟩ :=
      relax_spec hG hreal hx hsource (hes e mem_cons_self)
    have hsame : labels₁ x = labels x := himproved₁.kept x (.inl hvisited)
    obtain ⟨labels₂, hfold, hreal₂, himproved₂, hedge₂⟩ := ih hreal₁ (hsame ▸ hx) (hsame ▸ hvisited)
      ((himproved₁.visited source).trans hsource) fun e' he' => hes e' (mem_cons_of_mem e he')
    refine ⟨labels₂, ?_, hreal₂, himproved₁.trans himproved₂ hvisited, fun e' he' hnew c hc => ?_⟩
    · rw [foldlM_cons, hrelax]
      exact hfold
    · rcases mem_cons.mp he' with rfl | he'
      · exact (himproved₂.rank e'.1).trans (hedge₁ hnew c hc)
      · have hover : hopOver source labels₁ x e'.1 = hopOver source labels x e'.1 := by
          rw [hopOver, hopOver, hsame]
        rw [← hsame, ← hover]
        exact hedge₂ e' he' ((himproved₁.visited e'.1).trans hnew) c hc

end Visit

/-! ## The loop -/

/-- What holds between the rounds. -/
structure LoopInv (G : TopologyGraph) (source : String) (labels : Labels) : Prop where
  settled : Settled G.weight (fun v => (labels v).cost) fun v => (labels v).visited = true
  realised : Realised G source labels
  outside : ∀ v ∉ G.nodes, (labels v).cost = infinity ∧ (labels v).visited = false
  origin : (labels source).cost = 0
  first : (labels source).visited = true ∨ ∀ v ≠ source, (labels v).cost = infinity
  tie : ∀ {u v c}, (labels u).visited = true → G.weight u v = some c →
    (labels v).cost = (labels u).cost + c → (labels v).nextHop ≤ hopOver source labels u v

/-- The nodes that are not visited. -/
def unvisited (G : TopologyGraph) (labels : Labels) : List String :=
  G.nodes.filter fun v => (labels v).visited = false

section Loop

variable {G : TopologyGraph} {source x : String} {labels labels' : Labels} {nodes : List String}

theorem infinity_pos : (0 : ℚ) < infinity := by
  norm_num [infinity]

theorem foldl_minNode (labels : Labels) (nodes : List String) (m : String × ℚ) :
    let r := nodes.foldl (fun m x =>
      if (labels x).visited = false ∧ (labels x).cost < m.2 then (x, (labels x).cost) else m) m
    (r = m ∨ r.1 ∈ nodes ∧ (labels r.1).visited = false ∧ (labels r.1).cost = r.2) ∧ r.2 ≤ m.2 ∧
      ∀ v ∈ nodes, (labels v).visited = false → r.2 ≤ (labels v).cost := by
  induction nodes generalizing m with
  | nil => exact ⟨.inl rfl, le_rfl, fun v hv => absurd hv not_mem_nil⟩
  | cons x nodes ih =>
    simp only [foldl_cons]
    by_cases hx : (labels x).visited = false ∧ (labels x).cost < m.2
    · rw [if_pos hx]
      obtain ⟨hcase, hle, hmin⟩ := ih (x, (labels x).cost)
      refine ⟨.inr ?_, hle.trans hx.2.le, fun v hv hnew => ?_⟩
      · rcases hcase with heq | ⟨hmem, hrest⟩
        · rw [heq]
          exact ⟨mem_cons_self, hx.1, rfl⟩
        · exact ⟨mem_cons_of_mem x hmem, hrest⟩
      · rcases mem_cons.mp hv with rfl | hv
        · exact hle
        · exact hmin v hv hnew
    · rw [if_neg hx]
      obtain ⟨hcase, hle, hmin⟩ := ih m
      refine ⟨hcase.imp_right fun h => ⟨mem_cons_of_mem x h.1, h.2⟩, hle, fun v hv hnew => ?_⟩
      rcases mem_cons.mp hv with rfl | hv
      · exact hle.trans (not_lt.mp fun hlt => hx ⟨hnew, hlt⟩)
      · exact hmin v hv hnew

/-- The loop stops when nothing within reach is left to visit. -/
theorem minNode_stop (hnamed : "" ∉ nodes) (h : (minNode labels nodes).1 = "" ∨ infinity ≤ (minNode labels nodes).2) :
    ∀ v ∈ nodes, (labels v).visited = false → infinity ≤ (labels v).cost := by
  obtain ⟨hcase, _, hmin⟩ := foldl_minNode labels nodes ("", infinity)
  intro v hv hnew
  refine le_trans ?_ (hmin v hv hnew)
  rcases h with hempty | hfar
  · rcases hcase with heq | ⟨hmem, _⟩
    · rw [heq]
    · exact absurd (hempty ▸ hmem) hnamed
  · exact hfar

/-- Otherwise it goes on with a nearest node. -/
theorem minNode_go (h : ¬ ((minNode labels nodes).1 = "" ∨ infinity ≤ (minNode labels nodes).2)) :
    (minNode labels nodes).1 ∈ nodes ∧ (labels (minNode labels nodes).1).visited = false ∧
      (labels (minNode labels nodes).1).cost < infinity ∧
      ∀ v ∈ nodes, (labels v).visited = false →
        (labels (minNode labels nodes).1).cost ≤ (labels v).cost := by
  obtain ⟨hnamed, hnear⟩ := not_or.mp h
  obtain ⟨hcase, _, hmin⟩ := foldl_minNode labels nodes ("", infinity)
  rcases hcase with heq | ⟨hmem, hnew, hcost⟩
  · exact absurd (congrArg Prod.fst heq) hnamed
  · refine ⟨hmem, hnew, hcost.trans_lt (not_le.mp hnear), fun v hv hv' => ?_⟩
    exact hcost.trans_le (hmin v hv hv')

section

variable (labels : Labels)

/-- The records with `x` visited. -/
def markVisited (x : String) : Labels :=
  update labels x { labels x with visited := true }

variable (x v : String)

theorem markVisited_eq :
    markVisited labels x v = { labels v with visited := (markVisited labels x v).visited } := by
  by_cases hv : v = x
  · rw [hv, markVisited, update_self]
  · rw [markVisited, update_of_ne hv]

theorem cost_markVisited : (markVisited labels x v).cost = (labels v).cost := by
  rw [markVisited_eq]

theorem rank_markVisited : (markVisited labels x v).rank = (labels v).rank := by
  rw [markVisited_eq]
  rfl

end

theorem hopOver_markVisited (source : String) (labels : Labels) (x u v : String) :
    hopOver source (markVisited labels x) u v = hopOver source labels u v := by
  rw [hopOver, hopOver, markVisited_eq]

theorem visited_markVisited (labels : Labels) (x v : String) :
    (markVisited labels x v).visited = true ↔ (labels v).visited = true ∨ v = x := by
  by_cases hv : v = x
  · rw [hv, markVisited, update_self]
    simp
  · rw [markVisited, update_of_ne hv]
    simp [hv]

theorem Realised.markVisited (h : Realised G source labels) (x : String) :
    Realised G source (markVisited labels x) := by
  constructor
  · intro v hv
    rw [markVisited_eq] at hv ⊢
    exact h.leads v hv
  · intro v
    rw [markVisited_eq]
    exact h.away v
  · intro v hv
    rw [markVisited_eq] at hv ⊢
    exact h.head v hv

/-- A round goes over all edges of `x` and leaves the records of visited nodes as they are. -/
theorem LoopInv.improved (hG : G.Proper) (h : LoopInv G source labels) (hnear : (labels x).cost < infinity)
    (order : Shuffle) :
    ∃ labels', visit G source x order labels = .ok labels' ∧ Realised G source labels' ∧
      (markVisited labels x source).visited = true ∧
      Improved G x (markVisited labels x) labels' ∧
      ∀ {v c}, G.weight x v = some c → ¬ (labels v).visited = true → v ≠ x →
        (labels' v).rank ≤ toLex ((labels x).cost + c, hopOver source labels x v) := by
  have hsource : (markVisited labels x source).visited = true := by
    rw [visited_markVisited]
    rcases h.first with hvisited | hfar
    · exact .inl hvisited
    · by_contra hnot
      rw [hfar x fun heq => hnot (.inr heq.symm)] at hnear
      exact lt_irrefl _ hnear
  have hx : (markVisited labels x x).visited = true := (visited_markVisited ..).mpr (.inr rfl)
  have hes (e) (he : e ∈ order.run (G.neighbors x).entries) : (G.neighbors x).lookup e.1 = some e.2 :=
    AList.mem_lookup_iff.mpr (order.mem_run.mp he)
  obtain ⟨labels', hfold, hreal, himproved, hedge⟩ := foldlM_relax hG (h.realised.markVisited x)
    ((cost_markVisited labels x x).trans_lt hnear) hx hsource hes
  refine ⟨labels', hfold, hreal, hsource, himproved, fun {v c} hc hv hne => ?_⟩
  obtain ⟨ls, hls⟩ := G.exists_lookup_of_weight hc
  have he : ⟨v, ls⟩ ∈ order.run (G.neighbors x).entries := order.mem_run.mpr (AList.mem_lookup_iff.mp hls)
  rw [← cost_markVisited labels x, ← hopOver_markVisited source labels x]
  refine hedge _ he ?_ c hc
  rw [← Bool.not_eq_true, visited_markVisited]
  exact fun hvisited => hvisited.elim hv hne

/-- A round that visits `x`. -/
theorem LoopInv.visit (hG : G.Proper) (h : LoopInv G source labels) (hnew : (labels x).visited = false)
    (hnear : (labels x).cost < infinity)
    (hmin : ∀ v ∈ G.nodes, (labels v).visited = false → (labels x).cost ≤ (labels v).cost) (order : Shuffle) :
    ∃ labels', visit G source x order labels = .ok labels' ∧ LoopInv G source labels' ∧
      ∀ v, (labels' v).visited = true ↔ (labels v).visited = true ∨ v = x := by
  obtain ⟨labels', hvisit, hreal, hsource, himproved, hedge⟩ := h.improved hG hnear order
  have hdone (v : String) : (labels' v).visited = true ↔ (labels v).visited = true ∨ v = x := by
    rw [himproved.visited, visited_markVisited]
  have hkept (v : String) (hv : (labels v).visited = true ∨ v = x) :
      labels' v = markVisited labels x v :=
    himproved.kept v (.inl ((visited_markVisited ..).mpr hv))
  have hcost (v : String) (hv : (labels v).visited = true ∨ v = x) : (labels' v).cost = (labels v).cost := by
    rw [hkept v hv, cost_markVisited]
  have hnearest (v : String) (hv : ¬ (labels v).visited = true) : (labels x).cost ≤ (labels v).cost := by
    by_cases hmem : v ∈ G.nodes
    · exact hmin v hmem (Bool.not_eq_true _ ▸ hv)
    · rw [(h.outside v hmem).1]
      exact hnear.le
  have hx : ¬ (labels x).visited = true := by
    rw [hnew]
    exact Bool.false_ne_true
  have hrelaxes : Relaxes G.weight (fun v => (labels v).cost) (fun v => (labels v).visited = true) x
      fun v => (labels' v).cost := by
    refine ⟨fun v => ?_, hcost, fun v => ?_,
      fun hc hv hne => monotone_fst _ _ (hedge hc hv hne)⟩
    · exact cost_markVisited labels x v ▸ himproved.le v
    · simpa only [cost_markVisited] using himproved.ge v
  refine ⟨labels', hvisit, ⟨?_, hreal, fun v hv => ?_, ?_, .inl ?_, fun {u v c} hu hc heq => ?_⟩, hdone⟩
  · simpa only [hdone] using h.settled.step hG.weight_nonneg hx hnearest hrelaxes
  · have hne : v ≠ x := by
      rintro rfl
      rw [(h.outside v hv).1] at hnear
      exact lt_irrefl _ hnear
    rw [himproved.kept v (.inr hv), markVisited, update_of_ne hne]
    exact h.outside v hv
  · rw [himproved.kept source (.inl hsource), cost_markVisited, h.origin]
  · exact (himproved.visited source).trans hsource
  · -- A better record has a smaller cost, which `v` does not have, or a smaller next hop.
    have hu' := (hdone u).mp hu
    have hover : hopOver source labels' u v = hopOver source labels u v := by
      rw [← hopOver_markVisited source labels x u, hopOver, hopOver, hkept u hu']
    rw [hcost u hu'] at heq
    rw [hover]
    rcases hu' with hu | rfl
    · have hle := h.settled.relaxed hu hc
      have hrank := rank_markVisited labels x v ▸ himproved.rank v
      have hge : (labels v).cost ≤ (labels' v).cost := heq ▸ hle
      refine (NodeInfo.nextHop_le hrank hge).trans (h.tie hu hc ?_)
      exact le_antisymm hle (heq ▸ monotone_fst _ _ hrank)
    · by_cases hv : (labels v).visited = true ∨ v = u
      · have hle : (labels v).cost ≤ (labels u).cost := by
          rcases hv with hv | rfl
          · exact h.settled.ordered hv hx
          · exact le_rfl
        have hpos := hG.weight_pos hc
        rw [hcost v hv] at heq
        have : (0 : ℚ) < hopPenaltyMs := by norm_num [hopPenaltyMs]
        linarith
      · obtain ⟨hv, hne⟩ := not_or.mp hv
        exact NodeInfo.nextHop_le (hedge hc hv hne) heq.ge

theorem length_unvisited_lt (hx : x ∈ G.nodes) (hnew : (labels x).visited = false)
    (hdone : ∀ v, (labels' v).visited = true ↔ (labels v).visited = true ∨ v = x) :
    (unvisited G labels').length < (unvisited G labels).length := by
  have hsub : unvisited G labels' ⊆ (unvisited G labels).erase x := by
    intro v hv
    obtain ⟨hmem, hfalse⟩ := mem_filter.mp hv
    have hnot : ¬ ((labels v).visited = true ∨ v = x) := by
      rw [← hdone, of_decide_eq_true hfalse]
      exact Bool.false_ne_true
    obtain ⟨hvisited, hne⟩ := not_or.mp hnot
    rw [Bool.not_eq_true] at hvisited
    exact (mem_erase_of_ne hne).mpr (mem_filter.mpr ⟨hmem, decide_eq_true hvisited⟩)
  have hmem : x ∈ unvisited G labels := mem_filter.mpr ⟨hx, decide_eq_true hnew⟩
  have hle : (unvisited G labels').length ≤ ((unvisited G labels).erase x).length :=
    (subperm_of_subset (G.nodup.filter _) hsub).length_le
  rw [length_erase_of_mem hmem] at hle
  have hpos := length_pos_of_mem hmem
  omega

/-- The whole loop. -/
theorem search_spec (hG : G.Proper) (orders : ℕ → Order) {n : ℕ} (h : LoopInv G source labels)
    (hn : (unvisited G labels).length ≤ n) :
    ∃ labels', search G source orders n labels = .ok labels' ∧ LoopInv G source labels' ∧
      ∀ v, (labels' v).visited = false → infinity ≤ (labels' v).cost := by
  induction n generalizing labels with
  | zero =>
    refine ⟨labels, rfl, h, fun v hv => ?_⟩
    by_cases hmem : v ∈ G.nodes
    · have hin : v ∈ unvisited G labels := mem_filter.mpr ⟨hmem, decide_eq_true hv⟩
      rw [length_eq_zero_iff.mp (Nat.le_zero.mp hn)] at hin
      exact absurd hin not_mem_nil
    · exact (h.outside v hmem).1.ge
  | succ n ih =>
    have hnodes {v : String} : v ∈ (orders n).nodes.run G.nodes ↔ v ∈ G.nodes := (orders n).nodes.mem_run
    unfold search
    dsimp only
    split
    case isTrue hstop =>
        refine ⟨labels, rfl, h, fun v hv => ?_⟩
        by_cases hmem : v ∈ G.nodes
        · exact minNode_stop (fun hempty => hG.named (hnodes.mp hempty)) hstop v (hnodes.mpr hmem) hv
        · exact (h.outside v hmem).1.ge
    case isFalse hgo =>
        obtain ⟨hmem, hnew, hnear, hmin⟩ := minNode_go hgo
        obtain ⟨labels₁, hvisit, hinv, hdone⟩ := h.visit hG hnew hnear
          (fun v hv => hmin v (hnodes.mpr hv)) (orders n).neighbors
        have hless := length_unvisited_lt (hnodes.mp hmem) hnew hdone
        rw [hvisit]
        exact ih hinv (by omega)

theorem loopInv_initial (hs : source ∈ G.nodes) : LoopInv G source (initial source) := by
  have hfar (v : String) (hv : v ≠ source) : (initial source v).cost = infinity := if_neg hv
  have hnear (v : String) (hv : (initial source v).cost < infinity) : v = source := by
    by_contra hne
    rw [hfar v hne] at hv
    exact lt_irrefl _ hv
  refine ⟨settled_of_not_done fun _ => Bool.false_ne_true, ⟨fun v hv => ?_, fun v => not_mem_nil,
    fun v hv hne => absurd (hnear v hv) hne⟩, fun v hv => ⟨hfar v ?_, rfl⟩, if_pos rfl, .inr hfar,
    fun hu => absurd hu Bool.false_ne_true⟩
  · rw [hnear v hv, show (initial source source).cost = 0 from if_pos rfl]
    exact ⟨rfl, rfl⟩
  · rintro rfl
    exact hv hs

end Loop

/-! ## The result -/

/-- A best path to a target: it is there, it does not come back, and none is shorter. Of the first hops of the
shortest paths it takes the least. -/
structure IsBest (G : TopologyGraph) (source target : String) (r : DijkstraResult) : Prop where
  leads : G.Leads source r.path target r.cost
  near : r.cost < infinity
  away : source ∉ r.path
  head : r.path.head? = some r.nextHop
  least : ∀ {p c}, G.Leads source p target c → r.cost ≤ c
  first : ∀ {p y}, G.Leads source p target r.cost → p.head? = some y → r.nextHop ≤ y

section Result

variable {G : TopologyGraph} {source : String} {labels : Labels}

/-- After the loop no path is shorter than the record of its end. -/
theorem LoopInv.le_total (hG : G.Proper) (h : LoopInv G source labels)
    (hstop : ∀ v, (labels v).visited = false → infinity ≤ (labels v).cost) {x : String} (hp : G.Leads source p x c)
    (hx : (labels x).cost < infinity ∨ c < infinity) :
    (labels x).cost ≤ c := by
  have hdone : (labels source).visited = true := by
    by_contra hnot
    have := hstop source (Bool.not_eq_true _ ▸ hnot)
    rw [h.origin] at this
    exact absurd infinity_pos (not_lt.mpr this)
  rcases lt_or_ge c infinity with hc | hc
  · have := h.settled.le_total hG.weight_nonneg (fun v hv => hstop v (Bool.not_eq_true _ ▸ hv)) hdone
      h.origin.le hp.1 ((zero_add c).trans_lt hc)
    rwa [hp.2, zero_add] at this
  · rcases hx with hx | hx
    · exact hx.le.trans hc
    · exact absurd hc (not_le.mpr hx)

/-- After the loop the next hop is the least that a shortest path begins with. -/
theorem LoopInv.nextHop_le (hG : G.Proper) (h : LoopInv G source labels)
    (hstop : ∀ v, (labels v).visited = false → infinity ≤ (labels v).cost) {x y : String}
    (hp : G.Leads source p x (labels x).cost) (hx : (labels x).cost < infinity) (hy : p.head? = some y) :
    (labels x).nextHop ≤ y := by
  -- The last edge of a shortest path ends one: the records of both ends are the lengths of the path up to them.
  induction p using reverseRecOn generalizing x with
  | nil => cases hy
  | append_singleton p z ih =>
    obtain ⟨htotal, hend⟩ := hp
    rw [endOf_append_singleton] at hend
    subst hend
    obtain ⟨a, c, ha, hc, hsum⟩ := total_append_singleton_iff.mp htotal
    have hpos := hG.weight_pos hc
    have hpenalty : (0 : ℚ) < hopPenaltyMs := by norm_num [hopPenaltyMs]
    have hnear : a < infinity := by linarith
    set u := endOf source p with hu
    have hle : (labels u).cost ≤ a := h.le_total hG hstop ⟨ha, rfl⟩ (.inr hnear)
    have hdone : (labels u).visited = true := by
      by_contra hnot
      exact absurd (hstop u (Bool.not_eq_true _ ▸ hnot)) (not_le.mpr (hle.trans_lt hnear))
    have hrelaxed := h.settled.relaxed hdone hc
    have hcost : (labels u).cost = a := by linarith
    refine (h.tie hdone hc (by rw [hcost, hsum])).trans ?_
    by_cases hsource : u = source
    · -- A path back to the source has a positive length.
      cases p with
      | nil =>
        rw [hopOver, if_pos hsource]
        exact (Option.some.inj hy).le
      | cons w p =>
        rw [hsource, h.origin] at hcost
        obtain ⟨b, hb, hrest⟩ := bind_eq_some_iff.mp ha
        obtain ⟨d, hd, hbd⟩ := map_eq_some_iff.mp hrest
        have hfirst := hG.weight_pos hb
        have hothers := total_nonneg hG.weight_nonneg hd
        linarith
    · rw [hopOver, if_neg hsource]
      cases p with
      | nil => exact absurd rfl hsource
      | cons w p => exact ih ⟨hcost.symm ▸ ha, hu.symm⟩ (hcost.trans_lt hnear) hy

/-- `dijkstra` finds a best path to every node within reach, and to no other. -/
theorem dijkstra_spec (hG : G.Proper) (hs : source ∈ G.nodes) (orders : ℕ → Order) :
    ∃ best, dijkstra G source orders = .ok best ∧
      (∀ {x r}, best x = some r → x ≠ source ∧ IsBest G source x r) ∧
      ∀ {x p c}, x ≠ source → G.Leads source p x c → c < infinity → ∃ r, best x = some r := by
  obtain ⟨labels, hsearch, hinv, hstop⟩ := search_spec hG orders (n := G.nodes.length)
    (loopInv_initial hs) (length_filter_le _ _)
  refine ⟨results G source labels, ?_, fun {x r} hr => ?_, fun {x p c} hne hp hc => ?_⟩
  · rw [dijkstra, if_neg (not_not.mpr hs), hsearch]
    rfl
  · unfold results at hr
    split at hr
    case isTrue h =>
        obtain ⟨_, hne, hnear⟩ := h
        cases hr
        exact ⟨hne, hinv.realised.leads x hnear, hnear, hinv.realised.away x,
          hinv.realised.head x hnear hne, fun hp => hinv.le_total hG hstop hp (.inl hnear),
          fun hp hy => hinv.nextHop_le hG hstop hp hnear hy⟩
    case isFalse => cases hr
  · have hnear : (labels x).cost < infinity := (hinv.le_total hG hstop hp (.inr hc)).trans_lt hc
    have hmem : x ∈ G.nodes := by
      by_contra hnot
      rw [(hinv.outside x hnot).1] at hnear
      exact lt_irrefl _ hnear
    exact ⟨_, if_pos ⟨hmem, hne, hnear⟩⟩

end Result

end Dijkstra
