import Phaethon.Mesh.Shortest

/-!
# Two nodes that send packets to each other

Two nodes recompute their best paths on one graph. Each may keep the next hop of its last table while that is at most
15 percent worse, and it does not know what the other keeps. They send the packets for a target to each other exactly
if each is drawn to the other (`noLoop_iff`).
-/

namespace Dijkstra

open GoMap LabelSetting List Option TopologyGraph

/-- The last table of a node: the path to a target begins with the next hop and does not come back. -/
structure RouteTable (node : String) where
  best : BestPaths
  path_spec : ∀ {x r}, best x = some r →
    r.path.head? = some r.nextHop ∧ endOf node r.path = x ∧ node ∉ r.path

/-- The best paths of a node, as `recomputeRoutes` determines them. -/
def recompute (node : String) (nic : String → Option ℕ) (G : TopologyGraph) (orders : ℕ → Order)
    (old : Option (RouteTable node)) : Except Fault BestPaths :=
  (dijkstra G node orders).map (applyHysteresis node nic G (old.map RouteTable.best))

/-- Whatever tables they had, no target has `b` as the next hop at `a` and `a` as the next hop at `b`. -/
def NoLoop (G : TopologyGraph) (a b : String) : Prop :=
  ∀ nic nic' orders orders' old old' best best',
    recompute a nic G orders old = .ok best → recompute b nic' G orders' old' = .ok best' →
      ∀ x r r', best x = some r → best' x = some r' → ¬ (r.nextHop = b ∧ r'.nextHop = a)

/-- A path over `b` that `a` keeps if it has it: it does not come back to `a`, and it is at most 15 percent worse than
any other. -/
structure Keepable (G : TopologyGraph) (a b x : String) (p : List String) (c : ℚ) : Prop where
  leads : G.Leads a p x c
  head : p.head? = some b
  away : a ∉ p
  viable : c < 10 ^ 17
  close : ∀ {q d}, G.Leads a q x d → c * (1 - routeHysteresis) ≤ d

/-- The node `b` is the first hop of the path to `x` that `a` computes, or of one that it keeps. -/
def Drawn (G : TopologyGraph) (a b x : String) : Prop :=
  (∃ r, IsBest G a x r ∧ r.nextHop = b) ∨ ∃ p c, Keepable G a b x p c

section PathCost

variable {G : TopologyGraph} {source : String} {path : List String} {c : ℚ}

theorem pathCostFrom_eq (G : TopologyGraph) (x : String) (t : ℚ) (path : List String) :
    pathCostFrom G x t path = ((total G.weight x path).map (t + ·)).getD infinity := by
  induction path generalizing x t with
  | nil => simp [pathCostFrom, total]
  | cons y path ih =>
    rw [pathCostFrom, total, weight]
    cases G.links x y with
    | nil => rfl
    | cons l ls =>
      simp only [ih, Option.bind_some, Option.map_map, Function.comp_def, add_assoc]

theorem pathCost_of_total (hpath : path ≠ []) (h : total G.weight source path = some c) :
    pathCost source G path = c := by
  rw [pathCost, if_neg hpath, pathCostFrom_eq, h, map_some, zero_add, getD_some]

theorem total_of_pathCost_lt (h : pathCost source G path < infinity) :
    total G.weight source path = some (pathCost source G path) := by
  have hpath : path ≠ [] := by
    rintro rfl
    exact lt_irrefl _ h
  cases htotal : total G.weight source path with
  | none =>
    rw [pathCost, if_neg hpath, pathCostFrom_eq, htotal] at h
    exact absurd h (lt_irrefl _)
  | some c => rw [pathCost_of_total hpath htotal]

end PathCost

section Recompute

variable {G : TopologyGraph} {a b x : String} {nic : String → Option ℕ} {orders : ℕ → Order}
  {old : Option (RouteTable a)} {best : BestPaths} {r : DijkstraResult}

theorem ten_pow_lt_infinity : (10 : ℚ) ^ 17 < infinity := by
  norm_num [infinity]

/-- What a node ends up with is the new path, or one that was close enough to it. -/
theorem recompute_cases (hG : G.Proper) (h : recompute a nic G orders old = .ok best) (hr : best x = some r) :
    IsBest G a x r ∨ Keepable G a r.nextHop x r.path r.cost := by
  unfold recompute at h
  by_cases ha : a ∈ G.nodes
  · obtain ⟨new, hnew, hspec, _⟩ := dijkstra_spec hG ha orders
    rw [hnew] at h
    obtain rfl := Except.ok.inj h
    cases old with
    | none => exact .inl (hspec hr).2
    | some t =>
      obtain ⟨n, hn, hkeep⟩ := map_eq_some_iff.mp hr
      have hbest := (hspec hn).2
      cases hold : t.best x with
      | none =>
        simp only [hold] at hkeep
        exact .inl (hkeep ▸ hbest)
      | some o =>
        simp only [hold] at hkeep
        obtain ⟨hhead, hend, haway⟩ := t.path_spec hold
        subst hkeep
        unfold keepOrAdopt
        split
        · exact .inl hbest
        dsimp only
        split
        · exact .inl hbest
        case isFalse hviable =>
            have hcost := not_le.mp hviable
            split
            · exact .inl hbest
            · split
              case isTrue hclose =>
                  refine .inr ⟨⟨total_of_pathCost_lt (hcost.trans ten_pow_lt_infinity), hend⟩, hhead, haway,
                    hcost, fun hq => hclose.trans (hbest.least hq)⟩
              case isFalse => exact .inl hbest
  · rw [dijkstra, if_pos ha] at h
    cases h

/-- On a proper graph the result is a table again. -/
theorem exists_table_of_recompute (hG : G.Proper) (h : recompute a nic G orders old = .ok best) :
    ∃ t : RouteTable a, t.best = best := by
  refine ⟨⟨best, fun {x r} hr => ?_⟩, rfl⟩
  rcases recompute_cases hG h hr with hbest | hkeep
  · exact ⟨hbest.head, hbest.leads.2, hbest.away⟩
  · exact ⟨hkeep.head, hkeep.leads.2, hkeep.away⟩

/-- A table with one path. -/
def RouteTable.single (a : String) {b x : String} {p : List String}
    (h : p.head? = some b ∧ endOf a p = x ∧ a ∉ p) : RouteTable a where
  best y := if y = x then some ⟨b, none, 0, p⟩ else none
  path_spec {y r} hr := by
    split at hr
    case isTrue heq =>
        cases hr
        exact heq ▸ h
    case isFalse => cases hr

theorem endOf_mem {p : List String} (hp : p.head? = some b) : endOf a p ∈ p := by
  cases hlast : p.getLast? with
  | none =>
    rw [getLast?_eq_none_iff.mp hlast] at hp
    cases hp
  | some z =>
    rw [endOf, hlast]
    exact mem_of_getLast? hlast

section

variable (hG : G.Proper)

include hG

/-- A node that is drawn to another has a path over it, at most 15 percent worse than any other. -/
theorem Drawn.exists_path (h : Drawn G a b x) :
    ∃ p c, G.Leads a p x c ∧ p.head? = some b ∧ a ∉ p ∧
      ∀ {q d}, G.Leads a q x d → c * (1 - routeHysteresis) ≤ d := by
  rcases h with ⟨r, hr, rfl⟩ | ⟨p, c, hkeep⟩
  · refine ⟨r.path, r.cost, hr.leads, hr.head, hr.away, fun hq => le_trans ?_ (hr.least hq)⟩
    have hnonneg := total_nonneg hG.weight_nonneg hr.leads.1
    apply mul_le_of_le_one_right hnonneg
    norm_num [routeHysteresis]
  · exact ⟨p, c, hkeep.leads, hkeep.head, hkeep.away, hkeep.close⟩

theorem Drawn.ne (h : Drawn G a b x) : x ≠ a := by
  obtain ⟨p, c, hleads, hhead, haway, _⟩ := h.exists_path hG
  rintro rfl
  exact haway (hleads.2 ▸ endOf_mem hhead)

theorem Drawn.mem_nodes (h : Drawn G a b x) : b ∈ G.nodes := by
  obtain ⟨p, c, hleads, hhead, _⟩ := h.exists_path hG
  exact hG.mem_of_total hleads.1 b (mem_of_mem_head? hhead)

/-- A node that is drawn to another can have it as its next hop. -/
theorem Drawn.exists_recompute (ha : a ∈ G.nodes) (h : Drawn G a b x) (orders : ℕ → Order) :
    ∃ nic old best r, recompute a nic G orders old = .ok best ∧ best x = some r ∧ r.nextHop = b := by
  obtain ⟨new, hnew, hspec, hreach⟩ := dijkstra_spec hG ha orders
  have hne := h.ne hG
  have hb : b ≠ "" := fun hempty => hG.named (hempty ▸ h.mem_nodes hG)
  rcases h with ⟨r, hr, rfl⟩ | ⟨p, c, hkeep⟩
  · -- Without a table there is nothing to keep.
    obtain ⟨n, hn⟩ := hreach hne hr.leads hr.near
    have hbest := (hspec hn).2
    have hcost : n.cost = r.cost := le_antisymm (hbest.least hr.leads) (hr.least hbest.leads)
    refine ⟨fun _ => none, none, new, n, by rw [recompute, hnew]; rfl, hn, le_antisymm ?_ ?_⟩
    · exact hbest.first (hcost ▸ hr.leads) hr.head
    · exact hr.first (hcost ▸ hbest.leads) hbest.head
  · have hpath : p ≠ [] := by
      rintro rfl
      cases hkeep.head
    obtain ⟨n, hn⟩ := hreach hne hkeep.leads (hkeep.viable.trans ten_pow_lt_infinity)
    have hclose := hkeep.close (hspec hn).2.leads
    refine ⟨fun _ => some 0, some (.single a ⟨hkeep.head, hkeep.leads.2, hkeep.away⟩), _,
      keepOrAdopt a (fun _ => some 0) G ⟨b, none, 0, p⟩ n, by rw [recompute, hnew]; rfl, ?_, ?_⟩
    · simp [applyHysteresis, hn, RouteTable.single]
    · unfold keepOrAdopt
      rw [pathCost_of_total hpath hkeep.leads.1]
      by_cases hsame : b = n.nextHop
      · rw [if_pos (.inr (.inl hsame))]
        exact hsame.symm
      · rw [if_neg (by simp [hb, hsame, hpath])]
        simp only [if_neg (not_le.mpr hkeep.viable), if_pos hclose]

/-- Where each of two nodes is drawn to the other, they can get into a loop. -/
theorem not_noLoop (h : Drawn G a b x) (h' : Drawn G b a x) : ¬ NoLoop G a b := by
  intro hloop
  have orders : ℕ → Order := fun _ => ⟨.asListed, .asListed⟩
  obtain ⟨nic, old, best, r, hrec, hr, hnext⟩ := h.exists_recompute hG (h'.mem_nodes hG) orders
  obtain ⟨nic', old', best', r', hrec', hr', hnext'⟩ := h'.exists_recompute hG (h.mem_nodes hG) orders
  exact hloop nic nic' orders orders old old' best best' hrec hrec' x r r' hr hr' ⟨hnext, hnext'⟩

end

end Recompute

/-! ## Three nodes -/

/-- Two nodes with links to a target that cost 100, and a link of the given cost between them. -/
def corner (cost : ℚ) : TopologyGraph where
  nodes := ["a", "b", "t"]
  nodup := by decide
  edges :=
    let link (c : ℚ) : LinkQualityInfo := ⟨none, 1, c⟩
    (((∅ : Table (Table (List LinkQualityInfo))).insert "a"
      (((∅ : Table (List LinkQualityInfo)).insert "b" [link cost]).insert "t" [link 100])).insert "b"
      (((∅ : Table (List LinkQualityInfo)).insert "a" [link cost]).insert "t" [link 100])).insert "t"
      (((∅ : Table (List LinkQualityInfo)).insert "a" [link 100]).insert "b" [link 100])

section Corner

variable {cost c : ℚ} {x y : String} {ls : List LinkQualityInfo} {p : List String}

theorem lookup_two {β : Type} {k k₁ k₂ : String} {v v₁ v₂ : β}
    (h : (((∅ : Table β).insert k₁ v₁).insert k₂ v₂).lookup k = some v) :
    k = k₂ ∧ v = v₂ ∨ k = k₁ ∧ v = v₁ := by
  rcases lookup_insert_cases (o := (k₂, v₂)) h with h | h
  · rcases lookup_insert_cases (o := (k₁, v₁)) h with h | h
    · cases h
    · exact .inr (Prod.ext_iff.mp h)
  · exact .inl (Prod.ext_iff.mp h)

theorem corner_links (h : ((corner cost).neighbors x).lookup y = some ls) :
    y ∈ ["a", "b", "t"] ∧ ∃ l, ls = [l] ∧
      (l.cost = 100 ∧ (x = "t" ∨ y = "t") ∨ l.cost = cost ∧ y ≠ "t") := by
  cases hx : (corner cost).edges.lookup x with
  | none =>
    rw [neighbors, hx] at h
    cases h
  | some t =>
    rcases lookup_insert_cases (o := ("t", _)) hx with hx | hx
    · rcases lookup_two hx with ⟨rfl, rfl⟩ | ⟨rfl, rfl⟩
      all_goals rcases lookup_two h with ⟨rfl, rfl⟩ | ⟨rfl, rfl⟩
      · exact ⟨by decide, _, rfl, .inl ⟨rfl, .inr rfl⟩⟩
      · exact ⟨by decide, _, rfl, .inr ⟨rfl, by decide⟩⟩
      · exact ⟨by decide, _, rfl, .inl ⟨rfl, .inr rfl⟩⟩
      · exact ⟨by decide, _, rfl, .inr ⟨rfl, by decide⟩⟩
    · obtain ⟨rfl, rfl⟩ := Prod.ext_iff.mp hx
      rcases lookup_two h with ⟨rfl, rfl⟩ | ⟨rfl, rfl⟩
      all_goals exact ⟨by decide, _, rfl, .inl ⟨rfl, .inl rfl⟩⟩

theorem corner_proper (hcost : 0 ≤ cost) (hlt : cost < infinity) : (corner cost).Proper := by
  refine ⟨show "" ∉ ["a", "b", "t"] by decide, fun h => ?_, fun {x y l} hl => ?_⟩
  · obtain ⟨hmem, l, rfl, _⟩ := corner_links h
    exact ⟨hmem, cons_ne_nil _ _⟩
  · cases hlookup : ((corner cost).neighbors x).lookup y with
    | none =>
      rw [links, hlookup] at hl
      cases hl
    | some ls =>
      rw [links_of_lookup hlookup] at hl
      obtain ⟨_, l', rfl, hl'⟩ := corner_links hlookup
      obtain rfl := mem_singleton.mp hl
      rcases hl' with ⟨h100, _⟩ | ⟨h, _⟩
      · rw [h100]
        norm_num [infinity]
      · rw [h]
        exact ⟨hcost, hlt⟩

/-- The links to the target cost 100. -/
theorem corner_weight_target (h : (corner cost).weight x "t" = some c) : c = 105 := by
  obtain ⟨ls, hls⟩ := exists_lookup_of_weight h
  obtain ⟨_, l, rfl, hl⟩ := corner_links hls
  rw [weight, links_of_lookup hls] at h
  cases h
  rcases hl with ⟨h100, _⟩ | ⟨_, hne⟩
  · norm_num [cheapest, h100, hopPenaltyMs]
  · exact absurd rfl hne

theorem corner_le (hG : (corner cost).Proper) (hx : x ≠ "t") (h : (corner cost).Leads x p "t" c) : 105 ≤ c := by
  cases p using reverseRecOn with
  | nil => exact absurd h.2 hx
  | append_singleton p z =>
    obtain ⟨htotal, hend⟩ := h
    rw [endOf_append_singleton] at hend
    subst hend
    obtain ⟨a, d, ha, hd, rfl⟩ := total_append_singleton_iff.mp htotal
    rw [corner_weight_target hd]
    exact le_add_of_nonneg_left (total_nonneg hG.weight_nonneg ha)

end Corner

end Dijkstra
