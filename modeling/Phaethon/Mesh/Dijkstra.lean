import Mathlib.Tactic.NormNum
import Phaethon.Common.GoMap
import Phaethon.Common.LabelSetting

/-!
# Best paths of a mesh node

`src/mesh/mesh.go`: `dijkstra` over the topology graph, `pathCost` and `applyHysteresis`. Costs are exact rational
numbers. A pointer that is nil where the code follows it is a `Fault`. The orders in which Go goes through the nodes
and through the neighbours of a node are chosen for every round of the loop.
-/

namespace Dijkstra

open GoMap Function

/-- What the code takes for infinity. -/
def infinity : ℚ := 10 ^ 18

/-- `hopPenaltyMs`. -/
def hopPenaltyMs : ℚ := 5

/-- `routeHysteresis`. -/
def routeHysteresis : ℚ := 15 / 100

/-- `LinkQualityInfo`, as far as paths depend on it; the NIC is that of a direct link. -/
structure LinkQualityInfo where
  linkNIC : Option ℕ
  localSeq : UInt16
  cost : ℚ
  deriving DecidableEq

/-- `TopologyGraph`. -/
structure TopologyGraph where
  nodes : List String
  nodup : nodes.Nodup
  edges : Table (Table (List LinkQualityInfo))

/-- `graph.Edges[from]`. -/
def TopologyGraph.neighbors (G : TopologyGraph) (x : String) : Table (List LinkQualityInfo) :=
  (G.edges.lookup x).getD ∅

/-- `graph.Edges[from][to]`. -/
def TopologyGraph.links (G : TopologyGraph) (x y : String) : List LinkQualityInfo :=
  ((G.neighbors x).lookup y).getD []

/-- A nil pointer that is followed: to the record of a node, or to the best link. -/
inductive Fault where
  | nilNode | nilLink
  deriving DecidableEq

/-- `nodeInfo`. -/
structure NodeInfo where
  cost : ℚ
  nextHop : String
  linkNIC : Option ℕ
  path : List String
  visited : Bool

/-- The records of the nodes. -/
abbrev Labels := String → NodeInfo

/-- `dijkstraResult`. -/
structure DijkstraResult where
  nextHop : String
  linkNIC : Option ℕ
  cost : ℚ
  path : List String
  deriving DecidableEq

/-- A map from targets to their best paths. -/
abbrev BestPaths := String → Option DijkstraResult

/-! ## The loop -/

/-- The first node in the order that is nearer than all nodes before it, of those not visited. -/
def minNode (labels : Labels) (nodes : List String) : String × ℚ :=
  nodes.foldl (fun m x =>
    if (labels x).visited = false ∧ (labels x).cost < m.2 then (x, (labels x).cost) else m) ("", infinity)

/-- One step in the choice of a link: the cheaper one, and of two the one with the smaller number. -/
def betterLink (best : ℚ × Option LinkQualityInfo) (link : LinkQualityInfo) :
    Except Fault (ℚ × Option LinkQualityInfo) :=
  if link.cost < best.1 then .ok (link.cost, some link)
  else if link.cost = best.1 then
    match best.2 with
    | none => .error .nilLink
    | some b => .ok (if link.localSeq < b.localSeq then (link.cost, some link) else best)
  else .ok best

/-- The best of the links to a neighbour. -/
def bestLink (links : List LinkQualityInfo) : Except Fault (ℚ × Option LinkQualityInfo) :=
  links.foldlM betterLink (infinity, none)

/-- The next hop, its NIC and the path to a neighbour of `x`. -/
def firstHop (source x y : String) (info : NodeInfo) (best : Option LinkQualityInfo) :
    Except Fault (String × Option ℕ × List String) :=
  if x = source then
    match best with
    | some l => .ok (y, l.linkNIC, [y])
    | none => .error .nilLink
  else .ok (info.nextHop, info.linkNIC, info.path ++ [y])

/-- A neighbour of the visited node `x`. -/
def relax (G : TopologyGraph) (source x : String) (labels : Labels)
    (edge : (_ : String) × List LinkQualityInfo) : Except Fault Labels :=
  if edge.1 ∉ G.nodes then .error .nilNode
  else if (labels edge.1).visited then .ok labels
  else do
    let best ← bestLink edge.2
    let newCost := (labels x).cost + best.1 + hopPenaltyMs
    let hop ← firstHop source x edge.1 (labels x) best.2
    let info := labels edge.1
    if newCost < info.cost ∨ newCost = info.cost ∧ hop.1 < info.nextHop then
      .ok (update labels edge.1 ⟨newCost, hop.1, hop.2.1, hop.2.2, info.visited⟩)
    else .ok labels

/-- The orders of one round of the loop. -/
structure Order where
  nodes : Shuffle
  neighbors : Shuffle

/-- A node is visited. -/
def visit (G : TopologyGraph) (source x : String) (order : Shuffle) (labels : Labels) :
    Except Fault Labels :=
  (order.run (G.neighbors x).entries).foldlM (relax G source x)
    (update labels x { labels x with visited := true })

/-- The loop. Every round visits one node more, so there are no more rounds than nodes. -/
def search (G : TopologyGraph) (source : String) (orders : ℕ → Order) : ℕ → Labels → Except Fault Labels
  | 0, labels => .ok labels
  | n + 1, labels =>
      let m := minNode labels ((orders n).nodes.run G.nodes)
      if m.1 = "" ∨ infinity ≤ m.2 then .ok labels
      else do
        let labels ← visit G source m.1 (orders n).neighbors labels
        search G source orders n labels

/-- The records before the loop. -/
def initial (source : String) : Labels := fun x =>
  ⟨if x = source then 0 else infinity, "", none, [], false⟩

/-- The result for the nodes that were reached. -/
def results (G : TopologyGraph) (source : String) (labels : Labels) : BestPaths := fun x =>
  if x ∈ G.nodes ∧ x ≠ source ∧ (labels x).cost < infinity then
    some ⟨(labels x).nextHop, (labels x).linkNIC, (labels x).cost, (labels x).path⟩
  else none

/-- `dijkstra`. -/
def dijkstra (G : TopologyGraph) (source : String) (orders : ℕ → Order) : Except Fault BestPaths :=
  if source ∉ G.nodes then .error .nilNode
  else (search G source orders G.nodes.length (initial source)).map (results G source)

/-! ## Hysteresis -/

/-- The least cost of some links. -/
def cheapest (l : LinkQualityInfo) (ls : List LinkQualityInfo) : ℚ :=
  ls.foldl (fun best m => if m.cost < best then m.cost else best) l.cost

/-- The loop of `pathCost`. -/
def pathCostFrom (G : TopologyGraph) : String → ℚ → List String → ℚ
  | _, total, [] => total
  | x, total, y :: path =>
      match G.links x y with
      | [] => infinity
      | l :: ls => pathCostFrom G y (total + (cheapest l ls + hopPenaltyMs)) path

/-- `pathCost`. -/
def pathCost (source : String) (G : TopologyGraph) (path : List String) : ℚ :=
  if path = [] then infinity else pathCostFrom G source 0 path

/-- The choice between the new path to a target and the one before. -/
def keepOrAdopt (self : String) (nic : String → Option ℕ) (G : TopologyGraph) (old new : DijkstraResult) :
    DijkstraResult :=
  if old.nextHop = "" ∨ old.nextHop = new.nextHop ∨ old.path = [] then new
  else
    let incumbent := pathCost self G old.path
    if 10 ^ 17 ≤ incumbent then new
    else
      match nic old.nextHop with
      | none => new
      | some n =>
          if incumbent * (1 - routeHysteresis) ≤ new.cost then
            { old with cost := incumbent, linkNIC := some n }
          else new

/-- `(*MeshManager).applyHysteresis`; `nic` is `resolvePeerLinkNIC`. -/
def applyHysteresis (self : String) (nic : String → Option ℕ) (G : TopologyGraph) (old : Option BestPaths)
    (bestPaths : BestPaths) : BestPaths :=
  match old with
  | none => bestPaths
  | some old => fun target =>
      (bestPaths target).map fun new =>
        match old target with
        | none => new
        | some oldPath => keepOrAdopt self nic G oldPath new

end Dijkstra
