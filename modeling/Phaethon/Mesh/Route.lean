import Mathlib.Data.List.Pairwise
import Phaethon.Common.Ipv4

/-!
# Route selection of a mesh node

`src/mesh/netstack.go` and `src/mesh/mesh.go`: the egress node of a route (`selectEgressNodeID`) and the
scan of the route table (`selectRouteFunc`). The topology is a parameter (`Topology`): the next-hop link
and the egress address of a node.
-/

namespace Mesh

open Ipv4 Function List

/-- `RouteSource`. -/
inductive RouteSource where
  | static | dynamic
  deriving DecidableEq, Repr

/-- `RouteEntry`: an owner of a prefix. -/
structure RouteEntry where
  nodeID : String
  source : RouteSource
  named : nodeID ≠ ""

/-- `MeshRoute`. -/
structure MeshRoute where
  network : Prefix
  entries : List RouteEntry

/-- A route table with one route for each network, longest first. -/
structure RouteTable where
  routes : List MeshRoute
  sorted : routes.Pairwise fun a b => b.network.len ≤ a.network.len
  distinct : routes.Pairwise fun a b => a.network ≠ b.network

/-- What the selection asks of the mesh: `NextHopLink` (the next hop and the id of its NIC),
`GetEIPForNode` and the mesh network. -/
structure Topology where
  nextHopLink : String → String × Option ℕ
  eipForNode : String → Option Addr
  meshNetwork : Option Prefix

/-- `SelectRouteResult`. -/
structure SelectRouteResult where
  localStack : Bool
  linkNIC : ℕ
  egressEIP : Option Addr
  needIPIP : Bool
  targetNodeID : String

/-- `stickyCache`: the egress node selected before for each destination. -/
abbrev StickyCache := Addr → Option String

/-! ## Egress selection -/

/-- The stable sort of `selectEgressNodeID`, static entries first, without the node's own. -/
def available (node : String) (entries : List RouteEntry) : List RouteEntry :=
  (entries.filter (·.source = .static) ++ entries.filter (·.source = .dynamic)).filter
    (·.nodeID ≠ node)

/-- The hash of a destination; four bytes stay far from overflow. -/
def hash (dst : Addr) : ℕ := (bytes dst).foldl (fun h b => h * 31 + b) 0

/-- The node that the hash picks. -/
def hashed (dst : Addr) (candidates : List RouteEntry) : String :=
  match candidates[hash dst % candidates.length]? with
  | some e => e.nodeID
  | none => ""

/-- `(*MeshManager).selectEgressNodeID`. -/
def selectEgressNodeID (node : String) (dst : Addr) (entries : List RouteEntry) (sticky : StickyCache) :
    String × StickyCache :=
  let candidates := available node entries
  if candidates = [] then ("", sticky)
  else
    match sticky dst with
    | some cached =>
        if candidates.any (·.nodeID = cached) then (cached, sticky)
        else (hashed dst candidates, update sticky dst (some (hashed dst candidates)))
    | none => (hashed dst candidates, update sticky dst (some (hashed dst candidates)))

/-! ## Route selection -/

/-- The NIC of the next hop, if there is a usable one. -/
def Topology.link (top : Topology) (node : String) : Option ℕ :=
  match top.nextHopLink node with
  | ("", _) => none
  | (_, none) => none
  | (_, some 0) => none
  | (_, some nic) => some nic

/-- Branches 2 and 3: a mesh prefix leaves on the link itself, any other in a tunnel to the egress
address. -/
def forward (top : Topology) (route : MeshRoute) (target : String) : Option SelectRouteResult :=
  match top.link target with
  | none => none
  | some nic =>
      if top.meshNetwork.any fun m => decide (m.Contains route.network.addr) then
        some ⟨false, nic, none, false, target⟩
      else
        match top.eipForNode target with
        | none => none
        | some eip => some ⟨false, nic, some eip, true, target⟩

/-- The loop of `selectRouteFunc`. -/
def scan (top : Topology) (node : String) (dst : Addr) :
    List MeshRoute → StickyCache → Option SelectRouteResult × StickyCache
  | [], sticky => (none, sticky)
  | route :: rest, sticky =>
      if ¬ route.network.Contains dst then scan top node dst rest sticky
      else if route.entries = [] then scan top node dst rest sticky
      else
        let (target, sticky) := selectEgressNodeID node dst route.entries sticky
        if target = "" then scan top node dst rest sticky
        else if target = node then (some ⟨true, 0, none, false, target⟩, sticky)
        else
          match forward top route target with
          | some res => (some res, sticky)
          | none => scan top node dst rest sticky

/-- `(*Netstack).selectRouteFunc`. -/
def selectRoute (top : Topology) (node : String) (table : RouteTable) (dst : Addr)
    (sticky : StickyCache) : Option SelectRouteResult × StickyCache :=
  scan top node dst table.routes sticky

/-! ## What is selected -/

variable {node : String} {entries : List RouteEntry}

theorem mem_available {e : RouteEntry} : e ∈ available node entries ↔ e ∈ entries ∧ e.nodeID ≠ node := by
  have hsource : e.source = .static ∨ e.source = .dynamic := by
    cases e.source <;> simp
  simp only [available, mem_filter, mem_append, decide_eq_true_eq]
  tauto

/-- The egress node is one of the candidates; without candidates there is none. -/
theorem selectEgressNodeID_spec (node : String) (dst : Addr) (entries : List RouteEntry) (sticky : StickyCache) :
    (available node entries = [] ∧ (selectEgressNodeID node dst entries sticky).1 = "") ∨
      ∃ e ∈ available node entries, (selectEgressNodeID node dst entries sticky).1 = e.nodeID := by
  by_cases hnil : available node entries = []
  · exact Or.inl ⟨hnil, by simp [selectEgressNodeID, hnil]⟩
  · have hidx : hash dst % (available node entries).length < (available node entries).length :=
      Nat.mod_lt _ (length_pos_iff.mpr hnil)
    have hhash : ∃ e ∈ available node entries, hashed dst (available node entries) = e.nodeID := by
      refine ⟨_, getElem_mem hidx, ?_⟩
      simp only [hashed, getElem?_eq_getElem hidx]
    right
    unfold selectEgressNodeID
    simp only [if_neg hnil]
    split
    · next cached _ =>
        split
        · next hany =>
            obtain ⟨e, he, hid⟩ := any_eq_true.mp hany
            exact ⟨e, he, (of_decide_eq_true hid).symm⟩
        · exact hhash
    · exact hhash

variable {sticky : StickyCache} {dst : Addr}

/-- The egress node is empty exactly when the node itself is the only owner. -/
theorem selectEgressNodeID_eq_empty :
    (selectEgressNodeID node dst entries sticky).1 = "" ↔ ∀ e ∈ entries, e.nodeID = node := by
  have hnil : available node entries = [] ↔ ∀ e ∈ entries, e.nodeID = node := by
    rw [eq_nil_iff_forall_not_mem]
    simp only [mem_available, not_and, not_not]
  rw [← hnil]
  rcases selectEgressNodeID_spec node dst entries sticky with ⟨h, he⟩ | ⟨e, he, hid⟩
  · simp [h, he]
  · rw [hid]
    exact iff_of_false e.named (ne_nil_of_mem he)

/-- The selected node is never the node itself, so the local branch of the scan is dead. -/
theorem selectEgressNodeID_ne (h : (selectEgressNodeID node dst entries sticky).1 ≠ "") :
    ∃ e ∈ entries, (selectEgressNodeID node dst entries sticky).1 = e.nodeID ∧ e.nodeID ≠ node := by
  rcases selectEgressNodeID_spec node dst entries sticky with ⟨-, he⟩ | ⟨e, he, hid⟩
  · exact absurd he h
  · obtain ⟨hmem, hne⟩ := mem_available.mp he
    exact ⟨e, hmem, hid, hne⟩

/-- `dst` is forwarded to another node. -/
def Forwards (node : String) (out : Option SelectRouteResult × StickyCache) : Prop :=
  ∃ res, out.1 = some res ∧ res.linkNIC ≠ 0 ∧ res.targetNodeID ≠ node

/-- Every node has a usable link and an egress address. -/
def Topology.Connected (top : Topology) : Prop :=
  ∀ id, (∃ nic, top.link id = some nic ∧ nic ≠ 0) ∧ (top.eipForNode id).isSome

/-- Some route that matches the destination has an owner other than the node. -/
def RemoteRoute (node : String) (dst : Addr) (r : MeshRoute) : Prop :=
  r.network.Contains dst ∧ ∃ e ∈ r.entries, e.nodeID ≠ node

variable {top : Topology}

/-- Only a route with another owner can forward. -/
theorem remote_of_scan {routes : List MeshRoute} (h : Forwards node (scan top node dst routes sticky)) :
    ∃ r ∈ routes, RemoteRoute node dst r := by
  induction routes generalizing sticky with
  | nil =>
    obtain ⟨res, hres, -⟩ := h
    simp [scan] at hres
  | cons route rest ih =>
    have hrest : ∀ {sticky}, Forwards node (scan top node dst rest sticky) →
        ∃ r ∈ route :: rest, RemoteRoute node dst r := by
      intro sticky hf
      obtain ⟨r, hr, hrem⟩ := ih hf
      exact ⟨r, mem_cons_of_mem _ hr, hrem⟩
    by_cases hdst : route.network.Contains dst
    · by_cases hall : ∀ e ∈ route.entries, e.nodeID = node
      · -- the node's own route is skipped
        have hempty : (selectEgressNodeID node dst route.entries sticky).1 = "" :=
          selectEgressNodeID_eq_empty.mpr hall
        simp only [scan, not_true, if_false, hdst, hempty, if_true] at h
        split at h
        · exact hrest h
        · exact hrest h
      · push Not at hall
        exact ⟨route, mem_cons_self, hdst, hall⟩
    · simp only [scan, hdst, not_false_iff, if_true] at h
      exact hrest h

private theorem forward_of_connected (h : top.Connected) (route : MeshRoute) (target : String) :
    ∃ res, forward top route target = some res ∧ res.linkNIC ≠ 0 ∧ res.targetNodeID = target := by
  obtain ⟨⟨nic, hlink, hnic⟩, heip⟩ := h target
  obtain ⟨eip, heip⟩ := Option.isSome_iff_exists.mp heip
  simp only [forward, hlink]
  split
  · exact ⟨_, rfl, hnic, rfl⟩
  · simp only [heip]
    exact ⟨_, rfl, hnic, rfl⟩

/-- In a connected mesh the first matching route with another owner forwards, whatever was selected
before. -/
theorem scan_of_remote (htop : top.Connected) {routes : List MeshRoute} (h : ∃ r ∈ routes, RemoteRoute node dst r) :
    Forwards node (scan top node dst routes sticky) := by
  induction routes generalizing sticky with
  | nil =>
    obtain ⟨r, hr, -⟩ := h
    cases hr
  | cons route rest ih =>
    have hrest : ¬ RemoteRoute node dst route → ∃ r ∈ rest, RemoteRoute node dst r := by
      intro hno
      obtain ⟨r, hr, hrem⟩ := h
      rcases mem_cons.mp hr with rfl | hr
      · exact absurd hrem hno
      · exact ⟨r, hr, hrem⟩
    by_cases hdst : route.network.Contains dst
    · simp only [scan, hdst, not_true, if_false]
      by_cases hall : ∀ e ∈ route.entries, e.nodeID = node
      · have hempty : (selectEgressNodeID node dst route.entries sticky).1 = "" :=
          selectEgressNodeID_eq_empty.mpr hall
        have hno : ¬ RemoteRoute node dst route := by
          rintro ⟨-, e, he, hne⟩
          exact hne (hall e he)
        split
        · exact ih (hrest hno)
        · exact ih (hrest hno)
      · have hne : (selectEgressNodeID node dst route.entries sticky).1 ≠ "" :=
          fun he => hall (selectEgressNodeID_eq_empty.mp he)
        obtain ⟨e, he, hid, hother⟩ := selectEgressNodeID_ne hne
        obtain ⟨res, hres, hnic, htarget⟩ := forward_of_connected htop route
          (selectEgressNodeID node dst route.entries sticky).1
        rw [if_neg (ne_nil_of_mem he), if_neg hne, if_neg (hid ▸ hother), hres]
        exact ⟨res, rfl, hnic, htarget ▸ hid ▸ hother⟩
    · have hno : ¬ RemoteRoute node dst route := fun hr => hdst hr.1
      simp only [scan, hdst, not_false_iff, if_true]
      exact ih (hrest hno)

/-! ## Longest prefix -/

/-- `r` is the longest route of the table that matches the destination. -/
structure RouteTable.IsLongest (table : RouteTable) (dst : Addr) (r : MeshRoute) : Prop where
  mem : r ∈ table.routes
  contains : r.network.Contains dst
  longest : ∀ r' ∈ table.routes, r'.network.Contains dst → r'.network.len ≤ r.network.len

/-- The table's order makes the first match the longest. -/
theorem RouteTable.isLongest_of_find {table : RouteTable} {r : MeshRoute}
    (h : table.routes.find? (fun r => decide (r.network.Contains dst)) = some r) :
    table.IsLongest dst r := by
  obtain ⟨hc, before, rest, hsplit, hbefore⟩ := find?_eq_some_iff_append.mp h
  refine ⟨by simp [hsplit], of_decide_eq_true hc, fun r' hr' hc' => ?_⟩
  have hsorted := table.sorted
  rw [hsplit, pairwise_append, pairwise_cons] at hsorted
  rw [hsplit, mem_append, mem_cons] at hr'
  rcases hr' with hr' | rfl | hr'
  · have := hbefore r' hr'
    simp [hc'] at this
  · exact Nat.le_refl _
  · exact hsorted.2.1.1 r' hr'

/-- There is one longest match: two matches of one length are the same route. -/
theorem RouteTable.IsLongest.eq {table : RouteTable} {r r' : MeshRoute}
    (h : table.IsLongest dst r) (hr' : r' ∈ table.routes) (hc : r'.network.Contains dst)
    (hlen : r.network.len ≤ r'.network.len) : r' = r := by
  have hnet : r'.network = r.network :=
    Prefix.eq_of_contains (Nat.le_antisymm (h.longest r' hr' hc) hlen) hc h.contains
  by_contra hne
  have hsymm : Std.Symm fun a b : MeshRoute => a.network ≠ b.network := ⟨fun _ _ hab => hab.symm⟩
  exact table.distinct.forall hr' h.mem hne hnet

/-- The route is owned by the node and nobody else. -/
def MeshRoute.OwnedOnlyBy (r : MeshRoute) (node : String) : Prop :=
  r.entries ≠ [] ∧ ∀ e ∈ r.entries, e.nodeID = node

/-- When the longest matching prefix is the node's own, selection keeps away from other nodes in every
topology and for every earlier selection, exactly when no shorter matching prefix has another owner. -/
theorem selectRoute_stays_iff (table : RouteTable) (node : String) (dst : Addr) (r : MeshRoute)
    (hlongest : table.IsLongest dst r) (hown : r.OwnedOnlyBy node) :
    (∀ top sticky, ¬ Forwards node (selectRoute top node table dst sticky)) ↔
      ∀ r' ∈ table.routes, r'.network.Contains dst → r'.network.len < r.network.len →
        ∀ e ∈ r'.entries, e.nodeID = node := by
  constructor
  · intro hstay r' hr' hc hshort
    by_contra hother
    push Not at hother
    let top : Topology := ⟨fun _ => ("peer", some 1), fun _ => some 0, none⟩
    have htop : top.Connected := fun _ => ⟨⟨1, rfl, by decide⟩, rfl⟩
    exact hstay top (fun _ => none) (scan_of_remote htop ⟨r', hr', hc, hother⟩)
  · intro hshorter top sticky hf
    obtain ⟨r', hr', hc, e, he, hne⟩ := remote_of_scan hf
    by_cases hlen : r'.network.len < r.network.len
    · exact hne (hshorter r' hr' hc hlen e he)
    · have heq := hlongest.eq hr' hc (Nat.le_of_not_lt hlen)
      exact hne (hown.2 e (heq ▸ he))

/-- A node that owns `10.1.0.0/16`, below `10.0.0.0/8` of `other`. -/
def ownInOther : RouteTable where
  routes :=
    [⟨⟨0x0a010000#32, 16, by decide, by decide⟩, [⟨"self", .dynamic, by decide⟩]⟩,
      ⟨⟨0x0a000000#32, 8, by decide, by decide⟩, [⟨"other", .dynamic, by decide⟩]⟩]
  sorted := by simp
  distinct := by simp

/-- `10.1.0.5` belongs to the node, and is sent to the owner of the shorter prefix. -/
theorem own_prefix_forwarded :
    ∃ top r, ownInOther.IsLongest 0x0a010005#32 r ∧ r.OwnedOnlyBy "self" ∧
      Forwards "self" (selectRoute top "self" ownInOther 0x0a010005#32 fun _ => none) := by
  refine ⟨⟨fun _ => ("other", some 7), fun _ => some 1, none⟩, _,
    RouteTable.isLongest_of_find rfl, by simp [MeshRoute.OwnedOnlyBy], ?_⟩
  exact ⟨⟨false, 7, some 1, true, "other"⟩, rfl, by decide, by decide⟩

/-- A node that owns the whole of `10.0.0.0/8`. -/
def ownAll : RouteTable where
  routes := [⟨⟨0x0a000000#32, 8, by decide, by decide⟩, [⟨"self", .dynamic, by decide⟩]⟩]
  sorted := by simp
  distinct := by simp

theorem selectRoute_stays_iff_own :
    ∃ r, ownAll.IsLongest 0x0a010005#32 r ∧ r.OwnedOnlyBy "self" ∧
      ∀ top sticky, ¬ Forwards "self" (selectRoute top "self" ownAll 0x0a010005#32 sticky) := by
  have hlongest : ownAll.IsLongest 0x0a010005#32 _ := RouteTable.isLongest_of_find rfl
  refine ⟨_, hlongest, by simp [MeshRoute.OwnedOnlyBy], ?_⟩
  refine (selectRoute_stays_iff ownAll "self" 0x0a010005#32 _ hlongest
    (by simp [MeshRoute.OwnedOnlyBy])).mpr ?_
  intro r' hr' _ hshort
  simp only [ownAll, mem_singleton] at hr'
  subst hr'
  exact absurd hshort (Nat.lt_irrefl _)

end Mesh
