import Phaethon.Common.NetText
import Phaethon.Mesh.Gossip
import Phaethon.Mesh.Route
import Phaethon.Mesh.RouteTrie

/-!
# The route table

`src/mesh/mesh.go`: the routes that `recomputeRoutes` makes of the prefixes of peers, the own prefixes and the static
routes, the trie it builds of them, and the scan of `ResolveNodeIDForIP`. Prefixes of peers are filed under texts. The
order in which Go goes through them is chosen every time, and so is that of routes with masks of one length, as
`sort.Slice` is not stable.
-/

namespace Routes

open GoMap NetIp Gossip List RouteTrie
open BitTrie
open Ipv4 (Addr)
open Mesh (RouteSource)

variable {Q : Type}

/-- `RouteEntry`. -/
structure RouteEntry where
  nodeID : String
  source : RouteSource
  deriving DecidableEq

/-- `MeshRoute`. -/
structure MeshRoute where
  network : IPNet
  entries : List RouteEntry
  deriving DecidableEq

/-- `config.MeshStaticRoute`. -/
structure StaticRoute where
  network : String
  nodeIDs : List String

/-- What `recomputeRoutes` takes from the manager. -/
structure Config where
  nodeID : String
  subnetStr : String
  advertise : List String
  staticRoutes : List StaticRoute

/-! ## Prefixes of peers -/

/-- `peerEntry`, without the sender and the hop count, which do not matter to routes. -/
structure PeerEntry where
  network : IPNet
  owner : String

/-- The routes of a peer, without those whose owner it has no claim of. -/
def routeEntriesOf (peer : Seen Q) : List (String × PeerEntry) :=
  peer.info.routes.filterMap fun r =>
    (claimHopFor peer.info r.nodeID).map fun _ => (r.prefixStr, ⟨r.network, r.nodeID⟩)

/-- The subnet of a peer and its claims, without the one for that subnet. -/
def claimEntriesOf (peer : Seen Q) : List (String × PeerEntry) :=
  (peer.info.subnet.toList.map fun n => (n.text, ⟨n, peer.sender.nodeID⟩)) ++
    (peer.info.claimedSubnets.filter fun cs => ¬ (cs.hop = 1 ∧ cs.nodeID = peer.sender.nodeID)).map fun cs =>
      (cs.subnetStr, ⟨cs.subnet, cs.nodeID⟩)

variable (peers : List (Seen Q))

/-- What is filed, in order. -/
def filed : List (String × PeerEntry) :=
  peers.flatMap routeEntriesOf ++ peers.flatMap claimEntriesOf

/-- `allEntries[text]`. -/
def entriesOf (text : String) : List PeerEntry :=
  ((filed peers).filter (·.1 = text)).map (·.2)

variable (entries : List PeerEntry)

/-- The owners of some entries, each once, without empty ids. -/
def owners : List String :=
  entries.foldl (fun seen e => if e.owner ≠ "" ∧ e.owner ∉ seen then seen ++ [e.owner] else seen) []

/-- The route for a text: its network is that of the first entry. -/
def routeOf : Option MeshRoute :=
  entries.head?.map fun e => ⟨e.network, (owners entries).map (⟨·, .dynamic⟩)⟩

/-! ## Routes -/

variable (cfg : Config)

/-- The texts of the own prefixes, as far as they parse. -/
def Config.ownPrefixes : List String :=
  (cfg.subnetStr :: cfg.advertise).filter fun s => (parseCIDR s).isSome

/-- The networks of the own prefixes. -/
def Config.ownNetworks : List IPNet :=
  (cfg.subnetStr :: cfg.advertise).filterMap parseCIDR

/-- The routes for prefixes of peers, without those whose text is an own one. -/
def peerRoutes (peers : List (Seen Q)) (order : Shuffle) : List MeshRoute :=
  ((order.run ((filed peers).map (·.1)).dedup).filter (· ∉ cfg.ownPrefixes)).filterMap fun text =>
    routeOf (entriesOf peers text)

/-- The own routes. -/
def ownRoutes : List MeshRoute :=
  cfg.ownNetworks.map fun n => ⟨n, [⟨cfg.nodeID, .dynamic⟩]⟩

/-- Entries are put before those of the first route whose network has the text. -/
def mergeInto (text : String) (entries : List RouteEntry) : List MeshRoute → Option (List MeshRoute)
  | [] => none
  | r :: routes =>
      if r.network.text = text then some (⟨r.network, entries ++ r.entries⟩ :: routes)
      else (mergeInto text entries routes).map (r :: ·)

/-- A static route is merged into a route that is there, or else added. -/
def mergeStatic (routes : List MeshRoute) (static : StaticRoute) : List MeshRoute :=
  match parseCIDR static.network with
  | none => routes
  | some n =>
      let entries := static.nodeIDs.map (⟨·, .static⟩)
      (mergeInto n.text entries routes).getD (routes ++ [⟨n, entries⟩])

/-- `sort.Slice` of routes, longest masks first. -/
structure Sorting where
  run : List MeshRoute → List MeshRoute
  perm : ∀ l, (run l).Perm l
  sorted : ∀ l, (run l).Pairwise fun a b => b.network.len ≤ a.network.len

/-- The routes before they are sorted. -/
def unsorted (cfg : Config) (peers : List (Seen Q)) (order : Shuffle) : List MeshRoute :=
  cfg.staticRoutes.foldl mergeStatic (peerRoutes cfg peers order ++ ownRoutes cfg)

/-- The routes of `recomputeRoutes`. -/
def routes (cfg : Config) (peers : List (Seen Q)) (order : Shuffle) (sort : Sorting) : List MeshRoute :=
  sort.run (unsorted cfg peers order)

/-- The trie of `recomputeRoutes`. -/
def buildTrie (routes : List MeshRoute) : Option (Trie MeshRoute) :=
  routes.foldlM (fun t r => insert t r.network r) newRouteTrie

/-- The loop of `ResolveNodeIDForIP`. -/
def scanBest (dst : Addr) (routes : List MeshRoute) : Option MeshRoute :=
  routes.foldl (fun best r =>
    if r.network.Contains dst ∧ best.all (fun b => b.network.len < r.network.len) then some r else best) none

/-! ## The trie and the scan -/

/-- Where a network is in the trie: one of IPv6 is nowhere. -/
def keyOf : IPNet → Option (List Bool)
  | .v4 a len => some (bitsOf a len)
  | .v6 _ _ => none

/-- The trie takes the networks of the routes. -/
def Insertable (rs : List MeshRoute) : Prop :=
  ∀ r ∈ rs, r.network.Formed ∧ ¬ r.network.Mapped

section Keys

variable {n n' : IPNet} {key : List Bool}

theorem length_of_keyOf (h : keyOf n = some key) : key.length = n.len := by
  cases n with
  | v4 a len =>
    cases h
    exact length_bitsOf a len
  | v6 a len => cases h

theorem eq_of_keyOf (hn : n.Formed) (hn' : n'.Formed) (h : keyOf n = some key) (h' : keyOf n' = some key) :
    n = n' := by
  have hlen := (length_of_keyOf h).symm.trans (length_of_keyOf h')
  match n, n' with
  | .v6 _ _, _ => cases h
  | .v4 _ _, .v6 _ _ => cases h'
  | .v4 a len, .v4 a' len' =>
    obtain rfl : len = len' := hlen
    have hbits : bitsOf a len = bitsOf a' len := Option.some.inj (h.trans h'.symm)
    have hself : bitsOf a' len <+: bitsOf a' 32 := (bitsOf_prefix_iff hn'.1).mpr rfl
    have hsame := (bitsOf_prefix_iff hn.1).mp (hbits ▸ hself)
    rw [← hn.2, ← hn'.2, hsame]

theorem contains_iff_keyOf (hformed : n.Formed) (hmapped : ¬ n.Mapped) (dst : Addr) :
    n.Contains dst ↔ ∃ key, keyOf n = some key ∧ key <+: bitsOf dst 32 := by
  cases n with
  | v4 a len =>
    rw [IPNet.Contains, ← bitsOf_prefix_iff hformed.1]
    constructor
    · exact fun h => ⟨_, rfl, h⟩
    · rintro ⟨key, hkey, h⟩
      exact Option.some.inj hkey ▸ h
  | v6 a len =>
    constructor
    · exact fun h => absurd h.1 hmapped
    · rintro ⟨key, hkey, _⟩
      cases hkey

theorem find_insert (hformed : n.Formed) (hmapped : ¬ n.Mapped) (t : Trie MeshRoute) (r : MeshRoute) :
    ∃ t', insert t n r = some t' ∧
      ∀ key, t'.find key = if keyOf n = some key then some r else t.find key := by
  cases n with
  | v4 a len =>
    refine ⟨_, insert_v4 hformed.1 t r, fun key => ?_⟩
    rw [Trie.find_insert, keyOf]
    simp only [Option.some.injEq, eq_comm]
  | v6 a len => exact ⟨t, insert_v6 hmapped t r, fun key => rfl⟩

end Keys

section Lookup

variable {rs : List MeshRoute} {r : MeshRoute} {dst : Addr} {t : Trie MeshRoute} {key : List Bool}

/-- The trie of some routes has the last one for every key. -/
theorem find_foldlM (h : Insertable rs) (t : Trie MeshRoute) :
    ∃ t', rs.foldlM (fun t r => insert t r.network r) t = some t' ∧
      ∀ key, t'.find key = (rs.reverse.find? fun r => keyOf r.network = some key).or (t.find key) := by
  induction rs generalizing t with
  | nil => exact ⟨t, rfl, fun key => rfl⟩
  | cons r rs ih =>
    obtain ⟨hformed, hmapped⟩ := h r mem_cons_self
    obtain ⟨t₁, ht₁, hfind₁⟩ := find_insert hformed hmapped t r
    obtain ⟨t₂, ht₂, hfind₂⟩ := ih (fun r' hr' => h r' (mem_cons_of_mem r hr')) t₁
    refine ⟨t₂, by rw [foldlM_cons, ht₁]; exact ht₂, fun key => ?_⟩
    rw [hfind₂, hfind₁, List.reverse_cons, List.find?_append, Option.or_assoc]
    by_cases hkey : keyOf r.network = some key
    · simp [hkey]
    · simp [hkey]

theorem not_insertable_of_mapped (hr : r ∈ rs) (hformed : ∀ r ∈ rs, r.network.Formed)
    (hmapped : r.network.Mapped) : buildTrie rs = none := by
  unfold buildTrie
  generalize newRouteTrie = t
  induction rs generalizing t with
  | nil => cases hr
  | cons r' rs ih =>
    rw [foldlM_cons]
    rcases mem_cons.mp hr with rfl | hr
    · rw [insert_mapped (hformed r mem_cons_self) hmapped]
      rfl
    · cases insert t r'.network r' with
      | none => rfl
      | some t₁ => exact ih hr (fun r'' hr'' => hformed r'' (mem_cons_of_mem r' hr'')) t₁

/-- The scan returns a route with the longest mask of those that contain the address. -/
theorem foldl_scan (dst : Addr) (rs : List MeshRoute) (best : Option MeshRoute) :
    let found := rs.foldl (fun best r =>
      if r.network.Contains dst ∧ best.all (fun b => b.network.len < r.network.len) then some r else best) best
    (found = best ∨ ∃ r ∈ rs, found = some r ∧ r.network.Contains dst) ∧
      ∀ r, r ∈ rs ∧ r.network.Contains dst ∨ best = some r →
        ∃ b, found = some b ∧ r.network.len ≤ b.network.len := by
  induction rs generalizing best with
  | nil =>
    refine ⟨.inl rfl, fun r hr => ?_⟩
    rcases hr with ⟨hr, _⟩ | hr
    · cases hr
    · exact ⟨r, hr, le_rfl⟩
  | cons r rs ih =>
    simp only [foldl_cons]
    split
    case isTrue htake =>
        obtain ⟨hcase, hmax⟩ := ih (some r)
        obtain ⟨b, hb, hrb⟩ := hmax r (.inr rfl)
        refine ⟨.inr ?_, fun r' hr' => ?_⟩
        · rcases hcase with heq | ⟨r', hr', hfound⟩
          · exact ⟨r, mem_cons_self, heq, htake.1⟩
          · exact ⟨r', mem_cons_of_mem r hr', hfound⟩
        · rcases hr' with ⟨hr', hdst⟩ | rfl
          · rcases mem_cons.mp hr' with rfl | hr'
            · exact ⟨b, hb, hrb⟩
            · exact hmax r' (.inl ⟨hr', hdst⟩)
          · have hlt : r'.network.len < r.network.len := by simpa using htake.2
            exact ⟨b, hb, hlt.le.trans hrb⟩
    case isFalse htake =>
        obtain ⟨hcase, hmax⟩ := ih best
        refine ⟨hcase.imp_right fun ⟨r', hr', h⟩ => ⟨r', mem_cons_of_mem r hr', h⟩, fun r' hr' => ?_⟩
        rcases hr' with ⟨hr', hdst⟩ | hbest
        · rcases mem_cons.mp hr' with rfl | hr'
          · -- The route was passed over for one that is at least as long.
            have hall : ¬ best.all (fun b => b.network.len < r'.network.len) = true := fun h => htake ⟨hdst, h⟩
            cases best with
            | none => exact absurd rfl hall
            | some b =>
              obtain ⟨b', hb', hle⟩ := hmax b (.inr rfl)
              refine ⟨b', hb', le_trans ?_ hle⟩
              simpa using hall
          · exact hmax r' (.inl ⟨hr', hdst⟩)
        · exact hmax r' (.inr hbest)

/-- Where no network has two routes, the trie and the scan agree. -/
theorem lookup_eq_scanBest (h : Insertable rs) (hnodup : (rs.map (·.network)).Nodup) :
    ∃ t, buildTrie rs = some t ∧ ∀ dst, lookup t dst = scanBest dst rs := by
  obtain ⟨t, ht, hfind⟩ := find_foldlM h newRouteTrie
  have hnone (key : List Bool) : (newRouteTrie : Trie MeshRoute).find key = none := by
    cases key with
    | nil => rfl
    | cons b key => cases b <;> exact Trie.find_nil key
  have hmem {key : List Bool} {r : MeshRoute} (hr : t.find key = some r) :
      r ∈ rs ∧ keyOf r.network = some key := by
    rw [hfind, hnone, Option.or_none] at hr
    have hkey := List.find?_some hr
    exact ⟨mem_reverse.mp (mem_of_find?_eq_some hr), of_decide_eq_true hkey⟩
  refine ⟨t, ht, fun dst => ?_⟩
  have hcontains {key : List Bool} {r : MeshRoute} (hkey : key <+: bitsOf dst 32) (hr : t.find key = some r) :
      r ∈ rs ∧ r.network.Contains dst ∧ key.length = r.network.len := by
    obtain ⟨hrs, hkeyOf⟩ := hmem hr
    obtain ⟨hformed, hmapped⟩ := h r hrs
    exact ⟨hrs, (contains_iff_keyOf hformed hmapped dst).mpr ⟨key, hkeyOf, hkey⟩, length_of_keyOf hkeyOf⟩
  obtain ⟨hcase, hmax⟩ := foldl_scan dst rs none
  rcases hcase with hempty | ⟨r, hr, hfound, hdst⟩
  · rw [scanBest, hempty]
    refine Trie.walk_of_none fun key hkey => ?_
    cases hfound : t.find key with
    | none => rfl
    | some r =>
      obtain ⟨hr, hdst, _⟩ := hcontains hkey hfound
      obtain ⟨b, hb, _⟩ := hmax r (.inl ⟨hr, hdst⟩)
      rw [hempty] at hb
      cases hb
  · obtain ⟨key, hkeyOf, hkey⟩ := (contains_iff_keyOf (h r hr).1 (h r hr).2 dst).mp hdst
    have hhere : t.find key = some r := by
      cases hr' : t.find key with
      | none =>
        rw [hfind, hnone, Option.or_none, List.find?_eq_none] at hr'
        exact absurd (decide_eq_true hkeyOf) (hr' r (mem_reverse.mpr hr))
      | some r' =>
        obtain ⟨hrs', hkeyOf'⟩ := hmem hr'
        have hnet := eq_of_keyOf (h r' hrs').1 (h r hr).1 hkeyOf' hkeyOf
        rw [inj_on_of_nodup_map hnodup hrs' hr hnet]
    rw [scanBest, hfound]
    refine Trie.walk_of_longest hkey hhere fun key' hkey' hlonger => ?_
    cases hr' : t.find key' with
    | none => rfl
    | some r' =>
      obtain ⟨hrs', hdst', hlength⟩ := hcontains hkey' hr'
      obtain ⟨b, hb, hle⟩ := hmax r' (.inl ⟨hrs', hdst'⟩)
      rw [hfound] at hb
      cases hb
      have := length_of_keyOf hkeyOf
      omega

end Lookup

end Routes
