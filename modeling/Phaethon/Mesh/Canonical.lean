import Phaethon.Mesh.RouteTable

/-!
# When the route table is canonical

Prefixes of peers are merged by their texts, but looked up as networks. The table has one route for each network, own
networks lead to the own node only, and the trie and the scan agree, exactly if every network is written in one way only
(`canonical_iff`).
-/

namespace Routes

open GoMap NetIp Gossip List Option
open Ipv4 (Addr)

variable {Q : Type}

/-- A peer, and the last message from it. -/
structure Heard (Q : Type) where
  sender : Sender
  quality : Q
  last : GossipInfo Q

open Heard

/-- What is stored of a peer; it does not depend on earlier messages. -/
def Heard.seen (h : Heard Q) : Seen Q :=
  ⟨h.sender, h.quality, (updateGossip .empty h.last).1⟩

/-- What the table should be. -/
structure Canonical (cfg : Config) (peers : List (Seen Q)) (order : Shuffle) (sort : Sorting) : Prop where
  once : ((routes cfg peers order sort).map (·.network)).Nodup
  own : ∀ r ∈ routes cfg peers order sort, r.network ∈ cfg.ownNetworks → ∀ e ∈ r.entries, e.nodeID = cfg.nodeID
  agree : ∃ t, buildTrie (routes cfg peers order sort) = some t ∧
    ∀ dst, RouteTrie.lookup t dst = scanBest dst (routes cfg peers order sort)

/-- The network that a text of a peer stands for: that of the first entry filed under it. -/
def networkOf (peers : List (Seen Q)) (text : String) : Option IPNet :=
  (entriesOf peers text).head?.map (·.network)

/-- The texts of peers that are not texts of own prefixes. -/
def Claimed (cfg : Config) (peers : List (Seen Q)) (text : String) (n : IPNet) : Prop :=
  text ∉ cfg.ownPrefixes ∧ networkOf peers text = some n

/-- Every network is written in one way, and none as an IPv4-mapped IPv6 address. -/
structure Tidy (cfg : Config) (peers : List (Seen Q)) : Prop where
  own_once : cfg.ownNetworks.Nodup
  claimed_once : ∀ {s t n}, Claimed cfg peers s n → Claimed cfg peers t n → s = t
  claimed_other : ∀ {s n}, Claimed cfg peers s n → n ∉ cfg.ownNetworks
  own_unmapped : ∀ n ∈ cfg.ownNetworks, ¬ n.Mapped
  claimed_unmapped : ∀ {s n}, Claimed cfg peers s n → ¬ n.Mapped
  static_unmapped : ∀ before static after n, cfg.staticRoutes = before ++ static :: after →
    parseCIDR static.network = some n → n.Mapped → ∃ m, m.text = n.text ∧
      (m ∈ cfg.ownNetworks ∨ (∃ s, Claimed cfg peers s m) ∨ ∃ b ∈ before, parseCIDR b.network = some m)
  static_own : ∀ static ∈ cfg.staticRoutes, ∀ {n m}, parseCIDR static.network = some n →
    m ∈ cfg.ownNetworks → m.text = n.text → ∀ id ∈ static.nodeIDs, id = cfg.nodeID

/-! ## Static routes -/

section Static

variable {rs : List MeshRoute} {static : StaticRoute} {text : String} {es : List RouteEntry}

/-- Some route has the text. -/
def HasText (rs : List MeshRoute) (text : String) : Prop := ∃ r ∈ rs, r.network.text = text

theorem mergeInto_cases (text : String) (es : List RouteEntry) (rs : List MeshRoute) :
    mergeInto text es rs = none ∧ ¬ HasText rs text ∨
      ∃ before r after, rs = before ++ r :: after ∧ r.network.text = text ∧
        mergeInto text es rs = some (before ++ ⟨r.network, es ++ r.entries⟩ :: after) := by
  induction rs with
  | nil =>
    left
    refine ⟨rfl, ?_⟩
    rintro ⟨r, hr, _⟩
    cases hr
  | cons r rs ih =>
    rw [mergeInto]
    by_cases hr : r.network.text = text
    · rw [if_pos hr]
      exact .inr ⟨[], r, rs, rfl, hr, rfl⟩
    · rw [if_neg hr]
      rcases ih with ⟨hnone, hno⟩ | ⟨before, r', after, rfl, hr', hsome⟩
      · rw [hnone]
        refine .inl ⟨rfl, ?_⟩
        rintro ⟨r', hr', htext⟩
        rcases mem_cons.mp hr' with rfl | hr'
        · exact hr htext
        · exact hno ⟨r', hr', htext⟩
      · rw [hsome]
        exact .inr ⟨r :: before, r', after, rfl, hr', rfl⟩

/-- What a static route does: nothing, if its prefix does not parse; it is merged into a route with its text, if there
is one; or it is added. -/
theorem mergeStatic_cases (rs : List MeshRoute) (static : StaticRoute) :
    parseCIDR static.network = none ∧ mergeStatic rs static = rs ∨
      ∃ n, parseCIDR static.network = some n ∧
        ((∃ before r after, rs = before ++ r :: after ∧ r.network.text = n.text ∧ mergeStatic rs static =
            before ++ ⟨r.network, static.nodeIDs.map (⟨·, .static⟩) ++ r.entries⟩ :: after) ∨
          ¬ HasText rs n.text ∧
            mergeStatic rs static = rs ++ [⟨n, static.nodeIDs.map (⟨·, .static⟩)⟩]) := by
  unfold mergeStatic
  cases parseCIDR static.network with
  | none => exact .inl ⟨rfl, rfl⟩
  | some n =>
    refine .inr ⟨n, rfl, ?_⟩
    dsimp only
    rcases mergeInto_cases n.text (static.nodeIDs.map (⟨·, .static⟩)) rs with
      ⟨hnone, hno⟩ | ⟨before, r, after, hrs, htext, hsome⟩
    · rw [hnone]
      exact .inr ⟨hno, rfl⟩
    · rw [hsome]
      exact .inl ⟨before, r, after, hrs, htext, rfl⟩

/-- The networks after a static route. -/
theorem networks_mergeStatic (rs : List MeshRoute) (static : StaticRoute) :
    (mergeStatic rs static).map (·.network) = rs.map (·.network) ∧
        (∀ n, parseCIDR static.network = some n → HasText rs n.text) ∨
      ∃ n, parseCIDR static.network = some n ∧ ¬ HasText rs n.text ∧
        (mergeStatic rs static).map (·.network) = rs.map (·.network) ++ [n] := by
  rcases mergeStatic_cases rs static with ⟨hnone, heq⟩ | ⟨n, hn, ⟨before, r, after, rfl, htext, heq⟩ | ⟨hno, heq⟩⟩
  · rw [heq, hnone]
    exact .inl ⟨rfl, fun n hn => by cases hn⟩
  · rw [heq]
    refine .inl ⟨by simp, fun m hm => ⟨r, by simp, ?_⟩⟩
    rw [htext, Option.some.inj (hn.symm.trans hm)]
  · rw [heq]
    exact .inr ⟨n, hn, hno, by simp⟩

theorem hasText_iff : HasText rs text ↔ text ∈ (rs.map (·.network)).map IPNet.text := by
  simp [HasText]

theorem nodup_mergeStatic (rs : List MeshRoute) (static : StaticRoute) :
    ((mergeStatic rs static).map (·.network)).Nodup ↔ (rs.map (·.network)).Nodup := by
  rcases networks_mergeStatic rs static with ⟨hsame, _⟩ | ⟨n, _, hno, hadd⟩
  · rw [hsame]
  · rw [hadd, nodup_append]
    refine ⟨fun h => h.1, fun h => ⟨h, nodup_singleton n, fun m hm m' hm' heq => ?_⟩⟩
    rw [mem_singleton.mp hm'] at heq
    exact hno (hasText_iff.mpr (mem_map.mpr ⟨m, hm, congrArg IPNet.text heq⟩))

theorem hasText_mergeStatic :
    HasText (mergeStatic rs static) text ↔
      HasText rs text ∨ ∃ n, parseCIDR static.network = some n ∧ n.text = text := by
  rw [hasText_iff, hasText_iff]
  rcases networks_mergeStatic rs static with ⟨hsame, hhas⟩ | ⟨n, hn, _, hadd⟩
  · rw [hsame]
    refine ⟨.inl, fun h => h.elim id ?_⟩
    rintro ⟨n, hn, rfl⟩
    exact hasText_iff.mp (hhas n hn)
  · rw [hadd, map_append, mem_append]
    refine or_congr_right ⟨fun h => ⟨n, hn, (mem_singleton.mp h).symm⟩, ?_⟩
    rintro ⟨m, hm, rfl⟩
    rw [Option.some.inj (hm.symm.trans hn)]
    exact mem_singleton.mpr rfl

/-- A property of the networks of routes, after a static route. -/
theorem forall_mergeStatic {P : IPNet → Prop} :
    (∀ r ∈ mergeStatic rs static, P r.network) ↔ (∀ r ∈ rs, P r.network) ∧
      ∀ n, parseCIDR static.network = some n → HasText rs n.text ∨ P n := by
  have hforall (l : List MeshRoute) : (∀ r ∈ l, P r.network) ↔ ∀ n ∈ l.map (·.network), P n := by simp
  rw [hforall, hforall]
  rcases networks_mergeStatic rs static with ⟨hsame, hhas⟩ | ⟨n, hn, hno, hadd⟩
  · rw [hsame]
    exact ⟨fun h => ⟨h, fun n hn => .inl (hhas n hn)⟩, fun h => h.1⟩
  · rw [hadd]
    constructor
    · intro h
      refine ⟨fun m hm => h m (mem_append_left _ hm), fun m hm => .inr (h m ?_)⟩
      rw [Option.some.inj (hm.symm.trans hn)]
      simp
    · rintro ⟨hold, hnew⟩ m hm
      rcases mem_append.mp hm with hm | hm
      · exact hold m hm
      · rw [mem_singleton.mp hm]
        exact (hnew n hn).resolve_left hno

/-- The static routes that are mapped have to be merged into a route before them. -/
theorem unmapped_foldl (rs : List MeshRoute) (statics : List StaticRoute) :
    (∀ r ∈ statics.foldl mergeStatic rs, ¬ r.network.Mapped) ↔ (∀ r ∈ rs, ¬ r.network.Mapped) ∧
      ∀ before static after n, statics = before ++ static :: after → parseCIDR static.network = some n →
        n.Mapped → HasText rs n.text ∨ ∃ b ∈ before, ∃ m, parseCIDR b.network = some m ∧ m.text = n.text := by
  induction statics generalizing rs with
  | nil => simp
  | cons static statics ih =>
    rw [foldl_cons, ih, forall_mergeStatic (P := fun n => ¬ n.Mapped)]
    constructor
    · rintro ⟨⟨hrs, hstatic⟩, hrest⟩
      refine ⟨hrs, fun before static' after n hsplit hn hmapped => ?_⟩
      cases before with
      | nil =>
        obtain ⟨rfl, -⟩ := List.cons.inj hsplit
        exact .inl ((hstatic n hn).resolve_right (not_not.mpr hmapped))
      | cons b before =>
        obtain ⟨rfl, htail⟩ := List.cons.inj hsplit
        rcases hrest before static' after n htail hn hmapped with htext | ⟨b, hb, hbefore⟩
        · rcases hasText_mergeStatic.mp htext with htext | hthis
          · exact .inl htext
          · exact .inr ⟨static, mem_cons_self, hthis⟩
        · exact .inr ⟨b, mem_cons_of_mem static hb, hbefore⟩
    · rintro ⟨hrs, hall⟩
      refine ⟨⟨hrs, fun n hn => or_not_of_imp fun hmapped => ?_⟩, ?_⟩
      · refine (hall [] static statics n rfl hn hmapped).resolve_right ?_
        rintro ⟨b, hb, _⟩
        cases hb
      · intro before static' after n hsplit hn hmapped
        rcases hall (static :: before) static' after n (congrArg (static :: ·) hsplit) hn hmapped with
          htext | ⟨b, hb, hbefore⟩
        · exact .inl (hasText_mergeStatic.mpr (.inl htext))
        · rcases mem_cons.mp hb with rfl | hb
          · exact .inl (hasText_mergeStatic.mpr (.inr hbefore))
          · exact .inr ⟨b, hb, hbefore⟩

/-- Static routes for the networks with some texts name only some nodes: so do the entries of their routes. -/
theorem entries_foldl (P own : String → Prop) {statics : List StaticRoute}
    (hstatics : ∀ static ∈ statics, ∀ n, parseCIDR static.network = some n → own n.text →
      ∀ id ∈ static.nodeIDs, P id)
    (hrs : ∀ r ∈ rs, own r.network.text → ∀ e ∈ r.entries, P e.nodeID) :
    ∀ r ∈ statics.foldl mergeStatic rs, own r.network.text → ∀ e ∈ r.entries, P e.nodeID := by
  induction statics generalizing rs with
  | nil => exact hrs
  | cons static statics ih =>
    refine ih (fun s hs => hstatics s (mem_cons_of_mem static hs)) fun r hr hown e he => ?_
    have hids (n : IPNet) (hn : parseCIDR static.network = some n) (hown : own n.text)
        (he : e ∈ static.nodeIDs.map (⟨·, .static⟩)) : P e.nodeID := by
      obtain ⟨id, hid, rfl⟩ := mem_map.mp he
      exact hstatics static mem_cons_self n hn hown id hid
    rcases mergeStatic_cases rs static with
      ⟨_, heq⟩ | ⟨n, hn, ⟨before, r', after, rfl, htext, heq⟩ | ⟨hno, heq⟩⟩
    · exact hrs r (heq ▸ hr) hown e he
    · rw [heq] at hr
      rcases mem_append.mp hr with hr | hr
      · exact hrs r (mem_append_left _ hr) hown e he
      · rcases mem_cons.mp hr with rfl | hr
        · rcases mem_append.mp he with he | he
          · exact hids n hn (htext ▸ hown) he
          · exact hrs r' (by simp) hown e he
        · exact hrs r (mem_append_right _ (mem_cons_of_mem r' hr)) hown e he
    · rw [heq] at hr
      rcases mem_append.mp hr with hr | hr
      · exact hrs r hr hown e he
      · obtain rfl := mem_singleton.mp hr
        exact hids n hn hown he

/-- Entries of a route stay. -/
theorem exists_mem_foldl (statics : List StaticRoute) {r : MeshRoute} (hr : r ∈ rs) :
    ∃ r' ∈ statics.foldl mergeStatic rs, r'.network = r.network ∧ r.entries ⊆ r'.entries := by
  induction statics generalizing rs r with
  | nil => exact ⟨r, hr, rfl, Subset.refl _⟩
  | cons static statics ih =>
    have hstep : ∃ r' ∈ mergeStatic rs static, r'.network = r.network ∧ r.entries ⊆ r'.entries := by
      rcases mergeStatic_cases rs static with
        ⟨_, heq⟩ | ⟨n, hn, ⟨before, r', after, rfl, htext, heq⟩ | ⟨hno, heq⟩⟩
      · rw [heq]
        exact ⟨r, hr, rfl, Subset.refl _⟩
      · rw [heq]
        rcases mem_append.mp hr with hr | hr
        · exact ⟨r, mem_append_left _ hr, rfl, Subset.refl _⟩
        · rcases mem_cons.mp hr with rfl | hr
          · exact ⟨_, mem_append_right _ mem_cons_self, rfl, subset_append_right _ _⟩
          · exact ⟨r, by simp [hr], rfl, Subset.refl _⟩
      · rw [heq]
        exact ⟨r, mem_append_left _ hr, rfl, Subset.refl _⟩
    obtain ⟨r₁, hr₁, hnet₁, hsub₁⟩ := hstep
    obtain ⟨r₂, hr₂, hnet₂, hsub₂⟩ := ih hr₁
    exact ⟨r₂, hr₂, hnet₂.trans hnet₁, Subset.trans hsub₁ hsub₂⟩

/-- The entries of a static route are at a route with its text. -/
theorem exists_static_entries (rs : List MeshRoute) {statics : List StaticRoute} {n : IPNet}
    (hmem : static ∈ statics) (hn : parseCIDR static.network = some n) :
    ∃ r ∈ statics.foldl mergeStatic rs, r.network.text = n.text ∧
      static.nodeIDs.map (⟨·, .static⟩) ⊆ r.entries := by
  induction statics generalizing rs with
  | nil => cases hmem
  | cons s statics ih =>
    rcases mem_cons.mp hmem with rfl | hmem
    · have hstep : ∃ r ∈ mergeStatic rs static, r.network.text = n.text ∧
          static.nodeIDs.map (⟨·, .static⟩) ⊆ r.entries := by
        rcases mergeStatic_cases rs static with
          ⟨hnone, _⟩ | ⟨m, hm, ⟨before, r, after, rfl, htext, heq⟩ | ⟨hno, heq⟩⟩
        · rw [hn] at hnone
          cases hnone
        · rw [heq, Option.some.inj (hn.symm.trans hm)]
          exact ⟨_, mem_append_right _ mem_cons_self, htext, subset_append_left _ _⟩
        · rw [heq, Option.some.inj (hn.symm.trans hm)]
          exact ⟨_, mem_append_right _ mem_cons_self, rfl, Subset.refl _⟩
      obtain ⟨r, hr, htext, hsub⟩ := hstep
      obtain ⟨r', hr', hnet, hsub'⟩ := exists_mem_foldl statics hr
      exact ⟨r', hr', hnet ▸ htext, Subset.trans hsub hsub'⟩
    · exact ih (mergeStatic rs s) hmem

end Static

/-! ## Prefixes -/

section Base

variable {cfg : Config} {peers : List (Seen Q)} {order : Shuffle} {n : IPNet}

/-- The routes before static ones are merged. -/
def base (cfg : Config) (peers : List (Seen Q)) (order : Shuffle) : List MeshRoute :=
  peerRoutes cfg peers order ++ ownRoutes cfg

theorem networks_peerRoutes :
    (peerRoutes cfg peers order).map (·.network) =
      ((order.run ((filed peers).map (·.1)).dedup).filter (· ∉ cfg.ownPrefixes)).filterMap (networkOf peers) := by
  rw [peerRoutes, List.map_filterMap]
  congr 1
  funext text
  rw [routeOf, Option.map_map]
  rfl

/-- A text that stands for a network is one that something is filed under. -/
theorem mem_keys_of_networkOf {text : String} (h : networkOf peers text = some n) :
    text ∈ ((filed peers).map (·.1)).dedup := by
  obtain ⟨e, he, _⟩ := map_eq_some_iff.mp h
  obtain ⟨⟨k, e'⟩, hmem, rfl⟩ := mem_map.mp (mem_of_mem_head? he)
  obtain ⟨hfiled, hk⟩ := mem_filter.mp hmem
  rw [mem_dedup, ← of_decide_eq_true hk]
  exact mem_map_of_mem hfiled

theorem claimed_iff_mem (order : Shuffle) {text : String} :
    Claimed cfg peers text n ↔
      text ∈ (order.run ((filed peers).map (·.1)).dedup).filter (· ∉ cfg.ownPrefixes) ∧
        networkOf peers text = some n := by
  rw [mem_filter, order.mem_run, decide_eq_true_eq]
  exact ⟨fun h => ⟨⟨mem_keys_of_networkOf h.2, h.1⟩, h.2⟩, fun h => ⟨h.1.2, h.2⟩⟩

theorem mem_networks_peerRoutes :
    n ∈ (peerRoutes cfg peers order).map (·.network) ↔ ∃ text, Claimed cfg peers text n := by
  rw [networks_peerRoutes, mem_filterMap]
  exact exists_congr fun text => (claimed_iff_mem order).symm

theorem nodup_networks_peerRoutes :
    ((peerRoutes cfg peers order).map (·.network)).Nodup ↔
      ∀ {s t n}, Claimed cfg peers s n → Claimed cfg peers t n → s = t := by
  have hkeys : ((order.run ((filed peers).map (·.1)).dedup).filter (· ∉ cfg.ownPrefixes)).Nodup :=
    ((order.perm _).nodup_iff.mpr (nodup_dedup _)).filter _
  rw [networks_peerRoutes, Nodup, pairwise_filterMap]
  constructor
  · intro h s t n hs ht
    obtain ⟨hs, hsn⟩ := (claimed_iff_mem order).mp hs
    obtain ⟨ht, htn⟩ := (claimed_iff_mem order).mp ht
    by_contra hne
    have hsymm : Std.Symm fun a a' => ∀ b, networkOf peers a = some b → ∀ b', networkOf peers a' = some b' → b ≠ b' :=
      ⟨fun a b hab x hx y hy heq => hab y hy x hx heq.symm⟩
    exact h.forall hs ht hne n hsn n htn rfl
  · intro h
    refine hkeys.pairwise_of_forall_ne fun s hs t ht hne m hsm m' htm heq => hne ?_
    subst heq
    exact h ((claimed_iff_mem order).mpr ⟨hs, hsm⟩) ((claimed_iff_mem order).mpr ⟨ht, htm⟩)

theorem networks_ownRoutes : (ownRoutes cfg).map (·.network) = cfg.ownNetworks := by
  rw [ownRoutes, List.map_map]
  exact List.map_id _

theorem mem_networks_base :
    n ∈ (base cfg peers order).map (·.network) ↔
      (∃ text, Claimed cfg peers text n) ∨ n ∈ cfg.ownNetworks := by
  rw [base, map_append, mem_append, mem_networks_peerRoutes, networks_ownRoutes]

theorem nodup_networks_base :
    ((base cfg peers order).map (·.network)).Nodup ↔
      (∀ {s t n}, Claimed cfg peers s n → Claimed cfg peers t n → s = t) ∧ cfg.ownNetworks.Nodup ∧
        ∀ {s n}, Claimed cfg peers s n → n ∉ cfg.ownNetworks := by
  rw [base, map_append, nodup_append, nodup_networks_peerRoutes, networks_ownRoutes]
  refine and_congr_right fun _ => and_congr_right fun _ => ⟨fun h s n hs hn => ?_, fun h n hn m hm heq => ?_⟩
  · exact h n (mem_networks_peerRoutes.mpr ⟨s, hs⟩) n hn rfl
  · obtain ⟨s, hs⟩ := mem_networks_peerRoutes.mp hn
    exact h hs (heq ▸ hm)

end Base

/-! ## The table -/

section Table

variable {cfg : Config} {heard : List (Heard Q)} {order : Shuffle} {n : IPNet}

theorem Heard.formed_claim {h : Heard Q} {cs : PeerClaimedSubnetEntry Q} (hcs : cs ∈ h.seen.info.claimedSubnets) :
    cs.subnet.Formed := by
  obtain ⟨claim, _, hreceived⟩ := mem_filterMap.mp hcs
  obtain ⟨n, hn, rfl⟩ := map_eq_some_iff.mp hreceived
  exact formed_of_parseCIDR hn

/-- What is filed are networks as they come from the parser. -/
theorem formed_filed {e : String × PeerEntry} (he : e ∈ filed (heard.map seen)) : e.2.network.Formed := by
  rcases mem_append.mp he with he | he
  · obtain ⟨p, hp, he⟩ := mem_flatMap.mp he
    obtain ⟨h, _, rfl⟩ := mem_map.mp hp
    obtain ⟨r, hr, hentry⟩ := mem_filterMap.mp he
    obtain ⟨_, _, rfl⟩ := map_eq_some_iff.mp hentry
    obtain ⟨route, _, hreceived⟩ := mem_filterMap.mp hr
    obtain ⟨n, hn, rfl⟩ := map_eq_some_iff.mp hreceived
    exact formed_of_parseCIDR hn
  · obtain ⟨p, hp, he⟩ := mem_flatMap.mp he
    obtain ⟨h, _, rfl⟩ := mem_map.mp hp
    rcases mem_append.mp he with he | he
    · obtain ⟨n, hn, rfl⟩ := mem_map.mp he
      obtain ⟨cs, hcs, rfl⟩ := map_eq_some_iff.mp (mem_toList.mp hn)
      exact h.formed_claim (mem_of_find?_eq_some hcs)
    · obtain ⟨cs, hcs, rfl⟩ := mem_map.mp he
      exact h.formed_claim (mem_filter.mp hcs).1

theorem formed_base {r : MeshRoute} (hr : r ∈ base cfg (heard.map seen) order) : r.network.Formed := by
  have hn := mem_map_of_mem (f := MeshRoute.network) hr
  rcases mem_networks_base.mp hn with ⟨text, _, htext⟩ | hown
  · obtain ⟨e, he, heq⟩ := map_eq_some_iff.mp htext
    obtain ⟨e', he', rfl⟩ := mem_map.mp (mem_of_mem_head? he)
    rw [← heq]
    exact formed_filed (mem_filter.mp he').1
  · obtain ⟨s, _, hs⟩ := mem_filterMap.mp hown
    exact formed_of_parseCIDR hs

theorem formed_foldl {rs : List MeshRoute} {statics : List StaticRoute} (h : ∀ r ∈ rs, r.network.Formed) :
    ∀ r ∈ statics.foldl mergeStatic rs, r.network.Formed := by
  induction statics generalizing rs with
  | nil => exact h
  | cons static statics ih =>
    exact ih (forall_mergeStatic.mpr ⟨h, fun n hn => .inr (formed_of_parseCIDR hn)⟩)

theorem nodup_foldl (rs : List MeshRoute) (statics : List StaticRoute) :
    ((statics.foldl mergeStatic rs).map (·.network)).Nodup ↔ (rs.map (·.network)).Nodup := by
  induction statics generalizing rs with
  | nil => rfl
  | cons static statics ih => rw [foldl_cons, ih, nodup_mergeStatic]

/-- Networks of the table are told apart by their texts. -/
theorem eq_of_text {m : IPNet} (hn : n.Formed) (hm : m.Formed) (hn' : ¬ n.Mapped) (hm' : ¬ m.Mapped)
    (h : n.text = m.text) : n = m := by
  have hparse := parseCIDR_text hn hn'
  rw [h, parseCIDR_text hm hm'] at hparse
  exact (Option.some.inj hparse).symm

theorem hasText_base {peers : List (Seen Q)} {text : String} :
    HasText (base cfg peers order) text ↔
      ∃ m, m.text = text ∧ (m ∈ cfg.ownNetworks ∨ ∃ s, Claimed cfg peers s m) := by
  rw [hasText_iff, List.mem_map]
  refine exists_congr fun m => ?_
  rw [mem_networks_base, and_comm, or_comm]

/-- Networks of peers and own networks are in the table. -/
theorem exists_mem_unsorted {peers : List (Seen Q)} (h : (∃ text, Claimed cfg peers text n) ∨ n ∈ cfg.ownNetworks)
    (order : Shuffle) : ∃ r ∈ unsorted cfg peers order, r.network = n := by
  have hbase : n ∈ (base cfg peers order).map (·.network) := mem_networks_base.mpr h
  obtain ⟨r₀, hr₀, rfl⟩ := mem_map.mp hbase
  obtain ⟨r, hr, hnet, _⟩ := exists_mem_foldl cfg.staticRoutes hr₀
  exact ⟨r, hr, hnet⟩

/-- No route of the table is mapped. -/
theorem unmapped_iff (cfg : Config) (peers : List (Seen Q)) (order : Shuffle) :
    (∀ r ∈ unsorted cfg peers order, ¬ r.network.Mapped) ↔
      (∀ n ∈ cfg.ownNetworks, ¬ n.Mapped) ∧ (∀ {s n}, Claimed cfg peers s n → ¬ n.Mapped) ∧
        ∀ before static after n, cfg.staticRoutes = before ++ static :: after →
          parseCIDR static.network = some n → n.Mapped → ∃ m, m.text = n.text ∧
            (m ∈ cfg.ownNetworks ∨ (∃ s, Claimed cfg peers s m) ∨
              ∃ b ∈ before, parseCIDR b.network = some m) := by
  have hbase : (∀ r ∈ base cfg peers order, ¬ r.network.Mapped) ↔
      (∀ n ∈ cfg.ownNetworks, ¬ n.Mapped) ∧ ∀ {s n}, Claimed cfg peers s n → ¬ n.Mapped := by
    have hforall : (∀ r ∈ base cfg peers order, ¬ r.network.Mapped) ↔
        ∀ n ∈ (base cfg peers order).map (·.network), ¬ n.Mapped := by simp
    rw [hforall]
    simp only [mem_networks_base]
    exact ⟨fun h => ⟨fun n hn => h n (.inr hn), fun {s n} hs => h n (.inl ⟨s, hs⟩)⟩,
      fun h n hn => hn.elim (fun ⟨_, hs⟩ => h.2 hs) (h.1 n)⟩
  rw [unsorted, ← base, unmapped_foldl, hbase, and_assoc]
  refine and_congr_right fun _ => and_congr_right fun _ => forall_congr' fun before => ?_
  refine forall_congr' fun static => forall_congr' fun after => forall_congr' fun n => ?_
  refine forall_congr' fun _ => forall_congr' fun _ => forall_congr' fun _ => ?_
  rw [hasText_base]
  constructor
  · rintro (⟨m, htext, hm⟩ | ⟨b, hb, m, hm, htext⟩)
    · exact ⟨m, htext, hm.imp_right .inl⟩
    · exact ⟨m, htext, .inr (.inr ⟨b, hb, hm⟩)⟩
  · rintro ⟨m, htext, hm | hm | ⟨b, hb, hm⟩⟩
    · exact .inl ⟨m, htext, .inl hm⟩
    · exact .inl ⟨m, htext, .inr hm⟩
    · exact .inr ⟨b, hb, m, hm, htext⟩

/-- Routes in the order of their masks, those of one length as they are. -/
def Sorting.stable : Sorting where
  run := insertionSort fun a b => b.network.len ≤ a.network.len
  perm l := perm_insertionSort _ l
  sorted l := by
    exact pairwise_insertionSort _ l

/-- A peer that passes on a claim for 10.1.2.3/16. -/
def echo : Heard Unit :=
  ⟨⟨"b", 1, 1, ""⟩, (), ⟨[], [], [⟨"10.1.2.3/16", "c", 1, []⟩]⟩⟩

/-- The node owns 10.1.0.0/16, and has two routes for it: one leads to another node. -/
theorem own_network_twice : ¬ Canonical ⟨"a", "10.1.0.0/16", [], []⟩ ([echo].map seen) .asListed .stable := by
  rintro ⟨honce, _⟩
  have hnetworks : (routes ⟨"a", "10.1.0.0/16", [], []⟩ ([echo].map seen) .asListed .stable).map (·.network) =
      [.v4 0x0a010000 16, .v4 0x0a010000 16] := by
    decide +kernel
  rw [hnetworks] at honce
  simp at honce

/-- The table is canonical exactly if every network is written in one way, and none as an IPv4-mapped IPv6 address. -/
theorem canonical_iff (cfg : Config) (heard : List (Heard Q)) (order : Shuffle) (sort : Sorting) :
    Canonical cfg (heard.map seen) order sort ↔ Tidy cfg (heard.map seen) := by
  have hformed : ∀ r ∈ unsorted cfg (heard.map seen) order, r.network.Formed :=
    formed_foldl fun r hr => formed_base hr
  generalize heard.map seen = peers at *
  have hmem (r : MeshRoute) : r ∈ routes cfg peers order sort ↔ r ∈ unsorted cfg peers order :=
    (sort.perm _).mem_iff
  have hnodup : ((routes cfg peers order sort).map (·.network)).Nodup ↔
      ((base cfg peers order).map (·.network)).Nodup := by
    rw [routes, ((sort.perm _).map _).nodup_iff]
    exact nodup_foldl _ _
  constructor
  · rintro ⟨honce, hown, t, ht, _⟩
    have hunmapped : ∀ r ∈ unsorted cfg peers order, ¬ r.network.Mapped := by
      intro r hr hmapped
      rw [not_insertable_of_mapped ((hmem r).mpr hr) (fun r' hr' => hformed r' ((hmem r').mp hr')) hmapped] at ht
      cases ht
    obtain ⟨hclaimed, hownOnce, hother⟩ := nodup_networks_base.mp (hnodup.mp honce)
    obtain ⟨hownUnmapped, hclaimedUnmapped, hstatic⟩ := (unmapped_iff cfg peers order).mp hunmapped
    refine ⟨hownOnce, hclaimed, hother, hownUnmapped, hclaimedUnmapped, hstatic, ?_⟩
    intro static hstatics n m hn hm htext id hid
    obtain ⟨r, hr, hrtext, hsub⟩ := exists_static_entries (base cfg peers order) hstatics hn
    obtain ⟨r₁, hr₁, rfl⟩ := exists_mem_unsorted (.inr hm) order
    have hsame : r.network = r₁.network :=
      eq_of_text (hformed r hr) (hformed r₁ hr₁) (hunmapped r hr) (hunmapped r₁ hr₁) (hrtext.trans htext.symm)
    exact hown r ((hmem r).mpr hr) (hsame ▸ hm) ⟨id, .static⟩ (hsub (mem_map.mpr ⟨id, hid, rfl⟩))
  · intro h
    have hunmapped : ∀ r ∈ unsorted cfg peers order, ¬ r.network.Mapped :=
      (unmapped_iff cfg peers order).mpr ⟨h.own_unmapped, h.claimed_unmapped, h.static_unmapped⟩
    have honce := hnodup.mpr (nodup_networks_base.mpr ⟨h.claimed_once, h.own_once, h.claimed_other⟩)
    have hinsertable : Insertable (routes cfg peers order sort) := fun r hr =>
      ⟨hformed r ((hmem r).mp hr), hunmapped r ((hmem r).mp hr)⟩
    refine ⟨honce, fun r hr hrown => ?_, lookup_eq_scanBest hinsertable honce⟩
    refine entries_foldl (· = cfg.nodeID) (fun text => ∃ m ∈ cfg.ownNetworks, m.text = text)
      (fun static hstatic n hn ⟨m, hm, htext⟩ => h.static_own static hstatic hn hm htext)
      (fun r hr ⟨m, hm, htext⟩ e he => ?_) r ((hmem r).mp hr) ⟨r.network, hrown, rfl⟩
    rcases mem_append.mp hr with hpeer | hown
    · -- A network of a peer has another text than the own ones.
      obtain ⟨text, hclaimed⟩ := mem_networks_peerRoutes.mp (mem_map_of_mem hpeer)
      obtain ⟨r', hr', hnet⟩ := exists_mem_unsorted (.inl ⟨text, hclaimed⟩) order
      obtain ⟨r₁, hr₁, rfl⟩ := exists_mem_unsorted (.inr hm) order
      rw [← hnet] at htext hclaimed
      have hsame : r'.network = r₁.network :=
        eq_of_text (hformed r' hr') (hformed r₁ hr₁) (hunmapped r' hr') (hunmapped r₁ hr₁) htext.symm
      exact absurd (hsame ▸ hm) (h.claimed_other hclaimed)
    · obtain ⟨n, _, rfl⟩ := mem_map.mp hown
      rw [mem_singleton.mp he]

end Table

end Routes
