import Phaethon.Db.Live

/-!
# What the maps of the matcher hold

The objects of the live matcher are seen through what they hold: each operation on the maps is an
operation on their content. A rewiring leaves the content alone, and where every `via` reference names a
proxy or nothing, it makes every proxy point at the one it names. Then the chain of a proxy can be read off
the content.
-/

open Function List

namespace Config

variable {π ρ : Type*}

/-! ## Pools -/

theorem Pool.map_congr {pool : Pool π} {f g : π → ρ} (hproxies : ∀ name p, pool.proxies name = some p → f p = g p)
    (hnodes : ∀ name sub, pool.subscriptions name = some sub → ∀ node ∈ sub.nodes, f node.2 = g node.2) :
    pool.map f = pool.map g := by
  apply Pool.ext
  · funext name
    exact Option.map_congr fun p hp => hproxies name p hp
  · rfl
  · funext name
    apply Option.map_congr
    intro sub hsub
    apply Subscription.ext
    · rfl
    · apply map_congr_left
      intro node hnode
      rw [hnodes name sub hsub node hnode]
  · rfl

theorem Pool.map_setProxy (pool : Pool π) (f : π → ρ) (key : String) (h : key ≠ "") (p : Option π) :
    (pool.setProxy key h p).map f = (pool.map f).setProxy key h (p.map f) := by
  apply Pool.ext
  · exact funext fun name => (apply_update (fun _ => Option.map f) ..)
  · rfl
  · rfl
  · rfl

theorem Pool.map_setSubscription (pool : Pool π) (f : π → ρ) (key : String) (sub : Option (Subscription π)) :
    (pool.setSubscription key sub).map f = (pool.map f).setSubscription key (sub.map (·.map f)) := by
  apply Pool.ext
  · rfl
  · rfl
  · exact funext fun name => (apply_update (fun _ => Option.map (Subscription.map f)) ..)
  · rfl

end Config

namespace Db

open Config Chain

namespace Live

variable (s : Live)

/-- What the maps hold. -/
def content : Pool ProxyRecord := s.wiring.pool.map s.record

variable (key : Key)

theorem content_putProxy (r : ProxyRecord) :
    (s.putProxy key r).content = s.content.setProxy key key.2 (some r) := by
  have hself : (s.putProxy key r).record s.wiring.fresh = r := by
    simp [record, putProxy, Wiring.putProxy]
  have hrest {p : ℕ} (h : p < s.wiring.fresh) : (s.putProxy key r).record p = s.record p := by
    simp [record, putProxy, Wiring.putProxy, h.ne]
  have hcongr : s.wiring.pool.map (s.putProxy key r).record = s.content :=
    Pool.map_congr (fun _ _ hp => hrest (s.wiring.proxies_lt hp))
      (fun _ _ hsub node hnode => hrest (s.wiring.nodes_lt hsub node hnode))
  calc (s.putProxy key r).content
      = (s.wiring.pool.map (s.putProxy key r).record).setProxy key key.2
          (some ((s.putProxy key r).record s.wiring.fresh)) := Pool.map_setProxy ..
    _ = s.content.setProxy key key.2 (some r) := by rw [hcongr, hself]

theorem content_deleteProxy :
    (s.deleteProxy key).content = s.content.setProxy key key.2 none :=
  Pool.map_setProxy ..

theorem content_putGroup (g : { g : GroupRecord // g.group.name = key.1 }) :
    (s.putGroup key g).content =
      s.content.setGroup key key.2 (some g.1.group) (fun _ h => Option.some.inj h ▸ g.2) := by
  apply Pool.ext
  · rfl
  · change update s.wiring.pool.groups g.1.group.name _ = update s.wiring.pool.groups key.1 _
    rw [g.2]
  · rfl
  · rfl

theorem content_deleteGroup :
    (s.deleteGroup key).content = s.content.setGroup key key.2 none (fun _ h => by cases h) :=
  rfl

theorem content_deleteSubscription :
    (s.deleteSubscription key).content = s.content.setSubscription key none :=
  Pool.map_setSubscription ..

theorem content_putSubscription (enabled : Bool) (nodes : Nodes) :
    (s.putSubscription key enabled nodes).content =
      s.content.setSubscription key (some (nodes.subscription enabled)) := by
  have hrest {p : ℕ} (h : p < s.wiring.fresh) :
      (s.putSubscription key enabled nodes).record p = s.record p := by
    simp [record, putSubscription, Wiring.putSubscription, h]
  have hcongr : s.wiring.pool.map (s.putSubscription key enabled nodes).record = s.content :=
    Pool.map_congr (fun _ _ hp => hrest (s.wiring.proxies_lt hp))
      (fun _ _ hsub node hnode => hrest (s.wiring.nodes_lt hsub node hnode))
  have hnew : (nodes.objects enabled s.wiring.fresh).map (s.putSubscription key enabled nodes).record =
      nodes.subscription enabled := by
    apply Subscription.ext
    · rfl
    · -- the object at the place of an entry holds that entry
      apply ext_getElem
      · simp [Subscription.map, Nodes.objects, Nodes.subscription]
      · intro i h h'
        simp only [Nodes.subscription, length_map] at h'
        simp [Subscription.map, Nodes.objects, Nodes.subscription, record, putSubscription,
          Wiring.putSubscription, getElem?_eq_getElem h']
  calc (s.putSubscription key enabled nodes).content
      = (s.wiring.pool.map (s.putSubscription key enabled nodes).record).setSubscription key
          (some ((nodes.objects enabled s.wiring.fresh).map
            (s.putSubscription key enabled nodes).record)) := Pool.map_setSubscription ..
    _ = s.content.setSubscription key (some (nodes.subscription enabled)) := by rw [hcongr, hnew]

end Live

/-! ## Wiring -/

variable (s : Wiring)

/-- Where no proxy is named, no group is either: every reference names a proxy or nothing. -/
def Wiring.ViaProxies : Prop :=
  ∀ name p, s.pool.proxies name = some p → s.pool.proxies (s.via p) = none → s.pool.groups (s.via p) = none

/-- The proxy `p` points at the one its reference names. -/
def Wiring.LinkedAt (p : ℕ) : Prop :=
  (s.next p).ref? = s.pool.proxies (s.via p)

/-- Every proxy in the map points at the one its reference names. -/
def Wiring.Linked : Prop :=
  ∀ name p, s.pool.proxies name = some p → s.LinkedAt p

/-- The nodes of subscriptions are no proxies of the map, and point at nothing. -/
def Wiring.Loose : Prop :=
  ∀ name sub, s.pool.subscriptions name = some sub → ∀ node ∈ sub.nodes,
    s.next node.2 = .nil ∧ ∀ name, s.pool.proxies name ≠ some node.2

/-- Only pointers of proxies in the map were written, and to what their references name. -/
structure Relinked (s t : Wiring) : Prop extends Repointed s t where
  next : ∀ x, t.next x = s.next x ∨ (∃ name, s.pool.proxies name = some x) ∧ t.LinkedAt x

variable {s t u : Wiring}

theorem Repointed.linkedAt_iff (h : Repointed s t) {p : ℕ} :
    t.LinkedAt p ↔ (t.next p).ref? = s.pool.proxies (s.via p) := by
  unfold Wiring.LinkedAt
  rw [h.pool, h.via]

theorem Repointed.viaProxies (h : Repointed s t) (hs : s.ViaProxies) : t.ViaProxies := by
  unfold Wiring.ViaProxies
  rw [h.pool, h.via]
  exact hs

theorem Relinked.refl : Relinked s s := ⟨.refl, fun _ => .inl rfl⟩

theorem Relinked.linkedAt (h : Relinked s t) {p : ℕ} (hp : s.LinkedAt p) : t.LinkedAt p := by
  rcases h.next p with hsame | ⟨_, hlinked⟩
  · rw [h.linkedAt_iff, hsame]
    exact hp
  · exact hlinked

theorem Relinked.trans (h : Relinked s t) (h' : Relinked t u) : Relinked s u := by
  refine ⟨h.toRepointed.trans h'.toRepointed, fun x => ?_⟩
  rcases h'.next x with hsame | ⟨hmem, hlinked⟩
  · rcases h.next x with hsame' | ⟨hmem, hlinked⟩
    · exact .inl (hsame.trans hsame')
    · exact .inr ⟨hmem, h'.linkedAt hlinked⟩
  · exact .inr ⟨h.pool ▸ hmem, hlinked⟩

/-- A walk from a proxy of the map: the first pointer is written whatever comes after it. -/
theorem setNext_relinked {depth n p : ℕ} {sel : ℕ → Selection} {visited : List ℕ} {ok : Bool}
    {name : String} (hs : s.ViaProxies) (hp : s.pool.proxies name = some p)
    (h : setNext depth n sel p visited s = some (t, ok)) :
    Relinked s t ∧ (visited = [] → t.LinkedAt p) := by
  induction n generalizing sel p visited s name with
  | zero => cases h
  | succ n ih =>
    have hwrite (link : Link ℕ) (idx : String → ℕ) (hlink : link.ref? = s.pool.proxies (s.via p)) :
        Relinked s (s.point p link idx) ∧ (s.point p link idx).LinkedAt p := by
      have hself : (s.point p link idx).LinkedAt p := by
        unfold Wiring.LinkedAt
        rw [Wiring.point_next_self]
        exact hlink
      refine ⟨⟨⟨rfl, rfl, rfl, rfl⟩, fun x => ?_⟩, hself⟩
      by_cases hx : x = p
      · exact .inr ⟨⟨name, hx ▸ hp⟩, hx ▸ hself⟩
      · exact .inl (Wiring.point_next_of_ne hx)
    unfold setNext Wiring.viaTarget at h
    cases hvia : s.pool.proxies (s.via p) with
    | none =>
      -- the reference names nothing at all
      simp only [hvia, hs name p hp hvia] at h
      obtain ⟨rfl, _⟩ := Prod.mk.inj (Option.some.inj h)
      obtain ⟨hrel, hself⟩ := hwrite .out s.idx hvia.symm
      exact ⟨hrel, fun _ => hself⟩
    | some q =>
      simp only [hvia] at h
      split at h
      case isTrue hq =>
          obtain ⟨rfl, _⟩ := Prod.mk.inj (Option.some.inj h)
          refine ⟨⟨⟨rfl, rfl, rfl, rfl⟩, fun x => .inl rfl⟩, ?_⟩
          rintro rfl
          cases hq
      case isFalse =>
          obtain ⟨hrel, hself⟩ := hwrite (.ref q) s.idx hvia.symm
          obtain ⟨hrest, _⟩ := ih (hrel.viaProxies hs) hvia h
          exact ⟨hrel.trans hrest, fun _ => hrest.linkedAt hself⟩

theorem rewireNextChains_relinked {sel : String → ℕ → Selection} {depth steps : ℕ}
    {order : List String} (hs : s.ViaProxies) (h : rewireNextChains sel depth steps order s = some t) :
    Relinked s t ∧ ∀ name ∈ order, ∀ p, s.pool.proxies name = some p → t.LinkedAt p := by
  induction order generalizing s with
  | nil =>
    cases h
    exact ⟨.refl, fun _ hname => by cases hname⟩
  | cons name order ih =>
    unfold rewireNextChains at h
    split at h
    case h_1 hnone =>
        obtain ⟨hrest, hlinked⟩ := ih hs h
        refine ⟨hrest, fun other hother p hp => ?_⟩
        rcases mem_cons.mp hother with rfl | hother
        · rw [hnone] at hp
          cases hp
        · exact hlinked other hother p hp
    case h_2 q hq =>
        obtain ⟨⟨u, ok⟩, hset, h⟩ := Option.bind_eq_some_iff.mp h
        obtain ⟨hfirst, hqlinked⟩ := setNext_relinked hs hq hset
        obtain ⟨hrest, hlinked⟩ := ih (hfirst.viaProxies hs) h
        refine ⟨hfirst.trans hrest, fun other hother p hp => ?_⟩
        rcases mem_cons.mp hother with rfl | hother
        · obtain rfl := Option.some.inj (hq.symm.trans hp)
          exact hrest.linkedAt (hqlinked rfl)
        · exact hlinked other hother p (hfirst.pool ▸ hp)

/-- After every proxy of the map had its turn, all of them point where they should. -/
theorem Relinked.linked {order : List String} (h : Relinked s t) (horder : order.Perm s.keys)
    (hlinked : ∀ name ∈ order, ∀ p, s.pool.proxies name = some p → t.LinkedAt p) : t.Linked := by
  intro name p hp
  rw [h.pool] at hp
  have hkey : name ∈ s.keys := (s.mem_keys name).mpr (hp ▸ rfl)
  exact hlinked name (horder.mem_iff.mpr hkey) p hp

theorem Relinked.loose (h : Relinked s t) (hs : s.Loose) : t.Loose := by
  intro name sub hsub node hnode
  rw [h.pool] at hsub
  obtain ⟨hnil, hproxy⟩ := hs name sub hsub node hnode
  rw [h.pool]
  refine ⟨?_, hproxy⟩
  rcases h.next node.2 with hsame | ⟨⟨other, hother⟩, _⟩
  · exact hsame.trans hnil
  · exact absurd hother (hproxy other)

theorem Wiring.Loose.putProxy (hs : s.Loose) (key : Key) (via : String) : (s.putProxy key via).Loose := by
  intro name sub hsub node hnode
  have hlt := s.nodes_lt hsub node hnode
  obtain ⟨hnil, hproxy⟩ := hs name sub hsub node hnode
  refine ⟨(update_of_ne hlt.ne ..).trans hnil, fun other => ?_⟩
  by_cases hother : other = key
  · simp only [Wiring.putProxy, Pool.setProxy, hother, update_self, ne_eq, Option.some.injEq]
    exact hlt.ne'
  · simp only [Wiring.putProxy, Pool.setProxy, update_of_ne hother]
    exact hproxy other

theorem Wiring.Loose.deleteProxy (hs : s.Loose) (key : Key) : (s.deleteProxy key).Loose := by
  intro name sub hsub node hnode
  obtain ⟨hnil, hproxy⟩ := hs name sub hsub node hnode
  refine ⟨hnil, fun other => ?_⟩
  by_cases hother : other = key
  · simp [Wiring.deleteProxy, Pool.setProxy, hother]
  · simp only [Wiring.deleteProxy, Pool.setProxy, update_of_ne hother]
    exact hproxy other

theorem Wiring.Loose.putSubscription (hs : s.Loose) (key : Key) (enabled : Bool) (nodes : Nodes) :
    (s.putSubscription key enabled nodes).Loose := by
  intro name sub hsub node hnode
  by_cases hname : name = key
  · -- the new nodes come after all objects in use
    simp only [Wiring.putSubscription, Pool.setSubscription, hname, update_self,
      Option.some.injEq] at hsub
    subst hsub
    obtain ⟨e, he, rfl⟩ := mem_map.mp hnode
    have hge : s.fresh ≤ e.2 := le_snd_of_mem_zipIdx he
    refine ⟨if_neg (by dsimp only; omega), fun other hother => ?_⟩
    have hlt : e.2 < s.fresh := s.proxies_lt hother
    omega
  · simp only [Wiring.putSubscription, Pool.setSubscription, update_of_ne hname] at hsub
    obtain ⟨hnil, hproxy⟩ := hs name sub hsub node hnode
    exact ⟨(if_pos (s.nodes_lt hsub node hnode)).trans hnil, hproxy⟩

theorem Wiring.Loose.deleteSubscription (hs : s.Loose) (key : Key) : (s.deleteSubscription key).Loose := by
  intro name sub hsub node hnode
  by_cases hname : name = key
  · simp [Wiring.deleteSubscription, Pool.setSubscription, hname] at hsub
  · simp only [Wiring.deleteSubscription, Pool.setSubscription, update_of_ne hname] at hsub
    exact hs name sub hsub node hnode

theorem Wiring.Linked.putSubscription (hs : s.Linked) (key : Key) (enabled : Bool) (nodes : Nodes) :
    (s.putSubscription key enabled nodes).Linked := by
  intro name p hp
  have hlt : p < s.fresh := s.proxies_lt hp
  have hlinked := hs name p hp
  simpa only [Wiring.LinkedAt, Wiring.putSubscription, Pool.setSubscription, hlt, if_true] using hlinked

/-- A new proxy that names no other, and that no other names. -/
theorem Wiring.Linked.putProxy (hs : s.Linked) {key : Key} {via : String} (hself : via ≠ key)
    (hvia : s.pool.proxies via = none)
    (hrefs : ∀ name p, s.pool.proxies name = some p → s.via p ≠ key) : (s.putProxy key via).Linked := by
  intro name p hp
  by_cases hname : name = key
  · simp only [Wiring.putProxy, Pool.setProxy, hname, update_self, Option.some.injEq] at hp
    subst hp
    simp [Wiring.LinkedAt, Wiring.putProxy, Pool.setProxy, update_of_ne hself, hvia, Link.ref?]
  · simp only [Wiring.putProxy, Pool.setProxy, update_of_ne hname] at hp
    have hne : p ≠ s.fresh := (s.proxies_lt hp).ne
    have hlinked : (s.next p).ref? = s.pool.proxies (s.via p) := hs name p hp
    simp [Wiring.LinkedAt, Wiring.putProxy, Pool.setProxy, hne, hrefs name p hp, hlinked]

/-- A proxy that no other names is removed. -/
theorem Wiring.Linked.deleteProxy (hs : s.Linked) {key : Key}
    (hrefs : ∀ name p, s.pool.proxies name = some p → s.via p ≠ key) : (s.deleteProxy key).Linked := by
  intro name p hp
  by_cases hname : name = key
  · simp [Wiring.deleteProxy, Pool.setProxy, hname] at hp
  · simp only [Wiring.deleteProxy, Pool.setProxy, update_of_ne hname] at hp
    have hlinked : (s.next p).ref? = s.pool.proxies (s.via p) := hs name p hp
    simp [Wiring.LinkedAt, Wiring.deleteProxy, Pool.setProxy, hrefs name p hp, hlinked]

/-! ## What a request sees -/

/-- A proxy with those that its `via` reference leads to, `n` at most. -/
def follow (proxies : String → Option ProxyRecord) : ℕ → ProxyRecord → List ProxyRecord
  | 0, r => [r]
  | n + 1, r =>
      r ::
        match proxies r.viaProxy with
        | some q => follow proxies n q
        | none => []

/-- A pool with the chains of its proxies. A node of a subscription is used by itself. -/
def chained (pool : Pool ProxyRecord) (n : ℕ) : Pool (List ProxyRecord) where
  proxies name := (pool.proxies name).map (follow pool.proxies n)
  groups := pool.groups
  subscriptions name := (pool.subscriptions name).map (·.map fun r => [r])
  candidate := pool.candidate
  group_name := pool.group_name
  proxies_empty := by rw [pool.proxies_empty]; rfl
  groups_empty := pool.groups_empty

namespace Live

variable {s t : Live}

theorem content_of_repointed (h : Repointed s.wiring t.wiring) (hsettings : t.settings = s.settings) :
    t.content = s.content := by
  have hrecord : t.record = s.record := by
    funext p
    unfold record
    rw [h.via, hsettings]
  unfold content
  rw [h.pool, hrecord]

/-- What a rewiring leaves behind. -/
theorem rewire_spec (hvia : s.wiring.ViaProxies) (hloose : s.wiring.Loose) (env : Env) :
    (s.rewire env).content = s.content ∧ (s.rewire env).wiring.Linked ∧ (s.rewire env).wiring.Loose := by
  obtain ⟨hrel, hlinked⟩ := rewireNextChains_relinked hvia
    (Option.some_get (rewireNextChains_isSome s.wiring (fun name k => ⟨s.active, env.health name k⟩)
      env.depth (env.order.run s.wiring.keys))).symm
  exact ⟨content_of_repointed hrel.toRepointed rfl, hrel.linked (env.order.perm _) hlinked,
    hrel.loose hloose⟩

theorem chain_eq_follow (hs : s.wiring.Linked) (n : ℕ) {name : String} {p : ℕ}
    (hp : s.wiring.pool.proxies name = some p) :
    s.chain n p = follow s.content.proxies n (s.record p) := by
  induction n generalizing name p with
  | zero => rfl
  | succ n ih =>
    have hlinked : (s.wiring.next p).ref? = s.wiring.pool.proxies (s.wiring.via p) := hs name p hp
    have hcontent : s.content.proxies (s.record p).viaProxy =
        (s.wiring.pool.proxies (s.wiring.via p)).map s.record := rfl
    rw [chain, follow, hlinked, hcontent]
    cases hvia : s.wiring.pool.proxies (s.wiring.via p) with
    | none => rfl
    | some q => exact congrArg _ (ih hvia)

theorem chain_of_loose {p : ℕ} (hp : s.wiring.next p = .nil) (n : ℕ) : s.chain n p = [s.record p] := by
  cases n with
  | zero => rfl
  | succ n => rw [chain, hp]; rfl

theorem map_chain_eq_chained (hlinked : s.wiring.Linked) (hloose : s.wiring.Loose) (n : ℕ) :
    s.wiring.pool.map (s.chain n) = chained s.content n := by
  apply Pool.ext
  · funext name
    change (s.wiring.pool.proxies name).map (s.chain n) =
      ((s.wiring.pool.proxies name).map s.record).map (follow s.content.proxies n)
    rw [Option.map_map]
    exact Option.map_congr fun p hp => chain_eq_follow hlinked n hp
  · rfl
  · funext name
    change (s.wiring.pool.subscriptions name).map (·.map (s.chain n)) =
      ((s.wiring.pool.subscriptions name).map (·.map s.record)).map (·.map fun r => [r])
    rw [Option.map_map]
    apply Option.map_congr
    intro sub hsub
    apply Subscription.ext
    · rfl
    · simp only [comp_apply, Subscription.map, List.map_map]
      apply map_congr_left
      intro node hnode
      exact congrArg _ (chain_of_loose (hloose name sub hsub node hnode).1 n)
  · rfl

end Live

end Db
