import Phaethon.Db.Content

/-!
# The live matcher and a new one

`Sim` relates a matcher to the database and the registered entries: its maps hold what `Database.pool`
says, and every proxy points at the one its `via` reference names. A matcher that is built satisfies it,
and so does the live one as long as each change is one that it follows like `init` would. Two matchers for
the same configuration answer alike.
-/

namespace Db

open Config Chain GoMap Live Function List Option Database Pool

variable {candidate : String → String → Bool} {db : Database} {dyn : Dynamic} {s t : Live}

/-! ## Configurations -/

/-- The records of the proxies that are stored or registered. -/
def Database.records (db : Database) (dyn : Dynamic) : List ProxyRecord :=
  (dyn.proxies.entries ++ db.proxies.entries).map fun e => e.2.1

/-- No `via` reference of a stored or registered proxy is answered by a group. -/
def Database.ViaProxies (db : Database) (dyn : Dynamic) : Prop :=
  ∀ r ∈ db.records dyn, (db.pool (fun _ _ => false) dyn).proxies r.viaProxy = none →
    (db.pool (fun _ _ => false) dyn).groups r.viaProxy = none

instance (db : Database) (dyn : Dynamic) : Decidable (db.ViaProxies dyn) :=
  inferInstanceAs (Decidable (∀ _ ∈ _, _ → _))

theorem mem_records_of_named {proxies : Proxies} {name : String} {r : ProxyRecord}
    (h : named proxies (fun _ r => r.1) name = some r) :
    r ∈ proxies.entries.map fun e => e.2.1 := by
  unfold named at h
  split at h
  case isTrue => cases h
  case isFalse hname =>
      obtain ⟨v, hv, rfl⟩ := map_eq_some_iff.mp h
      exact mem_map.mpr ⟨⟨⟨name, hname⟩, v⟩, AList.mem_lookup_iff.mp hv, rfl⟩

/-- A proxy of the pool refers to nothing, or to what a stored or registered one refers to. -/
theorem Database.viaProxy_of_pool {name : String} {r : ProxyRecord}
    (h : (db.pool candidate dyn).proxies name = some r) :
    r.viaProxy = "" ∨ ∃ r' ∈ db.records dyn, r'.viaProxy = r.viaProxy := by
  change (if builtin name then _ else _) = _ at h
  split at h
  case isTrue =>
      cases h
      exact .inl rfl
  case isFalse =>
      obtain ⟨r', hr', rfl⟩ := map_eq_some_iff.mp h
      refine .inr ⟨r', ?_, rfl⟩
      rw [records, map_append, mem_append]
      rcases or_eq_some_iff.mp hr' with hdyn | ⟨_, hdb⟩
      · exact .inl (mem_records_of_named hdyn)
      · exact .inr (mem_records_of_named hdb)

theorem pool_write_proxy {key : Key} (hbuiltin : ¬ builtin key) (hdyn : dyn.proxies.lookup key = none)
    (value : Option { r : ProxyRecord // r.name = key.1 }) :
    (db.write (.proxy key value)).pool candidate dyn =
      (db.pool candidate dyn).setProxy key key.2 (value.map fun r => r.1.init) := by
  apply Pool.ext
  · funext name
    simp only [pool, Database.write, setProxy, named_store]
    by_cases hname : name = key
    · rw [hname, if_neg hbuiltin, named_key, hdyn, update_self, update_self]
      simp
    · rw [update_of_ne hname, update_of_ne hname]
  · rfl
  · rfl
  · rfl

/-- The registered proxies after a registration or a removal. -/
theorem pool_register_proxy (candidate : String → String → Bool) (db : Database) (dyn : Dynamic)
    {key : Key} (hbuiltin : ¬ builtin key) (value : Option { r : ProxyRecord // r.name = key.1 })
    (hdb : value = none → db.proxies.lookup key = none) :
    db.pool candidate { dyn with proxies := store dyn.proxies key value } =
      (db.pool candidate dyn).setProxy key key.2 (value.map fun r => r.1.init) := by
  apply Pool.ext
  · funext name
    simp only [pool, setProxy, named_store]
    by_cases hname : name = key
    · rw [hname, if_neg hbuiltin, update_self, update_self]
      cases value with
      | none => simp [named_key, hdb rfl]
      | some r => rfl
    · rw [update_of_ne hname, update_of_ne hname]
  · rfl
  · rfl
  · rfl

variable (key : Key)

theorem pool_write_subscription (value : Option Bool) :
    (db.write (.subscription key value)).pool candidate dyn =
      (db.pool candidate dyn).setSubscription key (value.map (db.nodesOf key).subscription) := by
  apply Pool.ext
  · rfl
  · rfl
  · funext name
    simp only [pool, Database.write, setSubscription, named_store]
    by_cases hname : name = key
    · rw [hname, update_self, update_self]
      simp [nodesOf]
    · rw [update_of_ne hname, update_of_ne hname]
      rfl
  · rfl

theorem nodesOf_write_nodes (value : Option Nodes) :
    (db.write (.nodes key value)).nodesOf = update db.nodesOf key (value.getD ∅) := by
  funext name
  simp only [nodesOf, Database.write, named_store]
  by_cases hname : name = key
  · rw [hname, update_self, update_self]
    simp
  · rw [update_of_ne hname, update_of_ne hname]
    rfl

theorem pool_write_nodes (value : Option Nodes) :
    (db.write (.nodes key value)).pool candidate dyn =
      (db.pool candidate dyn).setSubscription key
        ((db.subscriptions.lookup key).map (value.getD ∅).subscription) := by
  apply Pool.ext
  · rfl
  · rfl
  · funext name
    simp only [pool, nodesOf_write_nodes, setSubscription]
    by_cases hname : name = key
    · rw [hname, update_self, update_self]
      change (named db.subscriptions _ key.1).map _ = _
      rw [named_key]
      simp
    · rw [update_of_ne hname, update_of_ne hname]
      rfl
  · rfl

variable (value : Option { g : GroupRecord // g.group.name = key.1 })

theorem pool_write_group :
    (db.write (.group key value)).pool candidate dyn =
      (db.pool candidate dyn).setGroup key key.2 (value.map fun g => g.1.group)
        (by rintro g h; obtain ⟨g, _, rfl⟩ := map_eq_some_iff.mp h; exact g.2) := by
  apply Pool.ext
  · rfl
  · simp only [pool, Database.write, setGroup, named_store]
  · rfl
  · rfl

theorem active_write_group :
    (db.write (.group key value)).active =
      update db.active key ((value.map fun g => g.1.activeMember).getD "") := by
  funext name
  simp only [Database.active, Database.write, named_store]
  by_cases hname : name = key
  · rw [hname, update_self, update_self]
  · rw [update_of_ne hname, update_of_ne hname]
    rfl

/-! ## Simulation -/

/-- The matcher is one for the database and the registered entries. -/
structure Sim (candidate : String → String → Bool) (db : Database) (dyn : Dynamic) (s : Live) :
    Prop where
  content : s.content = db.pool candidate dyn
  active : s.active = db.active
  mappings : ∀ name, s.mappings name = true ↔ name = "TUN" ∨ name ∈ dyn.mappings ∨ name ∈ db.mappings
  rules : s.rules = dyn.rules ++ parseRules db.rules
  resolvers : ∀ rs, prepareResolvers db.nodeId db.resolvers = .ok rs → s.resolvers = rs
  nodeId : s.nodeId = db.nodeId
  linked : s.wiring.Linked
  loose : s.wiring.Loose

theorem viaProxies_of_content (h : s.content = db.pool candidate dyn) (hdb : db.ViaProxies dyn) :
    s.wiring.ViaProxies := by
  intro name p hp hnone
  have hpool : (db.pool candidate dyn).proxies name = some (s.record p) := by
    rw [← h]
    exact congrArg (Option.map s.record) hp
  have htarget : (db.pool candidate dyn).proxies (s.wiring.via p) = none := by
    rw [← h]
    exact congrArg (Option.map s.record) hnone
  have hgroups : s.wiring.pool.groups = (db.pool candidate dyn).groups := congrArg Pool.groups h
  rw [hgroups]
  rcases viaProxy_of_pool hpool with hempty | ⟨r, hr, hvia⟩
  · have hempty : s.wiring.via p = "" := hempty
    rw [hempty]
    exact (db.pool candidate dyn).groups_empty
  · have hvia : r.viaProxy = s.wiring.via p := hvia
    rw [← hvia] at htarget ⊢
    exact hdb r hr htarget

/-- The proxies of a matcher do not refer to a name that no stored or registered one refers to. -/
theorem Sim.via_ne (h : Sim candidate db dyn s) {key : Key}
    (hrefs : ∀ r ∈ db.records dyn, r.viaProxy ≠ key) {name : String} {p : ℕ}
    (hp : s.wiring.pool.proxies name = some p) : s.wiring.via p ≠ key := by
  have hpool : (db.pool candidate dyn).proxies name = some (s.record p) := by
    rw [← h.content]
    exact congrArg (Option.map s.record) hp
  intro heq
  rcases viaProxy_of_pool hpool with hempty | ⟨r, hr, hvia⟩
  · exact key.2 (heq.symm.trans hempty)
  · exact hrefs r hr (hvia.trans heq)

/-- Matchers for the same configuration answer alike. -/
theorem Sim.resolveMatch_eq (hs : Sim candidate db dyn s) (ht : Sim candidate db dyn t)
    (hresolvers : s.resolvers = t.resolvers) (n : ℕ) (health : String → String → Option HealthStatus)
    (fuel : ℕ) (idx : String → ℕ) (req : AddrRequest) (mapping : String) (clock : Clock) :
    s.resolveMatch n health fuel idx req mapping clock = t.resolveMatch n health fuel idx req mapping clock := by
  have hpool : s.wiring.pool.map (s.chain n) = t.wiring.pool.map (t.chain n) := by
    rw [map_chain_eq_chained hs.linked hs.loose, map_chain_eq_chained ht.linked ht.loose, hs.content,
      ht.content]
  have hmappings : s.mappings = t.mappings := by
    funext name
    rw [Bool.eq_iff_iff, hs.mappings, ht.mappings]
  have hseen : s.seen n = t.seen n := by
    unfold seen
    rw [hpool, hmappings, hs.rules, ht.rules, hresolvers, hs.nodeId, ht.nodeId]
  unfold Live.resolveMatch
  rw [hseen, hs.active, ht.active]

/-! ## A new matcher -/

/-- The maps hold what is stored and registered, before `init`. -/
structure Loaded (candidate : String → String → Bool) (db : Database) (dyn : Dynamic) (s : Live) :
    Prop where
  proxies : ∀ name, s.content.proxies name =
    (named dyn.proxies (fun _ r => r.1) name).or (named db.proxies (fun _ r => r.1) name)
  groups : s.content.groups = (db.pool candidate dyn).groups
  subscriptions : s.content.subscriptions = (db.pool candidate dyn).subscriptions
  candidate : s.content.candidate = candidate
  active : s.active = db.active
  loose : s.wiring.Loose

section

variable (s : Live)

theorem proxies_loadProxies (proxies : Proxies) (name : String) :
    (s.loadProxies proxies).content.proxies name =
      (named proxies (fun _ r => r.1) name).or (s.content.proxies name) :=
  foldl_put (fun s : Live => s.content.proxies) _
    (fun s e => congrArg Pool.proxies (content_putProxy s e.1 e.2.1)) proxies s name

variable (db : Database)

variable (name : String)

theorem groups_loadGroups :
    (s.loadGroups db).content.groups name =
      (named db.groups (fun _ g => g.1.group) name).or (s.content.groups name) :=
  foldl_put (fun s : Live => s.content.groups) _
    (fun s e => congrArg Pool.groups (content_putGroup s e.1 e.2)) db.groups s name

theorem active_loadGroups :
    some ((s.loadGroups db).active name) =
      (named db.groups (fun _ g => g.1.activeMember) name).or (some (s.active name)) := by
  refine foldl_put (fun (s : Live) name => some (s.active name)) _ (fun s e => ?_) db.groups s name
  exact funext fun name => apply_update (fun _ => some) ..

theorem subscriptions_loadSubscriptions :
    (s.loadSubscriptions db).content.subscriptions name =
      (named db.subscriptions (fun key enabled => (db.nodesOf key).subscription enabled) name).or
        (s.content.subscriptions name) :=
  foldl_put (fun s : Live => s.content.subscriptions) _
    (fun s e => congrArg Pool.subscriptions (content_putSubscription s e.1 e.2 (db.nodesOf e.1)))
    db.subscriptions s name

/-- Loading proxies changes nothing else. -/
theorem loadProxies_keep (proxies : Proxies) :
    (fun s : Live => (s.content.groups, s.content.subscriptions, s.content.candidate, s.active))
        (s.loadProxies proxies) =
      (s.content.groups, s.content.subscriptions, s.content.candidate, s.active) := by
  apply foldl_keep fun s : Live =>
    (s.content.groups, s.content.subscriptions, s.content.candidate, s.active)
  intro s e
  simp only [content_putProxy]
  rfl

/-- Loading groups leaves the other maps alone. -/
theorem loadGroups_keep (db : Database) :
    (fun s : Live => (s.content.proxies, s.content.subscriptions, s.content.candidate)) (s.loadGroups db) =
      (s.content.proxies, s.content.subscriptions, s.content.candidate) := by
  apply foldl_keep fun s : Live => (s.content.proxies, s.content.subscriptions, s.content.candidate)
  intro s e
  rfl

/-- Loading subscriptions changes nothing else. -/
theorem loadSubscriptions_keep (db : Database) :
    (fun s : Live => (s.content.proxies, s.content.groups, s.content.candidate, s.active))
        (s.loadSubscriptions db) =
      (s.content.proxies, s.content.groups, s.content.candidate, s.active) := by
  apply foldl_keep fun s : Live => (s.content.proxies, s.content.groups, s.content.candidate, s.active)
  intro s e
  simp only [content_putSubscription]
  rfl

end

theorem loaded_load (candidate : String → String → Bool) (db : Database) (dyn : Dynamic) :
    Loaded candidate db dyn (load candidate db dyn) := by
  set s₁ := (empty candidate).loadProxies db.proxies with hs₁
  set s₂ := s₁.loadGroups db with hs₂
  set s₃ := s₂.loadSubscriptions db with hs₃
  have hkeep₁ := loadProxies_keep (empty candidate) db.proxies
  have hkeep₂ := loadGroups_keep s₁ db
  have hkeep₃ := loadSubscriptions_keep s₂ db
  have hkeep₄ := loadProxies_keep s₃ dyn.proxies
  simp only [← hs₁, ← hs₂, ← hs₃, Prod.mk.injEq] at hkeep₁ hkeep₂ hkeep₃ hkeep₄
  have hload : (load candidate db dyn).content = (s₃.loadProxies dyn.proxies).content := rfl
  refine ⟨fun name => ?_, ?_, ?_, ?_, ?_, ?_⟩
  · rw [hload, proxies_loadProxies, hkeep₃.1, hkeep₂.1, hs₁, proxies_loadProxies]
    exact congrArg _ (or_none ..)
  · funext name
    rw [hload, hkeep₄.1, hkeep₃.2.1, hs₂, groups_loadGroups, hkeep₁.1]
    exact or_none ..
  · funext name
    rw [hload, hkeep₄.2.1, hs₃, subscriptions_loadSubscriptions, hkeep₂.2.1, hkeep₁.2.1]
    refine (or_none ..).trans ?_
    simp only [pool, named]
    split
    · rfl
    · rw [Option.map_map]
      rfl
  · rw [hload, hkeep₄.2.2.1, hkeep₃.2.2.1, hkeep₂.2.2, hkeep₁.2.2.1]
    rfl
  · funext name
    have hactive : (load candidate db dyn).active = s₂.active := hkeep₄.2.2.2.trans hkeep₃.2.2.2
    have hname := active_loadGroups s₁ db name
    rw [hkeep₁.2.2.2] at hname
    rw [hactive, Database.active]
    cases hg : named db.groups (fun _ g => g.1.activeMember) name with
    | none => rw [hg] at hname; exact Option.some.inj hname
    | some a => rw [hg] at hname; exact Option.some.inj hname
  · have hproxies (s : Live) (proxies : Proxies) (hs : s.wiring.Loose) :
        (s.loadProxies proxies).wiring.Loose :=
      foldlRecOn (motive := fun s : Live => s.wiring.Loose) _ _ hs fun _ hs _ _ => hs.putProxy _ _
    have hgroups : s₁.wiring.Loose → s₂.wiring.Loose := fun hs =>
      foldlRecOn (motive := fun s : Live => s.wiring.Loose) _ _ hs fun _ hs _ _ => hs
    have hsubs : s₂.wiring.Loose → s₃.wiring.Loose := fun hs =>
      foldlRecOn (motive := fun s : Live => s.wiring.Loose) _ _ hs fun _ hs _ _ =>
        hs.putSubscription _ _ _
    have hempty : (empty candidate).wiring.Loose := fun _ _ h => by cases h
    exact hproxies _ _ (hsubs (hgroups (hproxies _ _ hempty)))

theorem holds_iff {p : ℕ} : s.holds p = true ↔ ∃ name, s.wiring.pool.proxies name = some p := by
  simp only [holds, List.any_eq_true, decide_eq_true_eq]
  constructor
  · rintro ⟨name, _, hp⟩
    exact ⟨name, hp⟩
  · rintro ⟨name, hp⟩
    exact ⟨name, (s.wiring.mem_keys name).mpr (hp ▸ rfl), hp⟩

theorem proxies_initProxies (s : Live) (name : String) :
    s.initProxies.content.proxies name = (s.content.proxies name).map ProxyRecord.init := by
  change (s.wiring.pool.proxies name).map s.initProxies.record =
    ((s.wiring.pool.proxies name).map s.record).map ProxyRecord.init
  rw [Option.map_map]
  apply Option.map_congr
  intro p hp
  have hholds : s.holds p = true := holds_iff.mpr ⟨name, hp⟩
  simp [record, initProxies, hholds, ProxyRecord.init]

theorem subscriptions_initProxies (hloose : s.wiring.Loose) :
    s.initProxies.content.subscriptions = s.content.subscriptions := by
  funext name
  apply Option.map_congr
  intro sub hsub
  apply Subscription.ext
  · rfl
  · apply map_congr_left
    intro node hnode
    have hholds : s.holds node.2 = false := by
      rw [Bool.eq_false_iff, ne_eq, holds_iff, not_exists]
      exact (hloose name sub hsub node hnode).2
    simp [record, initProxies, hholds]

/-- The maps after the first loop of `init`. -/
theorem content_initProxies (candidate : String → String → Bool) (db : Database) (dyn : Dynamic) :
    (load candidate db dyn).addBuiltins.initProxies.content = db.pool candidate dyn := by
  have hload := loaded_load candidate db dyn
  have hbuiltins : (load candidate db dyn).addBuiltins.content =
      ((load candidate db dyn).content.setProxy "DIRECT" (by decide)
        (some (.singleton "DIRECT"))).setProxy "REJECT" (by decide) (some (.singleton "REJECT")) := by
    change (((load candidate db dyn).putProxy ⟨"DIRECT", _⟩ _).putProxy ⟨"REJECT", _⟩ _).content = _
    rw [content_putProxy, content_putProxy]
  have hloose : (load candidate db dyn).addBuiltins.wiring.Loose := (hload.loose.putProxy _ _).putProxy _ _
  apply Pool.ext
  · funext name
    rw [proxies_initProxies, hbuiltins]
    simp only [setProxy, pool, builtin]
    by_cases hreject : name = "REJECT"
    · simp [hreject]
    · by_cases hdirect : name = "DIRECT"
      · simp [hdirect]
      · simp [hreject, hdirect, hload.proxies]
  · exact hload.groups
  · rw [subscriptions_initProxies hloose, hbuiltins]
    exact hload.subscriptions
  · exact hload.candidate

/-- The last loop of `init` does what a rewiring does, unless it fails. -/
theorem rewireNextChains_of_initChains {sel : Selection} {depth : ℕ} {order : List String}
    {s t : Wiring} (h : initChains sel depth order s = .ok t) :
    rewireNextChains (fun _ _ => sel) depth (s.fresh + 1) order s = some t := by
  induction order generalizing s with
  | nil =>
    obtain rfl := Except.ok.inj h
    rfl
  | cons name order ih =>
    cases hp : s.pool.proxies name with
    | none =>
      simp only [initChains, hp] at h
      simp only [rewireNextChains, hp]
      exact ih h
    | some p =>
      obtain ⟨⟨u, ok⟩, hset⟩ :=
        isSome_iff_exists.mp (setNext_start_isSome s depth (fun _ => sel) p)
      simp only [initChains, hp, hset, get_some] at h
      split at h
      case isTrue =>
          have hrest := ih h
          rw [(setNext_repointed hset).fresh] at hrest
          simp only [rewireNextChains, hp, hset, bind_some]
          exact hrest
      case isFalse => cases h

/-- What `BuildRuleMatcher` returns. -/
theorem sim_build {order : Shuffle} (hvia : db.ViaProxies dyn) (h : build candidate db dyn order = .ok t) :
    Sim candidate db dyn t ∧ prepareResolvers db.nodeId db.resolvers = .ok t.resolvers := by
  have hload := loaded_load candidate db dyn
  have hcontent := content_initProxies candidate db dyn
  set s := (load candidate db dyn).addBuiltins.initProxies with hs
  have hloose : s.wiring.Loose := (hload.loose.putProxy _ _).putProxy _ _
  simp only [build, ← hs, bind, Except.bind, pure, Except.pure] at h
  split at h
  case h_1 => cases h
  case h_2 resolvers hresolvers =>
      split at h
      case h_1 => cases h
      case h_2 =>
          split at h
          case h_1 => cases h
          case h_2 wiring hwiring =>
              obtain rfl := Except.ok.inj h
              obtain ⟨hrel, hlinked⟩ := rewireNextChains_relinked (viaProxies_of_content hcontent hvia)
                (rewireNextChains_of_initChains hwiring)
              refine ⟨⟨?_, hload.active, fun name => ?_, rfl, fun rs hrs => ?_, rfl,
                hrel.linked (order.perm _) hlinked, hrel.loose hloose⟩, hresolvers⟩
              · have hkeep := content_of_repointed (s := s)
                  (t := { s with resolvers := resolvers, wiring := wiring }) hrel.toRepointed rfl
                exact hkeep.trans hcontent
              · change update (fun name => decide (name ∈ dyn.mappings ∨ name ∈ db.mappings))
                  "TUN" true name = true ↔ _
                by_cases hname : name = "TUN"
                · simp [hname]
                · simp [hname]
              · exact Except.ok.inj (hresolvers.symm.trans hrs)

end Db
