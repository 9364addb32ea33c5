import Phaethon.Db.Refine

/-!
# Changes that the live matcher follows

`onConfigChange`, `AddProxy` and their relatives do less than `init`: they do not give a proxy its final
form, they do not look out for built-in and registered names, and they rewire only after some changes.
`Follows` says which actions they nevertheless follow. After a run of such actions the live matcher answers
every request like a new one; after others it may not, for a change of the rules drops those that are
registered.
-/

namespace Db

open Config Chain GoMap Live Function List Option Db.Configuration Write

variable {candidate : String → String → Bool} {db : Database} {dyn : Dynamic} {s : Live}

/-- The live matcher follows the action like a new one would.
* A proxy is written in the form that `init` gives it, and under a name that is neither built in nor
  registered. No group answers a `via` reference afterwards.
* Nodes are not deleted while their subscription is there.
* The built-in mapping and the registered ones are not deleted from the database, and the built-in and the
  stored ones not from the registered entries.
* Rules are written only while none is registered, and the rules that are removed are not stored ones.
* The node id stays.
* A proxy that is registered or removed is one that no other refers to; it refers to none itself, has the
  form that `init` gives it, and its name is not built in, nor stored if it is removed. -/
def Configuration.Follows (c : Configuration) : Action → Prop
  | .write (.proxy key value) _ =>
      ¬ builtin key ∧ c.dyn.proxies.lookup key = none ∧ (∀ r ∈ value, r.1.init = r.1) ∧
        (c.db.write (.proxy key value)).ViaProxies c.dyn
  | .write (.group key value) _ => (c.db.write (.group key value)).ViaProxies c.dyn
  | .write (.subscription _ _) _ => True
  | .write (.nodes key value) _ =>
      value.isSome ∨ c.db.nodes.lookup key = none ∨ c.db.subscriptions.lookup key = none
  | .write (.mapping key present) _ => present = true ∨ key.1 ≠ "TUN" ∧ key.1 ∉ c.dyn.mappings
  | .write (.rules _) _ => c.dyn.rules = []
  | .write (.resolvers _) _ => True
  | .write (.mesh nodeId) _ => nodeId = c.db.nodeId
  | .addProxy key r =>
      let dyn := { c.dyn with proxies := store c.dyn.proxies key (some r) }
      ¬ builtin key ∧ r.1.init = r.1 ∧ (∀ r ∈ c.db.records c.dyn, r.viaProxy ≠ key) ∧
        (c.db.pool (fun _ _ => false) dyn).proxies r.1.viaProxy = none ∧ c.db.ViaProxies dyn
  | .removeProxy key =>
      ¬ builtin key ∧ c.db.proxies.lookup key = none ∧ (∀ r ∈ c.db.records c.dyn, r.viaProxy ≠ key) ∧
        c.db.ViaProxies { c.dyn with proxies := store c.dyn.proxies key none }
  | .addMapping _ => True
  | .removeMapping name => name ≠ "TUN" ∧ name ∉ c.db.mappings
  | .addRule _ => True
  | .removeRule proxyName => ∀ rule ∈ parseRules c.db.rules, rule.proxyName ≠ proxyName

instance Configuration.decidableFollows (c : Configuration) : ∀ a, Decidable (c.Follows a)
  | .write (.proxy _ _) _ => inferInstanceAs (Decidable (_ ∧ _))
  | .write (.group _ _) _ => inferInstanceAs (Decidable (Database.ViaProxies _ _))
  | .write (.subscription _ _) _ => .isTrue trivial
  | .write (.nodes _ _) _ => inferInstanceAs (Decidable (_ ∨ _))
  | .write (.mapping _ _) _ => inferInstanceAs (Decidable (_ ∨ _))
  | .write (.rules _) _ => inferInstanceAs (Decidable (_ = _))
  | .write (.resolvers _) _ => .isTrue trivial
  | .write (.mesh _) _ => inferInstanceAs (Decidable (_ = _))
  | .addProxy _ _ => inferInstanceAs (Decidable (_ ∧ _))
  | .removeProxy _ => inferInstanceAs (Decidable (_ ∧ _))
  | .addMapping _ => .isTrue trivial
  | .removeMapping _ => inferInstanceAs (Decidable (_ ∧ _))
  | .addRule _ => .isTrue trivial
  | .removeRule _ => inferInstanceAs (Decidable (∀ _ ∈ _, _))

/-- The live matcher is one for the configuration, and groups answer no `via` reference in it. -/
def System.Current (candidate : String → String → Bool) (s : System) : Prop :=
  Sim candidate s.db s.dyn s.live ∧ s.db.ViaProxies s.dyn

/-- A change of the maps that is followed by a rewiring. -/
theorem Sim.of_rewire {db' : Database} (h : Sim candidate db dyn s) (u : Live)
    (hcontent : u.content = db'.pool candidate dyn) (hvia : db'.ViaProxies dyn) (hloose : u.wiring.Loose)
    (hactive : u.active = db'.active) (hu : u.mappings = s.mappings ∧ u.rules = s.rules ∧
      u.resolvers = s.resolvers ∧ u.nodeId = s.nodeId)
    (hdb : db'.mappings = db.mappings ∧ db'.rules = db.rules ∧ db'.resolvers = db.resolvers ∧
      db'.nodeId = db.nodeId) (env : Env) : Sim candidate db' dyn (u.rewire env) := by
  obtain ⟨hcontent', hlinked, hloose'⟩ := rewire_spec (viaProxies_of_content hcontent hvia) hloose env
  obtain ⟨hmappings, hrules, hresolvers, hnodeId⟩ := hu
  obtain ⟨hmappings', hrules', hresolvers', hnodeId'⟩ := hdb
  refine ⟨hcontent'.trans hcontent, hactive, fun name => ?_, ?_, fun rs hrs => ?_, ?_, hlinked, hloose'⟩
  · rw [hmappings', ← h.mappings name, ← hmappings]
    rfl
  · rw [hrules', ← h.rules, ← hrules]
    rfl
  · rw [hnodeId', hresolvers'] at hrs
    exact hresolvers.trans (h.resolvers rs hrs)
  · rw [hnodeId', ← h.nodeId, ← hnodeId]
    rfl

variable {env : Env} {key : Key}

theorem current_write_proxy {s : System} {value : Option { r : ProxyRecord // r.name = key.1 }}
    (hs : s.Current candidate) (ha : s.Follows (.write (.proxy key value) env)) :
    (s.step (.write (.proxy key value) env)).Current candidate := by
  obtain ⟨hsim, _⟩ := hs
  obtain ⟨hbuiltin, hdyn, hinit, hvia⟩ := ha
  refine ⟨?_, hvia⟩
  cases value with
  | none =>
    refine hsim.of_rewire (s.live.deleteProxy key) ?_ hvia (hsim.loose.deleteProxy key) hsim.active ⟨rfl, rfl, rfl, rfl⟩
      ⟨rfl, rfl, rfl, rfl⟩ env
    rw [pool_write_proxy hbuiltin hdyn, content_deleteProxy, hsim.content]
    rfl
  | some r =>
    have hread : (s.db.write (.proxy key (some r))).proxies.lookup key = some r := AList.lookup_insert ..
    have hinit : r.1.init = r.1 := hinit r rfl
    have hlive : (s.step (.write (.proxy key (some r)) env)).live = (s.live.putProxy key r.1).rewire env := by
      simp only [System.step, Configuration.step, Live.step, event, opOf, Live.onConfigChange, hread]
    rw [hlive]
    refine hsim.of_rewire (s.live.putProxy key r.1) ?_ hvia (hsim.loose.putProxy key _) hsim.active ⟨rfl, rfl, rfl, rfl⟩
      ⟨rfl, rfl, rfl, rfl⟩ env
    rw [pool_write_proxy hbuiltin hdyn, content_putProxy, hsim.content, map_some, hinit]

theorem current_write_group {s : System}
    {value : Option { g : GroupRecord // g.group.name = key.1 }} (hs : s.Current candidate)
    (ha : s.Follows (.write (.group key value) env)) :
    (s.step (.write (.group key value) env)).Current candidate := by
  obtain ⟨hsim, _⟩ := hs
  refine ⟨?_, ha⟩
  cases value with
  | none =>
    refine hsim.of_rewire (s.live.deleteGroup key) ?_ ha hsim.loose ?_ ⟨rfl, rfl, rfl, rfl⟩ ⟨rfl, rfl, rfl, rfl⟩ env
    · rw [pool_write_group, content_deleteGroup]
      simp only [hsim.content]
      rfl
    · rw [active_write_group, ← hsim.active]
      rfl
  | some g =>
    have hread : (s.db.write (.group key (some g))).groups.lookup key = some g := AList.lookup_insert ..
    have hlive : (s.step (.write (.group key (some g)) env)).live = (s.live.putGroup key g).rewire env := by
      simp only [System.step, Configuration.step, Live.step, event, opOf, Live.onConfigChange, hread]
    rw [hlive]
    refine hsim.of_rewire (s.live.putGroup key g) ?_ ha hsim.loose ?_ ⟨rfl, rfl, rfl, rfl⟩
      ⟨rfl, rfl, rfl, rfl⟩ env
    · rw [pool_write_group, content_putGroup]
      simp only [hsim.content]
      rfl
    · rw [active_write_group, ← hsim.active]
      rfl

theorem sim_write_subscription {s : System} {value : Option Bool} (h : Sim candidate s.db s.dyn s.live) :
    Sim candidate (s.db.write (.subscription key value)) s.dyn
      (s.step (.write (.subscription key value) env)).live := by
  cases value with
  | none =>
    refine { h with content := ?_, linked := h.linked, loose := h.loose.deleteSubscription key }
    rw [pool_write_subscription, ← h.content]
    exact content_deleteSubscription ..
  | some enabled =>
    have hread : (s.db.write (.subscription key (some enabled))).subscriptions.lookup key = some enabled :=
      AList.lookup_insert ..
    have hlive : (s.step (.write (.subscription key (some enabled)) env)).live =
        s.live.putSubscription key enabled (s.db.nodesOf key) := by
      simp only [System.step, Configuration.step, Live.step, event, opOf, Live.onConfigChange, hread]
      rfl
    rw [hlive]
    refine { h with
      content := ?_
      linked := h.linked.putSubscription key enabled _
      loose := h.loose.putSubscription key enabled _ }
    rw [pool_write_subscription, ← h.content]
    exact content_putSubscription ..

/-- The switch of a subscription in the map is the stored one. -/
theorem Sim.subscription_enabled (h : Sim candidate db dyn s) (key : Key) :
    (s.wiring.pool.subscriptions key).map (·.enabled) = db.subscriptions.lookup key := by
  have hsub : (s.wiring.pool.subscriptions key).map (·.map s.record) =
      (db.subscriptions.lookup key).map (db.nodesOf key).subscription := by
    have hkey := congrArg (fun pool => pool.subscriptions key.1) h.content
    simp only [Database.pool, named_key, Option.map_map] at hkey
    exact hkey
  have henabled := congrArg (Option.map Subscription.enabled) hsub
  rw [Option.map_map, Option.map_map] at henabled
  refine henabled.trans ?_
  cases db.subscriptions.lookup key with
  | none => rfl
  | some enabled => rfl

theorem sim_write_nodes {s : System} {value : Option Nodes}
    (h : Sim candidate s.db s.dyn s.live) (ha : s.Follows (.write (.nodes key value) env)) :
    Sim candidate (s.db.write (.nodes key value)) s.dyn (s.step (.write (.nodes key value) env)).live := by
  have henabled := h.subscription_enabled key
  cases value with
  | none =>
    -- there is nothing to put in the place of the nodes, and nothing that should be taken away
    have hlive : (s.step (.write (.nodes key none) env)).live = s.live := by
      have hread : (s.db.write (.nodes key none)).nodes.lookup key = none := AList.lookup_erase ..
      simp only [System.step, Configuration.step, Live.step, event, Live.onConfigChange, hread]
      cases s.live.wiring.pool.subscriptions key with
      | none => rfl
      | some sub => rfl
    rw [hlive]
    refine { h with content := ?_ }
    rw [pool_write_nodes, h.content]
    apply Pool.ext
    · rfl
    · rfl
    · refine (update_eq_self_iff.mpr ?_).symm
      rcases ha with hvalue | hnodes | hsub
      · cases hvalue
      · have hempty : s.db.nodesOf key = ∅ := by simp [Database.nodesOf, named_key, hnodes]
        simp only [Database.pool, named_key, hempty, Option.getD_none, Option.map_map]
        rfl
      · simp [Database.pool, named_key, hsub]
    · rfl
  | some nodes =>
    have hread : (s.db.write (.nodes key (some nodes))).nodes.lookup key = some nodes :=
      AList.lookup_insert ..
    cases hsub : s.live.wiring.pool.subscriptions key with
    | none =>
      have hlive : (s.step (.write (.nodes key (some nodes)) env)).live = s.live := by
        simp only [System.step, Configuration.step, Live.step, event, Live.onConfigChange, hread, hsub]
      rw [hlive]
      refine { h with content := ?_ }
      rw [hsub] at henabled
      rw [pool_write_nodes, h.content, ← henabled]
      apply Pool.ext
      · rfl
      · rfl
      · refine (update_eq_self_iff.mpr ?_).symm
        simp [Database.pool, named_key, ← henabled]
      · rfl
    | some sub =>
      have hlive : (s.step (.write (.nodes key (some nodes)) env)).live =
          s.live.putSubscription key sub.enabled nodes := by
        simp only [System.step, Configuration.step, Live.step, event, Live.onConfigChange, hread, hsub]
      rw [hlive]
      refine { h with
        content := ?_
        linked := h.linked.putSubscription key sub.enabled _
        loose := h.loose.putSubscription key sub.enabled _ }
      rw [hsub] at henabled
      rw [pool_write_nodes, ← h.content, ← henabled]
      exact content_putSubscription ..

theorem sim_write_mapping {s : System} {present : Bool}
    (h : Sim candidate s.db s.dyn s.live) (ha : s.Follows (.write (.mapping key present) env)) :
    Sim candidate (s.db.write (.mapping key present)) s.dyn
      (s.step (.write (.mapping key present) env)).live := by
  cases present with
  | false =>
    obtain ⟨htun, hdyn⟩ := ha.resolve_left Bool.false_ne_true
    refine { h with mappings := fun name => ?_ }
    change update s.live.mappings key.1 false name = true ↔ _
    by_cases hname : name = key
    · simp [hname, htun, hdyn, Database.write]
    · simp [hname, h.mappings name, Database.write]
  | true =>
    have hread : key.1 ∈ (s.db.write (.mapping key true)).mappings := mem_insert_self ..
    have hlive : (s.step (.write (.mapping key true) env)).live = s.live.addMapping key := by
      simp only [System.step, Configuration.step, Live.step, event, if_true, Live.onConfigChange, hread]
      rfl
    rw [hlive]
    refine { h with mappings := fun name => ?_ }
    change update s.live.mappings key.1 true name = true ↔ _
    by_cases hname : name = key
    · simp [hname, Database.write]
    · simp [hname, h.mappings name, Database.write]

theorem sim_write_resolvers {s : System} {resolvers : List Resolver} (h : Sim candidate s.db s.dyn s.live) :
    Sim candidate (s.db.write (.resolvers resolvers)) s.dyn
      (s.step (.write (.resolvers resolvers) env)).live := by
  have hnodeId : s.live.nodeId = s.db.nodeId := h.nodeId
  cases hprepare : prepareResolvers s.db.nodeId resolvers with
  | error e =>
    -- the old resolvers stay, but there is no new matcher either
    have hlive : (s.step (.write (.resolvers resolvers) env)).live = s.live := by
      simp only [System.step, Configuration.step, Live.step, event, Live.onConfigChange, Database.write, hnodeId, hprepare]
    rw [hlive]
    refine { h with resolvers := fun rs hrs => ?_ }
    have hrs : prepareResolvers s.db.nodeId resolvers = .ok rs := hrs
    rw [hprepare] at hrs
    cases hrs
  | ok prepared =>
    have hlive : (s.step (.write (.resolvers resolvers) env)).live =
        { s.live with resolvers := prepared } := by
      simp only [System.step, Configuration.step, Live.step, event, Live.onConfigChange, Database.write, hnodeId, hprepare]
    rw [hlive]
    refine { h with resolvers := fun rs hrs => ?_ }
    exact Except.ok.inj (hprepare.symm.trans hrs)

theorem sim_addProxy {s : System} {r : { r : ProxyRecord // r.name = key.1 }}
    (h : Sim candidate s.db s.dyn s.live) (ha : s.Follows (.addProxy key r)) :
    Sim candidate s.db { s.dyn with proxies := store s.dyn.proxies key (some r) }
      (s.live.addProxy key r.1) := by
  obtain ⟨hbuiltin, hinit, hrefs, hvia, _⟩ := ha
  have hpool := pool_register_proxy candidate s.db s.dyn hbuiltin (some r) fun h => by cases h
  rw [map_some, hinit] at hpool
  have htarget : (s.db.pool candidate { s.dyn with proxies := store s.dyn.proxies key (some r) }).proxies
      r.1.viaProxy = none := hvia
  rw [hpool] at htarget
  have hself : r.1.viaProxy ≠ key := by
    intro heq
    simp [Pool.setProxy, heq] at htarget
  have hnone : s.live.wiring.pool.proxies r.1.viaProxy = none := by
    simp only [Pool.setProxy, update_of_ne hself, ← h.content] at htarget
    exact map_eq_none_iff.mp htarget
  refine { h with
    content := ?_
    linked := h.linked.putProxy hself hnone fun _ _ hp => h.via_ne hrefs hp
    loose := h.loose.putProxy key _ }
  rw [hpool, ← h.content]
  exact content_putProxy ..

theorem sim_removeProxy {s : System} (h : Sim candidate s.db s.dyn s.live) (ha : s.Follows (.removeProxy key)) :
    Sim candidate s.db { s.dyn with proxies := store s.dyn.proxies key none } (s.live.removeProxy key) := by
  obtain ⟨hbuiltin, hdb, hrefs, _⟩ := ha
  refine { h with
    content := ?_
    linked := h.linked.deleteProxy fun _ _ hp => h.via_ne hrefs hp
    loose := h.loose.deleteProxy key }
  rw [pool_register_proxy candidate s.db s.dyn hbuiltin none fun _ => hdb, ← h.content]
  exact content_deleteProxy ..

theorem sim_removeMapping {s : System} {name : String} (h : Sim candidate s.db s.dyn s.live)
    (ha : s.Follows (.removeMapping name)) :
    Sim candidate s.db { s.dyn with mappings := s.dyn.mappings.filter (· ≠ name) }
      (s.live.removeMapping name) := by
  obtain ⟨htun, hdb⟩ := ha
  refine { h with mappings := fun other => ?_ }
  change update s.live.mappings name false other = true ↔ _
  by_cases hother : other = name
  · simp [hother, htun, hdb]
  · simp [hother, h.mappings other]

theorem sim_addMapping {s : System} {name : String} (h : Sim candidate s.db s.dyn s.live) :
    Sim candidate s.db { s.dyn with mappings := s.dyn.mappings.insert name } (s.live.addMapping name) := by
  refine { h with mappings := fun other => ?_ }
  change update s.live.mappings name true other = true ↔ _
  by_cases hother : other = name
  · simp [hother]
  · simp [hother, h.mappings other]

theorem sim_removeRule {s : System} {proxyName : String} (h : Sim candidate s.db s.dyn s.live)
    (ha : s.Follows (.removeRule proxyName)) :
    Sim candidate s.db { s.dyn with rules := s.dyn.rules.filter (·.proxyName ≠ proxyName) }
      (s.live.removeRule proxyName) := by
  refine { h with rules := ?_ }
  have hstored : (parseRules s.db.rules).filter (·.proxyName ≠ proxyName) = parseRules s.db.rules :=
    filter_eq_self.mpr fun rule hrule => decide_eq_true (ha rule hrule)
  change s.live.rules.filter (·.proxyName ≠ proxyName) = _
  rw [h.rules, filter_append, hstored]

/-- One step. -/
theorem System.Current.step {s : System} (hs : s.Current candidate) {a : Action} (ha : s.Follows a) :
    (s.step a).Current candidate := by
  obtain ⟨hsim, hvia⟩ := hs
  cases a with
  | write w env =>
    cases w with
    | proxy key value => exact current_write_proxy ⟨hsim, hvia⟩ ha
    | group key value => exact current_write_group ⟨hsim, hvia⟩ ha
    | subscription key value => exact ⟨sim_write_subscription hsim, hvia⟩
    | nodes key value => exact ⟨sim_write_nodes hsim ha, hvia⟩
    | mapping key present => exact ⟨sim_write_mapping hsim ha, hvia⟩
    | rules texts =>
      have ha : s.dyn.rules = [] := ha
      refine ⟨{ hsim with rules := ?_ }, hvia⟩
      change parseRules texts = s.dyn.rules ++ parseRules texts
      rw [ha, nil_append]
    | resolvers resolvers => exact ⟨sim_write_resolvers hsim, hvia⟩
    | mesh nodeId =>
      obtain rfl : nodeId = s.db.nodeId := ha
      exact ⟨hsim, hvia⟩
  | addProxy key r => exact ⟨sim_addProxy hsim ha, ha.2.2.2.2⟩
  | removeProxy key => exact ⟨sim_removeProxy hsim ha, ha.2.2.2⟩
  | addMapping name => exact ⟨sim_addMapping hsim, hvia⟩
  | removeMapping name => exact ⟨sim_removeMapping hsim ha, hvia⟩
  | addRule rule => exact ⟨{ hsim with rules := congrArg (rule :: ·) hsim.rules }, hvia⟩
  | removeRule proxyName => exact ⟨sim_removeRule hsim ha, hvia⟩

/-! ## Runs -/

/-- The live matcher has the registered rules before the stored ones, and answers every request like a new
matcher for the configuration, whatever the health results and the counters of the groups are. -/
def System.Refined (candidate : String → String → Bool) (s : System) : Prop :=
  s.live.rules = s.dyn.rules ++ parseRules s.db.rules ∧
    ∀ order t, build candidate s.db s.dyn order = .ok t → ∀ n health fuel idx req mapping clock,
      s.live.resolveMatch n health fuel idx req mapping clock =
        t.resolveMatch n health fuel idx req mapping clock

theorem System.Current.refined {s : System} (hs : s.Current candidate) : s.Refined candidate := by
  obtain ⟨hsim, hvia⟩ := hs
  refine ⟨hsim.rules, fun order t ht n health fuel idx req mapping clock => ?_⟩
  obtain ⟨hnew, hresolvers⟩ := sim_build hvia ht
  exact hsim.resolveMatch_eq hnew (hsim.resolvers _ hresolvers) ..

/-- Every action is possible in every configuration. -/
def Configuration.move (c : Configuration) (a : Action) : Option Configuration := some (c.step a)

theorem System.Current.run {s : System} (hs : s.Current candidate) {actions : List Action}
    (hfollows : Lts.Always move Follows s.toConfiguration actions) :
    (actions.foldl System.step s).Current candidate := by
  induction actions generalizing s with
  | nil => exact hs
  | cons a actions ih =>
    obtain ⟨ha, hrest⟩ := hfollows
    exact ih (hs.step ha) hrest

/-- A matcher that is built from a database in which no group answers a `via` reference, and that then
sees only actions which it follows, answers like a new one. -/
theorem run_refined {order : Shuffle} (hvia : db.ViaProxies .empty)
    (hbuild : build candidate db .empty order = .ok s) {actions : List Action}
    (hfollows : Lts.Always move Follows ⟨db, .empty⟩ actions) :
    (actions.foldl System.step ⟨⟨db, .empty⟩, s⟩).Refined candidate :=
  have hcurrent : System.Current candidate ⟨⟨db, .empty⟩, s⟩ := ⟨(sim_build hvia hbuild).1, hvia⟩
  (hcurrent.run hfollows).refined

/-! ## Registered rules and a change of the stored ones -/

namespace Registered

/-- A database with one rule. -/
def stored : Database where
  proxies := ∅
  groups := ∅
  subscriptions := ∅
  nodes := ∅
  mappings := []
  rules := ["MATCH,DIRECT"]
  resolvers := []
  nodeId := ""

/-- A reverse proxy as the control server registers it. -/
def proxy : { r : ProxyRecord // r.name = "dyn-proxy-1" } :=
  ⟨{ ProxyRecord.singleton "socks5" with name := "dyn-proxy-1", reverseAddress := "dyn-1" }, rfl⟩

/-- `insertRoutingRule`: a proxy, a mapping, and a rule that sends what comes in by the one to the
other. -/
def entries : List Action :=
  [.addProxy ⟨"dyn-proxy-1", by decide⟩ proxy, .addMapping "dyn-map-1",
    .addRule ⟨"MATCH", "", "dyn-proxy-1", "dyn-map-1", ⟨0, 0⟩⟩]

/-- The stored rule is saved once more. -/
def save : Action := .write (.rules ["MATCH,DIRECT"]) ⟨.asListed, 0, fun _ _ _ _ => none⟩

/-- The name of the proxy for a request that comes in by the registered mapping. -/
def route (s : Live) : Option String :=
  (s.resolveMatch 0 (fun _ _ => none) 0 (fun _ => 0) ⟨"192.0.2.1", 80, "", "tcp"⟩ "dyn-map-1" ⟨12, 0⟩).result.map
    (·.proxyName)

/-- The routes that the live matcher and a new one give after a run. -/
def routes (actions : List Action) : Except BuildError (Option String × Option String) := do
  let s ← build (fun _ _ => false) stored .empty .asListed
  let u := actions.foldl System.step ⟨⟨stored, .empty⟩, s⟩
  let t ← build (fun _ _ => false) u.db u.dyn .asListed
  return (route u.live, route t)

theorem exists_of_routes {actions : List Action} {live new : Option String} (h : routes actions = .ok (live, new)) :
    ∃ s, build (fun _ _ => false) stored .empty .asListed = .ok s ∧
      ∃ t, build (fun _ _ => false) (actions.foldl System.step ⟨⟨stored, .empty⟩, s⟩).db
          (actions.foldl System.step ⟨⟨stored, .empty⟩, s⟩).dyn .asListed = .ok t ∧
        route (actions.foldl System.step ⟨⟨stored, .empty⟩, s⟩).live = live ∧ route t = new := by
  unfold routes at h
  cases hs : build (fun _ _ => false) stored .empty .asListed with
  | error e =>
    rw [hs] at h
    cases h
  | ok s =>
    rw [hs] at h
    simp only [bind, Except.bind] at h
    split at h
    case h_1 => cases h
    case h_2 t ht =>
        obtain ⟨hlive, hnew⟩ := Prod.mk.inj (Except.ok.inj h)
        exact ⟨s, rfl, t, ht, hlive, hnew⟩

theorem routes_save : routes (entries ++ [save]) = .ok (some "DIRECT", some "dyn-proxy-1") := by
  decide +kernel

/-- After the stored rule was saved, the live matcher sends what comes in by the registered mapping to
`DIRECT`, and a new one to the registered proxy. -/
theorem save_drops_registered_rule :
    ∃ s, build (fun _ _ => false) stored .empty .asListed = .ok s ∧
      ¬ ((entries ++ [save]).foldl System.step ⟨⟨stored, .empty⟩, s⟩).Refined (fun _ _ => false) := by
  obtain ⟨s, hs, t, ht, hlive, hnew⟩ := exists_of_routes routes_save
  refine ⟨s, hs, fun hrefined => ?_⟩
  have heq : route ((entries ++ [save]).foldl System.step ⟨⟨stored, .empty⟩, s⟩).live = route t := by
    unfold route
    rw [hrefined.2 .asListed t ht]
  rw [hlive, hnew] at heq
  exact absurd heq (by decide)

/-- An upstream proxy is stored while the entries are registered. -/
def upstream : Action :=
  .write (.proxy ⟨"up", by decide⟩
    (some ⟨{ ProxyRecord.singleton "trojan" with name := "up", viaProxy := "REJECT" }, rfl⟩))
    ⟨.asListed, 0, fun _ _ _ _ => none⟩

theorem routes_upstream : routes (entries ++ [upstream]) = .ok (some "dyn-proxy-1", some "dyn-proxy-1") := by
  decide +kernel

/-- The registered rule outlives a change of the proxies, and a new matcher agrees. -/
theorem upstream_keeps_registered_rule :
    ∃ s, build (fun _ _ => false) stored .empty .asListed = .ok s ∧
      ((entries ++ [upstream]).foldl System.step ⟨⟨stored, .empty⟩, s⟩).Refined (fun _ _ => false) ∧
      ∃ t, build (fun _ _ => false) ((entries ++ [upstream]).foldl System.step ⟨⟨stored, .empty⟩, s⟩).db
          ((entries ++ [upstream]).foldl System.step ⟨⟨stored, .empty⟩, s⟩).dyn .asListed = .ok t ∧
        route t = some "dyn-proxy-1" := by
  obtain ⟨s, hs, t, ht, _, hnew⟩ := exists_of_routes routes_upstream
  exact ⟨s, hs, run_refined (by decide +kernel) hs (by decide +kernel), t, ht, hnew⟩

end Registered

end Db
