import Phaethon.Db.Store

/-!
# The live matcher

`src/db/matcher.go`: how the matcher is built (`BuildRuleMatcher`, `init`), how it follows the changes of
the database (`onConfigChange`) and how entries are registered in it at run time. A write to the database
and the event it causes are one step, as `Put` and `Delete` notify the watchers before they return.

A proxy is an object, a number, with its settings; its `via` reference and its `Next` pointer are in the
`Wiring`. What a request finds is an object with the objects behind it.
-/

open Function List Option

namespace Config

/-- What a group leads to is in the pool. -/
theorem Reach.found {π : Type*} {pool : Pool π} {visited : List String} {g : ProxyGroup} {p : π}
    {hops : List Hop} (h : Reach pool visited g p hops) :
    (∃ name, pool.proxies name = some p) ∨
      ∃ name sub, pool.subscriptions name = some sub ∧ ∃ node ∈ sub.nodes, node.2 = p := by
  induction h with
  | @member _ g m p hops _ _ found =>
    unfold resolveMember at found
    split at found
    case isTrue => cases found
    case isFalse =>
        split at found
        case isTrue =>
            split at found
            case h_1 sub hsub =>
                obtain ⟨q, hq, heq⟩ := map_eq_some_iff.mp found
                obtain ⟨rfl, _⟩ := Prod.mk.inj heq
                obtain ⟨before, after, hnodes, _⟩ := lookup_eq_some_iff.mp hq
                unfold Pool.subscriptionOf at hsub
                split at hsub
                case isTrue => cases hsub
                case isFalse => exact .inr ⟨_, sub, hsub, (m.name, q), by simp [hnodes], rfl⟩
            case h_2 => cases found
        case isFalse =>
            obtain ⟨q, hq, heq⟩ := map_eq_some_iff.mp found
            obtain ⟨rfl, _⟩ := Prod.mk.inj heq
            exact .inl ⟨_, hq⟩
  | nested _ _ _ _ _ ih => exact ih

end Config

namespace Db

open Config Chain GoMap

/-! ## Rewiring ends -/

/-- Only pointers and counters differ. -/
structure Repointed (s t : Wiring) : Prop where
  pool : t.pool = s.pool
  keys : t.keys = s.keys
  via : t.via = s.via
  fresh : t.fresh = s.fresh

variable {s t u : Wiring}

theorem Repointed.refl : Repointed s s := ⟨rfl, rfl, rfl, rfl⟩

theorem Repointed.trans (h : Repointed s t) (h' : Repointed t u) : Repointed s u :=
  ⟨h'.pool.trans h.pool, h'.keys.trans h.keys, h'.via.trans h.via, h'.fresh.trans h.fresh⟩

theorem setNext_repointed {depth n p : ℕ} {sel : ℕ → Selection} {visited : List ℕ} {ok : Bool}
    (h : setNext depth n sel p visited s = some (t, ok)) : Repointed s t := by
  induction n generalizing sel p visited s with
  | zero => cases h
  | succ n ih =>
    unfold setNext at h
    split at h
    case h_1 w _ =>
        obtain ⟨rfl, _⟩ := Prod.mk.inj (Option.some.inj h)
        exact ⟨rfl, rfl, rfl, rfl⟩
    case h_2 q hops w _ =>
        split at h
        case isTrue =>
            obtain ⟨rfl, _⟩ := Prod.mk.inj (Option.some.inj h)
            exact ⟨rfl, rfl, rfl, rfl⟩
        case isFalse =>
            have hrest : Repointed (s.point p (.ref q) w.idx) t := ih h
            exact ⟨hrest.pool, hrest.keys, hrest.via, hrest.fresh⟩

/-- What a proxy refers to is an object in use. -/
theorem Wiring.Via.lt {p q : ℕ} (h : s.Via p q) : q < s.fresh := by
  obtain ⟨hops, ⟨hproxy, _⟩ | ⟨_, g, _, hreach⟩⟩ := h
  · exact s.proxies_lt hproxy
  · rcases hreach.found with ⟨name, hproxy⟩ | ⟨name, sub, hsub, node, hnode, rfl⟩
    · exact s.proxies_lt hproxy
    · exact s.nodes_lt hsub node hnode

/-- A walk visits no object twice, so it ends within as many steps as there are objects. -/
theorem setNext_isSome {depth n : ℕ} {sel : ℕ → Selection} {p : ℕ} {visited : List ℕ}
    (hdistinct : visited.Nodup) (hlt : ∀ v ∈ visited, v < s.fresh)
    (hn : s.fresh < n + visited.length) : (setNext depth n sel p visited s).isSome := by
  induction n generalizing sel p visited s with
  | zero =>
    have hsub : visited ⊆ List.range s.fresh := fun v hv => mem_range.mpr (hlt v hv)
    have hle := (subperm_of_subset hdistinct hsub).length_le
    rw [length_range] at hle
    omega
  | succ n ih =>
    cases htarget : s.viaTarget (sel 0) depth p with
    | mk found w =>
    cases found with
    | none => rw [setNext, htarget]; rfl
    | some found =>
      obtain ⟨q, hops⟩ := found
      by_cases hq : q ∈ visited
      · simp [setNext, htarget, hq]
      · have hvia : s.Via p q := Wiring.via_of_viaTarget (congrArg Prod.fst htarget)
        simp only [setNext, htarget, hq, if_false]
        apply ih (nodup_cons.mpr ⟨hq, hdistinct⟩)
        · intro v hv
          rcases mem_cons.mp hv with rfl | hv
          · exact hvia.lt
          · exact hlt v hv
        · simp only [Wiring.point, length_cons]
          omega

theorem setNext_start_isSome (s : Wiring) (depth : ℕ) (sel : ℕ → Selection) (p : ℕ) :
    (setNext depth (s.fresh + 1) sel p [] s).isSome :=
  setNext_isSome nodup_nil (fun _ hv => by cases hv) (by simp)

theorem rewireNextChains_isSome (s : Wiring) (sel : String → ℕ → Selection) (depth : ℕ)
    (order : List String) : (rewireNextChains sel depth (s.fresh + 1) order s).isSome := by
  induction order generalizing s with
  | nil => rfl
  | cons name order ih =>
    unfold rewireNextChains
    split
    case h_1 => exact ih s
    case h_2 p _ =>
        obtain ⟨⟨t, ok⟩, ht⟩ :=
          isSome_iff_exists.mp (setNext_start_isSome s depth (sel name) p)
        rw [ht, bind_some, ← (setNext_repointed ht).fresh]
        exact ih t

/-! ## Objects -/

/-- The nodes of a subscription, as objects from `start` on. -/
def Nodes.objects (nodes : Nodes) (enabled : Bool) (start : ℕ) : Subscription ℕ where
  enabled := enabled
  nodes := (nodes.entries.zipIdx start).map fun e => (e.1.1.1, e.2)
  distinct := by
    have h : ((nodes.entries.zipIdx start).map fun e => e.1.1.1) = nodes.entries.map fun e => e.1.1 := by
      conv_rhs => rw [← List.zipIdx_map_fst start nodes.entries, List.map_map]
      rfl
    simpa [comp_def, h] using nodes.nodup_names
  named := by simp

/-- `m.subscriptions[key] = sub`, for a subscription whose nodes were just loaded. -/
def Wiring.putSubscription (s : Wiring) (key : Key) (enabled : Bool) (nodes : Nodes) : Wiring :=
  { s with
    pool := s.pool.setSubscription key (some (nodes.objects enabled s.fresh))
    via := fun p =>
      if p < s.fresh then s.via p
      else ((nodes.entries[p - s.fresh]?).map fun e => e.2.viaProxy).getD (s.via p)
    next := fun p => if p < s.fresh then s.next p else .nil
    fresh := s.fresh + nodes.entries.length
    proxies_lt := fun h => Nat.lt_add_right _ (s.proxies_lt h)
    nodes_lt := by
      intro name sub hsub node hnode
      by_cases h : name = key
      · simp only [Pool.setSubscription, h, update_self, Option.some.injEq] at hsub
        subst hsub
        obtain ⟨e, he, rfl⟩ := mem_map.mp hnode
        have := snd_lt_add_of_mem_zipIdx he
        omega
      · simp only [Pool.setSubscription, update_of_ne h] at hsub
        exact Nat.lt_add_right _ (s.nodes_lt hsub node hnode) }

/-- `delete(m.subscriptions, key)`. -/
def Wiring.deleteSubscription (s : Wiring) (key : Key) : Wiring :=
  { s with
    pool := s.pool.setSubscription key none
    nodes_lt := by
      intro name sub hsub
      by_cases h : name = key
      · simp [Pool.setSubscription, h] at hsub
      · simp only [Pool.setSubscription, update_of_ne h] at hsub
        exact s.nodes_lt hsub }

/-- A wiring without any objects. -/
def Wiring.empty (candidate : String → String → Bool) : Wiring where
  pool := { Pool.ofProxies (fun _ => none) rfl with candidate := candidate }
  keys := []
  mem_keys _ := ⟨(by cases ·), (by cases ·)⟩
  via _ := ""
  next _ := .nil
  idx _ := 0
  fresh := 0
  proxies_lt h := by cases h
  nodes_lt h := by cases h

/-- The map is gone through in some order, and a walk may take one step more than there are objects. -/
def Change.Served (s : Wiring) (c : Change) : Prop :=
  ∀ t, s.edit c.event = some t → c.order.Perm t.keys ∧ c.steps = t.fresh + 1

/-- Whatever references the edits make, circles among them, the rewiring of each comes to its end. -/
theorem rewiring_ends (s : Wiring) (changes : List Change) (h : Lts.Always onConfigChange Change.Served s changes) :
    ∃ t, Lts.exec onConfigChange s changes = some t := by
  induction changes generalizing s with
  | nil => exact ⟨s, rfl⟩
  | cons c changes ih =>
    obtain ⟨hserved, hrest⟩ := h
    obtain ⟨u, hu⟩ : ∃ u, onConfigChange s c = some u := by
      unfold onConfigChange
      cases hedit : s.edit c.event with
      | none => exact ⟨s, rfl⟩
      | some t =>
        obtain ⟨horder, hsteps⟩ := hserved t hedit
        obtain ⟨u, hu⟩ := isSome_iff_exists.mp (rewireNextChains_isSome t c.sel c.depth c.order)
        exact ⟨u, by simpa [horder, hsteps] using hu⟩
    rw [hu] at hrest
    obtain ⟨t, ht⟩ := ih u hrest
    exact ⟨t, Lts.exec_cons_eq_some.mpr ⟨u, hu, ht⟩⟩

/-- A proxy that goes via itself. -/
theorem rewiring_ends_self : ∃ t, Lts.exec onConfigChange (.empty fun _ _ => false)
    [⟨.putProxy ⟨"A", by decide⟩ (some "A"), ["A"], fun _ _ => default, 0, 2⟩] = some t := by
  refine rewiring_ends _ _ ⟨fun t ht => ?_, by split <;> trivial⟩
  cases ht
  exact ⟨.refl _, rfl⟩

/-- `RuleMatcher` with the objects behind its maps, and the active members of the groups in them. -/
structure Live where
  wiring : Wiring
  settings : ℕ → Settings
  active : String → String
  mappings : String → Bool
  rules : List Rule
  resolvers : List Resolver
  nodeId : String

namespace Live

/-- What an object holds. -/
def record (s : Live) (p : ℕ) : ProxyRecord :=
  { s.settings p with viaProxy := s.wiring.via p }

/-- An object with those behind it, `n` at most. A nil pointer ends the chain like `DIRECT`: whoever
dials finds no further hop. -/
def chain (s : Live) : ℕ → ℕ → List ProxyRecord
  | 0, p => [s.record p]
  | n + 1, p =>
      s.record p ::
        match (s.wiring.next p).ref? with
        | some q => chain s n q
        | none => []

/-- The matcher as a request sees it, with chains of up to `n` further proxies. -/
def seen (s : Live) (n : ℕ) : RuleMatcher (List ProxyRecord) :=
  ⟨s.wiring.pool.map (s.chain n), s.mappings, s.rules, s.resolvers, s.nodeId⟩

/-- `(*RuleMatcher).ResolveMatch`, with the chain of the proxy it returns. The health results and the
counters of the groups are neither configured nor registered. -/
def resolveMatch (s : Live) (n : ℕ) (health : String → String → Option HealthStatus) (fuel : ℕ)
    (idx : String → ℕ) (req : AddrRequest) (mapping : String) (clock : Clock) :
    Outcome (List ProxyRecord) :=
  (s.seen n).resolveMatch [.singleton "DIRECT"] ⟨s.active, health⟩ fuel idx req mapping clock

/-- `m.proxies[key] = proxy`, for a new object. -/
def putProxy (s : Live) (key : Key) (r : ProxyRecord) : Live :=
  { s with
    wiring := s.wiring.putProxy key r.viaProxy
    settings := update s.settings s.wiring.fresh r.toSettings }

/-- `delete(m.proxies, key)`. -/
def deleteProxy (s : Live) (key : Key) : Live :=
  { s with wiring := s.wiring.deleteProxy key }

/-- `m.groups[key] = group`. -/
def putGroup (s : Live) (key : Key) (g : { g : GroupRecord // g.group.name = key.1 }) : Live :=
  { s with
    wiring := s.wiring.putGroup ⟨g.1.group, fun h => key.2 (g.2.symm.trans h)⟩
    active := update s.active key g.1.activeMember }

/-- `delete(m.groups, key)`. -/
def deleteGroup (s : Live) (key : Key) : Live :=
  { s with
    wiring := s.wiring.deleteGroup key
    active := update s.active key "" }

/-- `m.subscriptions[key] = sub`, or new nodes for the subscription that is there. -/
def putSubscription (s : Live) (key : Key) (enabled : Bool) (nodes : Nodes) : Live :=
  { s with
    wiring := s.wiring.putSubscription key enabled nodes
    settings := fun p =>
      if p < s.wiring.fresh then s.settings p
      else ((nodes.entries[p - s.wiring.fresh]?).map fun e => e.2.toSettings).getD (s.settings p) }

/-- `delete(m.subscriptions, key)`. -/
def deleteSubscription (s : Live) (key : Key) : Live :=
  { s with wiring := s.wiring.deleteSubscription key }

/-! ## Resolvers -/

/-- The errors of `init`. -/
inductive BuildError where
  | invalidProto (resolver proto : String)
  | srcRelativeWithoutHost (resolver : String)
  | srcRelativeWithoutNode (resolver : String)
  | unsupportedGroupType (type : GroupType)
  | groupCycle (name : String)
  | unknownSubscription (group subscription : String)
  | recycleProxy
  deriving DecidableEq, Repr

/-- `strings.TrimSpace`. -/
def trim (s : String) : String := String.ofList (Text.trimSpace s.toList)

/-- The checks of one resolver in `prepareResolvers`. -/
def prepareResolver (nodeId : String) (r : Resolver) : Except BuildError Resolver :=
  let proto := Text.toLower (trim r.proto)
  if proto ≠ "" ∧ proto ≠ "tcp" ∧ proto ≠ "udp" then .error (.invalidProto r.name proto)
  else if r.srcRelative then
    if trim r.srcHost = "" then .error (.srcRelativeWithoutHost r.name)
    else if nodeId = "" then .error (.srcRelativeWithoutNode r.name)
    else .ok { r with proto := proto, srcFull := r.srcHost ++ "." ++ nodeId ++ ".phn" }
  else .ok { r with proto := proto, srcFull := "" }

/-- The built-in resolver of this node's loopback name. -/
def loopbackResolver (src : String) : Resolver :=
  ⟨"__LOOPBACK_LOC__", true, "", src, 0, "127.0.0.1", 0, false, ""⟩

/-- `(*RuleMatcher).prepareResolvers`. -/
def prepareResolvers (nodeId : String) (resolvers : List Resolver) :
    Except BuildError (List Resolver) := do
  let nodeId := trim nodeId
  let resolvers ← resolvers.mapM (prepareResolver nodeId)
  let src := "loc." ++ nodeId ++ ".phn"
  if nodeId = "" ∨ resolvers.any (·.effectiveSrcHost = src) then return resolvers
  else return loopbackResolver src :: resolvers

/-! ## Building -/

/-- The matcher before anything is loaded. -/
def empty (candidate : String → String → Bool) : Live where
  wiring := .empty candidate
  settings _ := (ProxyRecord.singleton "").toSettings
  active _ := ""
  mappings _ := false
  rules := []
  resolvers := []
  nodeId := ""

/-- The proxies of a bucket are loaded. -/
def loadProxies (s : Live) (proxies : Proxies) : Live :=
  proxies.entries.foldl (fun s e => s.putProxy e.1 e.2.1) s

/-- The groups are loaded. -/
def loadGroups (s : Live) (db : Database) : Live :=
  db.groups.entries.foldl (fun s e => s.putGroup e.1 e.2) s

/-- The subscriptions are loaded, each with its nodes. -/
def loadSubscriptions (s : Live) (db : Database) : Live :=
  db.subscriptions.entries.foldl (fun s e => s.putSubscription e.1 e.2 (db.nodesOf e.1)) s

/-- The maps that `BuildRuleMatcher` loads, and then the registered entries. -/
def load (candidate : String → String → Bool) (db : Database) (dyn : Dynamic) : Live :=
  let s := (((empty candidate).loadProxies db.proxies).loadGroups db).loadSubscriptions db
  { s.loadProxies dyn.proxies with
    mappings := fun name => name ∈ dyn.mappings ∨ name ∈ db.mappings
    rules := dyn.rules ++ parseRules db.rules
    nodeId := db.nodeId }

/-- The built-in proxies and the built-in mapping. -/
def addBuiltins (s : Live) : Live :=
  let s := s.putProxy ⟨"DIRECT", by decide⟩ (.singleton "DIRECT")
  let s := s.putProxy ⟨"REJECT", by decide⟩ (.singleton "REJECT")
  { s with mappings := update s.mappings "TUN" true }

/-- The object is in the map of the proxies. -/
def holds (s : Live) (p : ℕ) : Bool :=
  s.wiring.keys.any fun name => s.wiring.pool.proxies name = some p

/-- The loop of `init` over the proxies. -/
def initProxies (s : Live) : Live :=
  { s with settings := fun p => if s.holds p then (s.settings p).init else s.settings p }

/-- `(*ProxyGroup).Init`. -/
def initGroup (g : ProxyGroup) : Except BuildError Unit :=
  match g.type with
  | .select | .loadBalance | .best => .ok ()
  | .other _ => .error (.unsupportedGroupType g.type)

/-- `(*RuleMatcher).checkGroupCycle`, below the groups `visited`. On a way without circles there are no
more groups than there are in the map. -/
def checkGroupCycle (groups : String → Option ProxyGroup) :
    ℕ → List String → String → Except BuildError Unit
  | 0, _, name => .error (.groupCycle name)
  | n + 1, visited, name =>
      if name ∈ visited then .error (.groupCycle name)
      else
        match groups name with
        | none => .ok ()
        | some g =>
            g.manualProxies.forM fun member =>
              if (groups member).isSome then checkGroupCycle groups n (name :: visited) member
              else .ok ()

/-- The checks of the groups in `init`, which pass over disabled ones. -/
def checkGroups (pool : Pool ℕ) (groups : List ProxyGroup) : Except BuildError Unit := do
  let enabled := groups.filter (·.enabled)
  enabled.forM initGroup
  enabled.forM fun g => checkGroupCycle pool.groups (groups.length + 1) [] g.name
  enabled.forM fun g =>
    if g.subscription ≠ "" ∧ (pool.subscriptions g.subscription).isNone then
      .error (.unknownSubscription g.name g.subscription)
    else .ok ()

/-- The last loop of `init`, which stops at the first circle of references. -/
def initChains (sel : Selection) (depth : ℕ) : List String → Wiring → Except BuildError Wiring
  | [], s => .ok s
  | name :: order, s =>
      match s.pool.proxies name with
      | none => initChains sel depth order s
      | some p =>
          let r := (setNext depth (s.fresh + 1) (fun _ => sel) p [] s).get
            (setNext_start_isSome s depth _ p)
          if r.2 then initChains sel depth order r.1 else .error .recycleProxy

/-- `BuildRuleMatcher` and `init`, for a database and registered entries; `order` is that of the
iterations. New groups have no health results. -/
def build (candidate : String → String → Bool) (db : Database) (dyn : Dynamic) (order : Shuffle) :
    Except BuildError Live := do
  let s := (load candidate db dyn).addBuiltins.initProxies
  let resolvers ← prepareResolvers s.nodeId db.resolvers
  let groups := (order.run db.groups.entries).map fun e => e.2.1.group
  checkGroups s.wiring.pool groups
  let wiring ← initChains ⟨s.active, fun _ _ => none⟩ (groups.length + 1) (order.run s.wiring.keys) s.wiring
  return { s with resolvers := resolvers, wiring := wiring }

/-! ## Changes -/

/-- The environment of a rewiring: the order of the iteration, a bound on the nesting of groups, and the
health results at each step of the walk from each proxy. -/
structure Env where
  order : Shuffle
  depth : ℕ
  health : String → ℕ → String → String → Option HealthStatus

/-- `(*RuleMatcher).rewireNextChains`. -/
def rewire (s : Live) (env : Env) : Live :=
  { s with
    wiring := (rewireNextChains (fun name k => ⟨s.active, env.health name k⟩) env.depth
      (s.wiring.fresh + 1) (env.order.run s.wiring.keys) s.wiring).get (rewireNextChains_isSome ..) }

/-- `OpType`. -/
inductive OpType where
  | put
  | delete

/-- `ChangeEvent`, by bucket. The event of rules and that of resolvers is about the whole bucket. -/
inductive Event where
  | proxies (key : Key) (op : OpType)
  | proxyGroups (key : Key) (op : OpType)
  | subscriptions (key : Key) (op : OpType)
  | subscriptionNodes (key : Key)
  | mappings (key : Key) (op : OpType)
  | resolvers
  | rules
  | meshConfig

/-- `onConfigChange`: what is put is read back from the database. -/
def onConfigChange (s : Live) (db : Database) (env : Env) : Event → Live
  | .proxies key .delete => (s.deleteProxy key).rewire env
  | .proxies key .put =>
      match db.proxies.lookup key with
      | none => s
      | some r => (s.putProxy key r.1).rewire env
  | .proxyGroups key .delete => (s.deleteGroup key).rewire env
  | .proxyGroups key .put =>
      match db.groups.lookup key with
      | none => s
      | some g => (s.putGroup key g).rewire env
  | .subscriptions key .delete => s.deleteSubscription key
  | .subscriptions key .put =>
      match db.subscriptions.lookup key with
      | none => s
      | some enabled => s.putSubscription key enabled (db.nodesOf key)
  | .subscriptionNodes key =>
      match s.wiring.pool.subscriptions key, db.nodes.lookup key with
      | some sub, some nodes => s.putSubscription key sub.enabled nodes
      | _, _ => s
  | .mappings key .delete => { s with mappings := update s.mappings key false }
  | .mappings key .put =>
      if key.1 ∈ db.mappings then { s with mappings := update s.mappings key true } else s
  | .resolvers =>
      match prepareResolvers s.nodeId db.resolvers with
      | .error _ => s
      | .ok resolvers => { s with resolvers := resolvers }
  | .rules => { s with rules := parseRules db.rules }
  | .meshConfig => s

/-- `(*RuleMatcher).AddProxy`: no chain is rewired. -/
def addProxy (s : Live) (key : Key) (r : ProxyRecord) : Live := s.putProxy key r

/-- `(*RuleMatcher).RemoveProxy`: chains that run through the proxy keep running through it. -/
def removeProxy (s : Live) (key : Key) : Live := s.deleteProxy key

/-- `(*RuleMatcher).AddRule`. -/
def addRule (s : Live) (rule : Rule) : Live := { s with rules := rule :: s.rules }

/-- `(*RuleMatcher).RemoveRule`. -/
def removeRule (s : Live) (proxyName : String) : Live :=
  { s with rules := s.rules.filter (·.proxyName ≠ proxyName) }

/-- `(*RuleMatcher).AddMapping`. -/
def addMapping (s : Live) (name : String) : Live :=
  { s with mappings := update s.mappings name true }

/-- `(*RuleMatcher).RemoveMapping`. -/
def removeMapping (s : Live) (name : String) : Live :=
  { s with mappings := update s.mappings name false }

end Live

/-! ## Runs -/

/-- A write to the database; without a value it is a deletion. What becomes of the rules and the
resolvers is given as a whole. -/
inductive Write where
  | proxy (key : Key) (value : Option { r : ProxyRecord // r.name = key.1 })
  | group (key : Key) (value : Option { g : GroupRecord // g.group.name = key.1 })
  | subscription (key : Key) (value : Option Bool)
  | nodes (key : Key) (value : Option Nodes)
  | mapping (key : Key) (present : Bool)
  | rules (texts : List String)
  | resolvers (resolvers : List Resolver)
  | mesh (nodeId : String)

/-- The operation of a write. -/
def opOf {α : Type} : Option α → Live.OpType
  | some _ => .put
  | none => .delete

/-- The event that a write causes. -/
def Write.event : Write → Live.Event
  | .proxy key value => .proxies key (opOf value)
  | .group key value => .proxyGroups key (opOf value)
  | .subscription key value => .subscriptions key (opOf value)
  | .nodes key _ => .subscriptionNodes key
  | .mapping key present => .mappings key (if present then .put else .delete)
  | .rules _ => .rules
  | .resolvers _ => .resolvers
  | .mesh _ => .meshConfig

/-- The database after a write. -/
def Database.write (db : Database) : Write → Database
  | .proxy key value => { db with proxies := store db.proxies key value }
  | .group key value => { db with groups := store db.groups key value }
  | .subscription key value => { db with subscriptions := store db.subscriptions key value }
  | .nodes key value => { db with nodes := store db.nodes key value }
  | .mapping key present =>
      { db with mappings := if present then db.mappings.insert key else db.mappings.filter (· ≠ key) }
  | .rules texts => { db with rules := texts }
  | .resolvers resolvers => { db with resolvers := resolvers }
  | .mesh nodeId => { db with nodeId := nodeId }

/-- A change of the database, or of what is registered. -/
inductive Action where
  | write (w : Write) (env : Live.Env)
  | addProxy (key : Key) (r : { r : ProxyRecord // r.name = key.1 })
  | removeProxy (key : Key)
  | addMapping (name : String)
  | removeMapping (name : String)
  | addRule (rule : Rule)
  | removeRule (proxyName : String)

/-- The database and what is registered. -/
structure Configuration where
  db : Database
  dyn : Dynamic

/-- The configuration after an action. What is registered replaces what has the same name. -/
def Configuration.step (c : Configuration) : Action → Configuration
  | .write w _ => { c with db := c.db.write w }
  | .addProxy key r => { c with dyn := { c.dyn with proxies := store c.dyn.proxies key (some r) } }
  | .removeProxy key => { c with dyn := { c.dyn with proxies := store c.dyn.proxies key none } }
  | .addMapping name => { c with dyn := { c.dyn with mappings := c.dyn.mappings.insert name } }
  | .removeMapping name =>
      { c with dyn := { c.dyn with mappings := c.dyn.mappings.filter (· ≠ name) } }
  | .addRule rule => { c with dyn := { c.dyn with rules := rule :: c.dyn.rules } }
  | .removeRule proxyName =>
      { c with dyn := { c.dyn with rules := c.dyn.rules.filter (·.proxyName ≠ proxyName) } }

/-- The live matcher after an action that leaves the database `db`. -/
def Live.step (s : Live) (db : Database) : Action → Live
  | .write w env => s.onConfigChange db env w.event
  | .addProxy key r => s.addProxy key r.1
  | .removeProxy key => s.removeProxy key
  | .addMapping name => s.addMapping name
  | .removeMapping name => s.removeMapping name
  | .addRule rule => s.addRule rule
  | .removeRule proxyName => s.removeRule proxyName

/-- The configuration and the live matcher. -/
structure System extends Configuration where
  live : Live

/-- One step. -/
def System.step (s : System) (a : Action) : System :=
  ⟨s.toConfiguration.step a, s.live.step (s.toConfiguration.step a).db a⟩

end Db
