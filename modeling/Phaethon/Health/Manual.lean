import Phaethon.Config.Search
import Phaethon.Health.Round

/-!
# Health checks by hand

The health callbacks of the admin server and `checkGroupHealth`, in `src/main.go`. What a group object can do depends
on where it comes from (`Handle`): `Init` gives the groups of the matcher a health map, and the matcher gives them its
lookup functions. A group that is read from the database has no health map, and unless it was listed, no lookup
functions. To write to it is a panic, and to resolve it finds nothing.
-/

namespace Health

open Config List

/-! ## Group objects -/

/-- A panic of the Go runtime. -/
inductive Panic where
  /-- assignment to entry in nil map -/
  | nilMap
  deriving DecidableEq, Repr

/-- A `*config.ProxyGroup`: the configuration, the tables behind the lookup functions (`barePool` without them) and
the health map (`none` is a nil map). -/
structure Handle where
  group : ProxyGroup
  healthCheckURL : String
  pool : Pool Proxy
  health : Option HealthMap

/-- `HealthInfo`, without the time of the check. -/
structure HealthInfo where
  alive : Bool
  latency : ℤ
  failCount : ℕ
  deriving DecidableEq, Repr

variable (h : Handle)

variable (key : String)

/-- `(*ProxyGroup).SetHealth`. A nil map has no entry for the key, so there is always one to add. -/
def Handle.setHealth (alive : Bool) (latency : ℤ) : Except Panic Handle :=
  match h.health with
  | none => .error .nilMap
  | some m => .ok { h with health := some (Config.setHealth m key alive latency).1 }

/-- `(*ProxyGroup).SetHealthImmediate`. -/
def Handle.setHealthImmediate (alive : Bool) (latency : ℤ) : Except Panic Handle :=
  match h.health with
  | none => .error .nilMap
  | some m => .ok { h with health := some (Config.setHealthImmediate m key alive latency).1 }

/-- `(*ProxyGroup).GetHealthInfo`. -/
def Handle.getHealthInfo : HealthInfo :=
  match h.health.bind (· key) with
  | some s => ⟨s.alive, s.latency, s.failCount⟩
  | none => ⟨false, 0, 0⟩

/-! ## The database -/

/-- The buckets that the checks read. `lookups` are the tables that `injectGroupResolvers` builds. -/
structure Database where
  groups : List ProxyGroup
  activeMember : String → String
  healthCheckURL : String → String
  nodes : String → Except String (String → Option Proxy)
  lookups : Pool Proxy

/-- `ErrNotFound`. -/
def errNotFound : String := "key 不存在"

namespace Database

variable (db : Database)

/-- `GetProxyGroup`. -/
def getProxyGroup (name : String) : Except String Handle :=
  match db.groups.find? (·.name = name) with
  | some g => .ok ⟨g, db.healthCheckURL g.name, barePool, none⟩
  | none => .error errNotFound

/-- `ListProxyGroups`. -/
def listProxyGroups : List Handle :=
  db.groups.map fun g => ⟨g, db.healthCheckURL g.name, db.lookups, none⟩

/-- `ListProxyGroupsBySubscription`. -/
def listProxyGroupsBySubscription (subName : String) : List Handle :=
  db.listProxyGroups.filter (·.group.subscription = subName)

/-- `NextWithVisited` on an object from the database. -/
def next (h : Handle) : Option Proxy :=
  let sel : Selection := ⟨db.activeMember, fun _ _ => none⟩
  (nextWithVisited h.pool sel (db.groups.length + 1) h.group ⟨[], fun _ => 0⟩).1.map (·.1)

end Database

/-! ## The checks -/

/-- A result that a check records for a member. -/
structure Record where
  name : String
  /-- the member is a group -/
  nested : Bool
  key : String
  alive : Bool
  latency : ℤ
  deriving DecidableEq, Repr

/-- What a check returns, what it has recorded, and the objects that it passed to `NotifyGroupHealth` and
`PutProxyGroup`. -/
structure Checked (ρ : Type) where
  result : ρ
  recorded : List Record
  saved : List Handle

/-- What the callbacks of the admin server return. -/
abbrev Reply := Except String HealthInfo

/-- A check that ends with an error. -/
def Checked.failed (text : String) : Checked Reply := ⟨.error text, [], []⟩

/-- The end of `CheckGroupProxyHealth`. -/
def Handle.immediate (h : Handle) (r : Record) : Except Panic (Checked Reply) := do
  let h ← h.setHealthImmediate r.key r.alive r.latency
  return ⟨.ok (h.getHealthInfo r.key), [r], [h]⟩

/-- `CheckGroupProxyHealth`. `probe url p` is the outcome of `checkProxyHealth`, or of `checkProxyTCPHealth` if there
is no URL. -/
def checkGroupProxyHealth (db : Database) (probe : String → Proxy → Bool × ℤ) (groupName proxyName : String) :
    Except Panic (Checked Reply) :=
  match db.getProxyGroup groupName with
  | .error e => .ok (.failed ("load group: " ++ e))
  | .ok g =>
      let m : GroupMember := ⟨proxyName, proxyName ∉ g.group.manualProxies, false⟩
      match if m.fromSubscription then .error errNotFound else db.getProxyGroup proxyName with
      | .ok inner => g.immediate ⟨proxyName, true, m.healthKey, (db.next inner).isSome, 0⟩
      | .error _ =>
          match resolve g.pool g.group proxyName with
          | none => g.immediate ⟨proxyName, false, m.healthKey, false, 0⟩
          | some p =>
              if Text.equalFold p.type "DIRECT" ∨ Text.equalFold p.type "REJECT" then
                g.immediate ⟨proxyName, false, m.healthKey, true, 0⟩
              else
                let (alive, latency) := probe g.healthCheckURL p
                g.immediate ⟨proxyName, false, m.healthKey, alive, latency⟩

/-- `CheckSubscriptionHealth`. -/
def checkSubscriptionHealth (db : Database) (probe : String → Proxy → Bool × ℤ) (subName nodeName url : String) :
    Except Panic (Checked Reply) :=
  match db.nodes subName with
  | .error e => .ok (.failed ("load subscription nodes: " ++ e))
  | .ok proxies =>
      match proxies nodeName with
      | none => .ok (.failed ("node not found: " ++ nodeName))
      | some p => do
          let (alive, latency) := probe (if url = "" then "http://www.gstatic.com/generate_204" else url) p
          let key := (⟨nodeName, true, false⟩ : GroupMember).healthKey
          let groups ← (db.listProxyGroupsBySubscription subName).mapM (·.setHealthImmediate key alive latency)
          return ⟨.ok ⟨alive, latency, 0⟩, groups.map fun _ => ⟨nodeName, false, key, alive, latency⟩, groups⟩

/-- What the first loop of `checkGroupHealth` decides about a member. -/
def Handle.plan (db : Database) (h : Handle) (m : GroupMember) : Plan :=
  if m.isGroup then
    match db.getProxyGroup m.name with
    | .error _ => .settled false
    | .ok inner => planProxy (db.next inner)
  else planProxy ((resolveMember h.pool h.group m).map (·.1))

/-- The record of a member's check. -/
def GroupMember.record (m : GroupMember) (alive : Bool) (latency : ℤ) : Record :=
  ⟨m.name, m.isGroup, m.healthKey, alive, latency⟩

/-- What the first loop records. -/
def Handle.settled (db : Database) (h : Handle) : List Record :=
  (computeMembers h.pool h.group).filterMap fun m =>
    match h.plan db m with
    | .settled alive => some (GroupMember.record m alive 0)
    | .probe => none

/-- The members that are probed. -/
def Handle.probes (db : Database) (h : Handle) : List GroupMember :=
  (computeMembers h.pool h.group).filter fun m => h.plan db m = .probe

/-- The outcomes of the probes, in the order in which they come in; a probe that got no slot in time is recorded as
failed. -/
structure Probed (db : Database) (h : Handle) where
  outcomes : List (GroupMember × Bool × ℤ)
  perm : (outcomes.map Prod.fst).Perm (h.probes db)

/-- The records of a round. -/
def Handle.records (db : Database) (h : Handle) (probed : Probed db h) : List Record :=
  h.settled db ++ probed.outcomes.map fun o => GroupMember.record o.1 o.2.1 o.2.2

/-- `checkGroupHealth`. -/
def checkGroupHealth (db : Database) (h : Handle) (probed : Probed db h) : Except Panic (Checked Unit) := do
  let h' ← (h.records db probed).foldlM (fun h r => h.setHealth r.key r.alive r.latency) h
  return ⟨(), h.records db probed, [h']⟩

/-! ## Sound checks -/

/-- A call of one of the checks, with the outcomes of its probes. -/
inductive Call (db : Database) where
  | groupProxy (probe : String → Proxy → Bool × ℤ) (groupName proxyName : String)
  | subscription (probe : String → Proxy → Bool × ℤ) (subName nodeName url : String)
  | group (h : Handle) (probed : Probed db h)

/-- What a call records, or its panic. -/
def Call.run {db : Database} : Call db → Except Panic (List Record)
  | .groupProxy probe groupName proxyName => (checkGroupProxyHealth db probe groupName proxyName).map (·.recorded)
  | .subscription probe subName nodeName url =>
      (checkSubscriptionHealth db probe subName nodeName url).map (·.recorded)
  | .group h probed => (checkGroupHealth db h probed).map (·.recorded)

/-- The matcher at the time of a check. -/
structure Live where
  pool : Pool Proxy
  sel : Selection
  idx : String → ℕ

/-- The matcher resolves the group of this name to a proxy. -/
def Live.Selectable (live : Live) (name : String) : Prop :=
  ∃ g r, live.pool.groups name = some g ∧ Returns live.pool live.sel g ⟨[], live.idx⟩ r ∧ r.1.isSome = true

/-- The call returns, and it records a nested group as dead only if the matcher finds no proxy in it. -/
def Call.Sound {db : Database} (live : Live) (call : Call db) : Prop :=
  ∃ records, call.run = .ok records ∧
    ∀ r ∈ records, r.nested = true → r.alive = false → ¬ live.Selectable r.name

/-- When a call is sound. -/
def Call.Safe {db : Database} (live : Live) : Call db → Prop
  | .groupProxy _ groupName _ => ∀ g ∈ db.groups, g.name ≠ groupName
  | .subscription _ subName nodeName _ =>
      (∀ proxies, db.nodes subName = .ok proxies → proxies nodeName = none) ∨
        ∀ g ∈ db.groups, g.subscription ≠ subName
  | .group h _ =>
      (h.health = none → computeMembers h.pool h.group = []) ∧
        ∀ m ∈ computeMembers h.pool h.group, m.isGroup = true → ¬ live.Selectable m.name

variable {db : Database} {live : Live}

/-! ### Objects from the database -/

variable {h : Handle} {name subName : String}

theorem getProxyGroup_eq_ok (hget : db.getProxyGroup name = .ok h) : h.pool = barePool ∧ h.health = none := by
  unfold Database.getProxyGroup at hget
  split at hget
  case h_1 => exact Except.ok.inj hget ▸ ⟨rfl, rfl⟩
  case h_2 => cases hget

theorem getProxyGroup_eq_error : (∃ e, db.getProxyGroup name = .error e) ↔ ∀ g ∈ db.groups, g.name ≠ name := by
  unfold Database.getProxyGroup
  cases hfind : db.groups.find? (·.name = name) with
  | none => simpa using hfind
  | some g =>
    have hname := find?_some hfind
    have hmem := mem_of_find?_eq_some hfind
    simp only [reduceCtorEq, exists_false, false_iff, not_forall]
    exact ⟨g, hmem, by simpa using hname⟩

/-- Without lookup functions a group has no members. -/
theorem computeMembers_barePool (g : ProxyGroup) : computeMembers barePool g = [] := by
  have hsub : subscriptionMembers barePool g = [] := by
    simp [subscriptionMembers, Pool.subscriptionOf, barePool, Pool.ofProxies]
  have hmanual : g.manualProxies.filterMap (manualMember barePool) = [] := by
    simp [filterMap_eq_nil_iff, manualMember, barePool, Pool.ofProxies]
  rw [computeMembers, hsub, hmanual, append_nil]

/-- A group from the database resolves to nothing. -/
theorem next_of_getProxyGroup (hget : db.getProxyGroup name = .ok h) : db.next h = none := by
  obtain ⟨hpool, -⟩ := getProxyGroup_eq_ok hget
  rw [Database.next, hpool, Db.next_of_no_members (computeMembers_barePool h.group)]
  rfl

/-- A nested group is always settled as dead. -/
theorem plan_of_isGroup {m : GroupMember} (hm : m.isGroup = true) : h.plan db m = .settled false := by
  rw [Handle.plan, if_pos hm]
  split
  case h_1 => rfl
  case h_2 inner hget =>
      rw [next_of_getProxyGroup hget]
      rfl

/-! ### The three checks -/

variable {probe : String → Proxy → Bool × ℤ}

/-- Every way through `CheckGroupProxyHealth` writes to the object from the database. -/
theorem checkGroupProxyHealth_panics {groupName proxyName : String} (hget : db.getProxyGroup groupName = .ok h) :
    checkGroupProxyHealth db probe groupName proxyName = .error .nilMap := by
  have hpanic (r : Record) : h.immediate r = .error .nilMap := by
    simp [Handle.immediate, Handle.setHealthImmediate, (getProxyGroup_eq_ok hget).2]
  unfold checkGroupProxyHealth
  rw [hget]
  dsimp only
  split
  · exact hpanic _
  · split
    · exact hpanic _
    · split
      · exact hpanic _
      · exact hpanic _

/-- The first object without a health map ends the loop. -/
theorem mapM_setHealthImmediate {hs : List Handle} {key : String} {alive : Bool} {latency : ℤ} (hne : hs ≠ [])
    (hnil : ∀ h ∈ hs, h.health = none) : hs.mapM (·.setHealthImmediate key alive latency) = .error .nilMap := by
  obtain ⟨h, hs, rfl⟩ := exists_cons_of_ne_nil hne
  rw [mapM_cons, Handle.setHealthImmediate, hnil h mem_cons_self]
  rfl

theorem mem_listProxyGroupsBySubscription (hh : h ∈ db.listProxyGroupsBySubscription subName) : h.health = none := by
  obtain ⟨g, -, rfl⟩ := mem_map.mp (mem_of_mem_filter hh)
  rfl

theorem listProxyGroupsBySubscription_eq_nil :
    db.listProxyGroupsBySubscription subName = [] ↔ ∀ g ∈ db.groups, g.subscription ≠ subName := by
  simp [Database.listProxyGroupsBySubscription, Database.listProxyGroups]

variable {records : List Record}

theorem foldlM_setHealth_of_none (hnil : h.health = none) :
    (∃ h', records.foldlM (fun h r => h.setHealth r.key r.alive r.latency) h = .ok h') ↔ records = [] := by
  cases records with
  | nil => simp [pure, Except.pure]
  | cons r rs => simp [foldlM_cons, Handle.setHealth, hnil, bind, Except.bind]

/-- A health map takes every record. -/
theorem foldlM_setHealth_of_some (hmap : h.health ≠ none) :
    ∃ h', records.foldlM (fun h r => h.setHealth r.key r.alive r.latency) h = .ok h' := by
  induction records generalizing h with
  | nil => exact ⟨h, rfl⟩
  | cons r rs ih =>
    obtain ⟨m, hm⟩ := Option.ne_none_iff_exists'.mp hmap
    rw [foldlM_cons, Handle.setHealth, hm]
    exact ih (by simp)

variable {probed : Probed db h}

theorem mem_records {r : Record} (hr : r ∈ h.records db probed) :
    ∃ m ∈ computeMembers h.pool h.group, r.name = m.name ∧ r.nested = m.isGroup := by
  rcases mem_append.mp hr with hr | hr
  · obtain ⟨m, hm, hplan⟩ := mem_filterMap.mp hr
    split at hplan
    · exact ⟨m, hm, Option.some.inj hplan ▸ ⟨rfl, rfl⟩⟩
    · cases hplan
  · obtain ⟨o, ho, rfl⟩ := mem_map.mp hr
    exact ⟨o.1, mem_of_mem_filter (probed.perm.mem_iff.mp (mem_map_of_mem ho)), rfl, rfl⟩

/-- Each member gets a record. -/
theorem records_eq_nil : h.records db probed = [] ↔ computeMembers h.pool h.group = [] := by
  constructor
  · intro hnil
    obtain ⟨hsettled, hprobed⟩ := append_eq_nil_iff.mp hnil
    refine eq_nil_iff_forall_not_mem.mpr fun m hm => ?_
    cases hplan : h.plan db m with
    | settled alive =>
      have hnone := filterMap_eq_nil_iff.mp hsettled m hm
      simp [hplan] at hnone
    | probe =>
      have hmem : m ∈ h.probes db := mem_filter.mpr ⟨hm, by simp [hplan]⟩
      rw [← probed.perm.mem_iff, map_eq_nil_iff.mp hprobed] at hmem
      exact absurd hmem not_mem_nil
  · intro hnil
    refine eq_nil_iff_forall_not_mem.mpr fun r hr => ?_
    obtain ⟨m, hm, -⟩ := mem_records hr
    rw [hnil] at hm
    exact absurd hm not_mem_nil

/-- A nested group is recorded as dead. -/
theorem mem_records_of_isGroup {m : GroupMember}
    (hm : m ∈ computeMembers h.pool h.group) (hgroup : m.isGroup = true) :
    GroupMember.record m false 0 ∈ h.records db probed :=
  mem_append_left _ (mem_filterMap.mpr ⟨m, hm, by rw [plan_of_isGroup hgroup]⟩)

theorem run_group :
    (Call.group h probed).run = .ok records ↔
      (h.health = none → computeMembers h.pool h.group = []) ∧ records = h.records db probed := by
  have hfold : (∃ h', (h.records db probed).foldlM (fun h r => h.setHealth r.key r.alive r.latency) h = .ok h') ↔
      (h.health = none → computeMembers h.pool h.group = []) := by
    by_cases hnil : h.health = none
    · rw [foldlM_setHealth_of_none hnil, records_eq_nil]
      simp [hnil]
    · simp [foldlM_setHealth_of_some hnil, hnil]
  rw [← hfold]
  unfold Call.run checkGroupHealth
  cases hrun : (h.records db probed).foldlM (fun h r => h.setHealth r.key r.alive r.latency) h with
  | error e => simp [hrun, bind, Except.bind, Except.map]
  | ok h' => simp [hrun, bind, Except.bind, pure, Except.pure, Except.map, eq_comm]

/-! ### When they are sound -/

theorem sound_groupProxy {groupName proxyName : String} :
    (Call.groupProxy probe groupName proxyName : Call db).Sound live ↔ ∀ g ∈ db.groups, g.name ≠ groupName := by
  rw [← getProxyGroup_eq_error]
  cases hget : db.getProxyGroup groupName with
  | error e =>
    have hrun : (Call.groupProxy probe groupName proxyName : Call db).run = .ok [] := by
      simp only [Call.run, checkGroupProxyHealth, hget]
      rfl
    exact iff_of_true ⟨[], hrun, by simp⟩ ⟨e, rfl⟩
  | ok h =>
    have hrun : (Call.groupProxy probe groupName proxyName : Call db).run = .error .nilMap := by
      simp only [Call.run, checkGroupProxyHealth_panics hget]
      rfl
    refine iff_of_false ?_ (by simp)
    rintro ⟨records, hrecords, -⟩
    exact absurd (hrun.symm.trans hrecords) (by simp)

theorem sound_subscription {nodeName url : String} :
    (Call.subscription probe subName nodeName url : Call db).Sound live ↔
      (∀ proxies, db.nodes subName = .ok proxies → proxies nodeName = none) ∨
        ∀ g ∈ db.groups, g.subscription ≠ subName := by
  -- nothing is recorded where the call returns
  have hsound (h : (Call.subscription probe subName nodeName url : Call db).run = .ok []) :
      (Call.subscription probe subName nodeName url : Call db).Sound live := ⟨[], h, by simp⟩
  cases hnodes : db.nodes subName with
  | error e =>
    refine iff_of_true (hsound ?_) (.inl (by simp))
    simp only [Call.run, checkSubscriptionHealth, hnodes]
    rfl
  | ok proxies =>
    cases hnode : proxies nodeName with
    | none =>
      refine iff_of_true (hsound ?_) (.inl fun _ heq => Except.ok.inj heq ▸ hnode)
      simp only [Call.run, checkSubscriptionHealth, hnodes, hnode]
      rfl
    | some p =>
      by_cases hgroups : db.listProxyGroupsBySubscription subName = []
      · refine iff_of_true (hsound ?_) (.inr (listProxyGroupsBySubscription_eq_nil.mp hgroups))
        simp only [Call.run, checkSubscriptionHealth, hnodes, hnode, hgroups]
        rfl
      · have hrun : (Call.subscription probe subName nodeName url : Call db).run = .error .nilMap := by
          simp only [Call.run, checkSubscriptionHealth, hnodes, hnode,
            mapM_setHealthImmediate hgroups fun _ => mem_listProxyGroupsBySubscription]
          rfl
        refine iff_of_false ?_ ?_
        · rintro ⟨records, hrecords, -⟩
          exact absurd (hrun.symm.trans hrecords) (by simp)
        · rintro (hnone | hnone)
          · exact absurd (hnone proxies rfl) (by simp [hnode])
          · exact hgroups (listProxyGroupsBySubscription_eq_nil.mpr hnone)

theorem sound_group :
    (Call.group h probed).Sound live ↔
      (h.health = none → computeMembers h.pool h.group = []) ∧
        ∀ m ∈ computeMembers h.pool h.group, m.isGroup = true → ¬ live.Selectable m.name := by
  constructor
  · rintro ⟨records, hrun, hdead⟩
    obtain ⟨hreturns, rfl⟩ := run_group.mp hrun
    exact ⟨hreturns, fun m hm hgroup => hdead _ (mem_records_of_isGroup hm hgroup) hgroup rfl⟩
  · rintro ⟨hreturns, hnested⟩
    refine ⟨_, run_group.mpr ⟨hreturns, rfl⟩, fun r hr hgroup _ => ?_⟩
    obtain ⟨m, hm, hname, hisGroup⟩ := mem_records hr
    exact hname ▸ hnested m hm (hisGroup ▸ hgroup)

/-- A check is sound exactly in these cases: one of a single member if the group is not in the database, one of a
subscription node if there is no such node or no group uses the subscription, and one of a whole group if the object
has a health map (or no members) and the matcher finds no proxy in its nested groups. -/
theorem sound_iff_safe (db : Database) (live : Live) (call : Call db) : call.Sound live ↔ call.Safe live := by
  cases call with
  | groupProxy probe groupName proxyName => exact sound_groupProxy
  | subscription probe subName nodeName url => exact sound_subscription
  | group h probed => exact sound_group

def innerGroup : ProxyGroup := ⟨"inner", true, .select, ["DIRECT"], "nodes", ""⟩

def outerGroup : ProxyGroup := ⟨"outer", true, .select, ["inner"], "", ""⟩

/-- A matcher with a group in a group. -/
def nestedPool : Pool Proxy where
  proxies n := if n = "DIRECT" then some (.singleton "DIRECT") else none
  groups n := [outerGroup, innerGroup].find? (·.name = n)
  subscriptions _ := none
  candidate _ _ := true
  group_name h := by simpa using find?_some h
  proxies_empty := by decide
  groups_empty := by decide

/-- Its database, where one of the groups uses a subscription. -/
def nestedGroups : Database where
  groups := [outerGroup, innerGroup]
  activeMember _ := ""
  healthCheckURL _ := ""
  nodes _ := .ok fun n => if n = "node" then some (.singleton "socks5") else none
  lookups := nestedPool

/-- The object that the matcher has for the outer group. -/
def outerHandle : Handle := ⟨outerGroup, "", nestedPool, some fun _ => none⟩

/-- The matcher resolves the inner group to `DIRECT`. -/
theorem selectable_inner : (⟨nestedPool, default, fun _ => 0⟩ : Live).Selectable "inner" := by
  refine ⟨innerGroup, visit nestedPool default (fun _ w => (none, w)) innerGroup ⟨[], fun _ => 0⟩, by decide,
    ⟨1, fun bottom fuel hfuel => ?_⟩, by decide +kernel⟩
  obtain ⟨n, rfl⟩ := Nat.exists_eq_add_of_le' hfuel
  rw [Function.iterate_succ_apply']
  rfl

/-- A check of a member of the outer group panics, and so does a check of a node of the subscription. The periodic
check records the inner group as dead. -/
theorem nestedGroups_unsound :
    let live : Live := ⟨nestedPool, default, fun _ => 0⟩
    let probed : Probed nestedGroups outerHandle := ⟨[], by decide⟩
    live.Selectable "inner" ∧
      checkGroupProxyHealth nestedGroups (fun _ _ => (true, 1)) "outer" "inner" = .error .nilMap ∧
      checkSubscriptionHealth nestedGroups (fun _ _ => (true, 1)) "nodes" "node" "" = .error .nilMap ∧
      (checkGroupHealth nestedGroups outerHandle probed).map (·.recorded) = .ok [⟨"inner", true, "inner", false, 0⟩] ∧
      ¬ (Call.groupProxy (fun _ _ => (true, 1)) "outer" "inner" : Call nestedGroups).Sound live ∧
      ¬ (Call.subscription (fun _ _ => (true, 1)) "nodes" "node" "" : Call nestedGroups).Sound live ∧
      ¬ (Call.group outerHandle probed).Sound live := by
  have hpanic : checkGroupProxyHealth nestedGroups (fun _ _ => (true, 1)) "outer" "inner" = .error .nilMap :=
    checkGroupProxyHealth_panics (h := ⟨outerGroup, "", barePool, none⟩) rfl
  refine ⟨selectable_inner, hpanic, rfl, rfl, fun h => ?_, fun h => ?_, fun h => ?_⟩
  · exact sound_groupProxy.mp h outerGroup mem_cons_self rfl
  · rcases sound_subscription.mp h with hnone | hnone
    · exact absurd (hnone _ rfl) (by simp)
    · exact hnone innerGroup (by simp [nestedGroups]) rfl
  · exact (sound_group.mp h).2 ⟨"inner", false, true⟩ (by decide +kernel) rfl selectable_inner

end Health
