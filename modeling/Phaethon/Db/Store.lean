import Phaethon.Common.GoMap
import Phaethon.Db.Chain

/-!
# What the matcher is built from

The buckets of the database that `BuildRuleMatcher` in `src/db/matcher.go` reads, and beside them the
proxies, mappings and rules that were registered at run time. `Database.pool` says what the maps of the
matcher are to hold: every proxy as `init` leaves it, a registered one in place of a stored one, and the
two built-in ones in place of both.
-/

open Function List

namespace Config

/-- `RateLimiter`, as `NewRateLimiter` makes it. -/
structure RateLimiter where
  name : String
  bytesPerSecond : Int64
  deriving DecidableEq, Repr

/-- What a proxy object holds besides its `via` reference and its `Next` pointer. -/
structure Settings extends Proxy where
  up : Int64
  down : Int64
  upBps : Int64
  downBps : Int64
  upRateLimiter : Option RateLimiter
  downRateLimiter : Option RateLimiter
  deriving DecidableEq, Repr

/-- The rate that the shorthand in megabits stands for, where no rate in bytes is given. -/
def rateOf (mbps bps : Int64) : Int64 :=
  if 0 < mbps ∧ bps = 0 then mbps * 125000 else bps

/-- What `init` does to a proxy: one that is disabled is left as it is. -/
def Settings.init (p : Settings) : Settings :=
  if p.isEnabled then
    let up := rateOf p.up p.upBps
    let down := rateOf p.down p.downBps
    { p with
      type := Text.toLower p.type
      upBps := up
      downBps := down
      upRateLimiter := if 0 < up then some ⟨"UpRateLimiter_" ++ p.name, up⟩ else p.upRateLimiter
      downRateLimiter :=
        if 0 < down then some ⟨"DownRateLimiter_" ++ p.name, down⟩ else p.downRateLimiter }
  else p

/-- A proxy with its `via` reference. -/
structure ProxyRecord extends Settings where
  viaProxy : String
  deriving DecidableEq, Repr

/-- A proxy after `init`. -/
def ProxyRecord.init (r : ProxyRecord) : ProxyRecord :=
  { r.toSettings.init with viaProxy := r.viaProxy }

/-- `SingletonProxy`, as a record. -/
def ProxyRecord.singleton (type : String) : ProxyRecord :=
  { Proxy.singleton type with
    up := 0, down := 0, upBps := 0, downBps := 0, upRateLimiter := none, downRateLimiter := none
    viaProxy := "" }

/-- The names of the built-in proxies. -/
def builtin (name : String) : Prop := name = "DIRECT" ∨ name = "REJECT"

instance (name : String) : Decidable (builtin name) := inferInstanceAs (Decidable (_ ∨ _))

/-! ## Pools -/

variable {π ρ : Type*}

attribute [ext] Subscription Pool

/-- The subscriptions after a write to, or a deletion of, one entry. -/
def Pool.setSubscription (pool : Pool π) (key : String) (sub : Option (Subscription π)) : Pool π :=
  { pool with subscriptions := update pool.subscriptions key sub }

/-- A subscription with other things for its nodes. -/
def Subscription.map (f : π → ρ) (sub : Subscription π) : Subscription ρ where
  enabled := sub.enabled
  nodes := sub.nodes.map fun node => (node.1, f node.2)
  distinct := by simpa [comp_def] using sub.distinct
  named := by simpa [comp_def] using sub.named

/-- A pool with other things for its proxies. -/
def Pool.map (f : π → ρ) (pool : Pool π) : Pool ρ where
  proxies name := (pool.proxies name).map f
  groups := pool.groups
  subscriptions name := (pool.subscriptions name).map (·.map f)
  candidate := pool.candidate
  group_name := pool.group_name
  proxies_empty := by rw [pool.proxies_empty]; rfl
  groups_empty := pool.groups_empty

end Config

namespace Db

open Config

/-! ## Buckets -/

variable {β : Key → Type} {γ : Type}

variable (bucket : AList β)

/-- What a bucket holds under a name. -/
def named (f : ∀ key, β key → γ) (name : String) : Option γ :=
  if h : name = "" then none else (bucket.lookup ⟨name, h⟩).map (f ⟨name, h⟩)

/-- `Put` and `Delete`. -/
def store (key : Key) : Option (β key) → AList β
  | some value => bucket.insert key value
  | none => bucket.erase key

variable (f : ∀ key, β key → γ)

theorem named_empty : named bucket f "" = none :=
  dif_pos rfl

theorem named_key (key : Key) :
    named bucket f key.1 = (bucket.lookup key).map (f key) :=
  dif_neg key.2

theorem named_store (key : Key) (value : Option (β key)) :
    named (store bucket key value) f = update (named bucket f) key.1 (value.map (f key)) := by
  funext name
  by_cases hname : name = key.1
  · rw [hname, update_self, named_key]
    cases value with
    | none => rw [store, AList.lookup_erase]
    | some value => rw [store, AList.lookup_insert]
  · rw [update_of_ne hname]
    unfold named
    split
    · rfl
    · have hkey : (⟨name, ‹_›⟩ : Key) ≠ key := fun h => hname (congrArg Subtype.val h)
      cases value with
      | none => rw [store, AList.lookup_erase_ne hkey]
      | some value => rw [store, AList.lookup_insert_ne hkey]

/-- What no step of a loop changes. -/
theorem foldl_keep {σ α δ : Type*} {put : σ → α → σ} (get : σ → δ)
    (hput : ∀ s a, get (put s a) = get s) (l : List α) (s : σ) : get (l.foldl put s) = get s := by
  induction l generalizing s with
  | nil => rfl
  | cons a l ih => exact (ih (put s a)).trans (hput s a)

/-- A loop that puts the entries of a bucket into a map. -/
theorem foldl_put {σ : Type*} {put : σ → Sigma β → σ} (get : σ → String → Option γ) (f : ∀ key, β key → γ)
    (hput : ∀ s e, get (put s e) = update (get s) e.1.1 (some (f e.1 e.2)))
    (bucket : AList β) (s : σ) (name : String) :
    get (bucket.entries.foldl put s) name = (named bucket f name).or (get s name) := by
  obtain ⟨entries, hkeys⟩ := bucket
  unfold named AList.lookup
  induction entries generalizing s with
  | nil =>
    split
    · rfl
    · rfl
  | cons e entries ih =>
    rw [foldl_cons, ih (put s e) (nodupKeys_cons.mp hkeys).2, hput]
    by_cases hname : name = e.1.1
    · subst hname
      have hnone : dlookup e.1 entries = none :=
        dlookup_eq_none.mpr (nodupKeys_cons.mp hkeys).1
      rw [dif_neg e.1.2, dif_neg e.1.2, update_self, dlookup_cons_eq, hnone]
      rfl
    · rw [update_of_ne hname]
      split
      case isTrue => rfl
      case isFalse hne =>
          have hkey : (⟨name, hne⟩ : Key) ≠ e.1 := fun h => hname (congrArg Subtype.val h)
          rw [dlookup_cons_ne _ _ hkey]

/-! ## The database -/

/-- A proxy under its name. -/
abbrev Proxies := AList fun key : Key => { r : ProxyRecord // r.name = key.1 }

/-- `ProxyGroup` as it is stored: the group and its active member. -/
structure GroupRecord where
  group : ProxyGroup
  activeMember : String
  deriving DecidableEq, Repr

/-- `SubscriptionNodes`: the nodes of a subscription by name. -/
abbrev Nodes := AList fun _ : Key => ProxyRecord

/-- The buckets that the matcher is built from. A bucket of subscriptions holds their switches. The
rules and the resolvers are in the order in which `listRulesTx` and `listTx` return them, and the node id
is empty if there is no mesh configuration. -/
structure Database where
  proxies : Proxies
  groups : AList fun key : Key => { g : GroupRecord // g.group.name = key.1 }
  subscriptions : AList fun _ : Key => Bool
  nodes : AList fun _ : Key => Nodes
  mappings : List String
  rules : List String
  resolvers : List Resolver
  nodeId : String

/-- The entries that were registered at run time, the rule registered last first. -/
structure Dynamic where
  proxies : Proxies
  mappings : List String
  rules : List Rule

/-- Nothing is registered. -/
def Dynamic.empty : Dynamic := ⟨∅, [], []⟩

/-- `parseRules`. -/
def parseRules (texts : List String) : List Rule := texts.filterMap parseRule

/-- The nodes that are stored for a subscription. -/
def Database.nodesOf (db : Database) (name : String) : Nodes :=
  (named db.nodes (fun _ nodes => nodes) name).getD ∅

/-- The active members of the groups. -/
def Database.active (db : Database) (name : String) : String :=
  (named db.groups (fun _ g => g.1.activeMember) name).getD ""

theorem Nodes.nodup_names (nodes : Nodes) : (nodes.entries.map fun e => e.1.1).Nodup := by
  have h : (nodes.entries.map (Subtype.val ∘ Sigma.fst)).Nodup := by
    rw [comp_map]
    exact Nodup.map Subtype.val_injective nodes.nodupKeys
  exact h

/-- A subscription with its nodes. -/
def Nodes.subscription (nodes : Nodes) (enabled : Bool) : Subscription ProxyRecord where
  enabled := enabled
  nodes := nodes.entries.map fun e => (e.1.1, e.2)
  distinct := by simpa [comp_def] using nodes.nodup_names
  named := by simp

/-- What the maps of the matcher are to hold. -/
def Database.pool (db : Database) (candidate : String → String → Bool) (dyn : Dynamic) :
    Pool ProxyRecord where
  proxies name :=
    if builtin name then some (ProxyRecord.singleton name).init
    else
      ((named dyn.proxies (fun _ r => r.1) name).or (named db.proxies (fun _ r => r.1) name)).map
        ProxyRecord.init
  groups := named db.groups fun _ g => g.1.group
  subscriptions name :=
    (named db.subscriptions (fun _ enabled => enabled) name).map (db.nodesOf name).subscription
  candidate := candidate
  group_name := by
    intro name g h
    by_cases hname : name = ""
    · rw [hname, named_empty] at h
      cases h
    · rw [named, dif_neg hname] at h
      obtain ⟨r, _, rfl⟩ := Option.map_eq_some_iff.mp h
      exact r.2
  proxies_empty := by
    rfl
  groups_empty := named_empty ..

end Db
