import Phaethon.Config.Reach
import Phaethon.Config.Rule

/-!
# The rule matcher

`src/db/matcher.go`: the request is rewritten by the first resolver that applies, the first rule that
applies names a proxy or a group, and a group is resolved to a proxy. The maps are those that
`BuildRuleMatcher` loads from the database and `onConfigChange` keeps up to date; neither leaves an entry
out because it is disabled.
-/

namespace Config

/-- `Proxy`, as far as it is read where traffic is routed. -/
structure Proxy where
  name : String
  type : String
  enabled : Option Bool
  reverseAddress : String
  deriving DecidableEq, Repr

/-- `(*Proxy).IsEnabled`: omitted means enabled. -/
def Proxy.isEnabled (p : Proxy) : Bool := p.enabled.getD true

/-- `SingletonProxy`. -/
def Proxy.singleton (type : String) : Proxy := ⟨"", type, none, ""⟩

end Config

namespace Db

open Config

variable {π : Type*}

/-- `RuleMatcher`. The node id is empty when there is no mesh configuration. -/
structure RuleMatcher (π : Type*) where
  pool : Pool π
  mappings : String → Bool
  rules : List Rule
  resolvers : List Resolver
  nodeId : String

/-- The matchers that `buildMatchers` keeps beside the rules. -/
def RuleMatcher.matchers (M : RuleMatcher π) : List Matcher :=
  M.rules.filterMap buildMatcher

/-- The two clock readings of `match`: the hour of one, the minute of a later one. -/
structure Clock where
  hour : ℕ
  minute : ℕ

/-- The minute of the day that `match` computes. -/
def Clock.nowMin (c : Clock) : ℕ := c.hour * 60 + c.minute

/-- `MatchResult`. -/
structure MatchResult where
  proxyName : String
  mapping : String
  timeRange : String
  deriving DecidableEq, Repr

/-- What `ResolveMatch` returns, and the round-robin counters after it. -/
structure Outcome (π : Type*) where
  request : AddrRequest
  proxy : Option (π × List Hop)
  result : Option MatchResult
  idx : String → ℕ

variable (M : RuleMatcher π)

/-- `(*RuleMatcher).findMapping`. -/
def RuleMatcher.findMapping (name : String) : Option String :=
  if name ≠ "" ∧ M.mappings name then some name else none

/-- `(*RuleMatcher).resolveName`. -/
def RuleMatcher.resolveName (sel : Selection) (fuel : ℕ) (idx : String → ℕ)
    (name : String) : Resolved π :=
  match M.pool.proxies name with
  | some p => (some (p, []), ⟨[], idx⟩)
  | none =>
      match M.pool.groups name with
      | none => (none, ⟨[], idx⟩)
      | some g =>
          if computeMembers M.pool g = [] then (none, ⟨[], idx⟩)
          else nextWithVisited M.pool sel fuel g ⟨[], idx⟩

/-- The request is for this node's loopback name `loc.<node>.phn`. -/
def RuleMatcher.isLoopback (req : AddrRequest) : Bool :=
  M.nodeId ≠ "" ∧ Text.equalFold req.dstAddr ("loc." ++ M.nodeId ++ ".phn")

/-- `(*RuleMatcher).match`. -/
def RuleMatcher.matchRule (sel : Selection) (fuel : ℕ) (idx : String → ℕ)
    (req : AddrRequest) (mapping : Option String) (clock : Clock) : Outcome π :=
  match M.matchers.find? (·.applies req mapping clock.nowMin) with
  | none => ⟨req, none, none, idx⟩
  | some m =>
      let resolved := M.resolveName sel fuel idx m.proxyName
      ⟨req, resolved.1, some ⟨m.proxyName, mapping.getD "", m.timeRange.format⟩, resolved.2.idx⟩

/-- `(*RuleMatcher).ResolveMatch`; `direct` is the built-in `DIRECT` proxy. -/
def RuleMatcher.resolveMatch (direct : π) (sel : Selection) (fuel : ℕ)
    (idx : String → ℕ) (req : AddrRequest) (mappingName : String) (clock : Clock) : Outcome π :=
  if M.isLoopback req then
    ⟨{ req with dstAddr := "127.0.0.1" }, some (direct, []), none, idx⟩
  else
    M.matchRule sel fuel idx (resolving M.resolvers req) (M.findMapping mappingName) clock

/-! ## What a name leads to -/

/-- The proxies that a name in a rule can stand for, each with a way to it: the proxy of that name, or
what the group of that name reaches. -/
def Leads (pool : Pool π) (name : String) (p : π) (hops : List Hop) : Prop :=
  pool.proxies name = some p ∧ hops = [] ∨
    pool.proxies name = none ∧ ∃ g, pool.groups name = some g ∧ Reach pool [] g p hops

theorem next_of_no_members {pool : Pool π} {sel : Selection} {fuel : ℕ} {g : ProxyGroup} {w : Walk}
    (h : computeMembers pool g = []) : (nextWithVisited pool sel fuel g w).1 = none := by
  cases fuel with
  | zero => rfl
  | succ fuel =>
    unfold nextWithVisited
    split
    · rfl
    · simp [h, tryMembers]

theorem exists_resolveName_iff {M : RuleMatcher π} {name : String} {p : π} {hops : List Hop}
    (htype : ∀ {n g}, M.pool.groups n = some g → Supported g.type) :
    (∃ sel fuel idx, (M.resolveName sel fuel idx name).1 = some (p, hops)) ↔
      Leads M.pool name p hops := by
  unfold RuleMatcher.resolveName Leads
  cases hp : M.pool.proxies name with
  | some q => simp [eq_comm]
  | none =>
    cases hg : M.pool.groups name with
    | none => simp
    | some g =>
      have hself : M.pool.groups g.name = some g := (M.pool.group_name hg).symm ▸ hg
      -- the test for members changes nothing: a group without any returns nothing
      have hnext (sel fuel idx) :
          (if computeMembers M.pool g = [] then ((none, ⟨[], idx⟩) : Resolved π)
            else nextWithVisited M.pool sel fuel g ⟨[], idx⟩).1 =
          (nextWithVisited M.pool sel fuel g ⟨[], idx⟩).1 := by
        split
        case isTrue h => rw [next_of_no_members h]
        case isFalse => rfl
      simp only [hnext, exists_next_iff_reach htype hself]
      simp

end Db
