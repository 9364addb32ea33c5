import Phaethon.Db.Matcher

/-!
# Disabled entries

The switches of proxies, groups and subscriptions are read while the matcher is built, but not where a
request is resolved. So a request avoids what is disabled exactly if the rule it meets leads to nothing
disabled, by any way that some selection takes.
-/

namespace Db

open Config List

/-- The group or subscription of a hop is switched on. -/
def hopEnabled {π : Type*} (pool : Pool π) : Hop → Bool
  | .group name => (pool.groups name).any (·.enabled)
  | .subscription name => (pool.subscriptions name).any (·.enabled)

/-- The proxy is switched on, and so is everything on the way to it. -/
def EnabledWay (pool : Pool Proxy) (p : Proxy) (hops : List Hop) : Prop :=
  p.isEnabled = true ∧ ∀ hop ∈ hops, hopEnabled pool hop = true

instance (pool : Pool Proxy) (p : Proxy) (hops : List Hop) : Decidable (EnabledWay pool p hops) :=
  inferInstanceAs (Decidable (_ ∧ _))

variable (M : RuleMatcher Proxy)

/-- A resolution of the request returns nothing disabled, whatever the active members, the health
results and the counters are. -/
def UsesEnabled (req : AddrRequest) (mapping : String) (clock : Clock) :
    Prop :=
  ∀ sel fuel idx p hops,
    (M.resolveMatch (.singleton "DIRECT") sel fuel idx req mapping clock).proxy = some (p, hops) →
      EnabledWay M.pool p hops

/-- `r` is the first of the matchers that applies to the request. -/
def FirstMatch (req : AddrRequest) (mapping : String) (clock : Clock)
    (r : Matcher) : Prop :=
  let applies (m : Matcher) : Bool :=
    m.applies (resolving M.resolvers req) (M.findMapping mapping) clock.nowMin
  ∃ before after, M.matchers = before ++ r :: after ∧ applies r = true ∧
    ∀ m ∈ before, applies m = false

variable {M : RuleMatcher Proxy} {req : AddrRequest} {mapping : String} {clock : Clock}

theorem find_eq_some_iff_firstMatch {r : Matcher} :
    (M.matchers.find? fun m =>
      m.applies (resolving M.resolvers req) (M.findMapping mapping) clock.nowMin) = some r ↔
      FirstMatch M req mapping clock r := by
  rw [find?_eq_some_iff_append, FirstMatch]
  constructor
  · rintro ⟨happ, before, after, hsplit, hbefore⟩
    exact ⟨before, after, hsplit, happ, fun m hm => by simpa using hbefore m hm⟩
  · rintro ⟨before, after, hsplit, happ, hbefore⟩
    exact ⟨happ, before, after, hsplit, fun m hm => by simpa using hbefore m hm⟩

theorem resolveMatch_proxy_eq_some {sel : Selection} {fuel : ℕ} {idx : String → ℕ} {p : Proxy}
    {hops : List Hop} (hloop : M.isLoopback req = false) :
    (M.resolveMatch (.singleton "DIRECT") sel fuel idx req mapping clock).proxy = some (p, hops) ↔
      ∃ r, FirstMatch M req mapping clock r ∧
        (M.resolveName sel fuel idx r.proxyName).1 = some (p, hops) := by
  simp only [← find_eq_some_iff_firstMatch]
  unfold RuleMatcher.resolveMatch RuleMatcher.matchRule
  rw [if_neg (by simp [hloop])]
  split
  case h_1 hnone => simp [hnone]
  case h_2 r hr => simp [hr]

/-- A select group with the one member `P`. -/
def soloGroup : ProxyGroup := ⟨"G", true, .select, ["P"], "", ""⟩

/-- The proxy `P`, switched on or off, in the group `G`. -/
def soloPool (on : Bool) : Pool Proxy where
  proxies n := if n = "P" then some ⟨"P", "socks5", some on, ""⟩ else none
  groups n := if n = "G" then some soloGroup else none
  subscriptions _ := none
  candidate _ _ := true
  group_name {n g} h := by
    split at h <;> cases h
    case isTrue hn => exact hn.symm
  proxies_empty := if_neg (by decide)
  groups_empty := if_neg (by decide)

/-- Everything goes to the group `G`. -/
def soloMatcher (on : Bool) : RuleMatcher Proxy :=
  ⟨soloPool on, fun _ => false, ["MATCH,G"].filterMap parseRule, [], ""⟩

/-- A connection to a public address. -/
def soloRequest : AddrRequest := ⟨"192.0.2.1", 443, "CONNECT", "tcp"⟩

/-- The group `G` reaches `P` only. -/
theorem reach_soloGroup {visited : List String} {p : Proxy} {hops : List Hop}
    (h : Reach (soloPool true) visited soloGroup p hops) :
    p = ⟨"P", "socks5", some true, ""⟩ ∧ hops = [.group "G"] := by
  have hmembers : computeMembers (soloPool true) soloGroup = [⟨"P", false, false⟩] := by
    decide +kernel
  cases h with
  | member hfresh hpick hfound =>
    obtain rfl := mem_singleton.mp (hmembers ▸ hpick.1)
    have hp : resolveMember (soloPool true) soloGroup ⟨"P", false, false⟩ =
      some (⟨"P", "socks5", some true, ""⟩, []) := by decide +kernel
    obtain ⟨rfl, rfl⟩ := Prod.mk.inj (Option.some.inj (hp.symm.trans hfound))
    exact ⟨rfl, rfl⟩
  | nested hfresh hpick hgroup hfound hrest =>
    obtain rfl := mem_singleton.mp (hmembers ▸ hpick.1)
    cases hgroup

end Db
