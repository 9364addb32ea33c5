import Mathlib.Algebra.Group.Int.Defs
import Mathlib.Data.List.GetD
import Mathlib.Data.List.Sort
import Mathlib.Data.String.Basic

/-!
# Proxy groups

`src/config/config.go`: the members of a group, the selection strategies and the resolution of nested
groups. The code is generic in the proxies (`π`), which a group only hands on. A group finds proxies,
groups and subscriptions in a `Pool`, the maps of the matcher.

`nextWithVisited` also records the way to the proxy it returns (`Hop`), which the code does not keep.
-/

namespace Config

open Function List

/-- The types of a group; any other string is kept as it is. -/
inductive GroupType where
  | select
  | loadBalance
  | best
  | other (name : String)
  deriving DecidableEq, Repr

/-- `GroupMember`. -/
structure GroupMember where
  name : String
  fromSubscription : Bool
  isGroup : Bool
  deriving DecidableEq, Repr

/-- The zero value of `GroupMember`, which stands for no member. -/
def GroupMember.zero : GroupMember := ⟨"", false, false⟩

/-- `(GroupMember).HealthKey`. -/
def GroupMember.healthKey (m : GroupMember) : String :=
  if m.fromSubscription then "sub:" ++ m.name else m.name

/-- `healthStatus`. -/
structure HealthStatus where
  alive : Bool
  latency : ℤ
  failCount : ℕ
  successCount : ℕ
  deriving DecidableEq, Repr

/-- The configuration of a `ProxyGroup`. -/
structure ProxyGroup where
  name : String
  enabled : Bool
  type : GroupType
  manualProxies : List String
  subscription : String
  subscriptionFilter : String
  deriving DecidableEq, Repr

/-- `Subscription`: a switch and the node pool. `SetNodes` gives a nameless node its address for a name. -/
structure Subscription (π : Type*) where
  enabled : Bool
  nodes : List (String × π)
  distinct : (nodes.map Prod.fst).Nodup
  named : "" ∉ nodes.map Prod.fst

/-- The maps of the matcher, keyed by name; a database key is not empty. `candidate filter name` says
whether a subscription filter lets a node through. -/
structure Pool (π : Type*) where
  proxies : String → Option π
  groups : String → Option ProxyGroup
  subscriptions : String → Option (Subscription π)
  candidate : String → String → Bool
  group_name : ∀ {n g}, groups n = some g → g.name = n
  proxies_empty : proxies "" = none
  groups_empty : groups "" = none

/-- What selection reads besides the configuration, by group: the active member and the health map. -/
structure Selection where
  active : String → String
  health : String → String → Option HealthStatus
  deriving Inhabited

/-- What a resolution carries along: the groups it went into and the round-robin counters. -/
structure Walk where
  visited : List String
  idx : String → ℕ

/-- A stage on the way to a proxy. -/
inductive Hop where
  | group (name : String)
  | subscription (name : String)
  deriving DecidableEq, Repr

variable {π : Type*}

/-- A pool of proxies, without groups and subscriptions. -/
def Pool.ofProxies (proxies : String → Option π) (h : proxies "" = none) : Pool π where
  proxies := proxies
  groups _ := none
  subscriptions _ := none
  candidate _ _ := false
  group_name h := by cases h
  proxies_empty := h
  groups_empty := rfl

/-! ## Members -/

variable (pool : Pool π)

variable (g : ProxyGroup)

/-- The subscription of a group, if it has one. -/
def Pool.subscriptionOf : Option (Subscription π) :=
  if g.subscription = "" then none else pool.subscriptions g.subscription

/-- `(*ProxyGroup).subscriptionCandidatesLocked`: the filtered names, sorted. -/
def candidates (sub : Subscription π) : List String :=
  ((sub.nodes.map Prod.fst).filter (pool.candidate g.subscriptionFilter)).insertionSort (· ≤ ·)

/-- The subscription members of a group. -/
def subscriptionMembers : List GroupMember :=
  match pool.subscriptionOf g with
  | none => []
  | some sub => (candidates pool g sub).map fun name => ⟨name, true, false⟩

/-- A manual member: a proxy if there is one of that name, else a group. Nothing else is asked of it. -/
def manualMember (name : String) : Option GroupMember :=
  if (pool.proxies name).isSome then some ⟨name, false, false⟩
  else if (pool.groups name).isSome then some ⟨name, false, true⟩
  else none

/-- `(*ProxyGroup).computeMembersLocked`. -/
def computeMembers (g : ProxyGroup) : List GroupMember :=
  subscriptionMembers pool g ++ g.manualProxies.filterMap (manualMember pool)

/-! ## Selection -/

/-- `(*ProxyGroup).nextSelectMember`. -/
def nextSelectMember (active : String) (members : List GroupMember) : GroupMember :=
  match if active = "" then none else members.find? (·.name = active) with
  | some m => m
  | none => members.headD .zero

/-- `(*ProxyGroup).nextRoundRobinAliveMember`: at most `n` tries from counter `idx`. -/
def nextRoundRobinAliveMember (health : String → Option HealthStatus) (members : List GroupMember) :
    ℕ → ℕ → GroupMember × ℕ
  | 0, idx => (.zero, idx)
  | n + 1, idx =>
      let m := members.getD (idx % members.length) .zero
      match health m.healthKey with
      | none => (m, idx + 1)
      | some h =>
          if h.alive then (m, idx + 1) else nextRoundRobinAliveMember health members n (idx + 1)

/-- The loop of `nextByHealthMember`: the best member so far and its latency. -/
def betterMember (health : String → Option HealthStatus) (best : GroupMember × ℤ) (m : GroupMember) :
    GroupMember × ℤ :=
  match health m.healthKey with
  | none => best
  | some h =>
      if h.alive ∧ (best.1.name = "" ∨ h.latency < best.2) then (m, h.latency) else best

/-- `(*ProxyGroup).nextByHealthMember`. -/
def nextByHealthMember (health : String → Option HealthStatus) (members : List GroupMember) :
    GroupMember :=
  let best := (members.foldl (betterMember health) (.zero, 0)).1
  if best.name ≠ "" then best
  else (members.find? fun m => (health m.healthKey).isNone).getD .zero

/-- `(*ProxyGroup).pickMember`, with the group's round-robin counter after it. -/
def pickMember (sel : Selection) (g : ProxyGroup) (members : List GroupMember) (idx : ℕ) :
    GroupMember × ℕ :=
  match g.type with
  | .select => (nextSelectMember (sel.active g.name) members, idx)
  | .loadBalance => nextRoundRobinAliveMember (sel.health g.name) members members.length idx
  | .best => (nextByHealthMember (sel.health g.name) members, idx)
  | .other _ => (members.headD .zero, idx)

/-! ## Health results -/

def healthFailThreshold : ℕ := 3

def healthSuccessThreshold : ℕ := 2

/-- `(*ProxyGroup).SetHealth`: the health map after one check, and whether the member's state changed. -/
def setHealth (health : String → Option HealthStatus) (key : String) (checkAlive : Bool)
    (latency : ℤ) : (String → Option HealthStatus) × Bool :=
  let isNew := (health key).isNone
  let old := (health key).getD ⟨false, 0, 0, 0⟩
  let counted : HealthStatus :=
    if checkAlive then ⟨old.alive, latency, 0, old.successCount + 1⟩
    else ⟨old.alive, latency, old.failCount + 1, 0⟩
  let changed : Bool :=
    if checkAlive then isNew ∨ (¬ old.alive ∧ healthSuccessThreshold ≤ counted.successCount)
    else isNew ∨ (old.alive ∧ healthFailThreshold ≤ counted.failCount)
  let status := if changed then { counted with alive := checkAlive } else counted
  (update health key (some status), changed)

/-- `(*ProxyGroup).SetHealthImmediate`, likewise. -/
def setHealthImmediate (health : String → Option HealthStatus) (key : String) (alive : Bool)
    (latency : ℤ) : (String → Option HealthStatus) × Bool :=
  let isNew := (health key).isNone
  let old := (health key).getD ⟨false, 0, 0, 0⟩
  let status : HealthStatus :=
    if alive then ⟨alive, latency, 0, old.successCount + 1⟩
    else ⟨alive, latency, old.failCount + 1, 0⟩
  (update health key (some status), isNew || old.alive != alive)

/-! ## Nested groups -/

/-- The result of a resolution: a proxy with the way to it, and the walk so far. -/
abbrev Resolved (π : Type*) := Option (π × List Hop) × Walk

/-- `(*ProxyGroup).ResolveMember`. -/
def resolveMember (pool : Pool π) (g : ProxyGroup) (m : GroupMember) : Option (π × List Hop) :=
  if m.isGroup then none
  else if m.fromSubscription then
    match pool.subscriptionOf g with
    | some sub => (sub.nodes.lookup m.name).map fun p => (p, [.subscription g.subscription])
    | none => none
  else (pool.proxies m.name).map fun p => (p, [])

/-- `(*ProxyGroup).Resolve`. -/
def resolve (pool : Pool π) (g : ProxyGroup) (name : String) : Option π :=
  if name = "" then none
  else if name ∈ g.manualProxies then pool.proxies name
  else
    match (pool.subscriptionOf g).bind fun sub => sub.nodes.lookup name with
    | some p => some p
    | none => pool.proxies name

/-- `(*ProxyGroup).resolveMemberWithVisited`; `inner` resolves a nested group. -/
def resolveMemberWithVisited (pool : Pool π) (inner : ProxyGroup → Walk → Resolved π)
    (g : ProxyGroup) (m : GroupMember) (w : Walk) : Resolved π :=
  if m.isGroup then
    match pool.groups m.name with
    | some h => inner h w
    | none => (none, w)
  else (resolveMember pool g m, w)

/-- The loop of `NextWithVisited`: a member that resolves to nothing is removed and the next one picked.
`n` bounds the rounds; each removes a member. -/
def tryMembers (pool : Pool π) (sel : Selection) (inner : ProxyGroup → Walk → Resolved π)
    (g : ProxyGroup) : ℕ → List GroupMember → Walk → Resolved π
  | 0, _, w => (none, w)
  | n + 1, members, w =>
      if members = [] then (none, w)
      else
        let (m, idx) := pickMember sel g members (w.idx g.name)
        let w := { w with idx := update w.idx g.name idx }
        if m.name = "" then (none, w)
        else
          match resolveMemberWithVisited pool inner g m w with
          | (some p, w) => (some p, w)
          | (none, w) => tryMembers pool sel inner g n (members.erase m) w

/-- `(*ProxyGroup).NextWithVisited`, to a nesting depth of `fuel`. -/
def nextWithVisited (pool : Pool π) (sel : Selection) : ℕ → ProxyGroup → Walk → Resolved π
  | 0, _, w => (none, w)
  | fuel + 1, g, w =>
      if g.name ≠ "" ∧ g.name ∈ w.visited then (none, w)
      else
        let w := if g.name ≠ "" then { w with visited := g.name :: w.visited } else w
        let members := computeMembers pool g
        match tryMembers pool sel (nextWithVisited pool sel fuel) g members.length members w with
        | (some (p, hops), w) => (some (p, .group g.name :: hops), w)
        | (none, w) => (none, w)

/-! ## What the members are -/

variable {pool : Pool π} {g : ProxyGroup} {m : GroupMember}

theorem mem_subscriptionMembers :
    m ∈ subscriptionMembers pool g ↔
      ∃ sub, pool.subscriptionOf g = some sub ∧ ∃ name ∈ candidates pool g sub,
        m = ⟨name, true, false⟩ := by
  unfold subscriptionMembers
  cases pool.subscriptionOf g with
  | none => simp
  | some sub => simp [eq_comm]

theorem mem_candidates {sub : Subscription π} {name : String} :
    name ∈ candidates pool g sub ↔
      name ∈ sub.nodes.map Prod.fst ∧ pool.candidate g.subscriptionFilter name = true := by
  rw [candidates, mem_insertionSort, mem_filter]

theorem fromSubscription_of_mem (h : m ∈ subscriptionMembers pool g) : m.fromSubscription = true := by
  obtain ⟨_, _, _, _, rfl⟩ := mem_subscriptionMembers.mp h
  rfl

theorem manualMember_eq_some {name : String} (h : manualMember pool name = some m) :
    m.name = name ∧ m.fromSubscription = false ∧ name ≠ "" := by
  unfold manualMember at h
  split at h
  case isTrue hp =>
      refine Option.some.inj h ▸ ⟨rfl, rfl, ?_⟩
      rintro rfl
      simp [pool.proxies_empty] at hp
  case isFalse =>
      split at h <;> cases h
      case isTrue hg =>
          refine ⟨rfl, rfl, ?_⟩
          rintro rfl
          simp [pool.groups_empty] at hg

/-- A group in the map is not nameless. -/
theorem Pool.group_name_ne (pool : Pool π) {n : String} (h : pool.groups n = some g) : g.name ≠ "" := by
  intro hempty
  rw [← pool.group_name h, hempty, pool.groups_empty] at h
  cases h

/-- No member of a group is nameless: the empty name is left to the zero value. -/
theorem name_ne_of_mem (h : m ∈ computeMembers pool g) : m.name ≠ "" := by
  rcases mem_append.mp h with h | h
  · obtain ⟨sub, _, name, hname, rfl⟩ := mem_subscriptionMembers.mp h
    rintro rfl
    exact sub.named (mem_candidates.mp hname).1
  · obtain ⟨name, _, hm⟩ := mem_filterMap.mp h
    obtain ⟨rfl, _, hne⟩ := manualMember_eq_some hm
    exact hne

/-- A subscription member always resolves: it was taken from the node pool it is looked up in. -/
theorem resolveMember_isSome (h : m ∈ subscriptionMembers pool g) : (resolveMember pool g m).isSome := by
  obtain ⟨sub, hsub, name, hname, rfl⟩ := mem_subscriptionMembers.mp h
  have hkey : (sub.nodes.lookup name).isSome := by
    rw [lookup_isSome_iff]
    obtain ⟨node, hnode, rfl⟩ := mem_map.mp (mem_candidates.mp hname).1
    exact ⟨node, hnode, by simp⟩
  simpa [resolveMember, hsub] using hkey

/-! ## What the strategies return -/

variable {members : List GroupMember}

theorem nextSelectMember_mem {active : String} (h : members ≠ []) : nextSelectMember active members ∈ members := by
  unfold nextSelectMember
  split
  case h_1 m hm =>
      split at hm
      · cases hm
      · exact mem_of_find?_eq_some hm
  case h_2 =>
      obtain ⟨m, ms, rfl⟩ := exists_cons_of_ne_nil h
      exact mem_cons_self

theorem nextSelectMember_name (hm : m ∈ members) (hne : m.name ≠ "") :
    (nextSelectMember m.name members).name = m.name := by
  have hsome : (members.find? (·.name = m.name)).isSome :=
    find?_isSome.mpr ⟨m, hm, by simp⟩
  obtain ⟨x, hx⟩ := Option.isSome_iff_exists.mp hsome
  rw [nextSelectMember, if_neg hne, hx]
  simpa using find?_some hx

/-- Round robin returns no member, or one that is not known to be dead. -/
theorem nextRoundRobinAliveMember_spec (health : String → Option HealthStatus) (n idx : ℕ) (h : members ≠ []) :
    (nextRoundRobinAliveMember health members n idx).1 = .zero ∨
      (nextRoundRobinAliveMember health members n idx).1 ∈ members ∧
        ∀ s, health (nextRoundRobinAliveMember health members n idx).1.healthKey = some s →
          s.alive = true := by
  induction n generalizing idx with
  | zero => exact .inl rfl
  | succ n ih =>
    have hlt : idx % members.length < members.length :=
      Nat.mod_lt _ (length_pos_of_ne_nil h)
    have hmem : members.getD (idx % members.length) .zero ∈ members := by
      rw [getD_eq_getElem _ _ hlt]
      exact getElem_mem hlt
    unfold nextRoundRobinAliveMember
    dsimp only
    split
    case h_1 hnone => exact .inr ⟨hmem, fun s hs => by rw [hnone] at hs; cases hs⟩
    case h_2 s hs =>
        split
        case isTrue ha =>
            refine .inr ⟨hmem, fun t ht => ?_⟩
            rw [hs] at ht
            exact Option.some.inj ht ▸ ha
        case isFalse => exact ih (idx + 1)

/-- Round robin returns the member its counter stands at, unless that one is known to be dead. -/
theorem nextRoundRobinAliveMember_first {health : String → Option HealthStatus} {n idx : ℕ}
    (hn : 0 < n) (hget : members.getD (idx % members.length) .zero = m)
    (halive : ∀ s, health m.healthKey = some s → s.alive = true) :
    (nextRoundRobinAliveMember health members n idx).1 = m := by
  obtain ⟨n, rfl⟩ := Nat.exists_eq_add_one_of_ne_zero hn.ne'
  unfold nextRoundRobinAliveMember
  rw [hget]
  dsimp only
  split
  case h_1 => rfl
  case h_2 s hs => rw [if_pos (halive s hs)]

/-- The best member after a scan that began with `start`. -/
structure IsBest (health : String → Option HealthStatus) (start : GroupMember × ℤ)
    (members : List GroupMember) (best : GroupMember × ℤ) : Prop where
  origin : best = start ∨ best.1 ∈ members ∧
    ∃ s, health best.1.healthKey = some s ∧ s.alive = true ∧ best.2 = s.latency
  least : ∀ m ∈ members, ∀ s, health m.healthKey = some s → s.alive = true →
    best.1.name ≠ "" ∧ best.2 ≤ s.latency
  kept : start.1.name ≠ "" → best = start ∨ best.1.name ≠ "" ∧ best.2 < start.2

theorem betterMember_cases (health : String → Option HealthStatus) (best : GroupMember × ℤ) (m : GroupMember) :
    (betterMember health best m = best ∧ ∀ s, health m.healthKey = some s → s.alive = true →
      best.1.name ≠ "" ∧ best.2 ≤ s.latency) ∨
    ∃ s, health m.healthKey = some s ∧ s.alive = true ∧
      betterMember health best m = (m, s.latency) ∧ (best.1.name = "" ∨ s.latency < best.2) := by
  unfold betterMember
  split
  case h_1 hnone => exact .inl ⟨rfl, fun s hs => by simp [hnone] at hs⟩
  case h_2 s hs =>
      split
      case isTrue h => exact .inr ⟨s, hs, h.1, rfl, h.2⟩
      case isFalse h =>
          refine .inl ⟨rfl, fun t ht ha => ?_⟩
          obtain rfl : s = t := Option.some.inj (hs.symm.trans ht)
          push Not at h
          exact h ha

theorem isBest_foldl (health : String → Option HealthStatus) (hname : ∀ m ∈ members, m.name ≠ "")
    (start : GroupMember × ℤ) :
    IsBest health start members (members.foldl (betterMember health) start) := by
  induction members generalizing start with
  | nil => exact ⟨.inl rfl, fun _ hm => by simp at hm, fun _ => .inl rfl⟩
  | cons m ms ih =>
    have hm : m.name ≠ "" := hname m mem_cons_self
    have hrest := ih (fun x hx => hname x (mem_cons_of_mem m hx))
      (betterMember health start m)
    rw [foldl_cons]
    rcases betterMember_cases health start m with ⟨hb, hm'⟩ | ⟨s, hs, ha, hb, hlt⟩
    all_goals rw [hb] at hrest ⊢
    all_goals generalize List.foldl (betterMember health) _ ms = best at hrest ⊢
    · refine ⟨?_, ?_, hrest.kept⟩
      · exact hrest.origin.imp_right fun h => ⟨mem_cons_of_mem m h.1, h.2⟩
      · intro x hx s hs ha
        rcases mem_cons.mp hx with rfl | hx
        · obtain ⟨hne, hle⟩ := hm' s hs ha
          rcases hrest.kept hne with rfl | ⟨hne', hlt⟩
          · exact ⟨hne, hle⟩
          · exact ⟨hne', by omega⟩
        · exact hrest.least x hx s hs ha
    · have hkept := hrest.kept hm
      refine ⟨.inr ?_, ?_, ?_⟩
      · rcases hrest.origin with rfl | ⟨hmem, h⟩
        · exact ⟨mem_cons_self, s, hs, ha, rfl⟩
        · exact ⟨mem_cons_of_mem m hmem, h⟩
      · intro x hx t ht ha'
        rcases mem_cons.mp hx with rfl | hx
        · obtain rfl : s = t := Option.some.inj (hs.symm.trans ht)
          rcases hkept with rfl | ⟨hne, hlt⟩
          · exact ⟨hm, le_refl _⟩
          · exact ⟨hne, by dsimp only at hlt; omega⟩
        · exact hrest.least x hx t ht ha'
      · intro hne
        have hlt := hlt.resolve_left hne
        refine .inr ?_
        rcases hkept with rfl | ⟨hne', hlt'⟩
        · exact ⟨hm, hlt⟩
        · exact ⟨hne', by dsimp only at hlt'; omega⟩

/-- The strategy of a best group returns no member, or one of the list that is not known to be dead. -/
theorem nextByHealthMember_spec (health : String → Option HealthStatus) (hname : ∀ m ∈ members, m.name ≠ "") :
    nextByHealthMember health members = .zero ∨
      nextByHealthMember health members ∈ members ∧
        ∀ s, health (nextByHealthMember health members).healthKey = some s → s.alive = true := by
  have hbest := isBest_foldl health hname (.zero, 0)
  unfold nextByHealthMember
  dsimp only
  split
  case isTrue hne =>
      rcases hbest.origin with h | ⟨hmem, s, hs, ha, _⟩
      · rw [h] at hne
        exact absurd rfl hne
      · exact .inr ⟨hmem, fun t ht => Option.some.inj (hs.symm.trans ht) ▸ ha⟩
  case isFalse =>
      cases hfind : members.find? fun m => (health m.healthKey).isNone with
      | none => exact .inl rfl
      | some m =>
        refine .inr ⟨mem_of_find?_eq_some hfind, fun t ht => ?_⟩
        have hnone := find?_some hfind
        simp only [Option.getD_some] at ht
        simp [ht] at hnone

/-- A best group with a member that is alive returns one that is, and none slower. -/
theorem nextByHealthMember_alive {health : String → Option HealthStatus}
    (hname : ∀ m ∈ members, m.name ≠ "") (hm : m ∈ members) {s : HealthStatus}
    (hs : health m.healthKey = some s) (ha : s.alive = true) :
    (nextByHealthMember health members).name ≠ "" ∧
      ∃ t, health (nextByHealthMember health members).healthKey = some t ∧ t.alive = true ∧
        t.latency ≤ s.latency := by
  have hbest := isBest_foldl health hname (.zero, 0)
  obtain ⟨hne, hle⟩ := hbest.least m hm s hs ha
  rw [nextByHealthMember, if_pos hne]
  rcases hbest.origin with h | ⟨_, t, ht, ha', hlat⟩
  · rw [h] at hne
    exact absurd rfl hne
  · exact ⟨hne, t, ht, ha', hlat ▸ hle⟩

end Config
