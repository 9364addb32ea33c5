import Phaethon.Health.Round

/-!
# Health results and routing

A round's results stay with the object it wrote to. Until a round of the group is stored that is the
object the matcher consults; afterwards the matcher consults an object without results, for good.
-/

namespace Health

open Config Function List

variable {pool : Pool Proxy} {interval : String → Bool} {s t : State} {name : String}

section

variable (pool : Pool Proxy)

variable (rounds : List Round)

/-- The results of all rounds of a group. -/
def recorded (name : String) : List Result :=
  (rounds.filter (·.group = name)).flatMap (roundResults pool)

/-- The health map that all rounds of a group make. -/
def expected (name : String) : HealthMap :=
  (recorded pool rounds name).foldl record fun _ => none

/-- The object that `ResolveMatch` consults has the results of all rounds. -/
def Carries (s : State) (name : String) : Prop :=
  liveHealth s name = expected pool rounds name

/-- A load-balance or best group picks no member that the rounds marked dead. -/
def SkipsDead (s : State) (name : String) : Prop :=
  ∀ g sel members idx, pool.groups name = some g → g.type = .loadBalance ∨ g.type = .best →
    sel.health name = liveHealth s name → members ≠ [] → (∀ m ∈ members, m.name ≠ "") →
      (pickMember sel g members idx).1.name ≠ "" →
        ∀ st, expected pool rounds name (pickMember sel g members idx).1.healthKey = some st →
          st.alive = true

end

/-! ## Rounds -/

/-- What one round does to the objects. -/
theorem step_spec {r : Round} (h : step pool interval s r = some t) :
    ∃ old, s.health (.built r.group) = some old ∧
      (∀ n, t.health (.built n) = if n = r.group then some ((roundResults pool r).foldl record old)
        else s.health (.built n)) ∧
      (∀ k, s.health (.reloaded k) = none → t.health (.reloaded k) = none) ∧
      ∀ n, t.live n = if n = r.group ∧ r.persisted = true then .reloaded s.reloads else s.live n := by
  unfold step at h
  split at h
  case h_1 g old _ hold =>
      split at h
      case isTrue =>
          cases h
          refine ⟨old, hold, fun n => ?_, fun k hk => ?_, fun n => ?_⟩
          all_goals split <;> simp_all [State.reload, update_apply]
      case isFalse => cases h
  case h_2 => cases h

/-- Where the results of a group's rounds are, and which object the matcher has. -/
structure Tracks (pool : Pool Proxy) (rounds : List Round) (s : State) (name : String) : Prop where
  written : s.health (.built name) = some (expected pool rounds name)
  kept : (∀ r ∈ rounds, r.group = name → r.persisted = false) → s.live name = .built name
  replaced : (∃ r ∈ rounds, r.group = name ∧ r.persisted = true) → ∃ k, s.live name = .reloaded k
  bare : ∀ k, s.health (.reloaded k) = none

theorem recorded_concat (rounds : List Round) (r : Round) :
    recorded pool (rounds ++ [r]) name =
      recorded pool rounds name ++ if r.group = name then roundResults pool r else [] := by
  by_cases hr : r.group = name <;> simp [recorded, hr]

theorem Tracks.step {past : List Round} {r : Round} (h : Tracks pool past s name)
    (hstep : Health.step pool interval s r = some t) : Tracks pool (past ++ [r]) t name := by
  obtain ⟨old, hold, hbuilt, hbare, hlive⟩ := step_spec hstep
  refine ⟨?_, ?_, ?_, fun k => hbare k (h.bare k)⟩
  · rw [hbuilt, expected, recorded_concat, foldl_append]
    by_cases hr : name = r.group
    · subst hr
      obtain rfl : expected pool past r.group = old := Option.some.inj (h.written.symm.trans hold)
      simp [expected]
    · rw [if_neg hr, if_neg (Ne.symm hr), h.written]
      rfl
  · intro hall
    rw [hlive, if_neg]
    · exact h.kept fun x hx => hall x (mem_append_left _ hx)
    · rintro ⟨rfl, hp⟩
      have hnot := hall r (mem_append_right _ (mem_singleton_self r)) rfl
      simp [hp] at hnot
  · rintro ⟨x, hx, hxn, hp⟩
    rw [hlive]
    split
    · exact ⟨_, rfl⟩
    · rename_i hnot
      rcases mem_append.mp hx with hx | hx
      · exact h.replaced ⟨x, hx, hxn, hp⟩
      · obtain rfl := mem_singleton.mp hx
        exact absurd ⟨hxn.symm, hp⟩ hnot

theorem Tracks.exec {past rounds : List Round} (h : Tracks pool past s name)
    (hrun : Lts.exec (Health.step pool interval) s rounds = some t) :
    Tracks pool (past ++ rounds) t name := by
  induction rounds generalizing past s with
  | nil =>
    obtain rfl : s = t := Option.some.inj hrun
    rwa [append_nil]
  | cons r rounds ih =>
    obtain ⟨mid, hmid, hrun⟩ := Lts.exec_cons_eq_some.mp hrun
    have htail := ih (h.step hmid) hrun
    rwa [append_assoc] at htail

theorem Tracks.start {g : ProxyGroup} (hg : pool.groups name = some g) (henabled : g.enabled = true) :
    Tracks pool [] (Health.start pool) name := by
  refine ⟨?_, fun _ => rfl, fun ⟨r, hr, _⟩ => absurd hr not_mem_nil, fun _ => rfl⟩
  simp [Health.start, hg, henabled, expected, recorded]

/-! ## What is recorded stays -/

theorem record_isSome {h : HealthMap} {r : Result} {key : String}
    (hkey : key = r.key ∨ (h key).isSome) : (record h r key).isSome := by
  unfold record setHealth
  dsimp only
  rw [update_apply]
  split
  · rfl
  · exact hkey.resolve_left ‹_›

theorem foldl_record_isSome {results : List Result} {h : HealthMap} {key : String}
    (hkey : (h key).isSome) : (results.foldl record h key).isSome := by
  induction results generalizing h with
  | nil => exact hkey
  | cons r results ih => exact ih (record_isSome (.inr hkey))

theorem expected_isSome {rounds : List Round} (h : recorded pool rounds name ≠ []) :
    ∃ key, (expected pool rounds name key).isSome := by
  obtain ⟨r, results, hr⟩ := exists_cons_of_ne_nil h
  refine ⟨r.key, ?_⟩
  rw [expected, hr, foldl_cons]
  exact foldl_record_isSome (record_isSome (.inl rfl))

/-! ## Routing -/

theorem skipsDead_of_carries {rounds : List Round} (h : Carries pool rounds s name) :
    SkipsDead pool rounds s name := by
  intro g sel members idx hg htype hsel hmem hname hne st hst
  rw [← h, ← hsel] at hst
  obtain rfl : g.name = name := pool.group_name hg
  unfold pickMember at hne hst
  rcases htype with ht | ht
  all_goals simp only [ht] at hne hst
  · rcases nextRoundRobinAliveMember_spec (sel.health g.name) members.length idx hmem
      with hz | ⟨_, halive⟩
    · rw [hz] at hne
      exact absurd rfl hne
    · exact halive st hst
  · rcases nextByHealthMember_spec (sel.health g.name) hname with hz | ⟨_, halive⟩
    · rw [hz] at hne
      exact absurd rfl hne
    · exact halive st hst

/-- After any run of rounds the matcher's object of a checked group carries the results of all its
rounds, and the group skips dead members, exactly if no round of the group was stored or its rounds had
nothing to record. -/
theorem carries_iff {g : ProxyGroup} {rounds : List Round} (hg : pool.groups name = some g)
    (henabled : g.enabled = true) (hrun : Lts.exec (step pool interval) (start pool) rounds = some s) :
    (Carries pool rounds s name ∧ SkipsDead pool rounds s name) ↔
      (∀ r ∈ rounds, r.group = name → r.persisted = false) ∨ recorded pool rounds name = [] := by
  have htracks : Tracks pool rounds s name := (Tracks.start hg henabled).exec hrun
  rw [and_iff_left_of_imp skipsDead_of_carries]
  by_cases hall : ∀ r ∈ rounds, r.group = name → r.persisted = false
  · refine iff_of_true ?_ (.inl hall)
    funext key
    rw [liveHealth, htracks.kept hall, htracks.written]
    rfl
  · push Not at hall
    obtain ⟨r, hr, hrn, hp⟩ := hall
    obtain ⟨k, hk⟩ := htracks.replaced ⟨r, hr, hrn, by simpa using hp⟩
    have hempty : liveHealth s name = fun _ => none := by
      funext key
      rw [liveHealth, hk, htracks.bare]
      rfl
    rw [Carries, hempty]
    constructor
    · intro heq
      by_contra hnot
      obtain ⟨key, hkey⟩ := expected_isSome fun h => hnot (.inr h)
      rw [← heq] at hkey
      cases hkey
    · rintro (h | h)
      · exact absurd (h r hr hrn) hp
      · rw [expected, h]
        rfl

/-! ## A best group with a dead member -/

/-- A best group of two proxies. -/
def duoGroup : ProxyGroup := ⟨"G", true, .best, ["A", "B"], "", ""⟩

/-- The two proxies and their group. -/
def duoPool : Pool Proxy where
  proxies n := if n = "A" ∨ n = "B" then some ⟨n, "socks5", none, ""⟩ else none
  groups n := if n = "G" then some duoGroup else none
  subscriptions _ := none
  candidate _ _ := true
  group_name {n g} h := by
    split at h <;> cases h
    case isTrue hn => exact hn.symm
  proxies_empty := if_neg (by decide)
  groups_empty := if_neg (by decide)

/-- A round in which `A` fails and `B` answers. -/
def duoRound (persisted : Bool) : Round :=
  ⟨"G", [⟨"A", false, 0⟩, ⟨"B", true, 20⟩], persisted⟩

theorem dead_member_picked :
    ∃ s, Lts.exec (step duoPool fun _ => true) (start duoPool) [duoRound true] = some s ∧
      (pickMember ⟨fun _ => "", liveHealth s⟩ duoGroup (computeMembers duoPool duoGroup) 0).1
        = ⟨"A", false, false⟩ ∧
      (expected duoPool [duoRound true] "G" "A").map (·.alive) = some false ∧
      (expected duoPool [duoRound true] "G" "B").map (·.alive) = some true := by
  refine ⟨_, rfl, ?_⟩
  decide +kernel

theorem carries_iff_unstored :
    ∃ s, Lts.exec (step duoPool fun _ => true) (start duoPool) [duoRound false] = some s ∧
      Carries duoPool [duoRound false] s "G" ∧ SkipsDead duoPool [duoRound false] s "G" := by
  obtain ⟨s, hrun⟩ : ∃ s, Lts.exec (step duoPool fun _ => true) (start duoPool)
      [duoRound false] = some s := ⟨_, rfl⟩
  refine ⟨s, hrun, (carries_iff (g := duoGroup) rfl rfl hrun).mpr (.inl ?_)⟩
  decide

end Health
