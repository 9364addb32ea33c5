import Mathlib.Data.List.Find
import Phaethon.Config.ProxyName
import Phaethon.Db.Store

/-!
# The rule that is chosen

`match` of `src/db/matcher.go` goes through the matchers in stored order and takes the first whose window
contains the minute of the day. It computes that minute from two readings of the clock, the hour of one and
the minute of the next, so the result need not be a minute that any clock showed during the call: around
10:59 and 11:00 it can be 10:00.
-/

open List Option

namespace Config

/-! ## Windows on the clock face -/

/-- The minute is met on the way from the start of the window round to its end. -/
def TimeRange.Covers (tr : TimeRange) (minute : ℕ) : Prop :=
  tr = ⟨0, 0⟩ ∨ (minute + 1440 - tr.startMin) % 1440 < (tr.endMin + 1440 - tr.startMin) % 1440

instance (tr : TimeRange) (minute : ℕ) : Decidable (tr.Covers minute) :=
  inferInstanceAs (Decidable (_ ∨ _))

theorem TimeRange.containsMinute_iff {tr : TimeRange} {minute : ℕ} (h : tr.Valid) (hminute : minute < 1440) :
    tr.containsMinute minute ↔ tr.Covers minute := by
  obtain ⟨start, finish⟩ := tr
  obtain ⟨hstart, hfinish⟩ := h
  simp only [containsMinute, Covers, TimeRange.mk.injEq] at hstart hfinish ⊢
  split_ifs <;> simp <;> omega

theorem parseHM_lt {s : List Char} {n : ℕ} (h : parseHM s = some n) : n < 1440 := by
  simp only [parseHM, bind_eq_bind, bind_eq_some_iff, ite_none_left_eq_some] at h
  obtain ⟨-, -, hour, -, minute, -, hrange, hn⟩ := h
  have := Option.some.inj hn
  omega

theorem parseTimeRange_valid (s : List Char) : (parseTimeRange s).Valid := by
  have hgetD (o : Option TimeRange) (h : ∀ tr, o = some tr → tr.Valid) : (o.getD ⟨0, 0⟩).Valid := by
    cases o with
    | none => exact ⟨Nat.succ_pos _, Nat.succ_pos _⟩
    | some tr => exact h tr rfl
  refine hgetD _ fun tr h => ?_
  simp only [bind_eq_bind, bind_eq_some_iff] at h
  obtain ⟨parts, -, start, hstart, finish, hfinish, htr⟩ := h
  exact Option.some.inj htr ▸ ⟨parseHM_lt hstart, parseHM_lt hfinish⟩

theorem parseProxyNameLoop_valid (n : ℕ) (p : ProxyName) (h : p.range.Valid) :
    (parseProxyNameLoop n p).range.Valid := by
  fun_induction parseProxyNameLoop n p with
  | case1 => exact h
  | case2 => exact h
  | case3 n p before after hat hhash ih => exact ih (parseTimeRange_valid _)
  | case4 n p before after hhash hfirst left right hat ih => exact ih (parseTimeRange_valid _)
  | case5 n p before after hhash hfirst mapping range hat ih => exact ih (parseTimeRange_valid _)
  | case6 n p before after hhash hfirst hat ih => exact ih h

theorem parseRule_valid {s : String} {r : Rule} (h : parseRule s = some r) : r.timeRange.Valid := by
  simp only [parseRule, ite_none_left_eq_some] at h
  exact Option.some.inj h.2 ▸ parseProxyNameLoop_valid _ _ ⟨Nat.succ_pos _, Nat.succ_pos _⟩

/-! ## Rules that qualify -/

/-- The rule is of a supported type, and its pattern, its mapping and its window agree with the request. -/
def Rule.Qualifies (r : Rule) (req : AddrRequest) (mapping : Option String) (minute : ℕ) : Prop :=
  (buildMatcher r).any (·.pattern.accepts req) ∧ (r.mappingName = "" ∨ mapping = some r.mappingName) ∧
    r.timeRange.Covers minute

instance (r : Rule) (req : AddrRequest) (mapping : Option String) (minute : ℕ) :
    Decidable (r.Qualifies req mapping minute) :=
  inferInstanceAs (Decidable (_ ∧ _ ∧ _))

theorem buildMatcher_eq_some {r : Rule} {m : Matcher} (h : buildMatcher r = some m) :
    m.proxyName = r.proxyName ∧ m.mappingName = r.mappingName ∧ m.timeRange = r.timeRange := by
  simp only [buildMatcher] at h
  split_ifs at h <;> exact Option.some.inj h ▸ ⟨rfl, rfl, rfl⟩

/-- A matcher applies where its rule qualifies and names a proxy. -/
theorem any_applies_iff {r : Rule} {req : AddrRequest} {mapping : Option String} {minute : ℕ}
    (hr : r.timeRange.Valid) (hminute : minute < 1440) :
    (buildMatcher r).any (·.applies req mapping minute) ↔ r.Qualifies req mapping minute ∧ r.proxyName ≠ "" := by
  unfold Rule.Qualifies
  cases h : buildMatcher r with
  | none => simp
  | some m =>
    obtain ⟨hproxy, hmapping, hrange⟩ := buildMatcher_eq_some h
    have hwindow := TimeRange.containsMinute_iff hr hminute
    simp only [any_some, Matcher.applies, hproxy, hmapping, hrange, hwindow, decide_eq_true_eq]
    tauto

end Config

namespace Db

open Config

/-- The first rule that qualifies at the minute. -/
def firstMatch (texts : List String) (req : AddrRequest) (mapping : Option String) (minute : ℕ) : Option Rule :=
  (parseRules texts).find? (·.Qualifies req mapping minute)

/-- A clock during one call, as the minute of the day it shows at each instant, with the instants at which
the call starts, reads the hour, reads the minute and ends. -/
structure ClockRun (T : Type) [LinearOrder T] where
  wall : T → ℕ
  start : T
  hourAt : T
  minuteAt : T
  finish : T
  start_le : start ≤ hourAt
  le_minuteAt : hourAt ≤ minuteAt
  le_finish : minuteAt ≤ finish
  wall_lt : ∀ t, wall t < 1440

variable {T : Type} [LinearOrder T] {π : Type*}

/-- What the call reads. -/
def ClockRun.readings (clk : ClockRun T) : Clock := ⟨clk.wall clk.hourAt / 60, clk.wall clk.minuteAt % 60⟩

/-- At some instant of the call the clock shows the hour that was read and the minute that was read. -/
def ClockRun.Steady (clk : ClockRun T) : Prop :=
  ∃ t, clk.start ≤ t ∧ t ≤ clk.finish ∧ clk.wall t = clk.wall clk.hourAt / 60 * 60 + clk.wall clk.minuteAt % 60

variable (M : RuleMatcher π)

/-- What `ResolveMatch` returns once it has chosen the rule, or none. -/
def RuleMatcher.outcome (sel : Selection) (fuel : ℕ) (idx : String → ℕ) (req : AddrRequest)
    (mapping : Option String) : Option Rule → Outcome π
  | none => ⟨req, none, none, idx⟩
  | some r =>
      let resolved := M.resolveName sel fuel idx r.proxyName
      ⟨req, resolved.1, some ⟨r.proxyName, mapping.getD "", r.timeRange.format⟩, resolved.2.idx⟩

/-- The call chooses the first rule that qualifies at one instant between its start and its end. The loopback
name is answered before any rule is looked at. -/
def RuleMatcher.ChoosesFirst (texts : List String) (clk : ClockRun T) : Prop :=
  ∀ direct sel fuel idx req mappingName, M.isLoopback req = false →
    ∃ t, clk.start ≤ t ∧ t ≤ clk.finish ∧
      M.resolveMatch direct sel fuel idx req mappingName clk.readings =
        M.outcome sel fuel idx (resolving M.resolvers req) (M.findMapping mappingName)
          (firstMatch texts (resolving M.resolvers req) (M.findMapping mappingName) (clk.wall t))

/-- Whatever is asked, the first rule that qualifies names a proxy. -/
def RuleMatcher.FirstNamed (texts : List String) : Prop :=
  ∀ req mappingName minute r, M.isLoopback req = false → minute < 1440 →
    firstMatch texts (resolving M.resolvers req) (M.findMapping mappingName) minute = some r → r.proxyName ≠ ""

theorem ClockRun.nowMin_lt (clk : ClockRun T) : clk.readings.nowMin < 1440 := by
  have := clk.wall_lt clk.hourAt
  simp only [Clock.nowMin, readings]
  omega

variable {M : RuleMatcher π} {texts : List String} {req : AddrRequest} {mapping : Option String}

/-- The rule `match` takes is the first that qualifies and names a proxy. -/
theorem matchRule_eq_outcome (htexts : M.rules = parseRules texts) {clock : Clock} (hclock : clock.nowMin < 1440)
    (sel : Selection) (fuel : ℕ) (idx : String → ℕ) :
    M.matchRule sel fuel idx req mapping clock =
      M.outcome sel fuel idx req mapping
        ((parseRules texts).find? fun r => r.Qualifies req mapping clock.nowMin ∧ r.proxyName ≠ "") := by
  have hfind : M.rules.find? (fun r => (buildMatcher r).any (·.applies req mapping clock.nowMin)) =
      (parseRules texts).find? fun r => r.Qualifies req mapping clock.nowMin ∧ r.proxyName ≠ "" := by
    rw [htexts]
    refine find?_congr fun r hr => ?_
    obtain ⟨text, -, hparse⟩ := mem_filterMap.mp hr
    rw [Bool.eq_iff_iff, decide_eq_true_iff]
    exact any_applies_iff (parseRule_valid hparse) hclock
  unfold RuleMatcher.matchRule RuleMatcher.matchers
  rw [find?_filterMap, hfind]
  cases hr : (parseRules texts).find? fun r => r.Qualifies req mapping clock.nowMin ∧ r.proxyName ≠ "" with
  | none => rfl
  | some r =>
    have hany := find?_some (hfind.trans hr)
    obtain ⟨m, hm, -⟩ := (any_eq_true _ _).mp hany
    obtain ⟨hproxy, -, hrange⟩ := buildMatcher_eq_some hm
    simp only [bind_some, hm, RuleMatcher.outcome, hproxy, hrange]

theorem find?_and_eq {α : Type*} {p q : α → Bool} {l : List α} (h : ∀ a, l.find? p = some a → q a) :
    (l.find? fun a => p a && q a) = l.find? p := by
  induction l with
  | nil => rfl
  | cons a l ih =>
    by_cases hp : p a
    · have hq := h a (by simp [hp])
      simp [hp, hq]
    · simp only [find?_cons, hp, Bool.false_and] at h ⊢
      exact ih h

/-- If the first rule that qualifies names a proxy, it is the one taken. -/
theorem matchRule_eq_first (htexts : M.rules = parseRules texts) {clock : Clock} (hclock : clock.nowMin < 1440)
    (hnamed : ∀ r, firstMatch texts req mapping clock.nowMin = some r → r.proxyName ≠ "") (sel : Selection)
    (fuel : ℕ) (idx : String → ℕ) :
    M.matchRule sel fuel idx req mapping clock =
      M.outcome sel fuel idx req mapping (firstMatch texts req mapping clock.nowMin) := by
  rw [matchRule_eq_outcome htexts hclock]
  congr 1
  have hboth := find?_and_eq (q := fun r => decide (r.proxyName ≠ ""))
    fun r hr => decide_eq_true (hnamed r hr)
  simpa only [firstMatch, Bool.decide_and] using hboth

/-- What is taken names a proxy. -/
theorem proxyName_ne_of_result (htexts : M.rules = parseRules texts) {clock : Clock} (hclock : clock.nowMin < 1440)
    {sel : Selection} {fuel : ℕ} {idx : String → ℕ} {result : MatchResult}
    (h : (M.matchRule sel fuel idx req mapping clock).result = some result) : result.proxyName ≠ "" := by
  rw [matchRule_eq_outcome htexts hclock] at h
  cases hr : (parseRules texts).find? fun r => r.Qualifies req mapping clock.nowMin ∧ r.proxyName ≠ "" with
  | none =>
    rw [hr] at h
    cases h
  | some r =>
    have hname := find?_some hr
    rw [hr] at h
    exact Option.some.inj h ▸ (of_decide_eq_true hname).2

theorem chooses_of_steady {clk : ClockRun T} (hclk : clk.Steady) (htexts : M.rules = parseRules texts)
    (hnamed : M.FirstNamed texts) : M.ChoosesFirst texts clk := by
  intro direct sel fuel idx req mappingName hloop
  obtain ⟨t, hstart, hfinish, hwall⟩ := hclk
  refine ⟨t, hstart, hfinish, ?_⟩
  have hnow : clk.wall t = clk.readings.nowMin := hwall
  rw [RuleMatcher.resolveMatch, hloop, hnow]
  exact matchRule_eq_first htexts clk.nowMin_lt
    (fun r hr => hnamed req mappingName _ r hloop clk.nowMin_lt hr) sel fuel idx

/-! ## A window of one minute -/

/-- The window that is one minute long. -/
def oneMinute (minute : ℕ) : TimeRange := ⟨minute, (minute + 1) % 1440⟩

/-- A rule for everything, in the window of one minute. -/
def minuteRule (minute : ℕ) : String :=
  String.ofList ([','].intercalate ["MATCH".toList, 'A' :: '@' :: (oneMinute minute).text])

theorem parseRule_minuteRule {minute : ℕ} (h : minute < 1440) :
    parseRule (minuteRule minute) = some ⟨"MATCH", "", "A", "", oneMinute minute⟩ := by
  have hvalid : (oneMinute minute).Valid := ⟨h, Nat.mod_lt _ (by decide)⟩
  have hplain : ∀ c ∈ 'A' :: '@' :: (oneMinute minute).text, c ≠ ',' ∧ Text.isSpace c = false := by
    intro c hc
    simp only [mem_cons] at hc
    rcases hc with rfl | rfl | hc
    · decide
    · decide
    · rcases mem_text hvalid hc with hdigit | rfl | rfl
      · exact ⟨fun hcomma => absurd (hcomma ▸ hdigit) (by decide), Text.isSpace_of_isDigit hdigit⟩
      · decide
      · decide
  have hsplit : ([','].intercalate ["MATCH".toList, 'A' :: '@' :: (oneMinute minute).text]).splitOn ',' =
      ["MATCH".toList, 'A' :: '@' :: (oneMinute minute).text] := by
    refine splitOn_intercalate ',' (fun l hl => ?_) (cons_ne_nil _ _)
    simp only [mem_cons, not_mem_nil, or_false] at hl
    rcases hl with rfl | rfl
    · decide
    · exact fun hcomma => (hplain _ hcomma).1 rfl
  have hunsigned : Unsigned ['A'] := by simp [Unsigned]
  have hname := parseProxyName_at hunsigned (oneMinute minute).text
  rw [parseTimeRange_text hvalid, singleton_append] at hname
  have hmatch : Text.trimSpace ['M', 'A', 'T', 'C', 'H'] = ['M', 'A', 'T', 'C', 'H'] := by decide
  simp only [parseRule, minuteRule, String.toList_ofList, hsplit]
  simp [hmatch, Text.trimSpace_eq_self fun c hc => (hplain c hc).2, hname]

theorem qualifies_minuteRule {minute now : ℕ} (h : minute < 1440) (hnow : now < 1440) :
    Rule.Qualifies ⟨"MATCH", "", "A", "", oneMinute minute⟩ req mapping now ↔ now = minute := by
  have hcovers : (oneMinute minute).Covers now ↔ now = minute := by
    simp only [TimeRange.Covers, oneMinute, TimeRange.mk.injEq]
    omega
  simp [Rule.Qualifies, buildMatcher, Pattern.accepts, hcovers]

theorem firstMatch_minuteRule {minute now : ℕ} (h : minute < 1440) (hnow : now < 1440) :
    firstMatch [minuteRule minute] req mapping now =
      if now = minute then some ⟨"MATCH", "", "A", "", oneMinute minute⟩ else none := by
  simp [firstMatch, parseRules, parseRule_minuteRule h, qualifies_minuteRule h hnow, find?_singleton]

theorem not_chooses_of_not_steady {clk : ClockRun T} (hclk : ¬ clk.Steady) (direct : π) :
    ∃ (M : RuleMatcher π) (texts : List String),
      M.rules = parseRules texts ∧ M.FirstNamed texts ∧ ¬ M.ChoosesFirst texts clk := by
  have hnow := clk.nowMin_lt
  obtain ⟨M, hrules, hloop⟩ : ∃ M : RuleMatcher π,
      M.rules = parseRules [minuteRule clk.readings.nowMin] ∧ ∀ req, M.isLoopback req = false := by
    generalize parseRules [minuteRule clk.readings.nowMin] = rules
    exact ⟨⟨.ofProxies (fun _ => none) rfl, fun _ => false, rules, [], ""⟩, rfl, fun _ => rfl⟩
  have hnamed : M.FirstNamed [minuteRule clk.readings.nowMin] := by
    intro req mappingName minute r _ hminute hfirst
    rw [firstMatch_minuteRule hnow hminute, ite_none_right_eq_some] at hfirst
    simp [← Option.some.inj hfirst.2]
  refine ⟨M, _, hrules, hnamed, fun h => hclk ?_⟩
  obtain ⟨t, hstart, hfinish, heq⟩ := h direct default 0 (fun _ => 0) ⟨"", 0, "", ""⟩ "" (hloop _)
  refine ⟨t, hstart, hfinish, ?_⟩
  change clk.wall t = clk.readings.nowMin
  by_contra hne
  rw [RuleMatcher.resolveMatch, hloop, if_neg Bool.false_ne_true,
    matchRule_eq_first hrules hnow fun r hr => hnamed _ "" _ r (hloop _) hnow hr, firstMatch_minuteRule hnow hnow,
    if_pos rfl, firstMatch_minuteRule hnow (clk.wall_lt t), if_neg hne] at heq
  cases congrArg (fun o => o.result.isSome) heq

/-- The clock goes from 10:59 to 11:00 between the two readings. -/
def turnOfHour : ClockRun ℕ :=
  ⟨fun t => if t = 0 then 659 else 660, 0, 0, 1, 1, le_rfl, zero_le_one, le_rfl, fun t => by split <;> decide⟩

/-- Everything goes to `A` in the first minute after ten. -/
def tenMatcher : RuleMatcher Unit :=
  ⟨.ofProxies (fun _ => none) rfl, fun _ => false, parseRules ["MATCH,A@10:00-10:01"], [], ""⟩

end Db
