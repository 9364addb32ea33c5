import Phaethon.Common.Json
import Phaethon.Common.Ranking
import Phaethon.Common.Text

/-!
# Version numbers

`CompareVersions` of `src/p2p/p2p.go`. A version is what `git describe` prints: a tag of numbers, perhaps with the
number of commits since, or a hash. Texts are bytes. The newer version is the one of the higher rank (`newer_iff`), so
that all versions are in order, with ties: what is behind a `+`, a leading `v`, `-dirty` and zeros at the end of the
tag do not count.
-/

namespace P2P

open Ranking List

abbrev Bytes := List UInt8

/-! ## The parts of a version -/

/-- `strconv.Atoi`, of bytes. -/
def atoi (s : Bytes) : Option ℤ := Text.atoi (s.map fun b => Char.ofNat b.toNat)

/-- A decimal digit. -/
def isDigit (b : UInt8) : Bool := 0x30 ≤ b ∧ b ≤ 0x39

/-- A hexadecimal digit, in lower case. -/
def isHex (b : UInt8) : Bool := isDigit b ∨ 0x61 ≤ b ∧ b ≤ 0x66

/-- The digits in a text of the form `-<digits>-g<hash>`. -/
def commitDigits : Bytes → Option Bytes
  | 0x2d :: rest =>
      match rest.dropWhile isDigit with
      | 0x2d :: 0x67 :: hash =>
          if rest.takeWhile isDigit ≠ [] ∧ hash ≠ [] ∧ hash.all isHex then some (rest.takeWhile isDigit) else none
      | _ => none
  | _ => none

/-- `commitPattern.FindStringSubmatch`: the text before the match, and the digits in it. -/
def commitPattern : Bytes → Option (Bytes × Bytes)
  | [] => none
  | b :: s =>
      match commitDigits (b :: s) with
      | some digits => some ([], digits)
      | none => (commitPattern s).map fun (before, digits) => (b :: before, digits)

/-- `strings.TrimPrefix`. -/
def trimPrefix (start s : Bytes) : Bytes := if start.isPrefixOf s then s.drop start.length else s

/-- `strings.TrimSuffix`. -/
def trimSuffix (ending s : Bytes) : Bytes :=
  if ending.isSuffixOf s then s.take (s.length - ending.length) else s

/-- `parseVersion`: the numbers of the tag, if they all are numbers, and the number of commits since. -/
def parseVersion (v : Bytes) : Option (List ℤ) × ℤ :=
  let v := trimSuffix (Json.bytes "-dirty") (trimPrefix (Json.bytes "v") v)
  let (v, commits) :=
    match commitPattern v with
    | some (before, digits) => (before, (atoi digits).getD 0)
    | none => (v, 0)
  let v := v.takeWhile (· ≠ 0x2b)
  match (v.splitOn 0x2e).mapM atoi with
  | some tag => (some tag, commits)
  | none => (none, 0)

/-! ## The comparison -/

/-- Two numbers, and what to say if they are equal. -/
def compareNumbers (a b : ℤ) (next : Ordering) : Ordering :=
  if a < b then .lt else if b < a then .gt else next

/-- The loop over the numbers of two tags: what is missing counts as zero. -/
def compareTags : List ℤ → List ℤ → Ordering
  | [], bs => bs.foldr (compareNumbers 0) .eq
  | a :: as, bs => compareNumbers a (bs.headD 0) (compareTags as bs.tail)

/-- `CompareVersions`. -/
def compareVersions (a b : Bytes) : Ordering :=
  if a = b then .eq
  else if a = Json.bytes "dev" then .lt
  else if b = Json.bytes "dev" then .gt
  else
    match parseVersion a, parseVersion b with
    | (some aTag, aCommits), (some bTag, bCommits) =>
        (compareTags aTag bTag).then (compareNumbers aCommits bCommits .eq)
    | (some _, _), (none, _) => .gt
    | (none, _), (some _, _) => .lt
    | (none, _), (none, _) => if a < b then .lt else .gt

/-! ## Ranks -/

/-- A tag that goes on with zeros. -/
def continued (tag : List ℤ) : ℕ → ℤ := fun i => tag.getD i 0

/-- The rank of a version: `dev` is below all hashes, and these are below all tags. -/
def rank (v : Bytes) : ℕ ×ₗ Lex (ℕ → ℤ) ×ₗ ℤ ×ₗ List ℕ :=
  if v = Json.bytes "dev" then toLex (0, toLex (toLex 0, toLex (0, [])))
  else
    match parseVersion v with
    | (some tag, commits) => toLex (2, toLex (toLex (continued tag), toLex (commits, [])))
    | (none, _) => toLex (1, toLex (toLex 0, toLex (0, v.map UInt8.toNat)))

theorem compareNumbers_eq_gt {a b : ℤ} {next : Ordering} :
    compareNumbers a b next = .gt ↔ b < a ∨ b = a ∧ next = .gt := by
  unfold compareNumbers
  rcases lt_trichotomy a b with h | h | h
  · simp [h, h.not_gt, h.ne']
  · simp [h]
  · simp [h, h.not_gt]

theorem compareNumbers_eq_eq {a b : ℤ} {next : Ordering} : compareNumbers a b next = .eq ↔ a = b ∧ next = .eq := by
  unfold compareNumbers
  rcases lt_trichotomy a b with h | h | h
  · simp [h, h.ne]
  · simp [h]
  · simp [h, h.not_gt, h.ne']

theorem continued_zero (tag : List ℤ) : continued tag 0 = tag.headD 0 := by
  cases tag <;> rfl

theorem continued_succ (tag : List ℤ) : (fun i => continued tag (i + 1)) = continued tag.tail := by
  cases tag <;> rfl

theorem compareTags_eq_gt (a b : List ℤ) : compareTags a b = .gt ↔ toLex (continued b) < toLex (continued a) := by
  induction a generalizing b with
  | nil =>
    induction b with
    | nil => exact iff_of_false (by simp [compareTags]) (lt_irrefl _)
    | cons b bs ih =>
      rw [sequence_lt_iff, continued_succ, continued_succ]
      exact compareNumbers_eq_gt.trans (or_congr Iff.rfl (and_congr Iff.rfl ih))
  | cons a as ih =>
    rw [sequence_lt_iff, continued_succ, continued_succ, continued_zero b]
    exact compareNumbers_eq_gt.trans (or_congr Iff.rfl (and_congr Iff.rfl (ih b.tail)))

theorem compareTags_eq_eq (a b : List ℤ) : compareTags a b = .eq ↔ continued a = continued b := by
  induction a generalizing b with
  | nil =>
    induction b with
    | nil => exact iff_of_true rfl rfl
    | cons b bs ih =>
      rw [sequence_eq_iff, continued_succ, continued_succ]
      exact compareNumbers_eq_eq.trans (and_congr Iff.rfl ih)
  | cons a as ih =>
    rw [sequence_eq_iff, continued_succ, continued_succ, continued_zero b]
    exact compareNumbers_eq_eq.trans (and_congr Iff.rfl (ih b.tail))

/-- The order of texts is that of their bytes as numbers. -/
theorem lt_iff_toNat_lt {a b : Bytes} : a < b ↔ a.map UInt8.toNat < b.map UInt8.toNat := by
  induction a generalizing b with
  | nil => cases b <;> simp
  | cons x a ih =>
    cases b with
    | nil => simp
    | cons y b => simp only [map_cons, cons_lt_cons_iff, ih, UInt8.lt_iff_toNat_lt, UInt8.toNat_inj]

theorem not_lt_iff {a b : Bytes} (hne : a ≠ b) : ¬ a < b ↔ b.map UInt8.toNat < a.map UInt8.toNat := by
  have hmap : a.map UInt8.toNat ≠ b.map UInt8.toNat :=
    fun h => hne ((map_inj_right fun _ _ => UInt8.toNat_inj.mp).mp h)
  rw [lt_iff_toNat_lt, not_lt]
  exact ⟨fun hle => lt_of_le_of_ne hle hmap.symm, le_of_lt⟩

/-- `CompareVersions(a, b) > 0`: the first version is newer. -/
def Newer (a b : Bytes) : Prop := compareVersions a b = .gt

instance (a b : Bytes) : Decidable (Newer a b) := inferInstanceAs (Decidable (_ = _))

/-- The newer version is the one of the higher rank. -/
theorem newer_iff {a b : Bytes} : Newer a b ↔ rank b < rank a := by
  unfold Newer compareVersions
  split
  case isTrue heq => simp [heq]
  case isFalse hne =>
    split
    case isTrue hdev =>
      have hb : b ≠ Json.bytes "dev" := fun h => hne (hdev.trans h.symm)
      rw [rank, if_neg hb, rank, if_pos hdev]
      split <;> simp [Prod.Lex.toLex_lt_toLex]
    case isFalse ha =>
      split
      case isTrue hdev =>
        rw [rank, if_pos hdev, rank, if_neg ha]
        split <;> simp [Prod.Lex.toLex_lt_toLex]
      case isFalse hb =>
        rw [rank, if_neg hb, rank, if_neg ha]
        rcases parseVersion a with ⟨_ | aTag, aCommits⟩ <;> rcases parseVersion b with ⟨_ | bTag, bCommits⟩
        · have hzero : ¬ (toLex (0 : ℕ → ℤ) < toLex 0) := lt_irrefl _
          simp only [Prod.Lex.toLex_lt_toLex, ite_eq_right_iff, reduceCtorEq, imp_false, not_lt_iff hne, hzero,
            lt_irrefl, false_or, true_and]
        · simp [Prod.Lex.toLex_lt_toLex]
        · simp [Prod.Lex.toLex_lt_toLex]
        · simp only [Prod.Lex.toLex_lt_toLex, Ordering.then_eq_gt, compareTags_eq_gt, compareTags_eq_eq,
            compareNumbers_eq_gt, reduceCtorEq, lt_irrefl, false_or, true_and, and_false, or_false,
            toLex_inj, eq_comm (a := continued aTag)]

instance : IsStrictOrder Bytes Newer where
  irrefl _ h := lt_irrefl _ (newer_iff.mp h)
  trans _ _ _ hab hbc := newer_iff.mpr ((newer_iff.mp hbc).trans (newer_iff.mp hab))

/-! ## The other way round -/

theorem compareNumbers_swap (a b : ℤ) (next : Ordering) :
    (compareNumbers a b next).swap = compareNumbers b a next.swap := by
  unfold compareNumbers
  rcases lt_trichotomy a b with h | h | h
  · simp [h, h.not_gt]
  · simp [h]
  · simp [h, h.not_gt]

theorem compareTags_swap (a b : List ℤ) : (compareTags a b).swap = compareTags b a := by
  induction a generalizing b with
  | nil =>
    induction b with
    | nil => rfl
    | cons b bs ih => exact (compareNumbers_swap 0 b _).trans (congrArg (compareNumbers b 0) ih)
  | cons a as ih =>
    refine (compareNumbers_swap a _ _).trans ?_
    rw [ih]
    cases b with
    | nil => rfl
    | cons b bs => rfl

theorem compareVersions_swap (a b : Bytes) : (compareVersions a b).swap = compareVersions b a := by
  by_cases heq : a = b
  · simp [compareVersions, heq]
  have hlt : b < a ↔ ¬ a < b := by rw [not_lt_iff heq, lt_iff_toNat_lt]
  by_cases ha : a = Json.bytes "dev"
  · subst ha
    simp [compareVersions, heq, Ne.symm heq]
  by_cases hb : b = Json.bytes "dev"
  · subst hb
    simp [compareVersions, heq, Ne.symm heq]
  simp only [compareVersions, heq, Ne.symm heq, ha, hb, if_false]
  rcases parseVersion a with ⟨_ | aTag, aCommits⟩ <;> rcases parseVersion b with ⟨_ | bTag, bCommits⟩
  · by_cases h : a < b <;> simp [hlt, h]
  · rfl
  · rfl
  · simp [Ordering.swap_then, compareTags_swap, compareNumbers_swap]

/-- `CompareVersions` puts all texts in order, with ties; `dev` comes first, and what has a tag after what has none. -/
theorem compareVersions_preorder :
    (∀ a b, compareVersions a b = (compareVersions b a).swap) ∧ (∀ a, compareVersions a a = .eq) ∧
      (∀ a b c, compareVersions a b ≠ .gt → compareVersions b c ≠ .gt → compareVersions a c ≠ .gt) ∧
      (∀ b, b ≠ Json.bytes "dev" → compareVersions (Json.bytes "dev") b = .lt) ∧
      ∀ a b, (parseVersion a).1.isSome → (parseVersion b).1 = none → compareVersions a b = .gt := by
  refine ⟨fun a b => (compareVersions_swap b a).symm, fun a => if_pos rfl, fun a b c hab hbc => ?_, fun b hb => ?_,
    fun a b ha hb => ?_⟩
  · have hle : rank a ≤ rank b := not_lt.mp fun h => hab (newer_iff.mpr h)
    exact fun h => (hle.trans (not_lt.mp fun h => hbc (newer_iff.mpr h))).not_gt (newer_iff.mp h)
  · rw [compareVersions, if_neg hb.symm, if_pos rfl]
  · rcases hpa : parseVersion a with ⟨_ | aTag, aCommits⟩
    · simp [hpa] at ha
    have hdev : a ≠ Json.bytes "dev" := by
      rintro rfl
      exact absurd ha (by decide)
    have hne : a ≠ b := by
      rintro rfl
      simp [hb] at ha
    rcases hpb : parseVersion b with ⟨_ | bTag, bCommits⟩
    · simp [compareVersions, hne, hdev, hpa, hpb]
    · simp [hpb] at hb

end P2P
