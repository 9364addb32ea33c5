import Mathlib.Algebra.Group.Int.Defs
import Mathlib.Algebra.Group.Nat.Defs
import Mathlib.Data.List.TakeDrop
import Mathlib.Data.List.TakeWhile

/-!
# Text

The functions of Go's `strings` and `strconv` that configuration code is written with, over lists of
characters. Letter case is that of ASCII.
-/

namespace Text

open List

/-- `unicode.IsSpace`. -/
def isSpace (c : Char) : Bool :=
  let n := c.toNat
  (9 ≤ n ∧ n ≤ 13) ∨ n = 0x20 ∨ n = 0x85 ∨ n = 0xa0 ∨ n = 0x1680 ∨ (0x2000 ≤ n ∧ n ≤ 0x200a) ∨
    n = 0x2028 ∨ n = 0x2029 ∨ n = 0x202f ∨ n = 0x205f ∨ n = 0x3000

/-- `strings.TrimSpace`. -/
def trimSpace (s : List Char) : List Char :=
  ((s.dropWhile isSpace).reverse.dropWhile isSpace).reverse

theorem trimSpace_eq_self {s : List Char} (h : ∀ c ∈ s, isSpace c = false) : trimSpace s = s := by
  have hdrop (t : List Char) (ht : ∀ c ∈ t, isSpace c = false) : t.dropWhile isSpace = t := by
    cases t with
    | nil => rfl
    | cons c t => rw [dropWhile_cons_of_neg (by simp [ht c mem_cons_self])]
  rw [trimSpace, hdrop s h, hdrop s.reverse fun c hc => h c (mem_reverse.mp hc), reverse_reverse]

/-- Only white space is trimmed. -/
theorem mem_trimSpace {s : List Char} {c : Char} (h : c ∈ s) (hc : isSpace c = false) : c ∈ trimSpace s := by
  have hdrop {t : List Char} (ht : c ∈ t) : c ∈ t.dropWhile isSpace := by
    rw [← takeWhile_append_dropWhile (p := isSpace) (l := t)] at ht
    refine (mem_append.mp ht).resolve_left fun htake => ?_
    rw [mem_takeWhile_imp htake] at hc
    cases hc
  exact mem_reverse.mpr (hdrop (mem_reverse.mpr (hdrop h)))

theorem isSpace_of_isDigit {c : Char} (h : c.isDigit) : isSpace c = false := by
  have hrange : 48 ≤ c.toNat ∧ c.toNat ≤ 57 := by
    simpa [Char.isDigit, UInt32.le_iff_toNat_le] using h
  simp only [isSpace, decide_eq_false_iff_not]
  omega

/-- `strings.Index` of one character, as the texts before and after it. -/
def cut (c : Char) (s : List Char) : Option (List Char × List Char) :=
  match s.span (· ≠ c) with
  | (before, _ :: after) => some (before, after)
  | (_, []) => none

theorem cut_nil (c : Char) : cut c [] = none := rfl

theorem cut_cons (c d : Char) (s : List Char) :
    cut c (d :: s) = if d = c then some ([], s) else (cut c s).map fun (before, after) => (d :: before, after) := by
  unfold cut
  rw [span_eq_takeWhile_dropWhile, span_eq_takeWhile_dropWhile]
  by_cases hd : d = c
  · simp [hd]
  · simp only [takeWhile_cons, dropWhile_cons, ne_eq, hd, not_false_eq_true, decide_true, if_true, if_false]
    cases s.dropWhile fun x => decide (¬ x = c) <;> rfl

theorem cut_eq_none_iff {c : Char} {s : List Char} : cut c s = none ↔ c ∉ s := by
  induction s with
  | nil => simp [cut_nil]
  | cons d s ih =>
    rw [cut_cons]
    by_cases hd : d = c
    · simp [hd]
    · simp [hd, ih, Ne.symm hd]

theorem cut_eq_some_iff {c : Char} {s before after : List Char} :
    cut c s = some (before, after) ↔ s = before ++ c :: after ∧ c ∉ before := by
  induction s generalizing before with
  | nil => simp [cut_nil]
  | cons d s ih =>
    rw [cut_cons]
    by_cases hd : d = c
    · subst hd
      cases before with
      | nil => simp
      | cons e before =>
        simp only [if_true, Option.some.injEq, Prod.mk.injEq, cons_append, List.cons.injEq]
        constructor
        · rintro ⟨h, -⟩
          cases h
        · rintro ⟨⟨rfl, -⟩, hnot⟩
          exact absurd mem_cons_self hnot
    · cases before with
      | nil => simp [hd]
      | cons e before =>
        simp only [hd, if_false, Option.map_eq_some_iff, Prod.exists, Prod.mk.injEq, List.cons.injEq,
          cons_append, mem_cons, not_or]
        constructor
        · rintro ⟨a, b, hcut, ⟨rfl, rfl⟩, rfl⟩
          obtain ⟨rfl, hnot⟩ := ih.mp hcut
          exact ⟨⟨rfl, rfl⟩, Ne.symm hd, hnot⟩
        · rintro ⟨⟨rfl, rfl⟩, -, hnot⟩
          exact ⟨before, after, ih.mpr ⟨rfl, hnot⟩, ⟨rfl, rfl⟩, rfl⟩

/-- `strings.SplitN`, with a positive number of parts. -/
def splitN (c : Char) : ℕ → List Char → List (List Char)
  | 0, s => [s]
  | n + 1, s =>
      match cut c s with
      | none => [s]
      | some (before, after) => before :: splitN c n after

/-- `strings.Trim`. -/
def trim (cutset : List Char) (s : List Char) : List Char :=
  ((s.dropWhile (· ∈ cutset)).reverse.dropWhile (· ∈ cutset)).reverse

theorem trim_eq_self {cutset s : List Char} (h : ∀ c ∈ s, c ∉ cutset) : trim cutset s = s := by
  have hdrop (t : List Char) (ht : ∀ c ∈ t, c ∉ cutset) : t.dropWhile (· ∈ cutset) = t := by
    cases t with
    | nil => rfl
    | cons c t => rw [dropWhile_cons_of_neg (by simpa using ht c mem_cons_self)]
  rw [trim, hdrop s h, hdrop s.reverse fun c hc => h c (mem_reverse.mp hc), reverse_reverse]

/-- `strings.EqualFold`. -/
def equalFold (s t : String) : Bool :=
  s.toList.map Char.toLower = t.toList.map Char.toLower

/-- `strings.ToUpper`. -/
def toUpper (s : String) : String :=
  String.ofList (s.toList.map Char.toUpper)

/-- `strings.ToLower`. -/
def toLower (s : String) : String :=
  String.ofList (s.toList.map Char.toLower)

/-- `strings.HasSuffix`. -/
def hasSuffix (s suffix : String) : Bool :=
  suffix.toList.isSuffixOf s.toList

variable (s : List Char)

/-- The value of decimal digits, if the text is one or more of them. -/
def digits : Option ℕ :=
  if s ≠ [] ∧ s.all Char.isDigit then some (s.foldl (fun n c => 10 * n + (c.toNat - '0'.toNat)) 0)
  else none

/-- `strconv.Atoi`: an optional sign and digits, within 64 bits. -/
def atoi : Option ℤ :=
  let value : Option ℤ :=
    match s with
    | '-' :: rest => (digits rest).map fun n => -(n : ℤ)
    | '+' :: rest => (digits rest).map fun n => (n : ℤ)
    | rest => (digits rest).map fun n => (n : ℤ)
  value.filter fun n => -2 ^ 63 ≤ n ∧ n < 2 ^ 63

/-- `strconv.ParseUint`, in base 10 and for 64 bits. -/
def parseUint : Option ℕ := (digits s).filter (· < 2 ^ 64)

/-- One element of a path, with the elements before it in reverse. -/
def cleanStep (rooted : Bool) (done : List (List Char)) (part : List Char) : List (List Char) :=
  if part = [] ∨ part = ['.'] then done
  else if part = ['.', '.'] then
    match done with
    | top :: below => if top = ['.', '.'] then part :: done else below
    | [] => if rooted then [] else [part]
  else part :: done

/-- `filepath.Clean`, with `/` for the separator. -/
def cleanPath (s : List Char) : List Char :=
  let rooted : Bool := s.head? = some '/'
  let parts := ((s.splitOn '/').foldl (cleanStep rooted) []).reverse
  let joined := ['/'].intercalate parts
  if rooted then '/' :: joined else if joined = [] then ['.'] else joined

/-- The two digits of `%02d`, for a number below one hundred. -/
def twoDigits (n : ℕ) : String :=
  toString (n / 10 % 10) ++ toString (n % 10)

end Text
