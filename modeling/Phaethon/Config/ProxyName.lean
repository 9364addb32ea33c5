import Phaethon.Config.Rule

/-!
# The suffixes of a proxy name

`ParseProxyName` reads `PROXY[#MAPPING][@HH:MM-HH:MM]`, and its comment lets the two suffixes stand in any
order. It cuts the text at the first of the two signs. Behind `@` it takes everything for the window, so a
mapping that stands there is lost, and the window with it, since no window has a `#` in it.
-/

namespace Config

open List Option Text

/-! ## Texts -/

/-- The text `HH:MM` of a minute of the day. -/
def hourMinute (n : ℕ) : List Char :=
  (twoDigits (n / 60)).toList ++ ':' :: (twoDigits (n % 60)).toList

/-- The text `HH:MM-HH:MM` of a window. -/
def TimeRange.text (tr : TimeRange) : List Char := hourMinute tr.startMin ++ '-' :: hourMinute tr.endMin

/-- Both ends of the window are minutes of a day. -/
def TimeRange.Valid (tr : TimeRange) : Prop := tr.startMin < 1440 ∧ tr.endMin < 1440

/-- Neither of the two signs occurs. -/
def Unsigned (s : List Char) : Prop := '@' ∉ s ∧ '#' ∉ s

/-- Which of the two suffixes stands first. -/
inductive SuffixOrder where
  | mappingFirst
  | rangeFirst
  deriving DecidableEq

/-- A name with the suffixes that are given. -/
def suffixed (order : SuffixOrder) (name : List Char) (mapping : Option (List Char))
    (range : Option TimeRange) : List Char :=
  let hash := mapping.elim [] ('#' :: ·)
  let window := range.elim [] ('@' :: ·.text)
  match order with
  | .mappingFirst => name ++ (hash ++ window)
  | .rangeFirst => name ++ (window ++ hash)

/-! ## Times of day -/

theorem twoDigits_digits {n : ℕ} (h : n < 60) :
    atoi (twoDigits n).toList = some (n : ℤ) ∧ ∀ c ∈ (twoDigits n).toList, c.isDigit := by
  have hall : ∀ n < 60, atoi (twoDigits n).toList = some (n : ℤ) ∧
      (twoDigits n).toList.all Char.isDigit = true := by decide +kernel
  exact (hall n h).imp id all_eq_true.mp

theorem isDigit_or_colon_of_mem {n : ℕ} (h : n < 1440) {c : Char} (hc : c ∈ hourMinute n) : c.isDigit ∨ c = ':' := by
  rcases mem_append.mp hc with hc | hc
  · exact .inl ((twoDigits_digits (by omega)).2 c hc)
  · rcases mem_cons.mp hc with rfl | hc
    · exact .inr rfl
    · exact .inl ((twoDigits_digits (by omega)).2 c hc)

theorem parseHM_hourMinute {n : ℕ} (h : n < 1440) : parseHM (hourMinute n) = some n := by
  have hspace : ∀ c ∈ hourMinute n, isSpace c = false := by
    intro c hc
    rcases isDigit_or_colon_of_mem h hc with hdigit | rfl
    · exact isSpace_of_isDigit hdigit
    · decide
  have hcolon : ':' ∉ (twoDigits (n / 60)).toList := fun hmem =>
    absurd ((twoDigits_digits (by omega)).2 _ hmem) (by decide)
  have hcut : cut ':' (hourMinute n) = some ((twoDigits (n / 60)).toList, (twoDigits (n % 60)).toList) :=
    cut_eq_some_iff.mpr ⟨rfl, hcolon⟩
  simp only [parseHM, trimSpace_eq_self hspace, hcut, bind_eq_bind, bind_some,
    (twoDigits_digits (n := n / 60) (by omega)).1, (twoDigits_digits (n := n % 60) (by omega)).1]
  rw [if_neg (by omega)]
  congr 1
  omega

/-- No number has a `#` in it. -/
theorem atoi_of_mem {s : List Char} (h : '#' ∈ s) : atoi s = none := by
  have hdigits {t : List Char} (ht : '#' ∈ t) : digits t = none := by
    refine if_neg fun hall => ?_
    exact absurd (all_eq_true.mp hall.2 _ ht) (by decide)
  unfold atoi
  split
  · rw [hdigits ((mem_cons.mp h).resolve_left (by decide))]
    rfl
  · rw [hdigits ((mem_cons.mp h).resolve_left (by decide))]
    rfl
  · rw [hdigits h]
    rfl

/-- No time of day has a `#` in it. -/
theorem parseHM_of_mem {s : List Char} (h : '#' ∈ s) : parseHM s = none := by
  unfold parseHM
  cases hcut : cut ':' (trimSpace s) with
  | none => rfl
  | some parts =>
    obtain ⟨hour, minute⟩ := parts
    have hmem : '#' ∈ hour ++ ':' :: minute := (cut_eq_some_iff.mp hcut).1 ▸ mem_trimSpace h (by decide)
    simp only [bind_eq_bind, bind_some]
    rcases mem_append.mp hmem with hmem | hmem
    · rw [atoi_of_mem hmem]
      rfl
    · rw [atoi_of_mem ((mem_cons.mp hmem).resolve_left (by decide))]
      exact bind_eq_none_iff.mpr fun _ _ => rfl

variable {tr : TimeRange}

section

variable (h : tr.Valid)

include h

theorem mem_text {c : Char} (hc : c ∈ tr.text) : c.isDigit ∨ c = ':' ∨ c = '-' := by
  rcases mem_append.mp hc with hc | hc
  · exact (isDigit_or_colon_of_mem h.1 hc).imp_right .inl
  · rcases mem_cons.mp hc with rfl | hc
    · exact .inr (.inr rfl)
    · exact (isDigit_or_colon_of_mem h.2 hc).imp_right .inl

theorem cut_text (rest : List Char) :
    cut '-' (tr.text ++ rest) = some (hourMinute tr.startMin, hourMinute tr.endMin ++ rest) :=
  cut_eq_some_iff.mpr ⟨by simp [TimeRange.text],
    fun hmem => absurd (isDigit_or_colon_of_mem h.1 hmem) (by decide)⟩

theorem parseTimeRange_text : parseTimeRange tr.text = tr := by
  have hcut := cut_text h []
  simp only [append_nil] at hcut
  simp [parseTimeRange, hcut, parseHM_hourMinute h.1, parseHM_hourMinute h.2]

/-- A window with a mapping behind it is not read. -/
theorem parseTimeRange_text_hash (mapping : List Char) :
    parseTimeRange (tr.text ++ '#' :: mapping) = ⟨0, 0⟩ := by
  simp [parseTimeRange, cut_text h, parseHM_hourMinute h.1,
    parseHM_of_mem (mem_append_right (hourMinute tr.endMin) (mem_cons_self (a := '#') (l := mapping)))]

end

/-! ## Names -/

variable {name : List Char}

theorem parseProxyNameLoop_of_unsigned (h : Unsigned name) (n : ℕ) (mapping : List Char) (range : TimeRange) :
    parseProxyNameLoop n ⟨name, mapping, range⟩ = ⟨name, mapping, range⟩ := by
  cases n with
  | zero => rfl
  | succ n => simp [parseProxyNameLoop, cut_eq_none_iff.mpr h.1, cut_eq_none_iff.mpr h.2]

theorem parseProxyName_of_unsigned (h : Unsigned name) : parseProxyName name = ⟨name, [], ⟨0, 0⟩⟩ :=
  parseProxyNameLoop_of_unsigned h _ _ _

/-- Behind `@` everything is taken for the window. -/
theorem parseProxyName_at (h : Unsigned name) (after : List Char) :
    parseProxyName (name ++ '@' :: after) = ⟨name, [], parseTimeRange after⟩ := by
  have hat : cut '@' (name ++ '@' :: after) = some (name, after) := cut_eq_some_iff.mpr ⟨rfl, h.1⟩
  rw [parseProxyName, parseProxyNameLoop]
  cases hhash : cut '#' (name ++ '@' :: after) with
  | none => simp only [hat, parseProxyNameLoop_of_unsigned h]
  | some parts =>
    obtain ⟨before, mapping⟩ := parts
    obtain ⟨heq, hbefore⟩ := cut_eq_some_iff.mp hhash
    -- the `#` is behind the `@`
    have hlt : name.length < before.length := by
      rcases append_eq_append_iff.mp heq with ⟨more, rfl, hmore⟩ | ⟨more, rfl, hmore⟩
      · cases more with
        | nil => cases hmore
        | cons c more => simp
      · cases more with
        | nil => cases hmore
        | cons c more =>
          cases hmore
          exact absurd (mem_append_right before mem_cons_self) h.2
    simp [hat, hlt, parseProxyNameLoop_of_unsigned h]

/-- Behind `#` stands the mapping, up to an `@`. -/
theorem parseProxyName_hash_at {mapping : List Char} (h : Unsigned name) (hmapping : Unsigned mapping)
    (window : List Char) :
    parseProxyName (name ++ '#' :: (mapping ++ '@' :: window)) = ⟨name, mapping, parseTimeRange window⟩ := by
  have hhash : cut '#' (name ++ '#' :: (mapping ++ '@' :: window)) = some (name, mapping ++ '@' :: window) :=
    cut_eq_some_iff.mpr ⟨rfl, h.2⟩
  have hat : cut '@' (name ++ '#' :: (mapping ++ '@' :: window)) = some (name ++ '#' :: mapping, window) :=
    cut_eq_some_iff.mpr ⟨by simp, by simp [h.1, hmapping.1]⟩
  have hafter : cut '@' (mapping ++ '@' :: window) = some (mapping, window) :=
    cut_eq_some_iff.mpr ⟨rfl, hmapping.1⟩
  rw [parseProxyName, parseProxyNameLoop]
  simp [hhash, hat, hafter, parseProxyNameLoop_of_unsigned h]

/-- What was put behind a name is read back unless a mapping stands behind a window: then the mapping is lost and
the window always matches. -/
theorem parseProxyName_suffixed_iff (order : SuffixOrder) (name : List Char) (mapping : Option (List Char))
    (range : Option TimeRange) (hname : Unsigned name) (hmapping : ∀ m ∈ mapping, Unsigned m)
    (hrange : ∀ tr ∈ range, tr.Valid) :
    parseProxyName (suffixed order name mapping range) = ⟨name, mapping.getD [], range.getD ⟨0, 0⟩⟩ ↔
      (order = .rangeFirst → mapping.isSome → range.isSome → mapping = some [] ∧ range = some ⟨0, 0⟩) := by
  cases mapping with
  | none =>
    cases range with
    | none => cases order <;> simp [suffixed, parseProxyName_of_unsigned hname]
    | some tr => cases order <;> simp [suffixed, parseProxyName_at hname, parseTimeRange_text (hrange tr rfl)]
  | some m =>
    have hm := hmapping m rfl
    cases range with
    | none => cases order <;> simp [suffixed, parseProxyName_hash hname hm.1]
    | some tr =>
      have htr := hrange tr rfl
      cases order with
      | mappingFirst => simp [suffixed, parseProxyName_hash_at hname hm, parseTimeRange_text htr]
      | rangeFirst =>
        simp [suffixed, parseProxyName_at hname, parseTimeRange_text_hash htr, eq_comm]

/-- `A#m@09:00-17:00`. -/
theorem parseProxyName_suffixed_office : parseProxyName "A#m@09:00-17:00".toList = ⟨['A'], ['m'], ⟨540, 1020⟩⟩ :=
  (parseProxyName_suffixed_iff .mappingFirst ['A'] (some ['m']) (some ⟨540, 1020⟩)
    (by simp [Unsigned]) (by simp [Unsigned]) (by simp [TimeRange.Valid])).mpr (by simp)

/-- `A@09:00-17:00#m` has neither a mapping nor a window. -/
theorem parseProxyName_range_before_mapping : parseProxyName "A@09:00-17:00#m".toList = ⟨['A'], [], ⟨0, 0⟩⟩ := by
  decide +kernel

end Config
