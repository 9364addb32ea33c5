import Mathlib.Data.List.MinMax

/-!
# An HTTP request multiplexer with literal patterns

A request path is split at its slashes before its segments are unescaped, so a segment may hold a slash
of its own; `path` is the decoded path, in which the two kinds of slash cannot be told apart. A pattern is
a list of literal segments, exact (`/a/b`) or with everything below it (`/a/b/`). `lookup` picks the
longest pattern that matches.
-/

namespace ServeMux

open List

variable {η : Type*}

/-- The decoded path of a request: `/` before every segment. -/
def path (segments : List String) : List Char :=
  segments.flatMap fun s => '/' :: s.toList

/-- A registered pattern. -/
structure Pattern where
  literals : List String
  subtree : Bool
  deriving DecidableEq, Repr

/-- The text a pattern is registered with. -/
def Pattern.text (p : Pattern) : List Char :=
  path p.literals ++ if p.subtree then ['/'] else []

/-- A subtree pattern asks for at least one more segment, which may be empty. -/
def Pattern.Matches (p : Pattern) (segments : List String) : Prop :=
  if p.subtree then p.literals <+: segments ∧ p.literals.length < segments.length
  else segments = p.literals

instance (p : Pattern) (segments : List String) : Decidable (p.Matches segments) := by
  unfold Pattern.Matches
  infer_instance

/-- The handler of the longest matching pattern. -/
def lookup (table : List (Pattern × η)) (segments : List String) : Option η :=
  ((table.filter fun e => decide (e.1.Matches segments)).argmax
    fun e => e.1.literals.length).map Prod.snd

/-- A handler is only reached through one of its patterns, the longest that matches. -/
theorem lookup_eq_some {table : List (Pattern × η)} {segments : List String} {h : η}
    (hl : lookup table segments = some h) :
    ∃ p, (p, h) ∈ table ∧ p.Matches segments ∧
      ∀ e ∈ table, e.1.Matches segments → e.1.literals.length ≤ p.literals.length := by
  obtain ⟨⟨p, h'⟩, he, rfl⟩ := Option.map_eq_some_iff.mp hl
  obtain ⟨hmem, hp⟩ := mem_filter.mp (argmax_mem he)
  refine ⟨p, hmem, of_decide_eq_true hp, fun e hmem' hm => ?_⟩
  have hin : e ∈ table.filter fun e => decide (e.1.Matches segments) :=
    mem_filter.mpr ⟨hmem', decide_eq_true hm⟩
  have hnot := not_lt_of_mem_argmax hin he
  exact Nat.le_of_not_lt hnot

/-- The text of a matching pattern begins the decoded path, and is all of it when it is exact. -/
theorem Pattern.Matches.text {p : Pattern} {segments : List String} (h : p.Matches segments) :
    p.text <+: path segments ∧ (p.subtree = false → path segments = p.text) := by
  unfold Pattern.Matches at h
  split at h
  · next hsub =>
      obtain ⟨⟨rest, rfl⟩, hlt⟩ := h
      cases rest with
      | nil => simp at hlt
      | cons s rest =>
        refine ⟨⟨s.toList ++ path rest, ?_⟩, fun hf => by simp [hf] at hsub⟩
        simp [Pattern.text, path, hsub]
  · next hsub =>
      subst h
      simp [Pattern.text, hsub]

private theorem slash_mem_path {segments : List String} (h : segments ≠ []) : '/' ∈ path segments := by
  cases segments with
  | nil => exact absurd rfl h
  | cons s rest => simp [path]

/-- Below a subtree, a path with one more segment and no slash in it has exactly that segment. -/
theorem Pattern.Matches.segments_eq {literals segments : List String} {s : String}
    (h : Pattern.Matches ⟨literals, true⟩ segments) (hs : '/' ∉ s.toList)
    (hpath : path segments = path (literals ++ [s])) : segments = literals ++ [s] := by
  obtain ⟨⟨rest, rfl⟩, hlt⟩ := h
  cases rest with
  | nil => simp at hlt
  | cons x xs =>
    have htail : x.toList ++ path xs = s.toList := by
      simpa [path] using hpath
    have hxs : xs = [] := by
      by_contra hne
      exact hs (htail ▸ mem_append_right _ (slash_mem_path hne))
    subst hxs
    have hx : x = s := String.toList_injective (by simpa [path] using htail)
    rw [hx]

end ServeMux
