import Mathlib.Tactic.Common

/-!
# Linked records

Records that point at each other: the link of a record is absent, leads out of the structure, or refers
to another record. `Ends` says that following the links leads out after finitely many steps. Links are
rewritten in place, one after the other; `Ends.of_changed` says what has to be known about those that
were for the others to keep their way out.
-/

namespace Chain

/-- Where a record leads. -/
inductive Link (α : Type*) where
  | nil
  | out
  | ref (a : α)
  deriving DecidableEq

variable {α : Type*} {next next' : α → Link α}

/-- The record that a link refers to. -/
def Link.ref? : Link α → Option α
  | .ref a => some a
  | .nil | .out => none

/-- Following the links from a record leads out. -/
inductive Ends (next : α → Link α) : α → Prop
  | out {p : α} (h : next p = .out) : Ends next p
  | ref {p q : α} (h : next p = .ref q) (rest : Ends next q) : Ends next p

/-- A way out survives a rewriting if every record that was rewritten has one afterwards. -/
theorem Ends.of_changed (hchanged : ∀ x, next' x ≠ next x → Ends next' x) {p : α}
    (h : Ends next p) : Ends next' p := by
  induction h with
  | @out p h =>
    by_cases hp : next' p = next p
    · exact .out (hp.trans h)
    · exact hchanged p hp
  | @ref p q h _ ih =>
    by_cases hp : next' p = next p
    · exact .ref (hp.trans h) ih
    · exact hchanged p hp

/-- Where `n` steps lead. A chain that is over stays where it is. -/
def hop (next : α → Link α) : ℕ → α → Link α
  | 0, p => .ref p
  | n + 1, p =>
      match next p with
      | .ref q => hop next n q
      | .nil => .nil
      | .out => .out

theorem exists_hop_of_ends {p : α} (h : Ends next p) : ∃ n, hop next (n + 1) p = .out := by
  induction h with
  | out h => exact ⟨0, by rw [hop, h]⟩
  | ref h _ ih =>
    obtain ⟨n, hn⟩ := ih
    exact ⟨n + 1, by rw [hop, h]; exact hn⟩

/-- A set of records that only refer to each other is not left. -/
theorem hop_of_closed {inside : α → Prop}
    (hclosed : ∀ x, inside x → ∃ y, next x = .ref y ∧ inside y) (n : ℕ) {p : α} (hp : inside p) :
    ∃ y, hop next n p = .ref y ∧ inside y := by
  induction n generalizing p with
  | zero => exact ⟨p, rfl, hp⟩
  | succ n ih =>
    obtain ⟨q, hq, hin⟩ := hclosed p hp
    rw [hop, hq]
    exact ih hin

theorem not_ends_of_closed {inside : α → Prop}
    (hclosed : ∀ x, inside x → ∃ y, next x = .ref y ∧ inside y) {p : α} (hp : inside p) :
    ¬ Ends next p := by
  intro h
  obtain ⟨n, hn⟩ := exists_hop_of_ends h
  obtain ⟨y, hy, _⟩ := hop_of_closed hclosed (n + 1) hp
  rw [hn] at hy
  cases hy

end Chain
