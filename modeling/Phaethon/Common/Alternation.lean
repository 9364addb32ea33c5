import Mathlib.Tactic.Common

/-!
# Two signals by turns

A history of signals in which one opens and another closes. `after` is the automaton that watches the two:
it refuses an opening while open and a closing while closed, and lets every other signal pass. A history
alternates if it is never refused, starting closed.
-/

namespace Alternation

variable {α : Type*} [DecidableEq α] {start stop : α}

/-- The state of the automaton after a history, or `none` when it refused a signal. -/
def after (start stop : α) : Bool → List α → Option Bool
  | isOpen, [] => some isOpen
  | isOpen, x :: l =>
      if x = start then if isOpen then none else after start stop true l
      else if x = stop then if isOpen then after start stop false l else none
      else after start stop isOpen l

/-- The two signals strictly alternate in the history, the opening one first. -/
def Alternates (start stop : α) (l : List α) : Prop :=
  ∃ isOpen, after start stop false l = some isOpen

theorem after_append (isOpen : Bool) (l m : List α) :
    after start stop isOpen (l ++ m) =
      (after start stop isOpen l).bind fun now => after start stop now m := by
  induction l generalizing isOpen with
  | nil => rfl
  | cons x l ih =>
    simp only [List.cons_append, after, ih]
    split_ifs <;> rfl

/-- What a history that was accepted so far goes on with. -/
theorem after_extend {l m : List α} {isOpen now : Bool} (hl : after start stop false l = some isOpen)
    (hm : after start stop isOpen m = some now) : after start stop false (l ++ m) = some now := by
  rw [after_append, hl, Option.bind_some, hm]

end Alternation
