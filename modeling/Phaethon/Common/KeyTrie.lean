import Mathlib.Logic.Function.Basic
import Mathlib.Data.Nat.Notation

/-!
# Tries over any alphabet

A trie whose keys are lists over an alphabet. Every key has a value, which is the default where nothing has been put;
`modify` changes the value of one key (`find_modify`).
-/

namespace KeyTrie

open Function

/-- A node, or nothing where a branch ends. -/
inductive Trie (κ α : Type*) where
  | nil
  | node (value : α) (child : κ → Trie κ α)

namespace Trie

variable {κ α : Type*}

/-- The branch of a symbol. -/
def child : Trie κ α → κ → Trie κ α
  | nil, _ => nil
  | node _ c, k => c k

theorem child_node (v : α) (c : κ → Trie κ α) : (node v c).child = c := rfl

variable [Inhabited α]

/-- The value of a node. -/
def value : Trie κ α → α
  | nil => default
  | node v _ => v

/-- The value of a key. -/
def find : List κ → Trie κ α → α
  | [], t => t.value
  | k :: key, t => find key (t.child k)

/-- The value of a key is changed; nodes on the way to it are created. -/
def modify [DecidableEq κ] : List κ → (α → α) → Trie κ α → Trie κ α
  | [], f, t => node (f t.value) t.child
  | k :: key, f, t => node t.value (update t.child k (modify key f (t.child k)))

theorem find_nil (key : List κ) : find key (nil : Trie κ α) = default := by
  induction key with
  | nil => rfl
  | cons k key ih => exact ih

/-- A change of one key leaves the others. -/
theorem find_modify [DecidableEq κ] (key : List κ) (f : α → α) (t : Trie κ α) (key' : List κ) :
    find key' (modify key f t) = if key' = key then f (find key t) else find key' t := by
  induction key generalizing key' t with
  | nil =>
    cases key' with
    | nil => exact (if_pos rfl).symm
    | cons k key' => exact (if_neg (List.cons_ne_nil k key')).symm
  | cons k key ih =>
    cases key' with
    | nil => exact (if_neg (List.cons_ne_nil k key).symm).symm
    | cons k' key' =>
      rw [modify, find, child_node]
      by_cases hk : k' = k
      · subst hk
        rw [update_self, ih]
        simp only [List.cons.injEq, true_and, find]
      · rw [update_of_ne hk, if_neg fun h => hk (List.cons.inj h).1, find]

end Trie

end KeyTrie
