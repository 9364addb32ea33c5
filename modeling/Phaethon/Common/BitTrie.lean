import Mathlib.Data.List.Infix

/-!
# Binary tries

A trie whose keys are lists of bits, as nodes with two branches. `find` reads the value of one key. A walk along a list
of bits returns the last value on its way, which is that of the longest key that begins the list (`walk_of_longest`).
-/

namespace BitTrie

open List

variable {α : Type*}

/-- A node, or nothing where a branch ends. -/
inductive Trie (α : Type*) where
  | nil
  | node (value : Option α) (zero one : Trie α)

namespace Trie

/-- The value of a node. -/
def value : Trie α → Option α
  | nil => none
  | node v _ _ => v

/-- The branch of a bit. -/
def child (b : Bool) : Trie α → Trie α
  | nil => nil
  | node _ zero one => if b then one else zero

/-- The node with another value. -/
def setValue (v : α) : Trie α → Trie α
  | nil => node (some v) nil nil
  | node _ zero one => node (some v) zero one

/-- The node with another branch. -/
def setChild (b : Bool) : Trie α → Trie α → Trie α
  | nil, c => if b then node none nil c else node none c nil
  | node v zero one, c => if b then node v zero c else node v c one

/-- The value of a key is set; nodes on the way to it are created. -/
def insert : List Bool → α → Trie α → Trie α
  | [], v, t => t.setValue v
  | b :: key, v, t => t.setChild b (insert key v (t.child b))

/-- The value of a key. -/
def find : List Bool → Trie α → Option α
  | [], t => t.value
  | b :: key, t => find key (t.child b)

/-- The last value on the way along the bits, until a branch ends. -/
def walk : Option α → List Bool → Trie α → Option α
  | best, _, nil => best
  | best, [], node v _ _ => v.or best
  | best, b :: bits, node v zero one => walk (v.or best) bits ((node v zero one).child b)

@[simp] theorem value_setValue (v : α) (t : Trie α) : (t.setValue v).value = some v := by
  cases t <;> rfl

@[simp] theorem child_setValue (b : Bool) (v : α) (t : Trie α) : (t.setValue v).child b = t.child b := by
  cases t
  · cases b <;> rfl
  · rfl

@[simp] theorem value_setChild (b : Bool) (c t : Trie α) : (t.setChild b c).value = t.value := by
  cases t <;> cases b <;> rfl

theorem child_setChild (b b' : Bool) (c t : Trie α) :
    (t.setChild b c).child b' = if b' = b then c else t.child b' := by
  cases t <;> cases b <;> cases b' <;> rfl

theorem find_nil (key : List Bool) : find key (nil : Trie α) = none := by
  induction key with
  | nil => rfl
  | cons b key ih => exact ih

/-- An insertion changes the value of its key only. -/
theorem find_insert (key : List Bool) (v : α) (t : Trie α) (key' : List Bool) :
    find key' (insert key v t) = if key' = key then some v else find key' t := by
  induction key generalizing key' t with
  | nil =>
    cases key' with
    | nil => exact (value_setValue v t).trans (if_pos rfl).symm
    | cons b key' =>
      rw [insert, find, child_setValue]
      exact (if_neg (cons_ne_nil b key')).symm
  | cons b key ih =>
    cases key' with
    | nil =>
      rw [insert, find, value_setChild]
      exact (if_neg (cons_ne_nil b key).symm).symm
    | cons b' key' =>
      rw [insert, find, child_setChild]
      by_cases hb : b' = b
      · rw [if_pos hb, ih, hb]
        simp only [List.cons.injEq, true_and, find]
      · rw [if_neg hb, if_neg fun h => hb (List.cons.inj h).1, find]

theorem walk_nil (best : Option α) (t : Trie α) : walk best [] t = t.value.or best := by
  cases t <;> rfl

theorem walk_cons (best : Option α) (b : Bool) (bits : List Bool) (t : Trie α) :
    walk best (b :: bits) t = walk (t.value.or best) bits (t.child b) := by
  cases t with
  | nil => cases bits <;> rfl
  | node v zero one => rfl

variable {t t' : Trie α} {best : Option α} {key bits : List Bool} {v : α}

/-- A walk depends on the keys that begin its bits. -/
theorem walk_congr (h : ∀ key, key <+: bits → find key t = find key t') : walk best bits t = walk best bits t' := by
  induction bits generalizing t t' best with
  | nil =>
    rw [walk_nil, walk_nil]
    exact congrArg (·.or best) (h [] nil_prefix)
  | cons b bits ih =>
    have hvalue : t.value = t'.value := h [] nil_prefix
    rw [walk_cons, walk_cons, hvalue]
    exact ih fun key hkey => h (b :: key) (cons_prefix_cons.mpr ⟨rfl, hkey⟩)

theorem walk_of_none (h : ∀ key, key <+: bits → find key t = none) : walk best bits t = best := by
  have hempty : walk best bits t = walk best bits nil :=
    walk_congr fun key hkey => (h key hkey).trans (find_nil key).symm
  rw [hempty]
  cases bits <;> rfl

/-- A walk ends with the value of the longest key that begins its bits. -/
theorem walk_of_longest (hkey : key <+: bits) (hfind : find key t = some v)
    (hlongest : ∀ key', key' <+: bits → key.length < key'.length → find key' t = none) :
    walk best bits t = some v := by
  induction bits generalizing t best key with
  | nil =>
    obtain rfl := prefix_nil.mp hkey
    rw [walk_nil, show t.value = some v from hfind, Option.some_or]
  | cons b bits ih =>
    rw [walk_cons]
    cases key with
    | nil =>
      rw [show t.value = some v from hfind, Option.some_or]
      refine walk_of_none fun key' hkey' => hlongest (b :: key') ?_ (Nat.succ_pos _)
      exact cons_prefix_cons.mpr ⟨rfl, hkey'⟩
    | cons b' key =>
      obtain ⟨rfl, htail⟩ := cons_prefix_cons.mp hkey
      refine ih htail hfind fun key' hkey' hlen => hlongest (b' :: key') ?_ (Nat.succ_lt_succ hlen)
      exact cons_prefix_cons.mpr ⟨rfl, hkey'⟩

end Trie

end BitTrie
