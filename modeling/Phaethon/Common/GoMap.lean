import Mathlib.Data.List.AList

/-!
# Go maps

A map with strings as keys, and the order in which a loop goes through one, which Go chooses anew every time.
-/

namespace GoMap

open List Option AList

/-- A Go map with strings as keys. -/
abbrev Table (β : Type) := AList fun _ : String => β

/-- An order in which Go may go through a map. -/
structure Shuffle where
  run : {α : Type} → List α → List α
  perm : ∀ {α : Type} (l : List α), (run l).Perm l

/-- The order of the entries. -/
def Shuffle.asListed : Shuffle := ⟨id, fun _ => .rfl⟩

theorem Shuffle.mem_run {α : Type} (o : Shuffle) {l : List α} {a : α} : a ∈ o.run l ↔ a ∈ l :=
  (o.perm l).mem_iff

/-- The values of a map. -/
def Table.values {β : Type} (t : Table β) : List β := t.entries.map (·.2)

variable {β : Type} {k : String} {e : β}

theorem Table.mem_values {t : Table β} : e ∈ t.values ↔ ∃ k, t.lookup k = some e := by
  simp only [Table.values, List.mem_map]
  constructor
  · rintro ⟨⟨k, e⟩, hmem, rfl⟩
    exact ⟨k, mem_lookup_iff.mpr hmem⟩
  · rintro ⟨k, hk⟩
    exact ⟨⟨k, e⟩, mem_lookup_iff.mp hk, rfl⟩

theorem lookup_insert_cases {t : Table β} {o : String × β} (h : (t.insert o.1 o.2).lookup k = some e) :
    t.lookup k = some e ∨ (k, e) = o := by
  by_cases hk : k = o.1
  · rw [hk, lookup_insert] at h
    exact .inr (Prod.ext hk (Option.some.inj h).symm)
  · rw [lookup_insert_ne hk] at h
    exact .inl h

/-- What a loop of such steps finds was there before, or is one of the entries. -/
theorem lookup_foldl_cases {add : Table β → String × β → Table β}
    (hadd : ∀ {t o k e}, (add t o).lookup k = some e → t.lookup k = some e ∨ (k, e) = o)
    {entries : List (String × β)} {t : Table β} (h : (entries.foldl add t).lookup k = some e) :
    t.lookup k = some e ∨ (k, e) ∈ entries := by
  induction entries generalizing t with
  | nil => exact .inl h
  | cons o entries ih =>
    rcases ih h with hold | hmem
    · rcases hadd hold with hold | rfl
      · exact .inl hold
      · exact .inr mem_cons_self
    · exact .inr (mem_cons_of_mem o hmem)

/-- One round of a loop that puts what `f` makes of some entries into a map. -/
def Table.putSome {γ : Type} (f : β → Option γ) (t : Table γ) (e : (_ : String) × β) : Table γ :=
  (f e.2).elim t fun c => t.insert e.1 c

theorem lookup_foldl_putSome {γ : Type} (f : β → Option γ) {es : List ((_ : String) × β)} (hes : es.NodupKeys)
    (t : Table γ) (k : String) :
    (es.foldl (Table.putSome f) t).lookup k = ((es.dlookup k).bind f).or (t.lookup k) := by
  induction es generalizing t with
  | nil => rfl
  | cons e es ih =>
    obtain ⟨j, b⟩ := e
    obtain ⟨hfresh, hes⟩ := nodupKeys_cons.mp hes
    rw [foldl_cons, ih hes, Table.putSome]
    by_cases hk : k = j
    · subst hk
      rw [dlookup_cons_eq, dlookup_eq_none.mpr hfresh, bind_none, none_or,
        bind_some]
      cases f b with
      | none => rfl
      | some c => exact lookup_insert t
    · rw [dlookup_cons_ne _ _ hk]
      cases f b with
      | none => rfl
      | some c => exact congrArg _ (lookup_insert_ne hk)

/-- The loop over a whole map, in any order. -/
theorem lookup_foldl_shuffle {γ : Type} (f : β → Option γ) (o : Shuffle) (t : Table β) (k : String) :
    ((o.run t.entries).foldl (Table.putSome f) ∅).lookup k = (t.lookup k).bind f := by
  have hperm := o.perm t.entries
  rw [lookup_foldl_putSome f ((perm_nodupKeys hperm).mpr t.nodupKeys),
    perm_dlookup k ((perm_nodupKeys hperm).mpr t.nodupKeys) hperm]
  exact or_none

/-! ## Two maps with the same keys -/

section Rel

variable {γ : Type} {R : β → γ → Prop} {t : Table β} {u : Table γ}

/-- The maps have the same keys, in the same order, and related values. -/
def Table.Rel (R : β → γ → Prop) (t : Table β) (u : Table γ) : Prop :=
  Forall₂ (fun a b => a.1 = b.1 ∧ R a.2 b.2) t.entries u.entries

theorem Table.Rel.empty : Table.Rel R ∅ ∅ := Forall₂.nil

theorem Table.Rel.lookup (h : Table.Rel R t u) (k : String) : Option.Rel R (t.lookup k) (u.lookup k) := by
  rw [AList.lookup, AList.lookup]
  unfold Table.Rel at h
  generalize t.entries = as, u.entries = bs at h
  induction h with
  | nil => exact .none
  | @cons a b as bs hab _ ih =>
    obtain ⟨ka, va⟩ := a
    obtain ⟨kb, vb⟩ := b
    obtain ⟨rfl, hvalue⟩ := hab
    by_cases hk : k = ka
    · subst hk
      rw [dlookup_cons_eq, dlookup_cons_eq]
      exact .some hvalue
    · rw [dlookup_cons_ne _ _ hk, dlookup_cons_ne _ _ hk]
      exact ih

theorem Table.Rel.insert (h : Table.Rel R t u) (k : String) {b : β} {c : γ} (hbc : R b c) :
    Table.Rel R (t.insert k b) (u.insert k c) := by
  refine .cons ⟨rfl, hbc⟩ ?_
  unfold Table.Rel at h
  generalize t.entries = as, u.entries = bs at h
  induction h with
  | nil => exact .nil
  | @cons a b as bs hab hrest ih =>
    by_cases hk : k = a.1
    · rw [kerase_cons_eq hk, kerase_cons_eq (hk.trans hab.1)]
      exact hrest
    · rw [kerase_cons_ne hk, kerase_cons_ne (hab.1 ▸ hk)]
      exact .cons hab ih

/-- The values are related in turn. -/
theorem Table.Rel.values (h : Table.Rel R t u) : Forall₂ R t.values u.values := by
  rw [Table.values, Table.values, forall₂_map_left_iff, forall₂_map_right_iff]
  exact h.imp fun _ _ hab => hab.2

end Rel

end GoMap
