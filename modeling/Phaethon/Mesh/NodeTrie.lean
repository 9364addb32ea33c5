import Phaethon.Common.KeyTrie
import Mathlib.Algebra.BigOperators.Group.List.Basic
import Mathlib.Algebra.GroupWithZero.Nat
import Mathlib.Data.List.Infix
import Mathlib.Data.List.MinMax

/-!
# The domain trie

`src/mesh/node_trie.go`: route entries by domain suffix. A name is split into labels at its dots, the last label
first, and `Lookup` keeps the entries of the last node on the way of the domain that has some. It is longest-suffix
match on labels (`lookup_labels`).

Texts are bytes, as in Go. `strings.ToLower` is a parameter: nothing depends on which function it is.
-/

namespace DomainTrie

open KeyTrie List

/-- `RouteSource`. -/
inductive RouteSource where
  | static | dynamic
deriving DecidableEq, Repr

/-- `RouteEntry`. -/
structure RouteEntry where
  nodeID : List UInt8
  source : RouteSource
deriving DecidableEq, Repr

/-- `nodeTrieNode`: a node has entries and children by label. -/
abbrev NodeTrie := Trie (List UInt8) (List RouteEntry)

/-- `NewNodeTrie`. -/
def newNodeTrie : NodeTrie := .node [] fun _ => .nil

/-- The dot. -/
def dot : UInt8 := 0x2e

/-- `splitLabels`. -/
def splitLabels (domain : List UInt8) : List (List UInt8) := (domain.splitOn dot).reverse

section Operations

variable (toLower : List UInt8 → List UInt8)

/-- `strings.TrimPrefix(strings.ToLower(name), ".")`. -/
def normalize (name : List UInt8) : List UInt8 :=
  match toLower name with
  | b :: rest => if b = dot then rest else b :: rest
  | [] => []

/-- The end of `Insert`: the entry is added if its node has none yet. -/
def addEntry (entries : List RouteEntry) (e : RouteEntry) : List RouteEntry :=
  if entries.any fun e' => e'.nodeID = e.nodeID then entries else entries ++ [e]

/-- `(*NodeTrie).Insert`. -/
def insert (t : NodeTrie) (suffix : List UInt8) (e : RouteEntry) : NodeTrie :=
  t.modify (splitLabels (normalize toLower suffix)) fun entries => addEntry entries e

/-- The loop of `Lookup`, from label `i` on. -/
def lookupLoop : List (List UInt8) → ℕ → ℕ → List RouteEntry × ℕ → NodeTrie → List RouteEntry × ℕ
  | [], _, _, best, _ => best
  | label :: labels, i, accumulated, best, node =>
      match node.child label with
      | .nil => best
      | .node entries children =>
          let accumulated := accumulated + label.length + if 0 < i then 1 else 0
          lookupLoop labels (i + 1) accumulated (if entries ≠ [] then (entries, accumulated) else best)
            (.node entries children)

/-- `(*NodeTrie).Lookup`. -/
def lookup (t : NodeTrie) (domain : List UInt8) : List RouteEntry × ℕ :=
  lookupLoop (splitLabels (normalize toLower domain)) 0 0 ([], 0) t

end Operations

/-! ## The loop of a lookup -/

/-- What the loop adds to `accumulated` on the way of some labels. -/
def advance : ℕ → List (List UInt8) → ℕ
  | _, [] => 0
  | i, label :: labels => label.length + (if 0 < i then 1 else 0) + advance (i + 1) labels

variable {labels key : List (List UInt8)} {i accumulated : ℕ} {best : List RouteEntry × ℕ} {t : NodeTrie}

/-- An absent child ends the loop, and so does one without anything below it. -/
theorem lookupLoop_nil (labels : List (List UInt8)) : lookupLoop labels i accumulated best .nil = best := by
  cases labels <;> rfl

theorem lookupLoop_cons (label : List UInt8) :
    lookupLoop (label :: labels) i accumulated best t =
      lookupLoop labels (i + 1) (accumulated + label.length + if 0 < i then 1 else 0)
        (if (t.child label).value ≠ [] then
          ((t.child label).value, accumulated + label.length + if 0 < i then 1 else 0) else best)
        (t.child label) := by
  rw [lookupLoop]
  split
  case h_1 h =>
    rw [h, lookupLoop_nil]
    rfl
  case h_2 entries children h =>
    rw [h]
    rfl

theorem lookupLoop_of_none (h : ∀ key, key <+: labels → key ≠ [] → t.find key = []) :
    lookupLoop labels i accumulated best t = best := by
  induction labels generalizing i accumulated best t with
  | nil => rfl
  | cons label labels ih =>
    have hvalue : (t.child label).value = [] := h [label] (by simp) (by simp)
    simp only [lookupLoop_cons, hvalue, ne_eq, not_true_eq_false, if_false]
    refine ih fun key hkey _ => h (label :: key) (cons_prefix_cons.mpr ⟨rfl, hkey⟩) (by simp)

/-- The loop ends with the entries of the longest key that begins the labels. -/
theorem lookupLoop_of_longest (hne : key ≠ []) (hkey : key <+: labels) (hfind : t.find key ≠ [])
    (hlongest : ∀ key', key' <+: labels → key.length < key'.length → t.find key' = []) :
    lookupLoop labels i accumulated best t = (t.find key, accumulated + advance i key) := by
  induction labels generalizing i accumulated best t key with
  | nil => exact absurd (prefix_nil.mp hkey) hne
  | cons label labels ih =>
    cases key with
    | nil => exact absurd rfl hne
    | cons k key =>
      obtain ⟨rfl, htail⟩ := cons_prefix_cons.mp hkey
      have hdeeper (key' : List (List UInt8)) (hkey' : key' <+: labels) (hlen : key.length < key'.length) :
          (t.child k).find key' = [] :=
        hlongest (k :: key') (cons_prefix_cons.mpr ⟨rfl, hkey'⟩) (Nat.succ_lt_succ hlen)
      rw [lookupLoop_cons]
      cases key with
      | nil =>
        have hvalue : (t.child k).value ≠ [] := hfind
        rw [if_pos hvalue, lookupLoop_of_none fun key' hkey' hne' => hdeeper key' hkey' ?_]
        · simp only [Trie.find, advance]
          congr 1
          omega
        · exact length_pos_of_ne_nil hne'
      | cons k' key =>
        rw [ih (by simp) htail hfind hdeeper]
        simp only [Trie.find, advance]
        congr 1
        omega

/-! ## Lengths -/

variable (labels : List (List UInt8))

/-- The bytes of a name are those of its labels and the dots between them. -/
theorem advance_add_one (hne : labels ≠ []) :
    advance 0 labels + 1 = (labels.map fun label => label.length + 1).sum := by
  have hrest (i : ℕ) (labels : List (List UInt8)) :
      advance (i + 1) labels = (labels.map fun label => label.length + 1).sum := by
    induction labels generalizing i with
    | nil => rfl
    | cons label labels ih =>
      rw [advance, ih, map_cons, sum_cons]
      simp
  cases labels with
  | nil => exact absurd rfl hne
  | cons label labels =>
    rw [advance, hrest, map_cons, sum_cons]
    simp only [lt_self_iff_false, if_false]
    omega

theorem length_intercalate_add_one (hne : labels ≠ []) :
    ([dot].intercalate labels).length + 1 = (labels.map fun label => label.length + 1).sum := by
  induction labels with
  | nil => exact absurd rfl hne
  | cons label labels ih =>
    cases labels with
    | nil => simp
    | cons label' labels =>
      have hrest := ih (by simp)
      rw [intercalate_cons_cons]
      simp only [length_append, length_singleton, map_cons, sum_cons] at hrest ⊢
      omega

/-- On the way of all labels of a name the loop has counted its bytes. -/
theorem advance_splitLabels (name : List UInt8) : advance 0 (splitLabels name) = name.length := by
  have hne : name.splitOn dot ≠ [] := splitOn_ne_nil dot name
  have hjoin := length_intercalate_add_one (name.splitOn dot) hne
  have hcount := advance_add_one (splitLabels name) (by simp [splitLabels])
  rw [intercalate_splitOn] at hjoin
  rw [splitLabels, map_reverse, sum_reverse, ← hjoin] at hcount
  exact Nat.succ.inj hcount

/-! ## Entries -/

/-- One entry per node, the first of them, in order. -/
def firsts : List RouteEntry → List RouteEntry
  | [] => []
  | e :: es => e :: (firsts es).filter fun e' => e'.nodeID ≠ e.nodeID

theorem foldl_addEntry (es entries : List RouteEntry) :
    es.foldl addEntry entries =
      entries ++ (firsts es).filter fun e => !entries.any fun e' => e'.nodeID = e.nodeID := by
  induction es generalizing entries with
  | nil => simp [firsts]
  | cons e es ih =>
    rw [foldl_cons, ih, firsts, addEntry]
    by_cases hany : (entries.any fun e' => e'.nodeID = e.nodeID) = true
    · -- what is dropped for `e` is dropped for the entry of the same node
      rw [if_pos hany, filter_cons_of_neg (by simpa using hany), filter_filter]
      refine congrArg (entries ++ ·) (filter_congr fun e' _ => ?_)
      by_cases hsame : e'.nodeID = e.nodeID
      · simp [hsame, hany]
      · simp [hsame]
    · rw [if_neg hany, filter_cons_of_pos (by simpa using hany), filter_filter, append_assoc]
      refine congrArg (entries ++ ·) (congrArg (e :: ·) (filter_congr fun e' _ => ?_))
      simp [any_append, eq_comm]

/-- An insertion. -/
structure Insertion where
  suffix : List UInt8
  entry : RouteEntry

section Longest

variable (toLower : List UInt8 → List UInt8)

/-- The labels of a name: its parts between dots, after lower-casing and dropping one leading dot. -/
def labelsOf (name : List UInt8) : List (List UInt8) := (normalize toLower name).splitOn dot

/-- Insertions one after the other, into an empty trie. -/
def insertAll (ins : List Insertion) : NodeTrie :=
  ins.foldl (fun t e => insert toLower t e.suffix e.entry) newNodeTrie

/-- The entries that were inserted under a list of labels, one per node. -/
def entriesUnder (ins : List Insertion) (labels : List (List UInt8)) : List RouteEntry :=
  firsts ((ins.filter fun e => labelsOf toLower e.suffix = labels).map Insertion.entry)

variable {toLower} {ins : List Insertion} {domain : List UInt8}

theorem splitLabels_normalize (name : List UInt8) :
    splitLabels (normalize toLower name) = (labelsOf toLower name).reverse := rfl

/-- The node of some labels has the entries that were inserted under them. -/
theorem find_insertAll (labels : List (List UInt8)) :
    (insertAll toLower ins).find labels.reverse = entriesUnder toLower ins labels := by
  have hfold (t : NodeTrie) : (ins.foldl (fun t e => insert toLower t e.suffix e.entry) t).find labels.reverse =
      ((ins.filter fun e => labelsOf toLower e.suffix = labels).map Insertion.entry).foldl addEntry
        (t.find labels.reverse) := by
    induction ins generalizing t with
    | nil => rfl
    | cons e ins ih =>
      rw [foldl_cons, ih, insert, Trie.find_modify, splitLabels_normalize]
      by_cases hlabels : labels = labelsOf toLower e.suffix
      · rw [if_pos (by rw [hlabels]), filter_cons_of_pos (by simp [hlabels]), map_cons, foldl_cons,
          hlabels]
      · rw [if_neg (by simpa using hlabels), filter_cons_of_neg (by simpa using Ne.symm hlabels)]
  have hempty : newNodeTrie.find labels.reverse = [] := by
    cases labels.reverse with
    | nil => rfl
    | cons label rest => exact Trie.find_nil rest
  rw [insertAll, hfold, hempty, foldl_addEntry, entriesUnder]
  simp

theorem entriesUnder_eq_nil {labels : List (List UInt8)} :
    entriesUnder toLower ins labels = [] ↔ ∀ e ∈ ins, labelsOf toLower e.suffix ≠ labels := by
  have hfirsts (es : List RouteEntry) : firsts es = [] ↔ es = [] := by
    cases es <;> simp [firsts]
  rw [entriesUnder, hfirsts, map_eq_nil_iff, filter_eq_nil_iff]
  simp

variable (toLower ins domain)

/-- The suffix of an insertion is a suffix of the domain, label by label. -/
def Matches (e : Insertion) : Prop := labelsOf toLower e.suffix <:+ labelsOf toLower domain

variable {toLower ins domain} in
theorem exists_longest (h : ∃ e ∈ ins, Matches toLower domain e) :
    ∃ e ∈ ins, Matches toLower domain e ∧ ∀ e' ∈ ins, Matches toLower domain e' →
      (labelsOf toLower e'.suffix).length ≤ (labelsOf toLower e.suffix).length := by
  classical
  obtain ⟨e, he, hmatches⟩ := h
  have hmem {e : Insertion} : e ∈ ins.filter (Matches toLower domain ·) ↔ e ∈ ins ∧ Matches toLower domain e := by
    simp
  let size (e : Insertion) : ℕ := (labelsOf toLower e.suffix).length
  have hne : (ins.filter (Matches toLower domain ·)).argmax size ≠ none :=
    fun hnone => ne_nil_of_mem (hmem.mpr ⟨he, hmatches⟩) (argmax_eq_none.mp hnone)
  obtain ⟨b, hb⟩ := Option.ne_none_iff_exists'.mp hne
  obtain ⟨hin, hbmatches⟩ := hmem.mp (argmax_mem hb)
  refine ⟨b, hin, hbmatches, fun e' he' hmatches' => ?_⟩
  exact le_of_mem_argmax (f := size) (hmem.mpr ⟨he', hmatches'⟩) hb

/-- `Lookup` returns the entries, one per node, and the length of the longest suffix that matches, and nothing exactly
if no suffix does. -/
theorem lookup_labels :
    (∀ e ∈ ins, Matches toLower domain e →
      (∀ e' ∈ ins, Matches toLower domain e' →
        (labelsOf toLower e'.suffix).length ≤ (labelsOf toLower e.suffix).length) →
      lookup toLower (insertAll toLower ins) domain =
        (entriesUnder toLower ins (labelsOf toLower e.suffix), (normalize toLower e.suffix).length)) ∧
    ((lookup toLower (insertAll toLower ins) domain).1 = [] ↔ ∀ e ∈ ins, ¬ Matches toLower domain e) ∧
    ((∀ e ∈ ins, ¬ Matches toLower domain e) → lookup toLower (insertAll toLower ins) domain = ([], 0)) := by
  -- a node on the way of the domain has entries only if a suffix that matches has its labels
  have hfind (key : List (List UInt8)) (hkey : key <+: (labelsOf toLower domain).reverse)
      (hnot : ∀ e ∈ ins, Matches toLower domain e → (labelsOf toLower e.suffix).length ≠ key.length) :
      (insertAll toLower ins).find key = [] := by
    rw [← key.reverse_reverse, find_insertAll, entriesUnder_eq_nil]
    intro e he hlabels
    refine hnot e he ?_ (by rw [hlabels, length_reverse])
    rw [Matches, hlabels, ← reverse_prefix, reverse_reverse]
    exact hkey
  have hnone (h : ∀ e ∈ ins, ¬ Matches toLower domain e) :
      lookup toLower (insertAll toLower ins) domain = ([], 0) :=
    lookupLoop_of_none fun key hkey _ => hfind key hkey fun e he hmatches => absurd hmatches (h e he)
  have hlongest (e : Insertion) (he : e ∈ ins) (hmatches : Matches toLower domain e)
      (hmax : ∀ e' ∈ ins, Matches toLower domain e' →
        (labelsOf toLower e'.suffix).length ≤ (labelsOf toLower e.suffix).length) :
      lookup toLower (insertAll toLower ins) domain =
        (entriesUnder toLower ins (labelsOf toLower e.suffix), (normalize toLower e.suffix).length) := by
    have hentries : entriesUnder toLower ins (labelsOf toLower e.suffix) ≠ [] :=
      fun hnil => entriesUnder_eq_nil.mp hnil e he rfl
    refine (lookupLoop_of_longest (by simp [labelsOf]) (List.reverse_prefix.mpr hmatches) ?_ ?_).trans ?_
    · rwa [find_insertAll]
    · intro key hkey hlonger
      refine hfind key hkey fun e' he' hmatches' hlen => ?_
      rw [length_reverse, ← hlen] at hlonger
      exact hlonger.not_ge (hmax e' he' hmatches')
    · rw [find_insertAll, ← splitLabels_normalize, advance_splitLabels, Nat.zero_add]
  refine ⟨hlongest, ⟨fun hnil e he hmatches => ?_, fun h => by rw [hnone h]⟩, hnone⟩
  obtain ⟨b, hb, hmatches, hmax⟩ := exists_longest ⟨e, he, hmatches⟩
  rw [hlongest b hb hmatches hmax] at hnil
  exact entriesUnder_eq_nil.mp hnil b hb rfl

end Longest

end DomainTrie
