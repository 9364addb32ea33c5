import Mathlib.Algebra.Group.Nat.Defs
import Mathlib.Data.List.AList
import Phaethon.Common.Lts

/-!
# The stored rules

`src/db/configstore.go`: `InsertRuleWithID`, `UpdateRuleByID`, `DeleteRuleByID` and `ReorderRules`, each in one
transaction on the bucket of the rules. The bucket has a counter for ids, the list of ids that gives the order
of the rules, and each rule under its id. `ReorderRules` only looks whether the ids of the new order are stored,
so that an order may lose ids or repeat them (`sound_iff_admits`).
-/

namespace RuleStore

open List AList

/-- The bucket `rules`: the values of the keys `next_id` and `order`, and those of the keys `rule:{id}`. -/
structure RuleBucket where
  nextID : Option UInt64
  order : Option (List UInt64)
  rules : AList fun _ : UInt64 => String

/-- An error with its text, or a run-time panic, which rolls the transaction back as well. -/
inductive Fault where
  | error (text : String)
  | panic (text : String)
  deriving DecidableEq

/-- `ErrNotFound`. -/
def errNotFound : String := "key 不存在"

variable (b : RuleBucket)

/-- `getNextIDTx`. -/
def getNextIDTx : UInt64 := b.nextID.getD 1

/-- `getOrderTx`. -/
def getOrderTx : List UInt64 := b.order.getD []

/-- `getRuleByIDTx`, without a text for a rule that is not found. -/
def getRuleByIDTx (id : UInt64) : Option String := b.rules.lookup id

/-- `putNextIDTx`. -/
def putNextIDTx (id : UInt64) : RuleBucket := { b with nextID := some id }

/-- `putOrderTx`. -/
def putOrderTx (order : List UInt64) : RuleBucket := { b with order := some order }

/-- `putRuleByIDTx`. -/
def putRuleByIDTx (id : UInt64) (rule : String) : RuleBucket :=
  { b with rules := b.rules.insert id rule }

/-- `deleteRuleByIDTx`. -/
def deleteRuleByIDTx (id : UInt64) : RuleBucket := { b with rules := b.rules.erase id }

/-- The order with an id at the end, at the front, or behind an id that has to be in it. -/
def insertAfter (order : List UInt64) (newID : UInt64) : Option UInt64 → Except Fault (List UInt64)
  | none => .ok (order ++ [newID])
  | some after =>
      if after = 0 then .ok (newID :: order)
      else
        match order.findIdx? (· = after) with
        | none => .error (.error s!"after_id {after} not found")
        | some pos => .ok (order.take (pos + 1) ++ newID :: order.drop (pos + 1))

/-- `InsertRuleWithID`. -/
def insertRuleWithID (b : RuleBucket) (rule : String) (afterID : Option UInt64) :
    Except Fault (UInt64 × RuleBucket) :=
  let newID := getNextIDTx b
  let b := putRuleByIDTx b newID rule
  match insertAfter (getOrderTx b) newID afterID with
  | .error err => .error err
  | .ok order => .ok (newID, putNextIDTx (putOrderTx b order) (newID + 1))

/-- `UpdateRuleByID`. -/
def updateRuleByID (b : RuleBucket) (id : UInt64) (rule : String) : Except Fault RuleBucket :=
  match getRuleByIDTx b id with
  | none => .error (.error errNotFound)
  | some _ => .ok (putRuleByIDTx b id rule)

/-- `DeleteRuleByID`. The slice for the new order is made with room for one id less, which an empty order does
not allow. -/
def deleteRuleByID (b : RuleBucket) (id : UInt64) : Except Fault RuleBucket :=
  match getRuleByIDTx b id with
  | none => .error (.error errNotFound)
  | some _ =>
      let b := deleteRuleByIDTx b id
      let order := getOrderTx b
      if order.length = 0 then .error (.panic "makeslice: cap out of range")
      else .ok (putOrderTx b (order.filter (· ≠ id)))

/-- `ReorderRules`. -/
def reorderRules (b : RuleBucket) (order : List UInt64) : Except Fault RuleBucket :=
  match order.find? fun id => (getRuleByIDTx b id).isNone with
  | some id => .error (.error s!"id {id} not found: {errNotFound}")
  | none => .ok (putOrderTx b order)

/-- `ListRulesWithIDs`: an id of the order without a rule is left out, and so is a rule whose id is not in
it. -/
def listRulesWithIDs (b : RuleBucket) : List (UInt64 × String) :=
  (getOrderTx b).filterMap fun id => (getRuleByIDTx b id).map fun rule => (id, rule)

/-- `ListRules`. -/
def listRules (b : RuleBucket) : List String := (listRulesWithIDs b).map (·.2)

theorem mem_listRules {b : RuleBucket} {rule : String} :
    rule ∈ listRules b ↔ ∃ id ∈ getOrderTx b, getRuleByIDTx b id = some rule := by
  simp [listRules, listRulesWithIDs]

/-! ## Calls -/

/-- A call of one of the four functions. -/
inductive Call where
  | insert (rule : String) (afterID : Option UInt64)
  | update (id : UInt64) (rule : String)
  | delete (id : UInt64)
  | reorder (order : List UInt64)

/-- The bucket, and the ids that rules were given so far, the last one first. -/
structure Ledger where
  bucket : RuleBucket
  issued : List UInt64

open Ledger

/-- A call; one that fails changes nothing. -/
def Ledger.call (l : Ledger) : Call → Ledger
  | .insert rule afterID =>
      match insertRuleWithID l.bucket rule afterID with
      | .ok (newID, b) => ⟨b, newID :: l.issued⟩
      | .error _ => l
  | .update id rule =>
      match updateRuleByID l.bucket id rule with
      | .ok b => { l with bucket := b }
      | .error _ => l
  | .delete id =>
      match deleteRuleByID l.bucket id with
      | .ok b => { l with bucket := b }
      | .error _ => l
  | .reorder order =>
      match reorderRules l.bucket order with
      | .ok b => { l with bucket := b }
      | .error _ => l

/-- The order is one of the stored ids, these are below the counter, and no id was given twice. -/
structure Ledger.Sound (l : Ledger) : Prop where
  nodup : (getOrderTx l.bucket).Nodup
  perm : (getOrderTx l.bucket).Perm l.bucket.rules.keys
  below : ∀ id ∈ l.bucket.rules.keys, id < getNextIDTx l.bucket
  once : l.issued.Nodup

/-- What a call has to meet: no rule is stored under the last id there is, and a new order has the stored ids,
each once; a call that fails may be any. -/
def Ledger.Admits (l : Ledger) : Call → Prop
  | .insert _ afterID =>
      (∃ after, afterID = some after ∧ after ≠ 0 ∧ after ∉ getOrderTx l.bucket) ∨
        (getNextIDTx l.bucket).toNat + 1 < 2 ^ 64
  | .update _ _ => True
  | .delete _ => True
  | .reorder order => (∃ id ∈ order, id ∉ l.bucket.rules.keys) ∨ order.Perm l.bucket.rules.keys

/-! ## One call -/

variable {l : Ledger}

/-- All ids that were given are below the counter. -/
def Ledger.Counted (l : Ledger) : Prop := ∀ id ∈ l.issued, id < getNextIDTx l.bucket

theorem insertAfter_error_iff {order : List UInt64} {newID : UInt64} {afterID : Option UInt64} :
    (∃ err, insertAfter order newID afterID = .error err) ↔
      ∃ after, afterID = some after ∧ after ≠ 0 ∧ after ∉ order := by
  cases afterID with
  | none => simp [insertAfter]
  | some after =>
    by_cases hzero : after = 0
    · simp [insertAfter, hzero]
    · cases hpos : order.findIdx? (· = after) with
      | none =>
        have hmem : after ∉ order := by
          intro hmem
          have hall := findIdx?_eq_none_iff.mp hpos after hmem
          simp at hall
        simp [insertAfter, hzero, hpos, hmem]
      | some pos =>
        have hmem : after ∈ order := by
          obtain ⟨hlt, heq, -⟩ := findIdx?_eq_some_iff_getElem.mp hpos
          rw [← of_decide_eq_true heq]
          exact getElem_mem hlt
        simp [insertAfter, hzero, hpos, hmem]

theorem insertAfter_perm {order order' : List UInt64} {newID : UInt64} {afterID : Option UInt64}
    (h : insertAfter order newID afterID = .ok order') : order'.Perm (newID :: order) := by
  unfold insertAfter at h
  split at h
  · cases h
    exact perm_append_singleton newID order
  · split at h
    · cases h
      exact .rfl
    · split at h
      · cases h
      · cases h
        refine perm_middle.trans ?_
        rw [take_append_drop]

/-- What a call does. One that fails is admitted. -/
inductive Step (l : Ledger) : Call → Ledger → Prop where
  | fail {c : Call} (h : l.Admits c) : Step l c l
  | insert {rule : String} {afterID : Option UInt64} {order : List UInt64}
      (hafter : ¬ ∃ after, afterID = some after ∧ after ≠ 0 ∧ after ∉ getOrderTx l.bucket)
      (hperm : order.Perm (getNextIDTx l.bucket :: getOrderTx l.bucket)) :
      Step l (.insert rule afterID)
        ⟨⟨some (getNextIDTx l.bucket + 1), some order, l.bucket.rules.insert (getNextIDTx l.bucket) rule⟩,
          getNextIDTx l.bucket :: l.issued⟩
  | update {id : UInt64} {rule : String} (hid : id ∈ l.bucket.rules.keys) :
      Step l (.update id rule) { l with bucket := putRuleByIDTx l.bucket id rule }
  | delete {id : UInt64} :
      Step l (.delete id)
        { l with bucket := putOrderTx (deleteRuleByIDTx l.bucket id) ((getOrderTx l.bucket).filter (· ≠ id)) }
  | reorder {order : List UInt64} (hids : ∀ id ∈ order, id ∈ l.bucket.rules.keys) :
      Step l (.reorder order) { l with bucket := putOrderTx l.bucket order }

theorem call_step (l : Ledger) (c : Call) : Step l c (l.call c) := by
  cases c with
  | insert rule afterID =>
    simp only [call, insertRuleWithID]
    cases h : insertAfter (getOrderTx (putRuleByIDTx l.bucket (getNextIDTx l.bucket) rule))
        (getNextIDTx l.bucket) afterID with
    | error err => exact .fail (.inl (insertAfter_error_iff.mp ⟨err, h⟩))
    | ok order =>
      refine .insert (fun hafter => ?_) (insertAfter_perm h)
      obtain ⟨err, herr⟩ := insertAfter_error_iff.mpr hafter
      cases h.symm.trans herr
  | update id rule =>
    simp only [call, updateRuleByID]
    cases h : getRuleByIDTx l.bucket id with
    | none => exact .fail trivial
    | some old => exact .update (mem_keys.mpr (lookup_isSome.mp (by rw [← getRuleByIDTx, h]; rfl)))
  | delete id =>
    simp only [call, deleteRuleByID]
    cases h : getRuleByIDTx l.bucket id with
    | none => exact .fail trivial
    | some old =>
      dsimp only
      split
      case h_1 b hb =>
        split at hb
        · cases hb
        · cases hb
          exact .delete
      case h_2 => exact .fail trivial
  | reorder order =>
    simp only [call, reorderRules]
    cases h : order.find? fun id => (getRuleByIDTx l.bucket id).isNone with
    | none =>
      refine .reorder fun id hid => mem_keys.mpr (lookup_isSome.mp ?_)
      have hall := find?_eq_none.mp h id hid
      simpa [getRuleByIDTx, Option.isSome_iff_ne_none] using hall
    | some id =>
      refine .fail (.inl ⟨id, mem_of_find?_eq_some h, fun hid => ?_⟩)
      have hnone := find?_some h
      rw [getRuleByIDTx, Option.isNone_iff_eq_none, lookup_eq_none] at hnone
      exact hnone (mem_keys.mp hid)

theorem lt_succ {id n : UInt64} (hn : n.toNat + 1 < 2 ^ 64) (h : id ≤ n) : id < n + 1 := by
  rw [UInt64.lt_iff_toNat_lt, UInt64.toNat_add]
  have hid := UInt64.le_iff_toNat_le.mp h
  simp only [UInt64.toNat_one]
  omega

/-- A call that is admitted keeps the bucket sound. -/
theorem Step.sound {l' : Ledger} {c : Call} (hs : Step l c l') (h : l.Sound) (hcounted : l.Counted)
    (hc : l.Admits c) : l'.Sound ∧ l'.Counted := by
  cases hs with
  | fail _ => exact ⟨h, hcounted⟩
  | @insert rule afterID order hafter hperm =>
    have hnext : (getNextIDTx l.bucket).toNat + 1 < 2 ^ 64 := hc.resolve_left hafter
    have hnew : getNextIDTx l.bucket ∉ l.bucket.rules.keys := fun hmem =>
      absurd (h.below _ hmem) (UInt64.lt_irrefl _)
    have hkeys : (l.bucket.rules.insert (getNextIDTx l.bucket) rule).keys =
        getNextIDTx l.bucket :: l.bucket.rules.keys := by
      rw [keys_insert, erase_of_not_mem hnew]
    have hperm' : order.Perm (getNextIDTx l.bucket :: l.bucket.rules.keys) := hperm.trans (h.perm.cons _)
    refine ⟨⟨?_, ?_, ?_, ?_⟩, ?_⟩
    · exact hperm'.nodup_iff.mpr (nodup_cons.mpr ⟨hnew, keys_nodup _⟩)
    · exact hperm'.trans (.of_eq hkeys.symm)
    · intro id hid
      rw [hkeys] at hid
      rcases mem_cons.mp hid with rfl | hold
      · exact lt_succ hnext (UInt64.le_refl _)
      · exact lt_succ hnext (UInt64.le_of_lt (h.below id hold))
    · exact nodup_cons.mpr ⟨fun hmem => absurd (hcounted _ hmem) (UInt64.lt_irrefl _), h.once⟩
    · intro id hid
      rcases mem_cons.mp hid with rfl | hold
      · exact lt_succ hnext (UInt64.le_refl _)
      · exact lt_succ hnext (UInt64.le_of_lt (hcounted id hold))
  | @update id rule hid =>
    have hkeys : (l.bucket.rules.insert id rule).keys.Perm l.bucket.rules.keys := by
      rw [keys_insert]
      exact (perm_cons_erase hid).symm
    exact ⟨⟨h.nodup, h.perm.trans hkeys.symm, fun k hk => h.below k (hkeys.mem_iff.mp hk), h.once⟩, hcounted⟩
  | @delete id =>
    have hkeys : (l.bucket.rules.erase id).keys = l.bucket.rules.keys.erase id := keys_erase id _
    refine ⟨⟨h.nodup.filter _, ?_, fun k hk => h.below k ?_, h.once⟩, hcounted⟩
    · have hfilter : (getOrderTx l.bucket).erase id = (getOrderTx l.bucket).filter (· ≠ id) := by
        rw [h.nodup.erase_eq_filter]
        exact filter_congr fun k _ => by by_cases hk : k = id <;> simp [hk]
      exact ((Perm.of_eq hfilter.symm).trans (h.perm.erase id)).trans (.of_eq hkeys.symm)
    · exact mem_of_mem_erase (hkeys ▸ hk)
  | reorder hids =>
    have hperm : Perm _ l.bucket.rules.keys := hc.resolve_left (by
      rintro ⟨id, hid, hnot⟩
      exact hnot (hids id hid))
    exact ⟨⟨hperm.nodup_iff.mpr (keys_nodup _), hperm, h.below, h.once⟩, hcounted⟩

/-- A call that is not admitted leaves a bucket that is not sound. -/
theorem Step.not_sound {l' : Ledger} {c : Call} (hs : Step l c l') (hc : ¬ l.Admits c) : ¬ l'.Sound := by
  intro h
  cases hs with
  | fail hc' => exact hc hc'
  | @insert rule afterID order hafter hperm =>
    refine hc (.inr ?_)
    have hmem : getNextIDTx l.bucket ∈ (l.bucket.rules.insert (getNextIDTx l.bucket) rule).keys := by
      exact mem_cons_self
    have hlt : getNextIDTx l.bucket < getNextIDTx l.bucket + 1 := h.below _ hmem
    rw [UInt64.lt_iff_toNat_lt, UInt64.toNat_add] at hlt
    omega
  | update => exact hc trivial
  | delete => exact hc trivial
  | reorder => exact hc (.inr h.perm)

/-! ## Sequences of calls -/

/-- After any of the calls the bucket is sound, exactly if all calls are admitted where they are made. -/
theorem sound_iff_admits (l : Ledger) (h : l.Sound) (hcounted : l.Counted) (calls : List Call) :
    (∀ done, done <+: calls → (done.foldl call l).Sound) ↔
      Lts.Always (fun l c => some (call l c)) Admits l calls := by
  have hinv : l.Sound ∧ l.Counted := ⟨h, hcounted⟩
  have hstep : ∀ l c, (Sound l ∧ l.Counted) → l.Admits c → (l.call c).Sound ∧ (l.call c).Counted :=
    fun l c hl hc => (call_step l c).sound hl.1 hl.2 hc
  exact (Lts.always_iff_foldl hstep (fun _ hl => hl.1) (fun l c _ hc => (call_step l c).not_sound hc) hinv
    calls).symm

/-- A new database. -/
def Ledger.empty : Ledger := ⟨⟨none, none, ∅⟩, []⟩

theorem sound_empty : empty.Sound :=
  ⟨nodup_nil, .nil, by simp [empty], nodup_nil⟩

/-- Two rules, the second one first, then the other way round, and the first one deleted. -/
theorem sound_iff_admits_two :
    empty.Sound ∧ empty.Counted ∧
      ∀ done, done <+: [Call.insert "MATCH,DIRECT" none, .insert "MATCH,REJECT" (some 0), .reorder [1, 2],
        .delete 1] → (done.foldl call empty).Sound := by
  have hcounted : empty.Counted := fun id hid => nomatch hid
  refine ⟨sound_empty, hcounted, (sound_iff_admits _ sound_empty hcounted _).mpr ?_⟩
  exact ⟨.inr (by decide), .inr (by decide), .inr (by decide +kernel), trivial, trivial⟩

/-- An order without a rule, or with a rule twice, is stored. A rule that was left out of the order is still
there, and with an empty order no rule can be deleted. -/
theorem reorder_loses_and_repeats :
    ¬ ([Call.insert "MATCH,DIRECT" none, .insert "MATCH,REJECT" none, .reorder [1]].foldl call
        empty).Sound ∧
      ¬ ([Call.insert "MATCH,DIRECT" none, .reorder [1, 1]].foldl call empty).Sound ∧
      deleteRuleByID ([Call.insert "MATCH,DIRECT" none, .reorder []].foldl call empty).bucket 1 =
        .error (.panic "makeslice: cap out of range") := by
  refine ⟨fun h => ?_, fun h => ?_, rfl⟩
  · exact absurd h.perm (by decide +kernel)
  · exact absurd h.nodup (by decide +kernel)

end RuleStore
