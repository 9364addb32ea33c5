import Phaethon.Common.Utf8
import Phaethon.Mesh.NodeTrie

/-!
# Egress selection

`selectEgressNodeID` and `selectEgressNodeIDForDomain` of `src/mesh/mesh.go`: a static entry comes before a dynamic
one, the node that was selected before stays selected, and a hash of the destination selects one for the first time.
The hash is an `int64` that wraps, and the least one has no absolute value (`select_safe_iff`). An index out of range
is `none`; a string is the list of its bytes.
-/

namespace Utf8

/-- The code point of a character of some width. -/
def codePoint (width : ℕ) : List UInt8 → ℕ
  | [] => 0
  | a :: rest =>
      (rest.take (width - 1)).foldl (fun c b => c * 64 + b.toNat % 64)
        (if width = 1 then a.toNat else a.toNat % 2 ^ (7 - width))

/-- What `range` gives for a string, after the `owed` bytes of a character. -/
def runesFrom : ℕ → List UInt8 → List ℕ
  | _, [] => []
  | owed + 1, _ :: rest => runesFrom owed rest
  | 0, b :: rest =>
      match width (b :: rest) with
      | some n => codePoint n (b :: rest) :: runesFrom (n - 1) rest
      | none => 0xfffd :: runesFrom 0 rest

end Utf8

namespace Egress

open DomainTrie List

/-- `stickyCache`. -/
abbrev StickyCache := List UInt8 → Option (List UInt8)

/-- `sort.SliceStable`: static entries first. -/
def staticFirst (entries : List RouteEntry) : List RouteEntry :=
  entries.filter (·.source = .static) ++ entries.filter (·.source = .dynamic)

/-- The hash of a destination, in `int64`. -/
def hash (cs : List ℕ) : ℤ :=
  cs.foldl (fun (hash : ℤ) (c : ℕ) => ((hash * 31).bmod (2 ^ 64) + c).bmod (2 ^ 64)) 0

/-- The index that the hash gives in a list of some length. -/
def index (cs : List ℕ) (n : ℕ) : ℤ :=
  let hash := hash cs
  (if hash < 0 then (-hash).bmod (2 ^ 64) else hash).tmod n

/-- The last part of both functions: the cached node if it is available, or else the one of the hash. -/
def pick (key : List UInt8) (cs : List ℕ) (available : List RouteEntry) (sticky : StickyCache) :
    Option (List UInt8 × StickyCache) :=
  match (sticky key).filter fun cached => available.any (·.nodeID = cached) with
  | some cached => some (cached, sticky)
  | none =>
      let idx := index cs available.length
      if idx < 0 then none
      else available[idx.toNat]?.map fun e => (e.nodeID, Function.update sticky key (some e.nodeID))

/-- `(*MeshManager).selectEgressNodeID`; `text` is `(IP).String`. -/
def selectEgressNodeID (nodeID : List UInt8) (text : List UInt8 → List UInt8) (targetIP : List UInt8)
    (entries : List RouteEntry) (sticky : StickyCache) : Option (List UInt8 × StickyCache) :=
  if entries = [] then some ([], sticky)
  else
    let available := (staticFirst entries).filter (·.nodeID ≠ nodeID)
    if available = [] then some ([], sticky)
    else pick (text targetIP) (targetIP.map (·.toNat)) available sticky

/-- `(*MeshManager).selectEgressNodeIDForDomain`. -/
def selectEgressNodeIDForDomain (nodeID domain : List UInt8) (entries : List RouteEntry) (sticky : StickyCache) :
    Option (List UInt8 × StickyCache) :=
  if entries = [] then some ([], sticky)
  else
    let available := entries.filter (·.nodeID ≠ nodeID)
    if available = [] then some ([], sticky)
    else pick domain (Utf8.runesFrom 0 domain) (staticFirst available) sticky

/-- What an egress is selected for. -/
inductive Target where
  | ip (targetIP : List UInt8)
  | domain (name : List UInt8)

def Target.key (text : List UInt8 → List UInt8) : Target → List UInt8
  | .ip targetIP => text targetIP
  | .domain name => name

/-- The numbers that are hashed. -/
def Target.numbers : Target → List ℕ
  | .ip targetIP => targetIP.map (·.toNat)
  | .domain name => Utf8.runesFrom 0 name

def Target.select (nodeID : List UInt8) (text : List UInt8 → List UInt8) :
    Target → List RouteEntry → StickyCache → Option (List UInt8 × StickyCache)
  | .ip targetIP => selectEgressNodeID nodeID text targetIP
  | .domain name => selectEgressNodeIDForDomain nodeID name

/-- The node is a candidate other than the local one. -/
def Candidate (nodeID : List UInt8) (entries : List RouteEntry) (node : List UInt8) : Prop :=
  (∃ e ∈ entries, e.nodeID = node) ∧ node ≠ nodeID

variable (cs : List ℕ)

/-- The destination as a number to the base 31. -/
def value : ℕ := cs.foldl (fun v c => v * 31 + c) 0

/-! ## The index -/

theorem hash_eq : hash cs = (value cs : ℤ).bmod (2 ^ 64) := by
  induction cs using reverseRecOn with
  | nil => rfl
  | append_singleton cs c ih =>
    have hhash : hash (cs ++ [c]) = ((hash cs * 31).bmod (2 ^ 64) + c).bmod (2 ^ 64) := by
      simp [hash, foldl_append]
    have hvalue : value (cs ++ [c]) = value cs * 31 + c := by
      simp [value, foldl_append]
    rw [hhash, hvalue, ih, Int.bmod_mul_bmod, Int.bmod_add_bmod, Int.natCast_add, Int.natCast_mul]
    rfl

/-- Only the least hash gives an index below zero. -/
theorem index_nonneg_iff (n : ℕ) : 0 ≤ index cs n ↔ value cs % 2 ^ 64 ≠ 2 ^ 63 ∨ n ∣ 2 ^ 63 := by
  have hrange : -2 ^ 63 ≤ hash cs ∧ hash cs < 2 ^ 63 ∧ (hash cs = -2 ^ 63 ↔ value cs % 2 ^ 64 = 2 ^ 63) := by
    rw [hash_eq, Int.bmod_def]
    split <;> omega
  by_cases hleast : value cs % 2 ^ 64 = 2 ^ 63
  · have hindex : index cs n = -(2 ^ 63 % n : ℕ) := by
      rw [index, hrange.2.2.mpr hleast]
      exact Int.neg_tmod (2 ^ 63) n
    omega
  · refine iff_of_true (Int.tmod_nonneg _ ?_) (.inl hleast)
    split
    · rw [Int.bmod_eq_of_le] <;> omega
    · omega

theorem index_lt {n : ℕ} (hn : 0 < n) : index cs n < n := Int.tmod_lt_of_pos _ (by omega)

/-! ## What is selected -/

variable (nodeID : List UInt8) (text : List UInt8 → List UInt8) (target : Target) (entries : List RouteEntry)
  (sticky : StickyCache)

/-- A candidate is returned, the cached one if it still is a candidate. -/
def Safe : Prop :=
  ∃ node cache, target.select nodeID text entries sticky = some (node, cache) ∧ Candidate nodeID entries node ∧
    ∀ cached, sticky (target.key text) = some cached → Candidate nodeID entries cached → node = cached

theorem staticFirst_perm : staticFirst entries ~ entries := by
  have hdynamic : (fun e : RouteEntry => decide (e.source = .dynamic)) = fun e => !decide (e.source = .static) := by
    funext e
    cases e.source <;> rfl
  rw [staticFirst, hdynamic]
  exact filter_append_perm _ _

/-- Both functions pick from the candidates. -/
theorem exists_select_eq_pick (h : entries.filter (·.nodeID ≠ nodeID) ≠ []) :
    ∃ available, available ~ entries.filter (·.nodeID ≠ nodeID) ∧
      target.select nodeID text entries sticky = pick (target.key text) target.numbers available sticky := by
  have hentries : entries ≠ [] := fun hnil => h (by rw [hnil]; rfl)
  cases target with
  | ip targetIP =>
    have hperm := (staticFirst_perm entries).filter (·.nodeID ≠ nodeID)
    refine ⟨_, hperm, ?_⟩
    rw [Target.select, selectEgressNodeID, if_neg hentries, if_neg fun hnil => h ((hnil ▸ hperm).symm.eq_nil)]
    rfl
  | domain name =>
    refine ⟨_, staticFirst_perm _, ?_⟩
    rw [Target.select, selectEgressNodeIDForDomain, if_neg hentries, if_neg h]
    rfl

/-- Without a cached candidate the hash decides. -/
theorem pick_hashed {key : List UInt8} (cs : List ℕ) {available : List RouteEntry} (hne : available ≠ [])
    (h : ∀ cached, sticky key = some cached → ∀ e ∈ available, e.nodeID ≠ cached) :
    if index cs available.length < 0 then pick key cs available sticky = none
    else ∃ e ∈ available, ∃ cache, pick key cs available sticky = some (e.nodeID, cache) := by
  have hnone : ((sticky key).filter fun cached => available.any (·.nodeID = cached)) = none := by
    simpa [Option.filter_eq_none_iff] using h
  have hlt := index_lt cs (length_pos_iff.mpr hne)
  unfold pick
  rw [hnone]
  split
  case isTrue hneg => exact if_pos hneg
  case isFalse hneg =>
    obtain ⟨e, he⟩ : ∃ e, available[(index cs available.length).toNat]? = some e :=
      ⟨_, getElem?_eq_getElem (by omega)⟩
    refine ⟨e, mem_of_getElem? he, Function.update sticky key (some e.nodeID), ?_⟩
    simp only [if_neg hneg, he, Option.map_some]

/-- Whatever the destination, a selector returns a candidate, the cached one if there is one, exactly if the destination
as a number to the base 31 is not 2⁶³ modulo 2⁶⁴, or the number of candidates is a power of two, or there is a cached
candidate. -/
theorem select_safe_iff (h : ∃ e ∈ entries, e.nodeID ≠ nodeID) :
    Safe nodeID text target entries sticky ↔
      value target.numbers % 2 ^ 64 ≠ 2 ^ 63 ∨ (entries.filter (·.nodeID ≠ nodeID)).length ∣ 2 ^ 63 ∨
        ∃ cached, sticky (target.key text) = some cached ∧ Candidate nodeID entries cached := by
  have hothers : entries.filter (·.nodeID ≠ nodeID) ≠ [] := by simpa using h
  obtain ⟨available, hperm, hselect⟩ := exists_select_eq_pick nodeID text target entries sticky hothers
  have hcandidate (node : List UInt8) : Candidate nodeID entries node ↔ ∃ e ∈ available, e.nodeID = node := by
    simp only [Candidate, hperm.mem_iff, mem_filter, decide_eq_true_eq]
    constructor
    · rintro ⟨⟨e, he, rfl⟩, hne⟩
      exact ⟨e, ⟨he, hne⟩, rfl⟩
    · rintro ⟨e, ⟨he, hne⟩, rfl⟩
      exact ⟨⟨e, he, rfl⟩, hne⟩
  simp only [Safe, hselect, hcandidate]
  by_cases hcached : ∃ cached, sticky (target.key text) = some cached ∧ ∃ e ∈ available, e.nodeID = cached
  · refine iff_of_true ?_ (.inr (.inr hcached))
    obtain ⟨cached, hsticky, e, he, rfl⟩ := hcached
    refine ⟨e.nodeID, sticky, ?_, ⟨e, he, rfl⟩, fun cached h _ => Option.some.inj (hsticky.symm.trans h)⟩
    have hkept : ((sticky (target.key text)).filter fun cached => available.any (·.nodeID = cached)) =
        some e.nodeID :=
      Option.filter_eq_some_iff.mpr ⟨hsticky, by simpa using ⟨e, he, rfl⟩⟩
    rw [pick, hkept]
  · have hne : available ≠ [] := fun hnil => hothers (hnil ▸ hperm).symm.eq_nil
    have hpick := pick_hashed sticky target.numbers hne fun cached hsticky e he hid => hcached ⟨cached, hsticky, e, he, hid⟩
    rw [← hperm.length_eq, ← or_assoc, or_iff_left hcached, ← index_nonneg_iff]
    split at hpick
    case isTrue hneg => exact iff_of_false (by simp [hpick]) (by omega)
    case isFalse hneg =>
      refine iff_of_true ?_ (by omega)
      obtain ⟨e, he, cache, hpick⟩ := hpick
      exact ⟨e.nodeID, cache, hpick, ⟨e, he, rfl⟩, fun cached hsticky hin => absurd ⟨cached, hsticky, hin⟩ hcached⟩

/-- Three nodes with static entries. -/
def three : List RouteEntry := [⟨[1], .static⟩, ⟨[2], .static⟩, ⟨[3], .static⟩]

/-- 198.51.100.7 has its egress among three nodes. -/
theorem select_safe_iff_address :
    (selectEgressNodeID [0] id [198, 51, 100, 7] three fun _ => none).map (·.1) = some [3] ∧
      Safe [0] id (.ip [198, 51, 100, 7]) three fun _ => none :=
  ⟨by decide +kernel, (select_safe_iff _ _ _ _ _ (by decide)).mpr (.inl (by decide +kernel))⟩

/-- The domain amdtspeogsswsm.com, whose hash is the least `int64`. -/
def unlucky : List UInt8 := "amdtspeogsswsm.com".toUTF8.toList

/-- No node of three is found for that domain: the index is -2. -/
theorem least_hash_has_no_node :
    index (Utf8.runesFrom 0 unlucky) 3 = -2 ∧
      (selectEgressNodeIDForDomain [0] unlucky three fun _ => none).map (·.1) = none :=
  ⟨by decide +kernel, by decide +kernel⟩

end Egress
