import Mathlib.Algebra.Order.BigOperators.Group.List
import Phaethon.P2P.Version
import Phaethon.Signing.Package

/-!
# Syncing packages from a peer

`syncFromPeer` of `src/admin/package.go`. The node merges the list of a peer with its own, wants the first three
entries of each platform and architecture, newest first, fetches those that it does not have, and deletes its own
packages that are not wanted. Three entries need not be three versions: the peer and the node may have the same one,
and `CompareVersions` has ties. And a package is stored under what is signed, not under what the list said.
What is deleted is outranked by three versions that are stored afterwards only if it is by the packages of the node
before and those that the peer serves (`retained_iff`).
-/

namespace PackageSync

open List Json

open P2P (Bytes Newer)
open Ranking

/-! ## Packages -/

/-- `db.PackageMeta`, as far as it is read. -/
structure PackageMeta where
  id : Bytes
  version : Bytes
  platform : Bytes
  arch : Bytes
  published : Bool
  deriving DecidableEq

/-- `pkgKey`. -/
def pkgKey (p : PackageMeta) : Bytes :=
  p.platform ++ bytes "/" ++ p.arch ++ bytes "@" ++ p.version

/-- `platformArch`. -/
def PackageMeta.platformArch (p : PackageMeta) : Bytes × Bytes := (p.platform, p.arch)

/-- The packages of a node: the entries of the database, in the order of `db.ListPackages`, and the ids for which there
is a `.pkg` file. The database has one entry for an id. -/
structure Store where
  packages : List PackageMeta
  files : List Bytes
  nodup : (packages.map (·.id)).Nodup

variable (s : Store)

/-- The packages that are there, with a file. -/
def Store.stored : List PackageMeta := s.packages.filter (·.id ∈ s.files)

/-- `listPackages`: entries without a file are dropped, also from the database. -/
def Store.listPackages (readable : Bool) : List PackageMeta × Store :=
  if readable then (s.stored, { s with packages := s.stored, nodup := s.nodup.sublist (filter_sublist.map _) })
  else ([], s)

/-- `os.Remove` of a `.pkg` file. -/
def Store.remove (id : Bytes) : Store := { s with files := s.files.filter (· ≠ id) }

/-- A source of random ids, which are not in use. -/
structure IdSource where
  run : List Bytes → Bytes
  fresh : ∀ used, run used ∉ used

/-- `saveExternalPackage`, when all can be written: the metadata is the signed one. -/
def Store.saveExternalPackage (ids : IdSource) (c : Signing.PkgContents) : Store where
  packages :=
    ⟨ids.run (s.packages.map (·.id)), c.metadata .version, c.metadata .platform, c.metadata .arch, true⟩ :: s.packages
  files := ids.run (s.packages.map (·.id)) :: s.files
  nodup := nodup_cons.mpr ⟨ids.fresh _, s.nodup⟩

/-! ## The sync -/

/-- An entry of the list of a peer, what comes when it is downloaded, and whether that can be stored. -/
structure Offer where
  package : PackageMeta
  download : Option Bytes
  writable : Bool

/-- What the node has to do with. -/
structure Env (δ : Type) where
  scheme : Signing.Scheme δ
  unzip : Bytes → Option (List Signing.File)
  sorter : Sorter fun p q : PackageMeta => decide (Newer p.version q.version)
  ids : IdSource
  readable : Bool
  removable : Bytes → Bool

/-- `packageRetention`. -/
def packageRetention : ℕ := 3

/-- The published entries of the peer, and those of the node. -/
def merged (offers : List Offer) (own : List PackageMeta) : List PackageMeta :=
  (offers.map (·.package)).filter (·.published) ++ own

/-- The variables of the loop that downloads. -/
structure Progress where
  store : Store
  localKeys : List Bytes
  success : Bool

variable {δ : Type} (e : Env δ)

variable (entries : List PackageMeta)

/-- The entries of one platform and architecture that come first. -/
def Env.leaders (g : Bytes × Bytes) : List PackageMeta :=
  (e.sorter.run (entries.filter (·.platformArch = g))).take packageRetention

/-- `targetKeys`. -/
def Env.targetKeys : List Bytes :=
  (entries.map (·.platformArch)).dedup.flatMap fun g => (e.leaders entries g).map pkgKey

/-- What a download gives: a package with a valid signature that could be stored. -/
def Env.served (o : Offer) : Option Signing.PkgContents :=
  match o.download with
  | none => none
  | some data =>
      match Signing.verifyPkgBytes e.scheme e.unzip data with
      | .error _ => none
      | .ok c => if o.writable then some c else none

/-- One round of the loop that downloads. -/
def Env.fetch (target : List Bytes) (st : Progress) (o : Offer) : Progress :=
  if pkgKey o.package ∉ target then st
  else if pkgKey o.package ∈ st.localKeys then st
  else
    match e.served o with
    | none => { st with success := false }
    | some c => ⟨st.store.saveExternalPackage e.ids c, pkgKey o.package :: st.localKeys, st.success⟩

/-- One round of the loop that deletes, with the keys that were kept so far. -/
def Env.retain (target : List Bytes) (st : Store × List Bytes) (p : PackageMeta) : Store × List Bytes :=
  if pkgKey p ∈ target ∧ pkgKey p ∉ st.2 then (st.1, pkgKey p :: st.2)
  else if e.removable p.id then (st.1.remove p.id, st.2)
  else st

/-- `syncFromPeer` once the list is there. -/
def Env.sync (s : Store) (offers : List Offer) : Store :=
  let (own, s) := s.listPackages e.readable
  let target := e.targetKeys (merged offers own)
  let st := offers.foldl (e.fetch target) ⟨s, own.map pkgKey, true⟩
  if st.success then (own.foldl (e.retain target) (st.store, [])).1 else st.store

/-- `syncFromPeer`: the answer is the list that was decoded, if there is one. It fails on an entry `null`, before
anything has changed. -/
def Env.syncFromPeer (s : Store) (answer : Option (List (Option Offer))) : Option Store :=
  match answer with
  | none => some s
  | some entries => (entries.mapM id).map (e.sync s)

/-! ## What is to hold -/

/-- The versions of one platform and architecture. -/
def versions (packages : List PackageMeta) (g : Bytes × Bytes) : Set Bytes :=
  {v | ∃ p ∈ packages, p.platformArch = g ∧ p.version = v}

/-- What was deleted is there in another copy, or there are three newer versions of its platform and architecture. -/
def Retained (s t : Store) : Prop :=
  ∀ p ∈ s.stored, p ∉ t.stored → p.version ∈ versions t.stored p.platformArch ∨
    Outranked Newer 3 (versions t.stored p.platformArch) p.version

/-- A key is that of one of the entries that come first. -/
def Env.Leading (entries : List PackageMeta) (key : Bytes) : Prop :=
  ∃ g, ∃ p ∈ e.leaders entries g, pkgKey p = key

variable (offers : List Offer)

variable (own : List PackageMeta)

/-- A package of the node that is not deleted: the first of its key, where that is leading, and one whose file cannot
be removed. -/
def Env.Stays (p : PackageMeta) : Prop :=
  p ∈ own ∧ (e.Leading (merged offers own) (pkgKey p) ∧ own.find? (pkgKey · = pkgKey p) = some p ∨
    e.removable p.id = false)

/-- An entry that the node downloads: the first of a leading key that it does not have. -/
def Env.Wanted (o : Offer) : Prop :=
  offers.find? (fun x => pkgKey x.package = pkgKey o.package) = some o ∧
    e.Leading (merged offers own) (pkgKey o.package) ∧ pkgKey o.package ∉ own.map pkgKey

/-- The versions of the packages that are not deleted. -/
def Env.stayingVersions (g : Bytes × Bytes) : Set Bytes :=
  {v | ∃ p, e.Stays offers own p ∧ p.platformArch = g ∧ p.version = v}

/-- The versions of the packages that the peer serves, as they are signed. -/
def Env.servedVersions (g : Bytes × Bytes) : Set Bytes :=
  {v | ∃ o c, e.Wanted offers own o ∧ e.served o = some c ∧ (c.metadata .platform, c.metadata .arch) = g ∧
    c.metadata .version = v}

/-- If the peer serves all that is wanted, each package of the node has a copy among those that stay and those that are
served, or three newer versions among those of the node and those that are served. -/
def Env.Covered : Prop :=
  (∀ o, e.Wanted offers own o → (e.served o).isSome) →
    ∀ p ∈ own, p.version ∈ e.stayingVersions offers own p.platformArch ∪ e.servedVersions offers own p.platformArch ∨
      Outranked Newer 3 (versions own p.platformArch ∪ e.servedVersions offers own p.platformArch) p.version

/-! ## The keys that are wanted -/

variable {e} {target keys kept : List Bytes} {s t : Store} {st : Progress} {offers : List Offer}
  {own added entries : List PackageMeta} {o x : Offer} {p q y : PackageMeta} {g : Bytes × Bytes} {key v : Bytes}

theorem mem_of_mem_leaders (h : p ∈ e.leaders entries g) : p ∈ entries ∧ p.platformArch = g := by
  have hrun := (e.sorter.perm _).mem_iff.mp (mem_of_mem_take h)
  simpa using hrun

theorem mem_targetKeys : key ∈ e.targetKeys entries ↔ e.Leading entries key := by
  simp only [Env.targetKeys, Env.Leading, mem_flatMap, mem_dedup, mem_map]
  constructor
  · rintro ⟨g, -, p, hp, hkey⟩
    exact ⟨g, p, hp, hkey⟩
  · rintro ⟨g, p, hp, hkey⟩
    exact ⟨g, ⟨p, mem_of_mem_leaders hp⟩, p, hp, hkey⟩

/-! ## The loop that downloads -/

/-- An entry that a loop from some keys on downloads, if all downloads succeed. -/
def Fetches (target keys : List Bytes) (offers : List Offer) (o : Offer) : Prop :=
  offers.find? (fun x => pkgKey x.package = pkgKey o.package) = some o ∧ pkgKey o.package ∈ target ∧
    pkgKey o.package ∉ keys

theorem fetches_cons_skip (h : pkgKey x.package ∉ target ∨ pkgKey x.package ∈ keys) :
    Fetches target keys (x :: offers) o ↔ Fetches target keys offers o := by
  unfold Fetches
  by_cases hkey : pkgKey x.package = pkgKey o.package
  · rw [hkey] at h
    exact iff_of_false (fun ⟨_, htarget, hnew⟩ => h.elim (· htarget) hnew)
      (fun ⟨_, htarget, hnew⟩ => h.elim (· htarget) hnew)
  · rw [find?_cons_of_neg (by simpa using hkey)]

theorem fetches_cons_take (htarget : pkgKey x.package ∈ target) (hnew : pkgKey x.package ∉ keys) :
    Fetches target keys (x :: offers) o ↔ o = x ∨ Fetches target (pkgKey x.package :: keys) offers o := by
  unfold Fetches
  by_cases hkey : pkgKey x.package = pkgKey o.package
  · rw [find?_cons_of_pos (by simpa using hkey)]
    constructor
    · rintro ⟨hsame, -⟩
      exact .inl (Option.some.inj hsame).symm
    · rintro (rfl | ⟨-, -, hother⟩)
      · exact ⟨rfl, htarget, hnew⟩
      · exact absurd (hkey ▸ mem_cons_self) hother
  · have hne : o ≠ x := fun h => hkey (by rw [h])
    rw [find?_cons_of_neg (by simpa using hkey)]
    simp [hne, Ne.symm hkey]

theorem fetch_skip (h : pkgKey x.package ∉ target ∨ pkgKey x.package ∈ st.localKeys) : e.fetch target st x = st := by
  unfold Env.fetch
  split
  · rfl
  · rw [if_pos (h.resolve_left ‹_›)]

theorem fetch_take (htarget : pkgKey x.package ∈ target) (hnew : pkgKey x.package ∉ st.localKeys) :
    e.fetch target st x = match e.served x with
      | none => { st with success := false }
      | some c => ⟨st.store.saveExternalPackage e.ids c, pkgKey x.package :: st.localKeys, st.success⟩ := by
  rw [Env.fetch, if_neg (not_not.mpr htarget), if_neg hnew]

/-- The loop succeeds if all that it downloads is served. -/
theorem foldl_fetch_success : (offers.foldl (e.fetch target) st).success = true ↔
    st.success = true ∧ ∀ o, Fetches target st.localKeys offers o → (e.served o).isSome := by
  induction offers generalizing st with
  | nil => simp [Fetches]
  | cons x offers ih =>
    rw [foldl_cons, ih]
    by_cases hskip : pkgKey x.package ∉ target ∨ pkgKey x.package ∈ st.localKeys
    · simp only [fetch_skip hskip, fetches_cons_skip hskip]
    · obtain ⟨htarget, hnew⟩ := not_or.mp hskip
      rw [not_not] at htarget
      simp only [fetch_take htarget hnew, fetches_cons_take htarget hnew, forall_eq_or_imp]
      cases e.served x <;> simp

/-- Packages were put before those that are there, and their files are there. -/
structure Extends (s t : Store) (added : List PackageMeta) : Prop where
  packages : t.packages = added ++ s.packages
  files : t.files = added.map (·.id) ++ s.files

theorem Extends.refl (s : Store) : Extends s s [] := ⟨rfl, rfl⟩

theorem Extends.fresh (h : Extends s t added) (hp : p ∈ added) (hq : q ∈ s.packages) : p.id ≠ q.id := by
  have hnodup := t.nodup
  rw [h.packages, map_append] at hnodup
  intro hid
  exact disjoint_of_nodup_append hnodup (mem_map_of_mem hp) (hid ▸ mem_map_of_mem hq)

theorem Extends.mem_stored (h : Extends s t added) : p ∈ t.stored ↔ p ∈ added ∨ p ∈ s.stored := by
  simp only [Store.stored, h.packages, h.files, mem_filter, mem_append, decide_eq_true_eq, mem_map]
  constructor
  · rintro ⟨hp | hp, hfile⟩
    · exact .inl hp
    · refine .inr ⟨hp, hfile.resolve_left ?_⟩
      rintro ⟨q, hq, hid⟩
      exact h.fresh hq hp hid
  · rintro (hp | ⟨hp, hfile⟩)
    · exact ⟨.inl hp, .inl ⟨p, hp, rfl⟩⟩
    · exact ⟨.inr hp, .inr hfile⟩

theorem mem_versions_append {l m : List PackageMeta} :
    v ∈ versions (l ++ m) g ↔ v ∈ versions l g ∨ v ∈ versions m g := by
  constructor
  · rintro ⟨p, hp, hrest⟩
    exact (mem_append.mp hp).imp (fun hp => ⟨p, hp, hrest⟩) fun hp => ⟨p, hp, hrest⟩
  · rintro (⟨p, hp, hrest⟩ | ⟨p, hp, hrest⟩)
    · exact ⟨p, mem_append_left m hp, hrest⟩
    · exact ⟨p, mem_append_right l hp, hrest⟩

/-- What the loop adds, and under which versions if it succeeds. -/
theorem foldl_fetch_store (e : Env δ) (target : List Bytes) (offers : List Offer) (st : Progress) :
    ∃ added, Extends st.store (offers.foldl (e.fetch target) st).store added ∧
      ((offers.foldl (e.fetch target) st).success = true → ∀ g v, v ∈ versions added g ↔
        ∃ o c, Fetches target st.localKeys offers o ∧ e.served o = some c ∧
          (c.metadata .platform, c.metadata .arch) = g ∧ c.metadata .version = v) := by
  induction offers generalizing st with
  | nil => exact ⟨[], .refl _, fun _ g v => by simp [versions, Fetches]⟩
  | cons x offers ih =>
    rw [foldl_cons]
    obtain ⟨added, hextends, hversions⟩ := ih (e.fetch target st x)
    by_cases hskip : pkgKey x.package ∉ target ∨ pkgKey x.package ∈ st.localKeys
    · rw [fetch_skip hskip] at hextends hversions ⊢
      simp only [fetches_cons_skip hskip]
      exact ⟨added, hextends, hversions⟩
    · obtain ⟨htarget, hnew⟩ := not_or.mp hskip
      rw [not_not] at htarget
      rw [fetch_take htarget hnew] at hextends hversions ⊢
      cases hserved : e.served x with
      | none =>
        simp only [hserved] at hextends hversions ⊢
        refine ⟨added, hextends, fun hsuccess => ?_⟩
        exact absurd (foldl_fetch_success.mp hsuccess).1 (by simp)
      | some c =>
        simp only [hserved] at hextends hversions ⊢
        refine ⟨added ++ [⟨e.ids.run (st.store.packages.map (·.id)), c.metadata .version, c.metadata .platform,
          c.metadata .arch, true⟩], ⟨?_, ?_⟩, fun hsuccess g v => ?_⟩
        · rw [hextends.packages, append_assoc]
          rfl
        · rw [hextends.files, map_append, append_assoc]
          rfl
        · rw [mem_versions_append, hversions hsuccess g v]
          simp only [fetches_cons_take htarget hnew]
          constructor
          · rintro (⟨o, c', hfetches, hrest⟩ | ⟨q, hq, hg, hv⟩)
            · exact ⟨o, c', .inr hfetches, hrest⟩
            · obtain rfl := mem_singleton.mp hq
              exact ⟨x, c, .inl rfl, hserved, hg, hv⟩
          · rintro ⟨o, c', rfl | hfetches, hc, hrest⟩
            · obtain rfl := Option.some.inj (hserved.symm.trans hc)
              exact .inr ⟨_, mem_singleton_self _, hrest⟩
            · exact .inl ⟨o, c', hfetches, hc, hrest⟩

/-! ## The loop that deletes -/

/-- A package that a loop from some kept keys on deletes. -/
def Drops (e : Env δ) (target kept : List Bytes) (own : List PackageMeta) (p : PackageMeta) : Prop :=
  p ∈ own ∧ ¬ (pkgKey p ∈ target ∧ pkgKey p ∉ kept ∧ own.find? (pkgKey · = pkgKey p) = some p) ∧
    e.removable p.id = true

theorem drops_cons_keep (hkey : pkgKey y ∈ target ∧ pkgKey y ∉ kept) (hy : y ∉ own) :
    Drops e target kept (y :: own) p ↔ Drops e target (pkgKey y :: kept) own p := by
  unfold Drops
  by_cases hp : p = y
  · subst hp
    refine iff_of_false (fun ⟨_, hnot, _⟩ => hnot ⟨hkey.1, hkey.2, ?_⟩) fun h => hy h.1
    exact find?_cons_of_pos (by simp)
  · by_cases hsame : pkgKey y = pkgKey p
    · simp [hp, Ne.symm hp, hsame]
    · rw [find?_cons_of_neg (by simpa using hsame)]
      simp [hp, Ne.symm hsame]

theorem drops_cons_drop (hkey : ¬ (pkgKey y ∈ target ∧ pkgKey y ∉ kept)) :
    Drops e target kept (y :: own) p ↔ p = y ∧ e.removable p.id = true ∨ Drops e target kept own p := by
  unfold Drops
  by_cases hsame : pkgKey y = pkgKey p
  · have hnot (h : Prop) : ¬ (pkgKey p ∈ target ∧ pkgKey p ∉ kept ∧ h) := fun hall =>
      hkey (hsame ▸ ⟨hall.1, hall.2.1⟩)
    simp only [hnot, not_false_eq_true, true_and, mem_cons, or_and_right]
  · have hp : p ≠ y := fun h => hsame (by rw [h])
    rw [find?_cons_of_neg (by simpa using hsame)]
    simp [hp]

/-- The loop changes no entries, and removes the files of what it deletes. -/
theorem foldl_retain (e : Env δ) (target : List Bytes) (hnodup : own.Nodup) (s : Store) (kept : List Bytes) :
    (own.foldl (e.retain target) (s, kept)).1.packages = s.packages ∧
      ∀ id, id ∈ (own.foldl (e.retain target) (s, kept)).1.files ↔
        id ∈ s.files ∧ ∀ p, Drops e target kept own p → p.id ≠ id := by
  induction own generalizing s kept with
  | nil => simp [Drops]
  | cons y own ih =>
    obtain ⟨hy, hnodup⟩ := nodup_cons.mp hnodup
    rw [foldl_cons, Env.retain]
    by_cases hkey : pkgKey y ∈ target ∧ pkgKey y ∉ kept
    · simp only [if_pos hkey, drops_cons_keep hkey hy]
      exact ih hnodup s (pkgKey y :: kept)
    · simp only [if_neg hkey, drops_cons_drop hkey]
      cases hremovable : e.removable y.id with
      | true =>
        obtain ⟨hpackages, hfiles⟩ := ih hnodup (s.remove y.id) kept
        refine ⟨hpackages, fun id => ?_⟩
        have hfirst : (∀ p, p = y ∧ e.removable p.id = true → p.id ≠ id) ↔ id ≠ y.id := by
          constructor
          · exact fun h => (h y ⟨rfl, hremovable⟩).symm
          · rintro h p ⟨rfl, -⟩
            exact h.symm
        rw [if_pos rfl, hfiles]
        simp only [Store.remove, mem_filter, decide_eq_true_eq, or_imp, forall_and, hfirst, and_assoc]
      | false =>
        obtain ⟨hpackages, hfiles⟩ := ih hnodup s kept
        refine ⟨hpackages, fun id => ?_⟩
        have hfirst : ∀ p, p = y ∧ e.removable p.id = true → p.id ≠ id := by
          rintro p ⟨rfl, hp⟩
          exact absurd (hremovable.symm.trans hp) (by simp)
        rw [if_neg (by simp), hfiles]
        simp only [or_imp, forall_and, and_iff_right hfirst]

/-! ## What is there afterwards -/

/-- Nothing is deleted if something that is wanted is not served. -/
theorem retained_of_extends (h : Extends s t added) : Retained s t :=
  fun _ hp hnot => absurd (h.mem_stored.mpr (.inr hp)) hnot

theorem listPackages_stored (s : Store) : (s.listPackages e.readable).2.stored = s.stored := by
  unfold Store.listPackages
  split
  · simp [Store.stored]
  · rfl

theorem nodup_stored (s : Store) : s.stored.Nodup := (Nodup.of_map _ s.nodup).filter _

/-- What is there after the loop that deletes. -/
theorem mem_stored_retain (h : Extends s t added) (hnodup : own.Nodup) (hown : own ⊆ s.packages) :
    p ∈ (own.foldl (e.retain target) (t, [])).1.stored ↔
      p ∈ added ∨ p ∈ s.stored ∧ ¬ Drops e target [] own p := by
  obtain ⟨hpackages, hfiles⟩ := foldl_retain e target hnodup t []
  have hmem : p ∈ (own.foldl (e.retain target) (t, [])).1.stored ↔
      p ∈ t.stored ∧ ∀ q, Drops e target [] own q → q.id ≠ p.id := by
    simp only [Store.stored, hpackages, mem_filter, decide_eq_true_eq, hfiles, and_assoc]
  rw [hmem, h.mem_stored]
  constructor
  · rintro ⟨hp | hp, hkept⟩
    · exact .inl hp
    · exact .inr ⟨hp, fun hdrops => hkept p hdrops rfl⟩
  · rintro (hp | ⟨hp, hkept⟩)
    · exact ⟨.inl hp, fun q hdrops => (h.fresh hp (hown hdrops.1)).symm⟩
    · refine ⟨.inr hp, fun q hdrops hid => hkept ?_⟩
      have hsame := inj_on_of_nodup_map s.nodup (hown hdrops.1) (mem_of_mem_filter hp) hid
      exact hsame ▸ hdrops

theorem stays_iff : e.Stays offers own p ↔ p ∈ own ∧ ¬ Drops e (e.targetKeys (merged offers own)) [] own p := by
  refine and_congr_right fun hp => ?_
  have hkept : ¬ Drops e (e.targetKeys (merged offers own)) [] own p ↔
      pkgKey p ∈ e.targetKeys (merged offers own) ∧ own.find? (pkgKey · = pkgKey p) = some p ∨
        e.removable p.id = false := by
    simp only [Drops, hp, true_and, not_mem_nil, not_false_eq_true, ← Bool.not_eq_true]
    rw [Classical.not_and_iff_not_or_not, Classical.not_not]
  rw [hkept, mem_targetKeys]

theorem fetches_iff : Fetches (e.targetKeys (merged offers own)) (own.map pkgKey) offers o ↔ e.Wanted offers own o := by
  unfold Fetches Env.Wanted
  rw [mem_targetKeys]

/-- The state when the download loop starts, and what that loop leaves behind. -/
theorem exists_fetched (e : Env δ) (s : Store) (offers : List Offer) (own : List PackageMeta) :
    ∃ st added, st = offers.foldl (e.fetch (e.targetKeys (merged offers own))) ⟨s, own.map pkgKey, true⟩ ∧
      Extends s st.store added ∧ (st.success = true ↔ ∀ o, e.Wanted offers own o → (e.served o).isSome) ∧
      (st.success = true → ∀ g, versions added g = e.servedVersions offers own g) := by
  obtain ⟨added, hextends, hversions⟩ :=
    foldl_fetch_store e (e.targetKeys (merged offers own)) offers ⟨s, own.map pkgKey, true⟩
  refine ⟨_, added, rfl, hextends, ?_, fun hsuccess g => Set.ext fun v => ?_⟩
  · simp only [foldl_fetch_success, fetches_iff, true_and]
  · rw [hversions hsuccess]
    simp only [fetches_iff]
    rfl

/-- The versions that are there after the loop that deletes. -/
theorem versions_retain (e : Env δ) (offers : List Offer) (h : Extends s t added) (hpackages : s.packages = s.stored)
    (g : Bytes × Bytes) :
    versions (s.stored.foldl (e.retain (e.targetKeys (merged offers s.stored))) (t, [])).1.stored g =
      e.stayingVersions offers s.stored g ∪ versions added g := by
  ext v
  have hmem (p : PackageMeta) :
      p ∈ (s.stored.foldl (e.retain (e.targetKeys (merged offers s.stored))) (t, [])).1.stored ↔
        p ∈ added ∨ e.Stays offers s.stored p := by
    rw [stays_iff]
    exact mem_stored_retain h (nodup_stored s) (hpackages ▸ Subset.refl _)
  constructor
  · rintro ⟨p, hp, hrest⟩
    exact ((hmem p).mp hp).symm.imp (fun hp => ⟨p, hp, hrest⟩) fun hp => ⟨p, hp, hrest⟩
  · rintro (⟨p, hp, hrest⟩ | ⟨p, hp, hrest⟩)
    · exact ⟨p, (hmem p).mpr (.inr hp), hrest⟩
    · exact ⟨p, (hmem p).mpr (.inl hp), hrest⟩

/-- The packages before and what is added decide, if all that is there afterwards is of these. -/
theorem retained_iff_of_versions {stays served : Bytes × Bytes → Set Bytes}
    (hstays : ∀ g, stays g ⊆ versions s.stored g) (hversions : ∀ g, versions t.stored g = stays g ∪ served g) :
    Retained s t ↔ ∀ p ∈ s.stored, p.version ∈ stays p.platformArch ∪ served p.platformArch ∨
      Outranked Newer 3 (versions s.stored p.platformArch ∪ served p.platformArch) p.version := by
  have hfinite (g : Bytes × Bytes) : (versions s.stored g).Finite :=
    ((finite_toSet s.stored).image (·.version)).subset fun v ⟨p, hp, _, hv⟩ => ⟨p, hp, hv⟩
  have hunion (g : Bytes × Bytes) : versions s.stored g ∪ versions t.stored g = versions s.stored g ∪ served g := by
    rw [hversions, ← Set.union_assoc, Set.union_eq_left.mpr (hstays g)]
  -- platform by platform
  have hgroups (above : Bytes × Bytes → Set Bytes) :
      (∀ p ∈ s.stored, p.version ∈ versions t.stored p.platformArch ∨
          Outranked Newer 3 (above p.platformArch) p.version) ↔
        ∀ g, ∀ v ∈ versions s.stored g, v ∈ versions t.stored g ∨ Outranked Newer 3 (above g) v := by
    constructor
    · rintro h g v ⟨p, hp, rfl, rfl⟩
      exact h p hp
    · exact fun h p hp => h _ _ ⟨p, hp, rfl, rfl⟩
  have hdeleted : Retained s t ↔ ∀ p ∈ s.stored, p.version ∈ versions t.stored p.platformArch ∨
      Outranked Newer 3 (versions t.stored p.platformArch) p.version := by
    refine forall₂_congr fun p _ => ⟨fun h => ?_, fun h _ => h⟩
    by_cases hp : p ∈ t.stored
    · exact .inl ⟨p, hp, rfl, rfl⟩
    · exact h hp
  rw [hdeleted, hgroups fun g => versions t.stored g]
  simp only [outranked_iff (hfinite _), hunion, ← hversions]
  exact (hgroups fun g => versions s.stored g ∪ served g).symm

/-- What is deleted is outranked by what is there afterwards if it is by what was there and what is served. -/
theorem retained_sync_iff (e : Env δ) (s : Store) (offers : List Offer) :
    Retained s (e.sync s offers) ↔ e.Covered offers (s.listPackages e.readable).1 := by
  obtain ⟨st, added, hst, hextends, hsuccess, hversions⟩ :=
    exists_fetched e (s.listPackages e.readable).2 offers (s.listPackages e.readable).1
  have hsync : e.sync s offers = if st.success then ((s.listPackages e.readable).1.foldl
      (e.retain (e.targetKeys (merged offers (s.listPackages e.readable).1))) (st.store, [])).1 else st.store := by
    rw [hst]
    rfl
  have hlisted : (s.listPackages e.readable).2.stored = s.stored := listPackages_stored s
  have hkept : Retained s st.store := by
    have hall := retained_of_extends hextends
    unfold Retained at hall
    rwa [hlisted] at hall
  rw [hsync]
  cases hreadable : e.readable with
  | false =>
    refine iff_of_true ?_ fun _ p hp => absurd hp not_mem_nil
    exact (ite_self st.store).symm ▸ hkept
  | true =>
    rw [hreadable] at hextends hsuccess hversions hlisted
    by_cases hserved : ∀ o, e.Wanted offers s.stored o → (e.served o).isSome
    · have hok : st.success = true := hsuccess.mpr hserved
      have hafter (g : Bytes × Bytes) := versions_retain e offers hextends hlisted.symm g
      have hstays (g : Bytes × Bytes) : e.stayingVersions offers s.stored g ⊆ versions s.stored g :=
        fun _ ⟨q, hq, hrest⟩ => ⟨q, hq.1, hrest⟩
      rw [if_pos hok]
      simp only [hlisted, hversions hok] at hafter
      exact (retained_iff_of_versions hstays hafter).trans ⟨fun h _ => h, fun h => h hserved⟩
    · have hfailed : ¬ st.success = true := fun h => hserved (hsuccess.mp h)
      rw [if_neg hfailed]
      exact iff_of_true hkept fun h => absurd h hserved

theorem mapM_id_eq_some {α : Type} {l : List (Option α)} {m : List α} : l.mapM id = some m ↔ l = m.map some := by
  induction l generalizing m with
  | nil => cases m <;> simp
  | cons a l ih =>
    cases a with
    | none => cases m <;> simp
    | some a => cases m <;> simp [Option.bind_eq_some_iff, ih, and_comm]

/-- A node that accepts no signature, and takes zeros for an id. -/
def plainEnv : Env Unit where
  scheme := ⟨fun _ => (), fun _ => [], fun _ _ => false⟩
  unzip _ := none
  sorter := .insertion
    (fun p q h => by
      simp only [decide_eq_true_eq, decide_eq_false_iff_not, P2P.newer_iff] at h ⊢
      exact h.not_gt)
    (fun p q r hpq hqr => by
      simp only [decide_eq_false_iff_not, P2P.newer_iff, not_lt] at hpq hqr ⊢
      exact hqr.trans hpq)
  ids := {
    run := fun used => List.replicate ((used.map List.length).sum + 1) 0
    fresh := fun used hmem => by
      have hle := le_sum_of_mem (mem_map_of_mem (f := List.length) hmem)
      rw [length_replicate] at hle
      omega }
  readable := true
  removable _ := true

/-- A package for `linux/amd64`. -/
def linux (id : UInt8) (version : String) : PackageMeta :=
  ⟨[id], bytes version, bytes "linux", bytes "amd64", true⟩

/-- A node with three versions. -/
def threeVersions : Store :=
  ⟨[linux 3 "v1.3", linux 2 "v1.2", linux 1 "v1.1"], [[1], [2], [3]], by decide +kernel⟩

end PackageSync
