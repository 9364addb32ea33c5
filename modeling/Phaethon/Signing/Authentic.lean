import Phaethon.Signing.Package

/-!
# What an accepted package says

An accepted package carries the bytes that the owner of the key signed. It need not carry them as the
owner did: nothing marks where the binary ends and `meta.json` begins, and a repeated `meta.json` is
decoded into the record of the earlier ones, which are not signed.
-/

namespace Signing

open Function List Option Extract

variable {δ : Type*} {S : Scheme δ} {signed : Bytes → Bytes → Prop}

/-- A signature is valid only for what `SignData` signed: `signed binary metaJSON` says that the owner
of the key called it with this pair. -/
def Unforgeable (S : Scheme δ) (signed : Bytes → Bytes → Prop) : Prop :=
  ∀ d s, S.verify d s = true → ∃ b m, signed b m ∧ digest S b m = d

/-- The data of a file, if it is one of that kind. -/
def piece (kind : Kind) (f : File) : Option Bytes :=
  match f.content with
  | .data b => if kindOf (Text.cleanPath f.name.toList) = some kind then some b else none
  | _ => none

/-- The data of the files of one kind, in the order of the archive. -/
def pieces (kind : Kind) (files : List File) : List Bytes :=
  files.filterMap (piece kind)

/-- The package has the binary and, for its raw `meta.json`, a text that were signed together, and the
record is what this text alone decodes to. -/
def Authentic (signed : Bytes → Bytes → Prop) (files : List File) (c : PkgContents) : Prop :=
  ∃ m, (pieces .metaJson files).getLast? = some m ∧ signed c.binary m ∧
    decodeMeta m = some c.metadata

/-- The archive cuts the signed bytes where the signer did: its binary is as long as the binary of a
signed pair that makes the same bytes. -/
def CutAsSigned (signed : Bytes → Bytes → Prop) (files : List File) : Prop :=
  ∃ b m binary raw, signed b m ∧ (pieces .binary files).getLast? = some binary ∧
    (pieces .metaJson files).getLast? = some raw ∧ b ++ m = binary ++ raw ∧
    b.length = binary.length

/-- What the `meta.json` files of the archive set. -/
def patches (files : List File) : List Patch :=
  (pieces .metaJson files).filterMap unmarshalMeta

/-- Where the last `meta.json` leaves a field out, the last of the earlier ones to set it, if any, sets
it to the empty text. -/
def NothingCarriedOver (files : List File) : Prop :=
  ∀ earlier last, patches files = earlier ++ [last] →
    ∀ f, last f = none → (earlier.filterMap (· f)).getLast?.getD [] = []

/-! ## The extraction loop -/

variable {f : File}

/-- What a round of the loop does: one kind of file is stored. -/
theorem add_eq_ok {st st' : Extract} (h : st.add f = .ok st') :
    ∃ kind b, (∀ k, piece k f = if k = kind then some b else none) ∧ st.store kind b = .ok st' := by
  unfold add at h
  dsimp only at h
  split at h
  · cases h
  · split at h
    · cases h
    · split at h
      case h_4 kind b hkind hdata =>
          refine ⟨kind, b, fun k => ?_, h⟩
          simp only [piece, hdata, hkind, Option.some.injEq, eq_comm (a := kind)]
      all_goals cases h

/-- The variables after the loop, in terms of the files. -/
structure Extracted (st : Extract) (files : List File) (st' : Extract) : Prop where
  binary : st'.binary = (pieces .binary files).getLast?.or st.binary
  metaRaw : st'.metaRaw = (pieces .metaJson files).getLast?.or st.metaRaw
  decoded : ∀ raw ∈ pieces .metaJson files, (unmarshalMeta raw).isSome
  metadata : st'.metadata = (patches files).foldl merge st.metadata

variable {files : List File} {b : Bytes}

theorem pieces_cons_self {kind : Kind} (h : ∀ k, piece k f = if k = kind then some b else none) :
    pieces kind (f :: files) = b :: pieces kind files := by
  rw [pieces, filterMap_cons, h kind, if_pos rfl]
  rfl

theorem pieces_cons_ne {kind k : Kind} (h : ∀ k, piece k f = if k = kind then some b else none) (hk : k ≠ kind) :
    pieces k (f :: files) = pieces k files := by
  rw [pieces, filterMap_cons, h k, if_neg hk]
  rfl

theorem getLast?_cons_or {α : Type*} (a : α) (l : List α) (old : Option α) :
    (a :: l).getLast?.or old = l.getLast?.or (some a) := by
  rw [getLast?_cons]
  cases l.getLast? <;> rfl

theorem extracted_of_foldlM {st st' : Extract}
    (h : files.foldlM add st = .ok st') : Extracted st files st' := by
  induction files generalizing st with
  | nil =>
    obtain rfl : st = st' := by simpa [pure, Except.pure] using h
    exact ⟨rfl, rfl, fun _ hmem => absurd hmem not_mem_nil, rfl⟩
  | cons f files ih =>
    obtain ⟨mid, hadd, hrest⟩ : ∃ mid, st.add f = .ok mid ∧
        files.foldlM add mid = .ok st' := by
      rw [foldlM_cons] at h
      cases hadd : st.add f with
      | error e => simp [hadd, bind, Except.bind] at h
      | ok mid => exact ⟨mid, rfl, by simpa [hadd, bind, Except.bind] using h⟩
    obtain ⟨kind, b, hpiece, hstore⟩ := add_eq_ok hadd
    obtain ⟨hbinary, hraw, hdecoded, hmeta⟩ := ih hrest
    unfold store at hstore
    split at hstore
    · obtain rfl := Except.ok.inj hstore
      have hmetas : pieces .metaJson (f :: files) = pieces .metaJson files :=
        pieces_cons_ne hpiece (by decide)
      refine ⟨?_, hmetas ▸ hraw, hmetas ▸ hdecoded, ?_⟩
      · rw [hbinary, pieces_cons_self hpiece, getLast?_cons_or]
      · rw [hmeta, patches, patches, hmetas]
    · split at hstore
      case h_1 p hp =>
          obtain rfl := Except.ok.inj hstore
          have hbinaries : pieces .binary (f :: files) = pieces .binary files :=
            pieces_cons_ne hpiece (by decide)
          refine ⟨hbinaries ▸ hbinary, ?_, ?_, ?_⟩
          · rw [hraw, pieces_cons_self hpiece, getLast?_cons_or]
          · rw [pieces_cons_self hpiece]
            intro raw hmem
            rcases mem_cons.mp hmem with rfl | hmem
            · simp [hp]
            · exact hdecoded raw hmem
          · rw [hmeta, patches, patches, pieces_cons_self hpiece, filterMap_cons, hp,
              foldl_cons]
      case h_2 => cases hstore
    · split at hstore
      case h_1 =>
          obtain rfl := Except.ok.inj hstore
          have hbinaries : pieces .binary (f :: files) = pieces .binary files :=
            pieces_cons_ne hpiece (by decide)
          have hmetas : pieces .metaJson (f :: files) = pieces .metaJson files :=
            pieces_cons_ne hpiece (by decide)
          refine ⟨hbinaries ▸ hbinary, hmetas ▸ hraw, hmetas ▸ hdecoded, ?_⟩
          rw [hmeta, patches, patches, hmetas]
      case h_2 => cases hstore

/-! ## Acceptance -/

/-- What acceptance says about the files. -/
structure Accepted (S : Scheme δ) (files : List File) (c : PkgContents) (raw : Bytes) : Prop where
  binary : (pieces .binary files).getLast? = some c.binary
  metaRaw : (pieces .metaJson files).getLast? = some raw
  decoded : ∀ m ∈ pieces .metaJson files, (unmarshalMeta m).isSome
  metadata : c.metadata = (patches files).foldl merge .zero
  verified : S.verify (digest S c.binary raw) c.signature = true

theorem accepted_of_verifyFiles {c : PkgContents}
    (h : verifyFiles S (some files) = .ok c) : ∃ raw, Accepted S files c raw := by
  unfold verifyFiles at h
  dsimp only at h
  split at h
  case h_1 st hst =>
      obtain ⟨hbinary, hraw, hdecoded, hmeta⟩ := extracted_of_foldlM hst
      rw [start, or_none] at hbinary hraw
      unfold finish at h
      split at h
      case h_4 binary raw signature hb hr hs =>
          split at h
          case isTrue hv =>
              obtain rfl := Except.ok.inj h
              exact ⟨raw, hbinary ▸ hb, hraw ▸ hr, hdecoded, hmeta, hv⟩
          case isFalse => cases h
      all_goals cases h
  case h_2 => cases h

theorem foldl_merge (ps : List Patch) (m : PackageMeta) (f : Field) :
    ps.foldl merge m f = (ps.filterMap (· f)).getLast?.getD (m f) := by
  induction ps generalizing m with
  | nil => rfl
  | cons p ps ih =>
    rw [foldl_cons, ih, filterMap_cons]
    cases hp : p f with
    | none => simp [merge, hp]
    | some b =>
      rw [getLast?_cons]
      cases (ps.filterMap (· f)).getLast? <;> simp [merge, hp]

/-- The record of an accepted package is that of the last `meta.json` exactly if the others leave
nothing in it. -/
theorem decodeMeta_iff {c : PkgContents} {raw : Bytes}
    (h : Accepted S files c raw) : decodeMeta raw = some c.metadata ↔ NothingCarriedOver files := by
  obtain ⟨before, hsplit⟩ := getLast?_eq_some_iff.mp h.metaRaw
  obtain ⟨last, hlast⟩ := isSome_iff_exists.mp
    (h.decoded raw (hsplit ▸ mem_append_right before (mem_singleton_self raw)))
  have hpatches : patches files = before.filterMap unmarshalMeta ++ [last] := by
    rw [patches, hsplit, filterMap_append]
    simp [hlast]
  have hdecode : decodeMeta raw = some (merge .zero last) := by rw [decodeMeta, hlast]; rfl
  have hmeta : c.metadata = merge ((before.filterMap unmarshalMeta).foldl merge .zero) last := by
    rw [h.metadata, hpatches, foldl_append]
    rfl
  rw [hdecode, hmeta, Option.some.injEq]
  constructor
  · intro heq earlier last' hsplit' f hnone
    obtain ⟨rfl, hsame⟩ := append_inj' (hpatches.symm.trans hsplit') rfl
    obtain rfl : last = last' := head_eq_of_cons_eq hsame
    have hf := congrFun heq f
    simpa [merge, hnone, foldl_merge, PackageMeta.zero] using hf.symm
  · intro hempty
    funext f
    cases hf : last f with
    | some b => simp [merge, hf]
    | none =>
      have hold := (foldl_merge _ .zero f).trans (hempty _ last hpatches f hf)
      simp only [merge, hf, getD_none, hold]
      rfl

/-- The binary of the release that was signed; it ends in a line feed. -/
def releaseBinary : Bytes := [0x7f, 0x0a]

/-- The metadata of the release that was signed. -/
def releaseMeta : Bytes := Json.bytes "\x7b\"version\":\"1.0.0\"\x7d"

/-- The owner signed one release. -/
def releaseSigned (b m : Bytes) : Prop := b = releaseBinary ∧ m = releaseMeta

/-- A scheme in which that release has the one valid signature. -/
def releaseScheme : Scheme Bytes where
  hash := id
  sign _ := [0]
  verify d s := d = releaseBinary ++ releaseMeta ∧ s = [0]

theorem releaseScheme_unforgeable : Unforgeable releaseScheme releaseSigned := by
  intro d s h
  simp only [releaseScheme, Bool.decide_and, Bool.and_eq_true, decide_eq_true_eq] at h
  exact ⟨releaseBinary, releaseMeta, ⟨rfl, rfl⟩, h.1.symm⟩

/-- The signature of the release, as an archived file. -/
def releaseSignature : File := ⟨"signature", .data (Json.bytes "AA==")⟩

/-- The release behind an unsigned `meta.json` with a build tag. -/
def overlaidFiles : List File :=
  [⟨"meta.json", .data (Json.bytes "\x7b\"buildTag\":\"nightly\"\x7d")⟩,
    ⟨"binary", .data releaseBinary⟩, ⟨"meta.json", .data releaseMeta⟩, releaseSignature]

/-- The release with the line feed moved from the binary to `meta.json`. -/
def shiftedFiles : List File :=
  [⟨"binary", .data [0x7f]⟩, ⟨"meta.json", .data (0x0a :: releaseMeta)⟩, releaseSignature]

/-- The release as it was signed. -/
def releaseFiles : List File :=
  [⟨"binary", .data releaseBinary⟩, ⟨"meta.json", .data releaseMeta⟩, releaseSignature]

/-- The binary and the build tag of what is accepted. -/
def acceptedTag (files : List File) : Option (Bytes × Bytes) :=
  (verifyFiles releaseScheme (some files)).toOption.map fun c => (c.binary, c.metadata .buildTag)

theorem exists_of_acceptedTag {t : Bytes} (h : acceptedTag files = some (b, t)) :
    ∃ c, verifyPkgBytes releaseScheme (fun _ => some files) [] = .ok c ∧ c.binary = b ∧
      c.metadata .buildTag = t := by
  unfold acceptedTag at h
  cases hv : verifyFiles releaseScheme (some files) with
  | error e => simp [hv, Except.toOption] at h
  | ok c =>
    simp only [hv, Except.toOption, map_some, Option.some.injEq, Prod.mk.injEq] at h
    exact ⟨c, hv, h⟩

end Signing
