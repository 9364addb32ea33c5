import Mathlib.Data.List.Infix
import Phaethon.Common.Json
import Phaethon.Common.Text

/-!
# Signed packages

`src/pkg/signing/signing.go`. A package is a zip archive with the files `binary`, `meta.json` and
`signature`; the signature is over the hash of the first two, one after the other. The archive format,
the hash and the signature scheme come from libraries and are parameters.
-/

namespace Signing

open Json

abbrev Bytes := List UInt8

/-! ## Base64 -/

/-- The value of a character of the standard alphabet. -/
def base64Digit (b : UInt8) : Option ℕ :=
  if 0x41 ≤ b ∧ b ≤ 0x5a then some (b.toNat - 0x41)
  else if 0x61 ≤ b ∧ b ≤ 0x7a then some (b.toNat - 0x61 + 26)
  else if 0x30 ≤ b ∧ b ≤ 0x39 then some (b.toNat - 0x30 + 52)
  else if b = 0x2b then some 62
  else if b = 0x2f then some 63
  else none

/-- Groups of four characters; only the last one may be padded. -/
def base64Groups : List UInt8 → Option Bytes
  | [] => some []
  | [a, b, 0x3d, 0x3d] => do
      let a ← base64Digit a
      let b ← base64Digit b
      some [(a * 4 + b / 16).toUInt8]
  | [a, b, c, 0x3d] => do
      let a ← base64Digit a
      let b ← base64Digit b
      let c ← base64Digit c
      some [(a * 4 + b / 16).toUInt8, (b * 16 + c / 4).toUInt8]
  | a :: b :: c :: d :: rest => do
      let a ← base64Digit a
      let b ← base64Digit b
      let c ← base64Digit c
      let d ← base64Digit d
      let tail ← base64Groups rest
      some ((a * 4 + b / 16).toUInt8 :: (b * 16 + c / 4).toUInt8 :: (c * 64 + d).toUInt8 :: tail)
  | _ => none

/-- `base64.StdEncoding.DecodeString`: line breaks are skipped. -/
def decodeBase64 (s : Bytes) : Option Bytes :=
  base64Groups (s.filter fun b => b ≠ 0x0a ∧ b ≠ 0x0d)

/-- `strings.TrimSpace`, of ASCII text. -/
def trimBytes (s : Bytes) : Bytes :=
  let blank (b : UInt8) : Bool := (0x09 ≤ b ∧ b ≤ 0x0d) ∨ b = 0x20
  ((s.dropWhile blank).reverse.dropWhile blank).reverse

/-! ## Metadata -/

/-- The fields of `PackageMeta`. -/
inductive Field where
  | version
  | platform
  | arch
  | buildTime
  | gitCommit
  | goVersion
  | buildTag
  deriving DecidableEq, Repr

def Field.all : List Field :=
  [.version, .platform, .arch, .buildTime, .gitCommit, .goVersion, .buildTag]

/-- The key of a field in `meta.json`. -/
def Field.key : Field → Bytes
  | .version => bytes "version"
  | .platform => bytes "platform"
  | .arch => bytes "arch"
  | .buildTime => bytes "buildTime"
  | .gitCommit => bytes "gitCommit"
  | .goVersion => bytes "goVersion"
  | .buildTag => bytes "buildTag"

/-- `PackageMeta`, by field. -/
abbrev PackageMeta := Field → Bytes

/-- What one `meta.json` sets. -/
abbrev Patch := Field → Option Bytes

/-- The record whose fields are all empty. -/
def PackageMeta.zero : PackageMeta := fun _ => []

/-- The record after the fields of a patch were set: the others keep their values. -/
def merge (m : PackageMeta) (p : Patch) : PackageMeta := fun f => (p f).getD (m f)

/-- The field that a key stands for. -/
def fieldOf (key : Bytes) : Option Field :=
  match Field.all.find? (·.key = key) with
  | some f => some f
  | none => Field.all.find? fun f => keyFolds key f.key

/-- A member sets a field to a string, or leaves it alone when it is `null`; other values do not fit. -/
def fits (member : Bytes × Value) : Bool :=
  match fieldOf member.1, member.2 with
  | none, _ => true
  | some _, .string _ => true
  | some _, .null => true
  | some _, _ => false

/-- The value that the members of an object give to a field, the last one for a repeated key. -/
def setBy (members : List (Bytes × Value)) : Patch := fun f =>
  members.foldl (fun old member =>
    match member.2 with
    | .string s => if fieldOf member.1 = some f then some s else old
    | _ => old) none

/-- `json.Unmarshal` into a `PackageMeta`, as what it sets. -/
def unmarshalMeta (data : Bytes) : Option Patch :=
  match parse data with
  | some .null => some fun _ => none
  | some (.object members) => if members.all fits then some (setBy members) else none
  | _ => none

/-- The record that one `meta.json` describes by itself. -/
def decodeMeta (data : Bytes) : Option PackageMeta :=
  (unmarshalMeta data).map (merge .zero)

/-! ## Archives -/

/-- What reading an archived file gives. -/
inductive Content where
  | unopened
  | unread
  | data (b : Bytes)

/-- An entry of an archive. -/
structure File where
  name : String
  content : Content

/-- The files that a package may have. -/
inductive Kind where
  | binary
  | metaJson
  | signature
  deriving DecidableEq, Repr

/-- The file that a cleaned path names. -/
def kindOf (path : List Char) : Option Kind :=
  if path = "binary".toList then some .binary
  else if path = "meta.json".toList then some .metaJson
  else if path = "signature".toList then some .signature
  else none

/-- The path leaves the directory. -/
def escapes (path : List Char) : Bool :=
  ['.', '.'].isPrefixOf path ∨ path.tails.any (['/', '.', '.'].isPrefixOf ·)

/-- The variables of the extraction loop. -/
structure Extract where
  binary : Option Bytes
  metaRaw : Option Bytes
  metadata : PackageMeta
  signature : Option Bytes

/-- The variables before the loop. -/
def Extract.start : Extract := ⟨none, none, .zero, none⟩

/-- The `switch` of the loop. A `meta.json` is decoded into the record of the ones before it. -/
def Extract.store (st : Extract) (kind : Kind) (data : Bytes) : Except String Extract :=
  match kind with
  | .binary => .ok { st with binary := some data }
  | .metaJson =>
      match unmarshalMeta data with
      | some p => .ok { st with metaRaw := some data, metadata := merge st.metadata p }
      | none => .error "parse meta.json"
  | .signature =>
      match decodeBase64 (trimBytes data) with
      | some s => .ok { st with signature := some s }
      | none => .error "decode signature"

/-- One round of the extraction loop. -/
def Extract.add (st : Extract) (f : File) : Except String Extract :=
  let path := Text.cleanPath f.name.toList
  if path.head? = some '/' then .error ("invalid path in pkg: " ++ f.name ++ " (absolute)")
  else if escapes path then .error ("invalid path in pkg: " ++ f.name ++ " (path traversal)")
  else
    match kindOf path, f.content with
    | none, _ => .error ("unexpected file in pkg: " ++ f.name)
    | some _, .unopened => .error ("open " ++ f.name)
    | some _, .unread => .error ("read " ++ f.name)
    | some kind, .data b => st.store kind b

/-! ## Signatures -/

/-- A hash, and a signature scheme for one pair of keys. -/
structure Scheme (δ : Type*) where
  hash : Bytes → δ
  sign : δ → Bytes
  verify : δ → Bytes → Bool

variable {δ : Type*}

variable (S : Scheme δ)

variable (binary metaJSON : Bytes)

/-- What is signed: the hash of the binary and, right behind it, the metadata. -/
def digest : δ :=
  S.hash (binary ++ metaJSON)

/-- `SignData`. -/
def signData : Bytes :=
  S.sign (digest S binary metaJSON)

/-- `PkgContents`. -/
structure PkgContents where
  binary : Bytes
  metadata : PackageMeta
  signature : Bytes

/-- The checks after the loop. -/
def Extract.finish (st : Extract) : Except String PkgContents :=
  match st.binary, st.metaRaw, st.signature with
  | none, _, _ => .error "missing binary in pkg"
  | some _, none, _ => .error "missing meta.json in pkg"
  | some _, some _, none => .error "missing signature in pkg"
  | some binary, some raw, some signature =>
      if S.verify (digest S binary raw) signature then .ok ⟨binary, st.metadata, signature⟩
      else .error "signature verification failed"

/-- The common body of `VerifyPkg` and `VerifyPkgBytes`: the files of the archive, or `none` if it is
not one. -/
def verifyFiles (files : Option (List File)) : Except String PkgContents :=
  match files with
  | none => .error "open pkg"
  | some files =>
      match files.foldlM Extract.add .start with
      | .ok st => st.finish S
      | .error e => .error e

variable (unzip : Bytes → Option (List File))

/-- `VerifyPkgBytes`; `unzip` is `zip.NewReader`. -/
def verifyPkgBytes (pkgData : Bytes) :
    Except String PkgContents :=
  verifyFiles S (unzip pkgData)

/-- `VerifyPkg`; `read` is the file system. -/
def verifyPkg (read : String → Option Bytes)
    (pkgPath : String) : Except String PkgContents :=
  verifyFiles S ((read pkgPath).bind unzip)

end Signing
