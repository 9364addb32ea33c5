import Mathlib.Algebra.Group.Nat.Defs

/-!
# JSON texts

The grammar that `encoding/json` accepts, over bytes. Strings are kept as bytes of UTF-8; numbers are
checked and dropped, as none of the decoded records has a numeric field.
-/

namespace Json

/-- A JSON value. -/
inductive Value where
  | null
  | bool (b : Bool)
  | number
  | string (s : List UInt8)
  | array (items : List Value)
  | object (members : List (List UInt8 × Value))

/-- The UTF-8 bytes of a code point; surrogates become the replacement character. -/
def utf8 (n : ℕ) : List UInt8 :=
  let n := if 0xd800 ≤ n ∧ n < 0xe000 then 0xfffd else n
  let tail (k : ℕ) : UInt8 := (0x80 + n / 64 ^ k % 64).toUInt8
  if n < 0x80 then [n.toUInt8]
  else if n < 0x800 then [(0xc0 + n / 64).toUInt8, tail 0]
  else if n < 0x10000 then [(0xe0 + n / 4096).toUInt8, tail 1, tail 0]
  else [(0xf0 + n / 262144).toUInt8, tail 2, tail 1, tail 0]

/-- The bytes of a text. -/
def bytes (s : String) : List UInt8 :=
  s.toList.flatMap fun c => utf8 c.toNat

/-- Blank, tab, line feed and carriage return. -/
def isSpace (b : UInt8) : Bool :=
  b = 0x20 ∨ b = 0x09 ∨ b = 0x0a ∨ b = 0x0d

def skipSpace (s : List UInt8) : List UInt8 :=
  s.dropWhile isSpace

def isDigit (b : UInt8) : Bool :=
  0x30 ≤ b ∧ b ≤ 0x39

/-- The rest after an expected word. -/
def word (w : List UInt8) (s : List UInt8) : Option (List UInt8) :=
  if w.isPrefixOf s then some (s.drop w.length) else none

/-! ## Strings -/

def hexDigit (b : UInt8) : Option ℕ :=
  if isDigit b then some (b.toNat - 0x30)
  else if 0x61 ≤ b ∧ b ≤ 0x66 then some (b.toNat - 0x61 + 10)
  else if 0x41 ≤ b ∧ b ≤ 0x46 then some (b.toNat - 0x41 + 10)
  else none

/-- The code unit of four hexadecimal digits. -/
def codeUnit (a b c d : UInt8) : Option ℕ := do
  let a ← hexDigit a
  let b ← hexDigit b
  let c ← hexDigit c
  let d ← hexDigit d
  some (((a * 16 + b) * 16 + c) * 16 + d)

/-- The one-letter escapes. -/
def escape (b : UInt8) : Option UInt8 :=
  if b = 0x22 ∨ b = 0x5c ∨ b = 0x2f then some b
  else if b = 0x62 then some 0x08
  else if b = 0x66 then some 0x0c
  else if b = 0x6e then some 0x0a
  else if b = 0x72 then some 0x0d
  else if b = 0x74 then some 0x09
  else none

/-- The bytes in front of a string that is still to be read. -/
def emit (front : List UInt8) (s : Option (List UInt8 × List UInt8)) :
    Option (List UInt8 × List UInt8) :=
  s.map fun (text, rest) => (front ++ text, rest)

/-- The rest of a string literal after its opening quote, and what follows it. `high` is a high
surrogate that was read last and waits for its low one. -/
def stringTail (high : Option ℕ) : List UInt8 → Option (List UInt8 × List UInt8)
  | [] => none
  | 0x22 :: rest => some (high.elim [] utf8, rest)
  | 0x5c :: 0x75 :: a :: b :: c :: d :: rest =>
      match codeUnit a b c d with
      | none => none
      | some unit =>
          if 0xd800 ≤ unit ∧ unit < 0xdc00 then
            emit (high.elim [] utf8) (stringTail (some unit) rest)
          else
            match high with
            | some high =>
                if 0xdc00 ≤ unit ∧ unit < 0xe000 then
                  emit (utf8 (0x10000 + (high - 0xd800) * 1024 + (unit - 0xdc00)))
                    (stringTail none rest)
                else emit (utf8 high ++ utf8 unit) (stringTail none rest)
            | none => emit (utf8 unit) (stringTail none rest)
  | 0x5c :: b :: rest =>
      match escape b with
      | none => none
      | some c => emit (high.elim [] utf8 ++ [c]) (stringTail none rest)
  | b :: rest =>
      if b < 0x20 ∨ b = 0x5c then none
      else emit (high.elim [] utf8 ++ [b]) (stringTail none rest)

/-! ## Numbers -/

variable (s : List UInt8)

/-- One or more digits. -/
def someDigits : Option (List UInt8) :=
  if (s.head?.any isDigit) then some (s.dropWhile isDigit) else none

/-- The integer part: no leading zeros. -/
def integerPart : Option (List UInt8) :=
  match s with
  | 0x30 :: rest => some rest
  | rest => someDigits rest

def fractionPart : Option (List UInt8) :=
  match s with
  | 0x2e :: rest => someDigits rest
  | rest => some rest

def exponentPart : Option (List UInt8) :=
  match s with
  | e :: rest =>
      if e = 0x65 ∨ e = 0x45 then
        match rest with
        | sign :: digits => if sign = 0x2b ∨ sign = 0x2d then someDigits digits else someDigits rest
        | [] => none
      else some s
  | [] => some []

/-- The rest after a number. -/
def number : Option (List UInt8) := do
  let s ← integerPart (if s.head? = some 0x2d then s.tail else s)
  let s ← fractionPart s
  exponentPart s

/-! ## Values -/

mutual

/-- A value and what follows it, to a nesting depth of `fuel`. -/
def value (fuel : ℕ) (s : List UInt8) : Option (Value × List UInt8) :=
  match fuel with
  | 0 => none
  | fuel + 1 =>
      match skipSpace s with
      | 0x22 :: rest => (stringTail none rest).map fun (t, rest) => (.string t, rest)
      | 0x5b :: rest =>
          match skipSpace rest with
          | 0x5d :: rest => some (.array [], rest)
          | rest => (items fuel rest).map fun (vs, rest) => (.array vs, rest)
      | 0x7b :: rest =>
          match skipSpace rest with
          | 0x7d :: rest => some (.object [], rest)
          | rest => (members fuel rest).map fun (ms, rest) => (.object ms, rest)
      | rest =>
          (word (bytes "null") rest).map (fun r => (.null, r)) <|>
            (word (bytes "true") rest).map (fun r => (.bool true, r)) <|>
            (word (bytes "false") rest).map (fun r => (.bool false, r)) <|>
            (number rest).map fun r => (.number, r)

/-- The items of an array from the next one on. -/
def items (fuel : ℕ) (s : List UInt8) : Option (List Value × List UInt8) :=
  match fuel with
  | 0 => none
  | fuel + 1 => do
      let (v, rest) ← value fuel s
      match skipSpace rest with
      | 0x5d :: rest => some ([v], rest)
      | 0x2c :: rest => do
          let (vs, rest) ← items fuel rest
          some (v :: vs, rest)
      | _ => none

/-- The members of an object from the next one on. -/
def members (fuel : ℕ) (s : List UInt8) : Option (List (List UInt8 × Value) × List UInt8) :=
  match fuel with
  | 0 => none
  | fuel + 1 =>
      match skipSpace s with
      | 0x22 :: rest => do
          let (key, rest) ← stringTail none rest
          match skipSpace rest with
          | 0x3a :: rest => do
              let (v, rest) ← value fuel rest
              match skipSpace rest with
              | 0x7d :: rest => some ([(key, v)], rest)
              | 0x2c :: rest => do
                  let (ms, rest) ← members fuel rest
                  some ((key, v) :: ms, rest)
              | _ => none
          | _ => none
      | _ => none

end

/-- A whole text. Every level of the grammar takes a byte, so twice its length is depth enough. -/
def parse (s : List UInt8) : Option Value :=
  match value (2 * s.length + 2) s with
  | some (v, rest) => if skipSpace rest = [] then some v else none
  | none => none

/-- The bytes are a letter of ASCII and the same letter, or the same byte. -/
def sameFolded (a b : UInt8) : Bool :=
  let fold (c : UInt8) : UInt8 := if 0x41 ≤ c ∧ c ≤ 0x5a then c + 0x20 else c
  fold a = fold b

/-- The key names the field: exactly, or but for the case of letters. -/
def keyFolds (key field : List UInt8) : Bool :=
  key.length = field.length ∧ (key.zip field).all fun (a, b) => sameFolded a b

end Json
