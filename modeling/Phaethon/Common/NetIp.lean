import Mathlib.Data.Set.Finite.Basic
import Phaethon.Common.Ipv4
import Phaethon.Common.Text

/-!
# Addresses and networks as text

`net.ParseIP`: dotted decimal IPv4 without leading zeros, and IPv6 with at most one `::` and possibly
an IPv4 tail. An IPv4-mapped IPv6 address is the IPv4 address, as it is for every user of `net.IP`.
`net.ParseCIDR`: an address, whose text decides how many bits it has, and the length of a mask.
-/

namespace NetIp

open List Text

/-- `net.IP`, of one of its two lengths. -/
inductive Ip where
  | v4 (a : Ipv4.Addr)
  | v6 (a : BitVec 128)
  deriving DecidableEq

/-- A decimal octet. -/
def parseOctet (s : List Char) : Option (BitVec 8) :=
  if s.length ≤ 3 ∧ (s.length ≤ 1 ∨ s.head? ≠ some '0') then
    (digits s).bind fun n => if n < 256 then some n else none
  else none

/-- Four decimal octets. -/
def parseIpv4 (s : List Char) : Option Ipv4.Addr :=
  match s.splitOn '.' with
  | [a, b, c, d] => do
      let a ← parseOctet a
      let b ← parseOctet b
      let c ← parseOctet c
      let d ← parseOctet d
      some (a ++ b ++ c ++ d)
  | _ => none

/-- The value of a hexadecimal digit. -/
def hexDigit (c : Char) : Option ℕ :=
  if c.isDigit then some (c.toNat - '0'.toNat)
  else if 'a' ≤ c ∧ c ≤ 'f' then some (c.toNat - 'a'.toNat + 10)
  else if 'A' ≤ c ∧ c ≤ 'F' then some (c.toNat - 'A'.toNat + 10)
  else none

/-- One to four hexadecimal digits. -/
def parseGroup (s : List Char) : Option (BitVec 16) :=
  if s = [] ∨ 4 < s.length then none
  else (s.mapM hexDigit).map fun ds => BitVec.ofNat 16 (ds.foldl (fun n d => 16 * n + d) 0)

/-- Groups between colons. The last field may be an IPv4 address, where `tail` allows it. -/
def parseGroups (tail : Bool) : List (List Char) → Option (List (BitVec 16))
  | [] => some []
  | [s] =>
      match parseGroup s with
      | some g => some [g]
      | none =>
          if tail then (parseIpv4 s).map fun a => [a.extractLsb' 16 16, a.extractLsb' 0 16] else none
  | s :: rest => do
      let g ← parseGroup s
      let gs ← parseGroups tail rest
      some (g :: gs)

/-- The fields of one side of a `::`, which may be empty. -/
def fields (s : List Char) : List (List Char) :=
  if s = [] then [] else s.splitOn ':'

/-- The text around the first `::`. -/
def cutEllipsis : List Char → Option (List Char × List Char)
  | ':' :: ':' :: rest => some ([], rest)
  | c :: rest => (cutEllipsis rest).map fun (before, after) => (c :: before, after)
  | [] => none

/-- The eight groups of an IPv6 address; a `::` stands for at least one of them. -/
def parseIpv6Groups (s : List Char) : Option (List (BitVec 16)) :=
  match cutEllipsis s with
  | none => (parseGroups true (fields s)).filter (·.length = 8)
  | some (before, after) => do
      let front ← parseGroups false (fields before)
      let back ← parseGroups true (fields after)
      if front.length + back.length < 8 then
        some (front ++ List.replicate (8 - front.length - back.length) 0 ++ back)
      else none

/-- An IPv6 address, as IPv4 where it is a mapped one. -/
def parseIpv6 (s : List Char) : Option Ip :=
  (parseIpv6Groups s).map fun gs =>
    let a : BitVec 128 := gs.foldl (fun a g => (a <<< 16) ||| g.setWidth 128) 0
    if a.extractLsb' 32 96 = 0xffff then .v4 (a.extractLsb' 0 32) else .v6 a

/-- `net.ParseIP`. -/
def parseIP (s : String) : Option Ip :=
  match (parseIpv4 s.toList).map Ip.v4 with
  | some ip => some ip
  | none => parseIpv6 s.toList

example : parseIP "10.0.0.255" = some (.v4 0x0a0000ff) := by decide +kernel
example : parseIP "::ffff:1.2.3.4" = some (.v4 0x01020304) := by decide +kernel
example : parseIP "2001:db8::1" = some (.v6 0x20010db8000000000000000000000001) := by decide +kernel
example : parseIP "1.2.3.04" = none := by decide +kernel

/-- `(net.IP).To4`: also of an IPv4-mapped IPv6 address. -/
def Ip.to4 : Ip → Option Ipv4.Addr
  | .v4 a => some a
  | .v6 a => if a.extractLsb' 32 96 = 0xffff then some (a.extractLsb' 0 32) else none

/-- An address with its IPv4-mapped form undone; `(net.IP).Equal` compares these. -/
def Ip.unmapped (ip : Ip) : Ip := (ip.to4.map Ip.v4).getD ip

/-- `net.SplitHostPort`: the host may stand in brackets, the port is behind the last colon. -/
def splitHostPort (s : List Char) : Option (List Char × List Char) := do
  let (tail, front) ← (cut ':' s.reverse).map fun (a, b) => (a.reverse, b.reverse)
  let (host, head, rest) ←
    match s with
    | '[' :: inner => do
        let (host, behind) ← cut ']' inner
        if behind = ':' :: tail then some (host, inner, behind) else none
    | _ => if ':' ∈ front then none else some (front, s, s)
  if '[' ∈ head ∨ ']' ∈ rest then none else some (host, tail)

example : splitHostPort "[fe80::1]:53".toList = some ("fe80::1".toList, "53".toList) := by decide +kernel
example : splitHostPort "a:b:53".toList = none := by decide +kernel

/-! ## Networks -/

/-- `netip.ParseAddr` without a zone. An IPv4-mapped address keeps its 128 bits. -/
def parseAddr (s : List Char) : Option Ip :=
  match parseIpv4 s with
  | some a => some (.v4 a)
  | none =>
      (parseIpv6Groups s).map fun gs => .v6 (gs.foldl (fun a g => (a <<< 16) ||| g.setWidth 128) 0)

/-- `net.IPNet`, with an address and a mask of four or of sixteen bytes. -/
inductive IPNet where
  | v4 (addr : Ipv4.Addr) (len : ℕ)
  | v6 (addr : BitVec 128) (len : ℕ)
  deriving DecidableEq

/-- `net.ParseCIDR`: the network, without host bits. -/
def parseCIDR (s : String) : Option IPNet := do
  let (addr, mask) ← cut '/' s.toList
  let ip ← parseAddr addr
  let len ← digits mask
  match ip with
  | .v4 a => if len ≤ 32 then some (.v4 (a &&& Ipv4.mask len) len) else none
  | .v6 a => if len ≤ 128 then some (.v6 (a &&& (BitVec.allOnes 128 <<< (128 - len))) len) else none

example : parseCIDR "10.1.2.3/8" = some (.v4 0x0a000000 8) := by decide +kernel
example : parseCIDR "10.0.0.0/008" = some (.v4 0x0a000000 8) := by decide +kernel
example : parseCIDR "::ffff:10.0.0.0/104" = some (.v6 0xffff0a000000 104) := by decide +kernel
example : parseCIDR "10.0.0.0/33" = none := by decide +kernel

/-- 10.0.0.0/8 with `k` leading zeros in its length. -/
def padded (k : ℕ) : String :=
  String.ofList (['1', '0', '.', '0', '.', '0', '.', '0', '/'] ++ (List.replicate k '0' ++ ['8']))

theorem padded_injective : Function.Injective padded := by
  intro k l h
  have hlist := String.ofList_injective h
  have hlength := congrArg List.length hlist
  simp only [length_append, length_replicate] at hlength
  omega

theorem digits_padded (k : ℕ) : digits (List.replicate k '0' ++ ['8']) = some 8 := by
  have hzeros : (List.replicate k '0').foldl (fun n c => 10 * n + (c.toNat - '0'.toNat)) 0 = 0 := by
    induction k with
    | zero => rfl
    | succ k ih => exact ih
  have hall : (List.replicate k '0' ++ ['8']).all Char.isDigit = true := by
    simp
  rw [digits, if_pos ⟨by simp, hall⟩, foldl_append, hzeros]
  rfl

theorem parseCIDR_padded (k : ℕ) : (parseCIDR (padded k)).isSome := by
  have hcut : cut '/' (padded k).toList =
      some (['1', '0', '.', '0', '.', '0', '.', '0'], List.replicate k '0' ++ ['8']) := by
    rw [padded, String.toList_ofList]
    rfl
  have haddr : parseAddr ['1', '0', '.', '0', '.', '0', '.', '0'] = some (.v4 0x0a000000) := by
    decide +kernel
  rw [parseCIDR, hcut]
  simp [haddr, digits_padded]

/-- There are as many networks as one likes. -/
theorem exists_parseCIDR_notMem (used : Finset String) : ∃ s ∉ used, (parseCIDR s).isSome := by
  obtain ⟨s, ⟨k, rfl⟩, hs⟩ :=
    (Set.infinite_range_of_injective padded_injective).exists_notMem_finset used
  exact ⟨padded k, hs, parseCIDR_padded k⟩

end NetIp
