import Phaethon.Common.NetIp

/-!
# Networks

`net.IPNet` as the result of `net.ParseCIDR`: which IPv4 addresses it contains, and the bits that decide that. A
network that is written as an IPv4-mapped IPv6 address has four bytes for its address, but sixteen for its mask.
-/

namespace NetIp

open List BitVec Ipv4 IPNet

open Ipv4 (Addr)

/-- The length of the mask: the first result of `Mask.Size()`. -/
def IPNet.len : IPNet → ℕ
  | .v4 _ len => len
  | .v6 _ len => len

/-- The network is written as an IPv4-mapped IPv6 address. -/
def IPNet.Mapped : IPNet → Prop
  | .v4 _ _ => False
  | .v6 a _ => a.extractLsb' 32 96 = 0xffff

instance : DecidablePred Mapped
  | .v4 _ _ => inferInstanceAs (Decidable False)
  | .v6 a _ => inferInstanceAs (Decidable (a.extractLsb' 32 96 = 0xffff))

/-- `IP.To4()` of the address. -/
def IPNet.to4 : IPNet → Option Addr
  | .v4 a _ => some a
  | .v6 a _ => if a.extractLsb' 32 96 = 0xffff then some (a.extractLsb' 0 32) else none

variable {len : ℕ} {a : BitVec 128}

theorem IPNet.to4_of_mapped (h : (v6 a len).Mapped) : (v6 a len).to4 = some (a.extractLsb' 0 32) :=
  if_pos h

theorem IPNet.to4_of_not_mapped (h : ¬ (v6 a len).Mapped) : (v6 a len).to4 = none :=
  if_neg h

/-- `(*IPNet).Contains` for an IPv4 address: of a mask of sixteen bytes the last four count. -/
def IPNet.Contains : IPNet → Addr → Prop
  | .v4 a len, dst => network dst len = network a len
  | .v6 a len, dst => a.extractLsb' 32 96 = 0xffff ∧
      network dst (len - 96) = network (a.extractLsb' 0 32) (len - 96)

instance (n : IPNet) (dst : Addr) : Decidable (n.Contains dst) :=
  match n with
  | .v4 _ _ => inferInstanceAs (Decidable (_ = _))
  | .v6 _ _ => inferInstanceAs (Decidable (_ ∧ _))

/-- The mask fits, and there are no host bits. -/
def IPNet.Formed : IPNet → Prop
  | .v4 a len => len ≤ 32 ∧ network a len = a
  | .v6 a len => len ≤ 128 ∧ a &&& (allOnes 128 <<< (128 - len)) = a

theorem formed_of_parseCIDR {s : String} {n : IPNet} (h : parseCIDR s = some n) : n.Formed := by
  simp only [parseCIDR, Option.bind_eq_bind, Option.bind_eq_some_iff] at h
  obtain ⟨⟨addr, digits⟩, _, ip, _, len, _, h⟩ := h
  cases ip with
  | v4 a =>
    simp only at h
    split at h
    case isTrue hlen =>
        cases h
        refine ⟨hlen, ?_⟩
        rw [network, BitVec.and_assoc, BitVec.and_self]
    case isFalse => cases h
  | v6 a =>
    simp only at h
    split at h
    case isTrue hlen =>
        cases h
        refine ⟨hlen, ?_⟩
        rw [BitVec.and_assoc, BitVec.and_self]
    case isFalse => cases h

/-- The mask of a mapped network covers the ninety-six bits in front of the IPv4 address. -/
theorem IPNet.Mapped.len_le (h : (v6 a len).Mapped) (hformed : (v6 a len).Formed) : 96 ≤ len := by
  by_contra hlt
  have hbit : a.getLsbD 32 = true := by
    have := congrArg (·.getLsbD 0) h
    simpa using this
  rw [← hformed.2, getLsbD_and, getLsbD_shiftLeft] at hbit
  simp only [Bool.and_eq_true, decide_eq_true_eq, Bool.not_eq_true', decide_eq_false_iff_not] at hbit
  omega

/-! ## Bits -/

variable (a : Addr)

/-- The four bytes of an address. -/
def octets : List (BitVec 8) :=
  [a.extractLsb' 24 8, a.extractLsb' 16 8, a.extractLsb' 8 8, a.extractLsb' 0 8]

/-- The first bits of an address. -/
def bitsOf (n : ℕ) : List Bool := (List.range n).map a.getMsbD

theorem length_bitsOf (n : ℕ) : (bitsOf a n).length = n := by
  simp [bitsOf]

theorem bitsOf_succ (n : ℕ) : bitsOf a (n + 1) = bitsOf a n ++ [a.getMsbD n] := by
  rw [bitsOf, range_succ, map_append]
  rfl

theorem getMsbD_network (hlen : len ≤ 32) (i : ℕ) :
    (network a len).getMsbD i = (a.getMsbD i && decide (i < len)) := by
  rw [network, mask, getMsbD_and, getMsbD_shiftLeft, getMsbD_allOnes]
  congr 1
  rw [Bool.eq_iff_iff]
  simp only [decide_eq_true_eq]
  omega

/-- Two addresses share their first bits exactly if they share a subnet. -/
theorem bitsOf_prefix_iff {a dst : Addr} (hlen : len ≤ 32) :
    bitsOf a len <+: bitsOf dst 32 ↔ network dst len = network a len := by
  have htake : (bitsOf dst 32).take len = bitsOf dst len := by
    rw [bitsOf, ← map_take, take_range, Nat.min_eq_left hlen, bitsOf]
  rw [prefix_iff_eq_take, length_bitsOf, htake, bitsOf, bitsOf, map_inj_left]
  simp only [mem_range]
  constructor
  · intro h
    apply eq_of_getMsbD_eq
    intro i _
    rw [getMsbD_network dst hlen, getMsbD_network a hlen]
    by_cases hi : i < len
    · rw [h i hi]
    · simp [hi]
  · intro h i hi
    have hbit := congrArg (·.getMsbD i) h
    simp only [getMsbD_network _ hlen, hi, decide_true, Bool.and_true] at hbit
    exact hbit.symm

end NetIp
