import Mathlib.Algebra.Group.Nat.Defs
import Mathlib.Tactic.Common

/-!
# IPv4 addresses and prefixes

A prefix is a network address with zero host bits, so that two prefixes are the same network exactly when
they are equal.
-/

namespace Ipv4

open BitVec

/-- An IPv4 address. -/
abbrev Addr := BitVec 32

/-- The four bytes of an address, first byte first. -/
def bytes (a : Addr) : List ℕ :=
  [a.toNat / 2 ^ 24, a.toNat / 2 ^ 16 % 256, a.toNat / 2 ^ 8 % 256, a.toNat % 256]

/-- A network: the first `len` bits of `addr`. -/
structure Prefix where
  addr : Addr
  len : ℕ
  len_le : len ≤ 32
  host_zero : addr.toNat % 2 ^ (32 - len) = 0
  deriving DecidableEq

/-- The address lies in the network. -/
def Prefix.Contains (p : Prefix) (a : Addr) : Prop :=
  a.toNat / 2 ^ (32 - p.len) = p.addr.toNat / 2 ^ (32 - p.len)

instance (p : Prefix) (a : Addr) : Decidable (p.Contains a) := inferInstanceAs (Decidable (_ = _))

/-- Two networks of one length that share an address are the same. -/
theorem Prefix.eq_of_contains {p q : Prefix} {a : Addr} (hlen : p.len = q.len)
    (hp : p.Contains a) (hq : q.Contains a) : p = q := by
  obtain ⟨pa, pl, ple, pz⟩ := p
  obtain ⟨qa, ql, qle, qz⟩ := q
  subst hlen
  have hdiv : pa.toNat / 2 ^ (32 - pl) = qa.toNat / 2 ^ (32 - pl) := hp.symm.trans hq
  have haddr : pa = qa := by
    apply eq_of_toNat_eq
    rw [← Nat.div_add_mod pa.toNat (2 ^ (32 - pl)), ← Nat.div_add_mod qa.toNat (2 ^ (32 - pl)),
      hdiv, pz, qz]
  subst haddr
  rfl

/-! ## Subnets by mask -/

/-- `net.CIDRMask`: `len` ones. -/
def mask (len : ℕ) : Addr := allOnes 32 <<< (32 - len)

variable (a : Addr)

variable (len : ℕ)

/-- The first address of the subnet of `a`. -/
def network : Addr := a &&& mask len

/-- The last address of the subnet of `a`. -/
def broadcast : Addr := network a len ||| ~~~ mask len

theorem network_eq : network a len = a >>> (32 - len) <<< (32 - len) := by
  ext i hi
  simp only [network, mask, getElem_and, getElem_shiftLeft,
    getElem_ushiftRight, getElem_allOnes]
  by_cases h : i < 32 - len
  · simp [h]
  · rw [Nat.add_sub_cancel' (by omega), getLsbD_eq_getElem hi]
    simp [h]

theorem toNat_network : (network a len).toNat = a.toNat / 2 ^ (32 - len) * 2 ^ (32 - len) := by
  rw [network_eq, toNat_shiftLeft, toNat_ushiftRight, Nat.shiftRight_eq_div_pow,
    Nat.shiftLeft_eq]
  exact Nat.mod_eq_of_lt (Nat.lt_of_le_of_lt (Nat.div_mul_le_self _ _) a.isLt)

theorem not_mask : ~~~ mask len = BitVec.ofNat 32 (2 ^ (32 - len) - 1) := by
  apply BitVec.eq_of_getLsbD_eq
  intro i hi
  rw [getLsbD_not, mask, getLsbD_shiftLeft, getLsbD_ofNat,
    Nat.testBit_two_pow_sub_one, getLsbD_allOnes]
  by_cases h : i < 32 - len
  · simp [hi, h]
  · have hlt : i - (32 - len) < 32 := by omega
    simp [hi, h, hlt]

/-- The host bits of a subnet lie above its first address. -/
theorem toNat_broadcast (a : Addr) (len : ℕ) :
    (broadcast a len).toNat = (network a len).toNat + (2 ^ (32 - len) - 1) := by
  have hdisj : network a len &&& ~~~ mask len = 0#32 := by
    rw [network, BitVec.and_assoc, BitVec.and_not_self]
    exact BitVec.and_zero
  have hpow : 2 ^ (32 - len) ≤ 2 ^ 32 := Nat.pow_le_pow_right (by omega) (Nat.sub_le 32 len)
  rw [broadcast, ← add_eq_or_of_and_eq_zero _ _ hdisj,
    toNat_add_of_and_eq_zero hdisj, not_mask, toNat_ofNat,
    Nat.mod_eq_of_lt (by omega)]

theorem network_eq_iff_div {a b : Addr} {len : ℕ} :
    network a len = network b len ↔ a.toNat / 2 ^ (32 - len) = b.toNat / 2 ^ (32 - len) := by
  rw [← toNat_inj, toNat_network, toNat_network, Nat.mul_left_inj (Nat.ne_of_gt (Nat.two_pow_pos _))]

/-- A subnet is the range from its first to its last address. -/
theorem network_eq_network_iff {a b : Addr} {len : ℕ} :
    network a len = network b len ↔
      (network b len).toNat ≤ a.toNat ∧ a.toNat ≤ (broadcast b len).toNat := by
  have hpos : 0 < 2 ^ (32 - len) := Nat.two_pow_pos _
  rw [network_eq_iff_div, toNat_broadcast, toNat_network]
  rw [Nat.div_eq_iff hpos]
  omega

end Ipv4
