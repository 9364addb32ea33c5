import Phaethon.Mesh.FakeIpCycle

/-!
# Lookups in small and high subnets

`NewMeshManager` skips the ten first addresses of its subnet. In a subnet of eight or fewer, the first `Lookup` gives
away an address behind the subnet and the second one never returns, with the lock of the pool held. At the end of
255.255.255.255 the cursor goes on at 0.0.0.0. In every other subnet each `Lookup` returns within one pass
(`served_iff`).
-/

namespace FakeIp

open FakeIPPool Lts

open Ipv4 (Addr Prefix)

variable (subnet : Prefix)

/-- The pool of a mesh manager. -/
abbrev managed : FakeIPPool := newFakeIPPoolWithSubnet subnet 9

/-- The number of addresses. -/
abbrev size : ℕ := 2 ^ (32 - subnet.len)

/-- Whatever mappings are loaded and whatever domains were looked up: the next `Lookup` looks at each address of the
subnet at most once, and returns one of the subnet. -/
def Served : Prop :=
  ∀ stored p, (managed subnet).loadFromDB stored = some p → ∀ db domains domain,
    ∃ s s' ip, exec (fun s d => (Node.lookup (size subnet) s d).map (·.1)) ⟨p, db⟩ domains = some s ∧
      s.lookup (size subnet) domain = some (s', ip) ∧ subnet.Contains ip

/-! ## The subnet as a range -/

variable {subnet : Prefix} {p : FakeIPPool} {a : Addr}

theorem exists_addr_eq (subnet : Prefix) : ∃ k, subnet.addr.toNat = k * size subnet :=
  exists_eq_mul_left_of_dvd (Nat.dvd_of_mod_eq_zero subnet.host_zero)

theorem addr_add_size_le (subnet : Prefix) : subnet.addr.toNat + size subnet ≤ 2 ^ 32 := by
  have hsplit : 2 ^ 32 = 2 ^ subnet.len * size subnet := by
    rw [← Nat.pow_add, Nat.add_sub_cancel' subnet.len_le]
  obtain ⟨k, hk⟩ := exists_addr_eq subnet
  have hlt := subnet.addr.isLt
  rw [hk, hsplit] at hlt
  rw [hk, hsplit, ← Nat.succ_mul]
  exact Nat.mul_le_mul_right _ (Nat.succ_le_of_lt (Nat.lt_of_mul_lt_mul_right hlt))

theorem contains_iff :
    subnet.Contains a ↔ subnet.addr.toNat ≤ a.toNat ∧ a.toNat < subnet.addr.toNat + size subnet := by
  obtain ⟨k, hk⟩ := exists_addr_eq subnet
  have hpos : 0 < size subnet := Nat.two_pow_pos _
  have hdiv : a.toNat / size subnet = k ↔ k * size subnet ≤ a.toNat ∧ a.toNat < k * size subnet + size subnet := by
    rw [Nat.div_eq_iff hpos]
    omega
  rw [← hk] at hdiv
  rw [← hdiv, Prefix.Contains, hk, Nat.mul_div_cancel _ hpos]

theorem toNat_poolEnd (subnet : Prefix) :
    (managed subnet).poolEnd.toNat = subnet.addr.toNat + size subnet - 1 := by
  have hle := addr_add_size_le subnet
  have hpos : 0 < size subnet := Nat.two_pow_pos _
  have htotal : ((1 : Addr) <<< (32 - subnet.len)).toNat = size subnet % 2 ^ 32 := by
    rw [BitVec.toNat_shiftLeft, Nat.shiftLeft_eq]
    simp
  have hlast : (managed subnet).poolEnd = subnet.addr + (1 : Addr) <<< (32 - subnet.len) - 1 := rfl
  rw [hlast, BitVec.toNat_sub, BitVec.toNat_add, htotal, show (1 : Addr).toNat = 1 from rfl]
  omega

theorem toNat_nextIP (subnet : Prefix) : (managed subnet).nextIP.toNat = (subnet.addr.toNat + 10) % 2 ^ 32 := by
  rw [show (managed subnet).nextIP = subnet.addr + 10 from BitVec.add_assoc .., BitVec.toNat_add]
  rfl

theorem mem_reserved_iff : a ∈ (managed subnet).reserved ↔
    a.toNat = subnet.addr.toNat + size subnet - 1 ∨ (a.toNat + 2 ^ 32 - subnet.addr.toNat) % 2 ^ 32 ≤ 9 := by
  have hadd (i : ℕ) : (subnet.addr + BitVec.ofNat 32 i).toNat = (subnet.addr.toNat + i) % 2 ^ 32 := by
    rw [BitVec.toNat_add, BitVec.toNat_ofNat, Nat.add_mod_mod]
  have hmem : a ∈ (managed subnet).reserved ↔
      a = subnet.addr ∨ a = (managed subnet).poolEnd ∨ ∃ i < 10, subnet.addr + BitVec.ofNat 32 i = a := by
    simp [newFakeIPPoolWithSubnet]
  simp only [hmem, ← BitVec.toNat_inj, toNat_poolEnd, hadd]
  constructor
  · rintro (h | h | ⟨i, hi, h⟩)
    · omega
    · exact .inl h
    · omega
  · rintro (h | h)
    · exact .inr (.inl h)
    · exact .inr (.inr ⟨_, Nat.lt_succ_of_le h, by omega⟩)

/-! ## Lookups that return -/

/-- Ten addresses are skipped, one is left over, and the cursor comes back to the start. -/
structure Roomy (subnet : Prefix) : Prop where
  large : 16 ≤ size subnet
  wraps : subnet.len = 0 ∨ subnet.addr.toNat + size subnet < 2 ^ 32

/-- The pool is that of the subnet, and its cursor and all mappings are in the subnet. -/
structure Inside (subnet : Prefix) (p : FakeIPPool) : Prop where
  start : p.poolStart = subnet.addr
  last : p.poolEnd = (managed subnet).poolEnd
  reserved : p.reserved = (managed subnet).reserved
  cursor : subnet.Contains p.nextIP
  mapped : ∀ {d a}, p.domainToIP.lookup d = some a → subnet.Contains a

/-- The address behind one of the subnet, or the first one behind the last. -/
theorem Roomy.next (h : Roomy subnet) (ha : subnet.Contains a) :
    (if (managed subnet).poolEnd < a + 1 then subnet.addr else a + 1).toNat =
      if a.toNat = subnet.addr.toNat + size subnet - 1 then subnet.addr.toNat else a.toNat + 1 := by
  have hend := toNat_poolEnd subnet
  rw [contains_iff] at ha
  have hsucc : (a + 1).toNat = (a.toNat + 1) % 2 ^ 32 := by
    rfl
  have hpast : (managed subnet).poolEnd < a + 1 ↔
      subnet.addr.toNat + size subnet - 1 < (a.toNat + 1) % 2 ^ 32 := by
    rw [BitVec.lt_def, hsucc, hend]
  -- behind 255.255.255.255 comes 0.0.0.0, which is the first address of 0.0.0.0/0
  have hwraps : size subnet = 2 ^ 32 ∨ subnet.addr.toNat + size subnet < 2 ^ 32 :=
    h.wraps.imp_left fun hlen => by rw [size, hlen]
  simp only [hpast]
  split <;> split <;> omega

theorem Roomy.contains_next (h : Roomy subnet) (ha : subnet.Contains a) :
    subnet.Contains (if (managed subnet).poolEnd < a + 1 then subnet.addr else a + 1) := by
  have ha' := contains_iff.mp ha
  rw [contains_iff, h.next ha]
  split <;> omega

theorem Inside.load (h : Inside subnet p) (hroomy : Roomy subnet) {entry : FakeIPEntry} {q : FakeIPPool}
    (hload : p.load entry = some q) : Inside subnet q := by
  unfold FakeIPPool.load at hload
  split at hload
  case h_1 => exact Option.some.inj hload ▸ h
  case h_2 => cases hload
  case h_3 a _ =>
    split at hload <;> cases hload
    case isFalse => exact h
    case isTrue hin =>
      have hin : subnet.Contains a := by
        have hend := toNat_poolEnd subnet
        simp only [contains, h.start, h.last, Bool.and_eq_true, decide_eq_true_eq, BitVec.le_def] at hin
        rw [contains_iff]
        have := hroomy.large
        omega
      refine ⟨h.start, h.last, h.reserved, ?_, fun {d b} hd => ?_⟩
      · split
        · rw [h.start, h.last]
          exact hroomy.contains_next hin
        · exact h.cursor
      · by_cases hde : d = entry.domain
        · subst hde
          obtain rfl : a = b := by simpa using hd
          exact hin
        · exact h.mapped (by simpa [AList.lookup_insert_ne hde] using hd)

/-- How many more addresses are looked at before one is found that is not reserved. -/
def toPass (subnet : Prefix) (n : ℕ) : ℕ :=
  if n ≤ subnet.addr.toNat + 9 then subnet.addr.toNat + 10 - n
  else if n = subnet.addr.toNat + size subnet - 1 then 11
  else 0

theorem Inside.candidate (h : Inside subnet p) (hroomy : Roomy subnet) {fuel : ℕ}
    (hfuel : toPass subnet p.nextIP.toNat < fuel) :
    ∃ ip q, p.candidate fuel = some (ip, q) ∧ subnet.Contains ip ∧ Inside subnet q := by
  induction fuel generalizing p with
  | zero => omega
  | succ fuel ih =>
    have hlarge := hroomy.large
    have hnext : p.advance.nextIP = if (managed subnet).poolEnd < p.nextIP + 1 then subnet.addr else p.nextIP + 1 := by
      rw [← h.start, ← h.last]
      rfl
    have hadvance : Inside subnet p.advance :=
      ⟨h.start, h.last, h.reserved, hnext ▸ hroomy.contains_next h.cursor, h.mapped⟩
    unfold FakeIPPool.candidate
    by_cases hmem : p.nextIP ∈ p.reserved
    · rw [if_pos hmem]
      refine ih hadvance ?_
      rw [hnext, hroomy.next h.cursor]
      rw [h.reserved, mem_reserved_iff] at hmem
      unfold toPass at hfuel ⊢
      split_ifs at hfuel ⊢ <;> omega
    · rw [if_neg hmem]
      exact ⟨_, _, rfl, h.cursor, hadvance⟩

theorem Inside.lookup {s : Node} (h : Inside subnet s.pool) (hroomy : Roomy subnet) (d : Domain) :
    ∃ s' ip, s.lookup (size subnet) d = some (s', ip) ∧ subnet.Contains ip ∧ Inside subnet s'.pool := by
  unfold Node.lookup
  cases hd : s.pool.domainToIP.lookup d with
  | some ip => exact ⟨s, ip, rfl, h.mapped hd, h⟩
  | none =>
    have hfuel : toPass subnet s.pool.nextIP.toNat < size subnet := by
      have hlarge := hroomy.large
      have hcursor := contains_iff.mp h.cursor
      unfold toPass
      split_ifs <;> omega
    obtain ⟨ip, q, hq, hip, hinside⟩ := h.candidate hroomy hfuel
    rw [hq]
    refine ⟨_, ip, rfl, hip, hinside.start, hinside.last, hinside.reserved, hinside.cursor, fun {x b} hx => ?_⟩
    by_cases hxd : x = d
    · subst hxd
      obtain rfl : ip = b := by simpa using hx
      exact hip
    · rw [lookup_assign_domain d ip hxd] at hx
      split at hx
      · cases hx
      · exact hinside.mapped hx

theorem Roomy.served (h : Roomy subnet) : Served subnet := by
  intro stored p hload db domains domain
  have hnew : Inside subnet (managed subnet) := by
    refine ⟨rfl, rfl, rfl, ?_, by simp [newFakeIPPoolWithSubnet]⟩
    have hlarge := h.large
    have hle := addr_add_size_le subnet
    rw [contains_iff, toNat_nextIP]
    omega
  have hp : Inside subnet p := by
    unfold loadFromDB at hload
    generalize managed subnet = q at hnew hload
    generalize getAllFakeIPs stored = entries at hload
    induction entries generalizing q with
    | nil => exact Option.some.inj hload ▸ hnew
    | cons entry entries ih =>
      obtain ⟨r, hr, hload⟩ := Option.bind_eq_some_iff.mp hload
      exact ih r (hnew.load h hr) hload
  suffices hrun : ∀ s : Node, Inside subnet s.pool → ∃ t : Node,
      exec (fun s d => (Node.lookup (size subnet) s d).map (·.1)) s domains = some t ∧ Inside subnet t.pool by
    obtain ⟨t, ht, hinside⟩ := hrun ⟨p, db⟩ hp
    obtain ⟨t', ip, hlookup, hip, -⟩ := hinside.lookup h domain
    exact ⟨t, t', ip, ht, hlookup, hip⟩
  induction domains with
  | nil => exact fun s hs => ⟨s, rfl, hs⟩
  | cons d domains ih =>
    intro s hs
    obtain ⟨s', ip, hlookup, -, hs'⟩ := hs.lookup h d
    obtain ⟨t, ht, hinside⟩ := ih s' hs'
    exact ⟨t, exec_cons_eq_some.mpr ⟨s', by rw [hlookup]; rfl, ht⟩, hinside⟩

/-! ## Subnets where it fails -/

theorem candidate_of_free (h : p.nextIP ∉ p.reserved) {fuel : ℕ} (hfuel : 0 < fuel) :
    p.candidate fuel = some (p.nextIP, p.advance) := by
  obtain ⟨fuel, rfl⟩ := Nat.exists_eq_succ_of_ne_zero hfuel.ne'
  exact if_neg h

/-- A served subnet has the address that is found for a new domain. -/
theorem Served.contains (h : Served subnet) {stored : Bucket} (hload : (managed subnet).loadFromDB stored = some p)
    {d : Domain} (hd : p.domainToIP.lookup d = none) {q : FakeIPPool}
    (hfound : p.candidate (size subnet) = some (a, q)) : subnet.Contains a := by
  obtain ⟨s, s', ip, hs, hlookup, hip⟩ := h stored p hload none [] d
  cases hs
  rcases lookup_cases hlookup with ⟨hold, -⟩ | ⟨_, -, hcandidate, -⟩
  · cases hd.symm.trans hold
  · obtain ⟨rfl, -⟩ := Prod.mk.inj (Option.some.inj (hfound.symm.trans hcandidate))
    exact hip

/-- In a subnet that is too small, the first address lies behind it. -/
theorem len_le_of_served (h : Served subnet) : subnet.len ≤ 28 := by
  by_contra hlen
  have hsize : size subnet ≤ 2 ^ 3 := Nat.pow_le_pow_right (by decide) (by omega)
  have hpos : 0 < size subnet := Nat.two_pow_pos _
  have hnext := toNat_nextIP subnet
  have hfree : (managed subnet).nextIP ∉ (managed subnet).reserved := by
    rw [mem_reserved_iff, hnext]
    omega
  have hload : (managed subnet).loadFromDB ∅ = some (managed subnet) := rfl
  have hip := h.contains hload (d := []) rfl (candidate_of_free hfree hpos)
  rw [contains_iff, hnext] at hip
  omega

/-- A domain has the last address but one. -/
def high : Bucket := AList.insert (domainKey [0]) (.entry "255.255.255.254" [0]) ∅

/-- At the end of all addresses, the cursor leaves the subnet. -/
theorem wraps_of_served (h : Served subnet) (hlarge : 16 ≤ size subnet) :
    subnet.len = 0 ∨ subnet.addr.toNat + size subnet < 2 ^ 32 := by
  by_contra hout
  have hhalf : size subnet ≤ 2 ^ 31 := Nat.pow_le_pow_right (by decide) (by omega)
  have hend := toNat_poolEnd subnet
  have hnext := toNat_nextIP subnet
  have hstored : getAllFakeIPs high = [⟨"255.255.255.254", [0]⟩] := by decide +kernel
  have hparse : NetIp.parseIP "255.255.255.254" = some (.v4 0xfffffffe) := by decide +kernel
  -- the cursor is behind the address that was loaded, at the last one
  let p : FakeIPPool :=
    { managed subnet with
      domainToIP := AList.insert [0] 0xfffffffe ∅
      ipToDomain := AList.insert (ipString 0xfffffffe) [0] ∅
      nextIP := 0xffffffff }
  have hload : (managed subnet).loadFromDB high = some p := by
    have hin : (managed subnet).contains 0xfffffffe = true := by
      simp only [contains, Bool.and_eq_true, decide_eq_true_eq, BitVec.le_def, hend]
      exact ⟨show subnet.addr.toNat ≤ 4294967294 by omega, show 4294967294 ≤ _ by omega⟩
    have hbelow : (managed subnet).nextIP ≤ 0xfffffffe := BitVec.le_def.mpr (show _ ≤ 4294967294 by omega)
    have hlast : ¬ (managed subnet).poolEnd < 0xfffffffe + 1 := by
      rw [BitVec.lt_def, hend]
      exact show ¬ _ < 4294967295 by omega
    rw [loadFromDB, hstored]
    simp only [List.foldlM_cons, List.foldlM_nil, FakeIPPool.load, hparse, if_pos hin, if_pos hbelow, if_neg hlast]
    rfl
  have hreserved : p.nextIP ∈ p.reserved := mem_reserved_iff.mpr (.inl (show 4294967295 = _ by omega))
  have hsucc : p.nextIP + 1 = 0 := show (0xffffffff : Addr) + 1 = 0 by decide
  have hpast : ¬ p.poolEnd < p.nextIP + 1 := by
    rw [hsucc]
    exact BitVec.not_lt_zero
  have hzero : p.advance.nextIP = 0 := (if_neg hpast).trans hsucc
  have hfree : p.advance.nextIP ∉ p.advance.reserved := by
    rw [hzero, show p.advance.reserved = (managed subnet).reserved from rfl, mem_reserved_iff]
    exact show ¬ (0 = _ ∨ (0 + 2 ^ 32 - _) % 2 ^ 32 ≤ 9) by omega
  have hfound : p.candidate (size subnet) = some (0, p.advance.advance) := by
    obtain ⟨fuel, hfuel⟩ := Nat.exists_eq_succ_of_ne_zero (show size subnet ≠ 0 by omega)
    rw [hfuel, FakeIPPool.candidate, if_pos hreserved, candidate_of_free hfree (by omega), hzero]
  have hip := contains_iff.mp (h.contains hload (d := [1]) rfl hfound)
  exact absurd hip.1 (show ¬ subnet.addr.toNat ≤ 0 by omega)

/-- Whatever was stored and looked up before, each `Lookup` returns an address of the subnet within one pass, exactly if
the subnet has at least sixteen addresses and does not end with 255.255.255.255, or has all addresses. -/
theorem served_iff (subnet : Prefix) :
    Served subnet ↔ subnet.len ≤ 28 ∧ (subnet.len = 0 ∨ subnet.addr.toNat + 2 ^ (32 - subnet.len) < 2 ^ 32) := by
  have hlarge (hlen : subnet.len ≤ 28) : 2 ^ 4 ≤ size subnet := Nat.pow_le_pow_right (by decide) (by omega)
  constructor
  · intro h
    have hlen := len_le_of_served h
    exact ⟨hlen, wraps_of_served h (hlarge hlen)⟩
  · rintro ⟨hlen, hwraps⟩
    exact Roomy.served ⟨hlarge hlen, hwraps⟩

/-- 10.0.0.0/29. -/
def tiny : Prefix := ⟨0x0a000000, 29, by decide, by decide⟩

/-- All eight addresses are reserved. -/
theorem candidate_tiny (fuel : ℕ) (hsame : p.reserved = (managed tiny).reserved ∧ p.poolStart = 0x0a000000 ∧
    p.poolEnd = 0x0a000007) {i : Fin 8} (hcursor : p.nextIP = 0x0a000000 + BitVec.ofNat 32 i) :
    p.candidate fuel = none := by
  induction fuel generalizing p i with
  | zero => rfl
  | succ fuel ih =>
    have hreserved : ∀ i : Fin 8, (0x0a000000 : Addr) + BitVec.ofNat 32 i ∈ (managed tiny).reserved := by decide
    have hnext : ∀ i : Fin 8, (if (0x0a000007 : Addr) < 0x0a000000 + BitVec.ofNat 32 i + 1 then (0x0a000000 : Addr)
        else 0x0a000000 + BitVec.ofNat 32 i + 1) = 0x0a000000 + BitVec.ofNat 32 (i + 1 : Fin 8) := by decide
    rw [FakeIPPool.candidate, if_pos (by rw [hcursor, hsame.1]; exact hreserved i)]
    refine ih (p := p.advance) hsame (i := i + 1) ?_
    rw [advance, hsame.2.1, hsame.2.2, hcursor]
    exact hnext i

/-- The first `Lookup` returns 10.0.0.10, and the next one does not return. -/
theorem tiny_is_not_served :
    ∃ s, Node.lookup 8 ⟨managed tiny, none⟩ [0] = some (s, 0x0a00000a) ∧ ¬ tiny.Contains 0x0a00000a ∧
      ∀ fuel, s.lookup fuel [1] = none := by
  refine ⟨_, rfl, by decide, fun fuel => ?_⟩
  exact Option.map_eq_none_iff.mpr (candidate_tiny fuel ⟨rfl, rfl, rfl⟩ (i := 0) rfl)

end FakeIp
