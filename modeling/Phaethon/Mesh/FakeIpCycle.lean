import Mathlib.Data.Set.Card
import Phaethon.Common.Ring
import Phaethon.Mesh.FakeIp

/-!
# The cycle of the fake addresses

The cursor of a pool goes through the addresses of the subnet that are not reserved, again and again
(`Span`), so that each of the last `N` new domains has an address of its own (`Cycle`), in both maps and in
the bucket. A pool loaded from the bucket has the same maps, as long as every domain is valid UTF-8: the
bucket holds JSON.
-/

namespace FakeIp

open List Option FakeIPPool AList Utf8 Lts

open Ipv4 (Addr Prefix)

/-- The addresses a pool gives away, counted. -/
noncomputable def FakeIPPool.allocatable (p : FakeIPPool) : ℕ := {a | p.inAllocRange a = true}.ncard

variable {p : FakeIPPool} {a : Addr}

theorem inAllocRange_iff : p.inAllocRange a = true ↔ (p.poolStart ≤ a ∧ a ≤ p.poolEnd) ∧ a ∉ p.reserved := by
  simp [FakeIPPool.inAllocRange, FakeIPPool.contains]

/-! ## The way of the cursor -/

/-- The addresses that are given away are the `n` from `first` on; the one behind them is the last of the
pool. -/
structure Span (p : FakeIPPool) (first n : ℕ) : Prop where
  pos : 0 < n
  start_le : p.poolStart.toNat ≤ first
  last : p.poolEnd.toNat = first + n
  below : first + n < 2 ^ 32 - 1
  reserved : ∀ {a : Addr}, p.poolStart ≤ a → a ≤ p.poolEnd →
    (a ∈ p.reserved ↔ a.toNat < first ∨ a.toNat = first + n)

variable {first n skip fuel : ℕ}

theorem Span.inAllocRange_iff (h : Span p first n) :
    p.inAllocRange a = true ↔ first ≤ a.toNat ∧ a.toNat < first + n := by
  rw [FakeIp.inAllocRange_iff]
  have hstart := h.start_le
  have hlast := h.last
  constructor
  · rintro ⟨⟨hlo, hhi⟩, hres⟩
    rw [h.reserved hlo hhi] at hres
    have hhi : a.toNat ≤ p.poolEnd.toNat := hhi
    omega
  · rintro ⟨hlo, hhi⟩
    have hlo' : p.poolStart ≤ a := by
      rw [BitVec.le_def]
      omega
    have hhi' : a ≤ p.poolEnd := by
      rw [BitVec.le_def]
      omega
    refine ⟨⟨hlo', hhi'⟩, ?_⟩
    rw [h.reserved hlo' hhi']
    omega

/-- The `i`-th of the addresses that are given away. -/
def place (first i : ℕ) : Addr := BitVec.ofNat 32 (first + i)

theorem Span.toNat_place (h : Span p first n) {i : ℕ} (hi : i < n) : (place first i).toNat = first + i := by
  have := h.below
  rw [place, BitVec.toNat_ofNat, Nat.mod_eq_of_lt (by omega)]

theorem Span.place_injective (h : Span p first n) : ∀ i < n, ∀ j < n, place first i = place first j → i = j := by
  intro i hi j hj hij
  have := congrArg BitVec.toNat hij
  rw [h.toNat_place hi, h.toNat_place hj] at this
  omega

theorem Span.allocatable (h : Span p first n) : p.allocatable = n := by
  have himage : {a | p.inAllocRange a = true} = Set.image (place first) (Finset.range n) := by
    ext a
    simp only [Set.mem_ofPred_eq, h.inAllocRange_iff, Set.mem_image, Finset.mem_coe, Finset.mem_range]
    constructor
    · rintro ⟨hlo, hhi⟩
      refine ⟨a.toNat - first, by omega, BitVec.eq_of_toNat_eq ?_⟩
      rw [h.toNat_place (by omega)]
      omega
    · rintro ⟨i, hi, rfl⟩
      rw [h.toNat_place hi]
      omega
  have hinj : Set.InjOn (place first) (Finset.range n) := fun i hi j hj hij =>
    h.place_injective i (by simpa using hi) j (by simpa using hj) hij
  rw [FakeIPPool.allocatable, himage, hinj.ncard_image, Set.ncard_coe_finset, Finset.card_range]

variable {subnet : Prefix}

private theorem mem_reserved_new (ha : subnet.addr ≤ a) :
    a ∈ (newFakeIPPoolWithSubnet subnet skip).reserved ↔
      a.toNat ≤ subnet.addr.toNat + (BitVec.ofNat 32 skip).toNat ∨
        a = (newFakeIPPoolWithSubnet subnet skip).poolEnd := by
  have hlo : subnet.addr.toNat ≤ a.toNat := ha
  have hi : a.toNat < 2 ^ 32 := a.isLt
  simp only [newFakeIPPoolWithSubnet, List.mem_cons, List.mem_map, List.mem_range]
  constructor
  · rintro (rfl | h | ⟨i, hi, rfl⟩)
    · exact .inl (by omega)
    · exact .inr h
    · left
      rw [BitVec.toNat_add, BitVec.toNat_ofNat]
      omega
  · rintro (h | h)
    · refine .inr (.inr ⟨a.toNat - subnet.addr.toNat, by omega, BitVec.eq_of_toNat_eq ?_⟩)
      rw [BitVec.toNat_add, BitVec.toNat_ofNat]
      omega
    · exact .inr (.inl h)

/-- The addresses a new pool gives away lie behind the skipped ones and before the last. -/
theorem span_new (hfree : ∃ a, (newFakeIPPoolWithSubnet subnet skip).inAllocRange a = true)
    (hlast : (newFakeIPPoolWithSubnet subnet skip).poolEnd < 0xffffffff) :
    ∃ n, Span (newFakeIPPoolWithSubnet subnet skip) (newFakeIPPoolWithSubnet subnet skip).nextIP.toNat n ∧
      (newFakeIPPoolWithSubnet subnet skip).nextIP.toNat =
        subnet.addr.toNat + (BitVec.ofNat 32 skip).toNat + 1 := by
  set p := newFakeIPPoolWithSubnet subnet skip with hp
  have hstart : p.poolStart = subnet.addr := rfl
  have hres : ∀ {a : Addr}, p.poolStart ≤ a → (a ∈ p.reserved ↔
      a.toNat ≤ subnet.addr.toNat + (BitVec.ofNat 32 skip).toNat ∨ a = p.poolEnd) := by
    intro a ha
    exact mem_reserved_new ha
  obtain ⟨a, ha⟩ := hfree
  obtain ⟨⟨hlo, hhi⟩, hnot⟩ := inAllocRange_iff.mp ha
  rw [hres hlo, not_or] at hnot
  have hlt : a.toNat < p.poolEnd.toNat :=
    lt_of_le_of_ne (BitVec.le_def.mp hhi) fun he => hnot.2 (BitVec.eq_of_toNat_eq he)
  have hend : p.poolEnd.toNat < 2 ^ 32 - 1 := BitVec.lt_def.mp hlast
  have hnext : p.nextIP.toNat = subnet.addr.toNat + (BitVec.ofNat 32 skip).toNat + 1 := by
    have : p.nextIP = subnet.addr + BitVec.ofNat 32 skip + 1 := rfl
    rw [this, BitVec.toNat_add, BitVec.toNat_add]
    have h1 : (1 : Addr).toNat = 1 := rfl
    omega
  refine ⟨p.poolEnd.toNat - p.nextIP.toNat, ⟨?_, ?_, ?_, ?_, ?_⟩, hnext⟩
  · omega
  · rw [hstart]
    omega
  · omega
  · omega
  · intro b hb hbe
    rw [hres hb, ← BitVec.toNat_inj]
    omega

theorem Span.withNext (h : Span p first n) (ip : Addr) : Span { p with nextIP := ip } first n :=
  ⟨h.pos, h.start_le, h.last, h.below, h.reserved⟩

private theorem Span.toNat_advance (h : Span p first n)
    (hin : p.nextIP.toNat < first + n) : p.advance.nextIP.toNat = p.nextIP.toNat + 1 := by
  have hlast := h.last
  have hsucc : (p.nextIP + 1).toNat = p.nextIP.toNat + 1 := by
    rw [BitVec.toNat_add, show (1 : Addr).toNat = 1 from rfl]
    omega
  have hnot : ¬ p.poolEnd < p.nextIP + 1 := by
    rw [BitVec.lt_def]
    omega
  rw [advance, if_neg hnot, hsucc]

/-- From an address before the first one that is given away, the cursor finds that one. -/
private theorem Span.candidate_front (h : Span p first n)
    (hstart : p.poolStart ≤ p.nextIP) (hle : p.nextIP.toNat ≤ first) (hfuel : first - p.nextIP.toNat < fuel) :
    ∃ q, p.candidate fuel = some (place first 0, q) ∧ q.nextIP.toNat = first + 1 := by
  have hpos := h.pos
  have hlast := h.last
  induction fuel generalizing p with
  | zero => omega
  | succ fuel ih =>
    have hend : p.nextIP ≤ p.poolEnd := by
      rw [BitVec.le_def]
      omega
    have hadv := h.toNat_advance (by omega)
    unfold candidate
    by_cases hfirst : p.nextIP.toNat = first
    · rw [if_neg (by rw [h.reserved hstart hend]; omega)]
      refine ⟨p.advance, ?_, by omega⟩
      rw [show p.nextIP = place first 0 from
        BitVec.eq_of_toNat_eq (by rw [h.toNat_place hpos]; omega)]
    · rw [if_pos (by rw [h.reserved hstart hend]; omega)]
      refine ih (p := p.advance) (h.withNext _) ?_ (by omega) (by omega) hlast
      have hstart : p.poolStart.toNat ≤ p.nextIP.toNat := hstart
      show p.poolStart.toNat ≤ p.advance.nextIP.toNat
      omega

/-- The cursor of a pool that gave away `m` addresses: at the next one, or behind all of them. -/
def Cursor (p : FakeIPPool) (first n m : ℕ) : Prop :=
  p.nextIP.toNat = first + m % n ∨ m % n = 0 ∧ p.nextIP.toNat = first + n

/-- The addresses are given away in turn. -/
theorem Span.candidate {m : ℕ} (h : Span p first n) (hcursor : Cursor p first n m)
    (hfuel : first - p.poolStart.toNat + 2 ≤ fuel) :
    ∃ q, p.candidate fuel = some (place first (m % n), q) ∧ Cursor q first n (m + 1) := by
  have hpos := h.pos
  have hlast := h.last
  have hstart := h.start_le
  have hmod := Nat.mod_lt m hpos
  have hnext : ∀ q : FakeIPPool, q.nextIP.toNat = first + m % n + 1 → Cursor q first n (m + 1) := by
    intro q hq
    rw [Cursor, ← Nat.mod_add_mod]
    by_cases hwrap : m % n + 1 = n
    · exact .inr ⟨by rw [hwrap, Nat.mod_self], by omega⟩
    · exact .inl (by rw [Nat.mod_eq_of_lt (by omega)]; omega)
  obtain ⟨fuel, rfl⟩ : ∃ k, fuel = k + 1 := ⟨fuel - 1, by omega⟩
  have hle : p.poolStart ≤ p.nextIP ∧ p.nextIP ≤ p.poolEnd := by
    rw [BitVec.le_def, BitVec.le_def]
    rcases hcursor with hc | hc <;> omega
  rcases hcursor with hc | ⟨hzero, hc⟩
  · refine ⟨p.advance, ?_, hnext _ (by rw [h.toNat_advance (by omega)]; omega)⟩
    have hplace : p.nextIP = place first (m % n) :=
      BitVec.eq_of_toNat_eq (by rw [h.toNat_place hmod, hc])
    rw [candidate, if_neg (by rw [h.reserved hle.1 hle.2]; omega), hplace]
  · -- the last address of the pool is reserved, and the cursor goes back to the start
    have hwrap : p.advance.nextIP = p.poolStart := by
      have hbelow := h.below
      refine if_pos ?_
      rw [BitVec.lt_def, BitVec.toNat_add, show (1 : Addr).toNat = 1 from rfl]
      omega
    obtain ⟨q, hq, hqnext⟩ := Span.candidate_front (p := p.advance) (h.withNext _)
      (by rw [hwrap]; exact BitVec.le_refl _) (by rw [hwrap]; exact hstart)
      (show first - p.advance.nextIP.toNat < fuel by rw [hwrap]; omega)
    refine ⟨q, ?_, hnext q (by omega)⟩
    rw [candidate, if_pos (by rw [h.reserved hle.1 hle.2]; omega), hq, hzero]

/-! ## The bucket -/

theorem domainKey_injective : Function.Injective domainKey := fun _ _ h => append_cancel_left h

theorem domainKey_ne_ipKey (d : Domain) (t : String) : domainKey d ≠ ipKey t := by
  intro h
  have := congrArg List.head? h
  simp [domainKey, domainPrefix, ipKey] at this

variable (b : Bucket)

/-- The bucket holds the mappings of the pool, as JSON. -/
def Stored (p : FakeIPPool) : Prop :=
  ∀ d, b.lookup (domainKey d) =
    (p.domainToIP.lookup d).map fun a => .entry (ipString a) (toValid d)

private theorem lookup_putFakeIP (d x : Domain) (t : String) :
    (putFakeIP d t b).lookup (domainKey x) =
      if x = d then some (.entry t (toValid d)) else b.lookup (domainKey x) := by
  rw [putFakeIP, lookup_insert_ne (domainKey_ne_ipKey x t)]
  split
  · next h =>
      subst h
      exact lookup_insert _
  · next h => exact lookup_insert_ne fun he => h (domainKey_injective he)

private theorem lookup_deleteFakeIP (d x : Domain) (t : String) :
    (deleteFakeIP d t b).lookup (domainKey x) = if x = d then none else b.lookup (domainKey x) := by
  rw [deleteFakeIP, lookup_erase_ne (domainKey_ne_ipKey x t)]
  split
  · next h =>
      subst h
      exact lookup_erase _ _
  · next h => exact lookup_erase_ne fun he => h (domainKey_injective he)

variable {b : Bucket}

theorem Stored.assign (h : Stored b p) (d : Domain) (a : Addr) : Stored (b.assign p d a) (p.assign d a) := by
  intro x
  rw [Bucket.assign, lookup_putFakeIP]
  by_cases hx : x = d
  · subst hx
    simp
  · rw [if_neg hx, lookup_assign_domain d a hx]
    cases hold : p.ipToDomain.lookup (ipString a) with
    | none => simpa using h x
    | some old =>
      rw [lookup_deleteFakeIP]
      by_cases hxo : x = old
      · simp [hxo]
      · simpa [hxo, Ne.symm hxo] using h x

theorem mem_getAllFakeIPs {e : FakeIPEntry} :
    e ∈ getAllFakeIPs b ↔ ∃ d r, b.lookup (domainKey d) = some r ∧ r.asEntry = e := by
  simp only [getAllFakeIPs, List.mem_map, List.mem_filter, List.mem_insertionSort, List.isPrefixOf_iff_prefix]
  constructor
  · rintro ⟨⟨key, r⟩, ⟨hmem, d, rfl⟩, rfl⟩
    exact ⟨d, r, mem_lookup_iff.mpr hmem, rfl⟩
  · rintro ⟨d, r, hr, rfl⟩
    exact ⟨⟨domainKey d, r⟩, ⟨mem_lookup_iff.mp hr, d, rfl⟩, rfl⟩

/-! ## Loading -/

theorem parseIP_ipString (a : Addr) : NetIp.parseIP (ipString a) = some (.v4 a) := by
  simp [NetIp.parseIP, ipString, NetIp.parseIpv4_dotted]

/-- A pool on the way to the mappings `target`: what it has is of them, and its cursor is in the subnet. -/
structure Loading (target : Domain → Option Addr) (first n : ℕ) (p : FakeIPPool) : Prop where
  span : Span p first n
  cursor : p.poolStart ≤ p.nextIP ∧ p.nextIP ≤ p.poolEnd
  domain : ∀ {d a}, p.domainToIP.lookup d = some a → target d = some a
  ip : ∀ {t d}, p.ipToDomain.lookup t = some d → ∃ a, t = ipString a ∧ target d = some a

/-- The mapping of a domain was loaded. -/
def Loaded (p : FakeIPPool) (d : Domain) (a : Addr) : Prop :=
  p.domainToIP.lookup d = some a ∧ p.ipToDomain.lookup (ipString a) = some d

variable {d : Domain}

/-- One mapping is loaded, and those loaded before stay. -/
private theorem Loading.load {target : Domain → Option Addr}
    (h : Loading target first n p) (hinj : ∀ {d d' a}, target d = some a → target d' = some a → d = d')
    (ha : target d = some a) (hin : first ≤ a.toNat ∧ a.toNat < first + n) :
    ∃ q, p.load ⟨ipString a, d⟩ = some q ∧ Loading target first n q ∧ Loaded q d a ∧
      ∀ x b, target x = some b → Loaded p x b → Loaded q x b := by
  have hspan := h.span
  have hstart := hspan.start_le
  have hlast := hspan.last
  have hrange : p.contains a = true := by
    rw [FakeIPPool.contains, Bool.and_eq_true, decide_eq_true_eq, decide_eq_true_eq, BitVec.le_def,
      BitVec.le_def]
    omega
  refine ⟨_, by rw [FakeIPPool.load, parseIP_ipString]; exact if_pos hrange, ?_, ?_, ?_⟩
  · constructor
    case span => exact ⟨hspan.pos, hspan.start_le, hspan.last, hspan.below, hspan.reserved⟩
    case cursor =>
      have hsucc : (a + 1).toNat = a.toNat + 1 := by
        rw [BitVec.toNat_add, show (1 : Addr).toNat = 1 from rfl]
        omega
      have hnot : ¬ p.poolEnd < a + 1 := by
        rw [BitVec.lt_def]
        omega
      dsimp only
      split
      · rw [BitVec.le_def, BitVec.le_def]
        omega
      · exact h.cursor
    case domain =>
      intro x b hx
      by_cases hxd : x = d
      · subst hxd
        obtain rfl : a = b := by simpa using hx
        exact ha
      · exact h.domain (by simpa [lookup_insert_ne hxd] using hx)
    case ip =>
      intro t x ht
      by_cases hta : t = ipString a
      · subst hta
        obtain rfl : d = x := by simpa using ht
        exact ⟨a, rfl, ha⟩
      · exact h.ip (by simpa [lookup_insert_ne hta] using ht)
  · exact ⟨by simp, by simp⟩
  · rintro x b hx ⟨hxd, hxi⟩
    constructor
    · by_cases hne : x = d
      · subst hne
        rw [hx, Option.some.injEq] at ha
        simp [ha]
      · simpa [lookup_insert_ne hne] using hxd
    · by_cases hne : ipString b = ipString a
      · obtain rfl := ipString_injective hne
        simp [hinj hx ha]
      · simpa [lookup_insert_ne hne] using hxi

/-- `LoadFromDB` of mappings that are all in the range of the pool. -/
private theorem Loading.foldlM {target : Domain → Option Addr}
    (h : Loading target first n p) (hinj : ∀ {d d' a}, target d = some a → target d' = some a → d = d')
    (hin : ∀ {d a}, target d = some a → first ≤ a.toNat ∧ a.toNat < first + n) {entries : List FakeIPEntry}
    (hentries : ∀ e ∈ entries, ∃ a, target e.domain = some a ∧ e.ip = ipString a) :
    ∃ q, entries.foldlM FakeIPPool.load p = some q ∧ Loading target first n q ∧
      (∀ x b, target x = some b → Loaded p x b → Loaded q x b) ∧
      ∀ e ∈ entries, ∀ a, target e.domain = some a → Loaded q e.domain a := by
  induction entries generalizing p with
  | nil => exact ⟨p, rfl, h, fun _ _ _ hl => hl, by simp⟩
  | cons e entries ih =>
    obtain ⟨a, ha, hip⟩ := hentries e mem_cons_self
    obtain ⟨q, hq, hload, hdone, hkeep⟩ := h.load hinj ha (hin ha)
    obtain ⟨r, hr, hloadr, hkeepr, hrest⟩ := ih hload fun e' he' => hentries e' (mem_cons_of_mem e he')
    refine ⟨r, ?_, hloadr, fun x b hx hl => hkeepr x b hx (hkeep x b hx hl), fun e' he' b hb => ?_⟩
    · rw [foldlM_cons, show e = ⟨ipString a, e.domain⟩ by rw [← hip], hq]
      exact hr
    · rcases mem_cons.mp he' with rfl | he'
      · rw [ha, Option.some.injEq] at hb
        exact hkeepr _ _ (hb ▸ ha) (hb ▸ hdone)
      · exact hrest e' he' b hb

/-- A new pool loaded from a bucket that holds the mappings of a pool has its maps. -/
theorem loadFromDB_stored {new : FakeIPPool} (hspan : Span new first n)
    (hnew : new.domainToIP = ∅ ∧ new.ipToDomain = ∅)
    (hcursor : new.poolStart ≤ new.nextIP ∧ new.nextIP ≤ new.poolEnd) (hpaired : p.Paired)
    (hin : ∀ {d a}, p.domainToIP.lookup d = some a → first ≤ a.toNat ∧ a.toNat < first + n)
    (hvalid : ∀ {d a}, p.domainToIP.lookup d = some a → valid d = true) (hstored : Stored b p) :
    ∃ q, new.loadFromDB b = some q ∧ (∀ d, q.domainToIP.lookup d = p.domainToIP.lookup d) ∧
      (∀ t, q.ipToDomain.lookup t = p.ipToDomain.lookup t) ∧ q.poolStart ≤ q.nextIP ∧
      q.nextIP ≤ q.poolEnd := by
  have hload : Loading (fun d => p.domainToIP.lookup d) first n new :=
    ⟨hspan, hcursor, by simp [hnew.1], by simp [hnew.2]⟩
  have hmem : ∀ {e}, e ∈ getAllFakeIPs b ↔
      ∃ a, p.domainToIP.lookup e.domain = some a ∧ e.ip = ipString a := by
    intro e
    rw [mem_getAllFakeIPs]
    constructor
    · rintro ⟨d, r, hr, rfl⟩
      rw [hstored d] at hr
      obtain ⟨a, ha, rfl⟩ := map_eq_some_iff.mp hr
      have hd : toValid d = d := (toValid_eq_iff d).mpr (hvalid ha)
      exact ⟨a, hd.symm ▸ ha, rfl⟩
    · rintro ⟨a, ha, hip⟩
      have hd : toValid e.domain = e.domain := (toValid_eq_iff _).mpr (hvalid ha)
      refine ⟨e.domain, .entry (ipString a) (toValid e.domain), by simp [hstored e.domain, ha], ?_⟩
      rw [Record.asEntry, hd, ← hip]
  have hinj : ∀ {d d' a}, p.domainToIP.lookup d = some a → p.domainToIP.lookup d' = some a → d = d' := by
    intro d d' a hd hd'
    exact Option.some.inj ((hpaired.domain hd).symm.trans (hpaired.domain hd'))
  obtain ⟨q, hq, hloadq, -, hall⟩ := hload.foldlM hinj hin fun e he => hmem.mp he
  have hloaded : ∀ {d a}, p.domainToIP.lookup d = some a → Loaded q d a := by
    intro d a ha
    exact hall ⟨ipString a, d⟩ (hmem.mpr ⟨a, ha, rfl⟩) a ha
  refine ⟨q, hq, fun d => ?_, fun t => ?_, hloadq.cursor⟩
  · refine ext fun a => ⟨fun ha => hloadq.domain ha, fun ha => (hloaded ha).1⟩
  · refine ext fun d => ⟨fun ht => ?_, fun ht => ?_⟩
    · obtain ⟨a, rfl, ha⟩ := hloadq.ip ht
      exact hpaired.domain ha
    · obtain ⟨a, rfl, ha⟩ := hpaired.ip ht
      exact (hloaded ha).2

/-! ## Sequences of lookups -/

/-- A node with the mappings it made, the newest first. -/
abbrev Logged := Node × List (Domain × Addr)

/-- A `Lookup` of a domain without an address is logged. -/
def logNew (s : Node) (domain : Domain) (s' : Node) (log : List (Domain × Addr)) : List (Domain × Addr) :=
  match s.pool.domainToIP.lookup domain, s'.pool.domainToIP.lookup domain with
  | none, some ip => (domain, ip) :: log
  | _, _ => log

/-- One `Lookup`. -/
abbrev Logged.lookup (fuel : ℕ) : Logged → Domain → Option Logged :=
  recorded (fun s domain => (s.lookup fuel domain).map (·.1)) logNew

/-- The last `n` new domains have the `n` addresses, in the maps and in the bucket. -/
structure Cycle (fuel first n : ℕ) (s : Logged) : Prop where
  span : Span s.1.pool first n
  fuel : first - s.1.pool.poolStart.toNat + 2 ≤ fuel
  cursor : Cursor s.1.pool first n s.2.length
  turns : Ring.Turns n (place first) Prod.snd s.2
  maps : ∀ d a, s.1.pool.domainToIP.lookup d = some a ↔ (d, a) ∈ s.2.take n
  paired : s.1.pool.Paired
  stored : ∃ b, s.1.db = some b ∧ Stored b s.1.pool

variable {s : Logged}

section

variable (h : Cycle fuel first n s)

include h

theorem Cycle.inRange (ha : s.1.pool.domainToIP.lookup d = some a) : first ≤ a.toNat ∧ a.toNat < first + n := by
  have hmem := mem_of_mem_take ((h.maps d a).mp ha)
  obtain ⟨i, hi⟩ := mem_iff_getElem?.mp hmem
  have hmod := Nat.mod_lt (s.2.length - 1 - i) h.span.pos
  have hpos : a = place first ((s.2.length - 1 - i) % n) := h.turns.getElem? hi
  rw [hpos, h.span.toNat_place hmod]
  omega

/-- A new domain is given the next address, and the domain that had it `n` mappings ago loses it. -/
private theorem Cycle.assign (hnew : s.1.pool.domainToIP.lookup d = none) :
    ∃ pool, s.1.pool.candidate fuel = some (place first (s.2.length % n), pool) ∧
      Cycle fuel first n
        (⟨pool.assign d (place first (s.2.length % n)),
          s.1.db.map fun b => b.assign pool d (place first (s.2.length % n))⟩,
          (d, place first (s.2.length % n)) :: s.2) := by
  obtain ⟨pool, hc, hcursor⟩ := h.span.candidate h.cursor h.fuel
  refine ⟨pool, hc, ?_⟩
  set a := place first (s.2.length % n)
  have hpool := candidate_pool hc
  have hdomains : pool.domainToIP = s.1.pool.domainToIP := by rw [hpool]
  have hpaired : pool.Paired := h.paired.candidate hc
  have hspan : Span pool first n := hpool ▸ h.span.withNext _
  obtain ⟨b, hb, hstored⟩ := h.stored
  constructor
  case span => exact ⟨hspan.pos, hspan.start_le, hspan.last, hspan.below, hspan.reserved⟩
  case fuel =>
    have hstart : pool.poolStart = s.1.pool.poolStart := by rw [hpool]
    have hf := h.fuel
    rwa [← hstart] at hf
  case cursor => exact hcursor
  case turns => exact ⟨rfl, h.turns⟩
  case maps =>
    intro x b
    have hturn : (x, b) ∈ s.2.take (n - 1) ↔ (x, b) ∈ s.2.take n ∧ b ≠ a :=
      h.turns.mem_take_pred_iff h.span.place_injective h.span.pos
    have hmap := h.maps x b
    rw [← hdomains] at hmap
    rw [take_cons h.span.pos, List.mem_cons, hturn, ← hmap]
    by_cases hx : x = d
    · subst hx
      simp [hdomains, hnew, eq_comm]
    · rw [lookup_assign_domain d a hx]
      simp only [Prod.mk.injEq, hx, false_and, false_or]
      by_cases hold : pool.ipToDomain.lookup (ipString a) = some x
      · -- the old domain of the address has no other
        obtain ⟨c, hca, hxc⟩ := hpaired.ip hold
        obtain rfl := ipString_injective hca
        simp [hold, hxc, eq_comm]
      · have hne : pool.domainToIP.lookup x = some b → b ≠ a := by
          rintro hb rfl
          exact hold (hpaired.domain hb)
        simpa [hold] using hne
  case paired => exact hpaired.assign a (hdomains ▸ hnew)
  case stored =>
    refine ⟨b.assign pool d a, by simp [hb], ?_⟩
    have hstored : Stored b pool := by
      intro x
      rw [hdomains]
      exact hstored x
    exact hstored.assign d a

/-- Every `Lookup` returns, with an address in range, and keeps the cycle. -/
theorem Cycle.lookup (d : Domain) :
    ∃ s' a, s.1.lookup fuel d = some (s', a) ∧ s.1.pool.inAllocRange a = true ∧
      Cycle fuel first n (s', logNew s.1 d s' s.2) ∧
      ∀ e ∈ logNew s.1 d s' s.2, e ∈ s.2 ∨ e.1 = d := by
  cases hd : s.1.pool.domainToIP.lookup d with
  | some a =>
    refine ⟨s.1, a, by simp [Node.lookup, hd], ?_, by simpa [logNew, hd] using h, ?_⟩
    · exact h.span.inAllocRange_iff.mpr (h.inRange hd)
    · simp only [logNew, hd]
      exact fun e he => .inl he
  | none =>
    obtain ⟨pool, hc, hcycle⟩ := h.assign hd
    have hin := hcycle.inRange (d := d) (lookup_assign_self _ _ _)
    refine ⟨_, _, by simp only [Node.lookup, hd, hc, map_some]; rfl, h.span.inAllocRange_iff.mpr hin, ?_, ?_⟩
    · simpa [logNew, hd] using hcycle
    · simp only [logNew, hd, lookup_assign_self]
      intro e he
      rcases mem_cons.mp he with rfl | he
      · exact .inr rfl
      · exact .inl he

/-- What a pool promises after a sequence of lookups, against the new pool it started as. -/
structure Faithful (fuel : ℕ) (new : FakeIPPool) (s : Logged) : Prop where
  inverse : s.1.pool.Paired
  returned : ∀ d, ∃ s' a, s.1.lookup fuel d = some (s', a) ∧ new.inAllocRange a = true
  fifo : ∀ {newer d a older}, s.2 = newer ++ (d, a) :: older → newer.length ≤ new.allocatable - 1 →
    s.1.pool.domainToIP.lookup d = some a
  reload : ∃ b q, s.1.db = some b ∧ new.loadFromDB b = some q ∧
    (∀ d, q.domainToIP.lookup d = s.1.pool.domainToIP.lookup d) ∧
    (∀ t, q.ipToDomain.lookup t = s.1.pool.ipToDomain.lookup t) ∧
    q.poolStart ≤ q.nextIP ∧ q.nextIP ≤ q.poolEnd

private theorem Cycle.exec (domains : List Domain) :
    ∃ u, exec (Logged.lookup fuel) s domains = some u ∧ Cycle fuel first n u ∧
      ∀ e ∈ u.2, e ∈ s.2 ∨ e.1 ∈ domains := by
  induction domains generalizing s with
  | nil => exact ⟨s, rfl, h, fun e he => .inl he⟩
  | cons d domains ih =>
    obtain ⟨s', a, hl, -, hcycle, hlog⟩ := h.lookup d
    obtain ⟨u, hu, hcycle, hsub⟩ := ih hcycle
    refine ⟨u, exec_cons_eq_some.mpr ⟨_, recorded_eq_some.mpr ⟨by simp [hl], rfl⟩, hu⟩, hcycle, ?_⟩
    intro e he
    rcases hsub e he with he | he
    · rcases hlog e he with he | rfl
      · exact .inl he
      · exact .inr mem_cons_self
    · exact .inr (mem_cons_of_mem d he)

end

private theorem cycle_new (hfuel : skip + 3 ≤ fuel) (hspan : Span (newFakeIPPoolWithSubnet subnet skip) first n)
    (hnext : (newFakeIPPoolWithSubnet subnet skip).nextIP.toNat = first)
    (hfirst : first = subnet.addr.toNat + (BitVec.ofNat 32 skip).toNat + 1) :
    Cycle fuel first n (⟨newFakeIPPoolWithSubnet subnet skip, some ∅⟩, []) where
  span := hspan
  fuel := by
    have hskip : (BitVec.ofNat 32 skip).toNat ≤ skip := Nat.mod_le _ _
    show first - subnet.addr.toNat + 2 ≤ fuel
    omega
  cursor := .inl (by simpa using hnext)
  turns := trivial
  maps d a := by simp [newFakeIPPoolWithSubnet]
  paired := paired_new subnet skip
  stored := ⟨∅, rfl, fun d => by simp [newFakeIPPoolWithSubnet]⟩

/-- For every subnet with an address to give away and a last address below 255.255.255.255, and every
sequence of lookups of domains that are valid UTF-8: each returns, and the pool after them is faithful. -/
theorem faithful_of_valid (subnet : Prefix) (skip : ℕ)
    (hfree : ∃ a, (newFakeIPPoolWithSubnet subnet skip).inAllocRange a = true)
    (hlast : (newFakeIPPoolWithSubnet subnet skip).poolEnd < 0xffffffff)
    (fuel : ℕ) (hfuel : skip + 3 ≤ fuel) (domains : List Domain) (hvalid : ∀ d ∈ domains, valid d = true) :
    ∃ s, exec (Logged.lookup fuel) (⟨newFakeIPPoolWithSubnet subnet skip, some ∅⟩, []) domains = some s ∧
      Faithful fuel (newFakeIPPoolWithSubnet subnet skip) s := by
  obtain ⟨n, hspan, hfirst⟩ := span_new hfree hlast
  set new := newFakeIPPoolWithSubnet subnet skip
  obtain ⟨s, hs, hcycle, hlog⟩ := (cycle_new hfuel hspan rfl hfirst).exec domains
  refine ⟨s, hs, hcycle.paired, fun d => ?_, fun {newer d a older} hsplit hlen => ?_, ?_⟩
  · obtain ⟨s', a, hl, hin, -, -⟩ := hcycle.lookup d
    exact ⟨s', a, hl, hspan.inAllocRange_iff.mpr (hcycle.span.inAllocRange_iff.mp hin)⟩
  · have hpos := hspan.pos
    rw [hspan.allocatable] at hlen
    refine (hcycle.maps d a).mpr ?_
    rw [hsplit, take_append, take_cons (by omega)]
    exact mem_append_right _ mem_cons_self
  · obtain ⟨b, hb, hstored⟩ := hcycle.stored
    have hcursor : new.poolStart ≤ new.nextIP ∧ new.nextIP ≤ new.poolEnd := by
      have hlast := hspan.last
      exact ⟨BitVec.le_def.mpr hspan.start_le, BitVec.le_def.mpr (by omega)⟩
    have hdomains : ∀ {d a}, s.1.pool.domainToIP.lookup d = some a → valid d = true := by
      intro d a ha
      rcases hlog (d, a) (mem_of_mem_take ((hcycle.maps d a).mp ha)) with hmem | hmem
      · cases hmem
      · exact hvalid d hmem
    obtain ⟨q, hq⟩ := loadFromDB_stored hspan ⟨rfl, rfl⟩ hcursor hcycle.paired hcycle.inRange hdomains hstored
    exact ⟨b, q, hb, hq⟩

/-- Three lookups, one of them twice. -/
theorem faithful_of_valid_small :
    ∃ s, exec (Logged.lookup 12) (⟨smallPool, some ∅⟩, []) [[0x61], [0xc3, 0xa4], [0x61]] = some s ∧
      s.2 = [([0xc3, 0xa4], 0x0a00000b), ([0x61], 0x0a00000a)] ∧ Faithful 12 smallPool s := by
  obtain ⟨s, hs, hfaithful⟩ := faithful_of_valid ⟨0x0a000000, 28, by decide, by decide⟩ 9
    ⟨0x0a00000a, by decide⟩ (by decide) 12 (by decide) [[0x61], [0xc3, 0xa4], [0x61]] (by decide)
  refine ⟨s, hs, ?_, hfaithful⟩
  refine Option.some.inj (Eq.trans ?_ (show Option.map Prod.snd (exec (Logged.lookup 12)
    (⟨smallPool, some ∅⟩, []) [[0x61], [0xc3, 0xa4], [0x61]]) = _ from by decide +kernel))
  rw [show exec (Logged.lookup 12) (⟨smallPool, some ∅⟩, []) [[0x61], [0xc3, 0xa4], [0x61]] = some s from hs]
  rfl

/-- The byte ff is not UTF-8: the bucket holds U+FFFD for it, and the pool that is loaded from the bucket
does not know the domain. -/
theorem malformed_domain_lost :
    ∃ s b q, exec (Logged.lookup 12) (⟨smallPool, some ∅⟩, []) [[0xff]] = some s ∧ s.1.db = some b ∧
      smallPool.loadFromDB b = some q ∧ s.1.pool.domainToIP.lookup [0xff] = some 0x0a00000a ∧
      q.domainToIP.lookup [0xff] = none ∧ q.domainToIP.lookup replacement = some 0x0a00000a ∧
      ¬ Faithful 12 smallPool s := by
  have hload : (smallPool.loadFromDB (Bucket.assign ∅ smallPool.advance [0xff] 0x0a00000a)).map
      (fun q => (q.domainToIP.lookup [0xff], q.domainToIP.lookup replacement)) =
        some (none, some 0x0a00000a) := by decide +kernel
  obtain ⟨q, hq, hlookup⟩ := map_eq_some_iff.mp hload
  obtain ⟨hnone, hsome⟩ := Prod.mk.inj hlookup
  refine ⟨_, _, q, rfl, rfl, hq, rfl, hnone, hsome, fun h => ?_⟩
  obtain ⟨b, q', hb, hq', hdomains, -, -, -⟩ := h.reload
  cases hb
  obtain rfl := Option.some.inj (hq.symm.trans hq')
  have := hdomains [0xff]
  rw [hnone] at this
  exact absurd this.symm (by decide +kernel)

end FakeIp
