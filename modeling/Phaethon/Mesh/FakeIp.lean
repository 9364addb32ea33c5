import Mathlib.Data.List.AList
import Phaethon.Common.Lts
import Phaethon.Common.NetText
import Phaethon.Common.Utf8

/-!
# The fake-IP pool

`src/mesh/fakeip.go`: domains are given addresses of a subnet in turn, and an address that comes round again
is taken from the domain that had it. `src/db/helpers.go` keeps the mappings in a bucket, from which a new
pool is loaded. Domains are byte strings; the bucket holds them as JSON.

The real addresses that `SetRealIP` caches stay with a fake address when it changes its domain
(`recycled_keeps_realIP`). `noStale_iff_unrecycled` says that this is the only way to a stale one.
-/

namespace FakeIp

open Function Option Lts

open Ipv4 (Addr Prefix)
open NetIp (Ip dotted)

/-- A domain name, as the bytes of a Go string. -/
abbrev Domain := List UInt8

/-- `net.IP.String` of an IPv4 address. -/
def ipString (a : Addr) : String := String.ofList (dotted a)

theorem ipString_injective : Injective ipString := by
  intro a b h
  have hdotted : dotted a = dotted b := by simpa [ipString] using congrArg String.toList h
  have hparse := congrArg NetIp.parseIpv4 hdotted
  rw [NetIp.parseIpv4_dotted, NetIp.parseIpv4_dotted] at hparse
  exact Option.some.inj hparse

/-! ## The bucket -/

/-- A value of the bucket, decoded: a `FakeIPEntry`, or the `map[string]string` of the index by address. -/
inductive Record where
  | entry (ip : String) (domain : Domain)
  | index (domain : Domain)
  deriving DecidableEq

/-- The bucket of the fake addresses. -/
abbrev Bucket := AList fun _ : List UInt8 => Record

/-- The bytes of `domain:`. -/
def domainPrefix : List UInt8 := [0x64, 0x6f, 0x6d, 0x61, 0x69, 0x6e, 0x3a]

/-- The key of a domain. -/
def domainKey (domain : Domain) : List UInt8 := domainPrefix ++ domain

/-- The key of an address: `ip:` and its text. -/
def ipKey (ip : String) : List UInt8 := [0x69, 0x70, 0x3a] ++ ip.toList.map fun c => c.toNat.toUInt8

/-- `PutFakeIP`. The domain goes through `encoding/json`. -/
def putFakeIP (domain : Domain) (ip : String) (b : Bucket) : Bucket :=
  (b.insert (domainKey domain) (.entry ip (Utf8.toValid domain))).insert (ipKey ip)
    (.index (Utf8.toValid domain))

/-- `DeleteFakeIP`. -/
def deleteFakeIP (domain : Domain) (ip : String) (b : Bucket) : Bucket :=
  (b.erase (domainKey domain)).erase (ipKey ip)

/-- `FakeIPEntry`: the text of an address and a domain. -/
structure FakeIPEntry where
  ip : String
  domain : Domain
  deriving DecidableEq

/-- `json.Unmarshal` into a `FakeIPEntry`. -/
def Record.asEntry : Record → FakeIPEntry
  | .entry ip domain => ⟨ip, domain⟩
  | .index domain => ⟨"", domain⟩

/-- `GetAllFakeIPs`: the bucket in the order of its keys. -/
def getAllFakeIPs (b : Bucket) : List FakeIPEntry :=
  ((b.entries.insertionSort fun x y => x.1 ≤ y.1).filter fun x => domainPrefix.isPrefixOf x.1).map (·.2.asEntry)

/-! ## The pool -/

/-- `FakeIPPool`. -/
structure FakeIPPool where
  domainToIP : AList fun _ : Domain => Addr := ∅
  ipToDomain : AList fun _ : String => Domain := ∅
  ipToRealIP : AList fun _ : String => Ip := ∅
  reserved : List Addr
  nextIP : Addr
  poolStart : Addr
  poolEnd : Addr

open FakeIPPool

/-- `NewFakeIPPoolWithSubnet`, in the arithmetic of `uint32`. -/
def newFakeIPPoolWithSubnet (subnet : Prefix) (skip : ℕ) : FakeIPPool :=
  let start := subnet.addr
  let total : Addr := 1 <<< (32 - subnet.len)
  let last := start + total - 1
  let skipped : Addr := BitVec.ofNat 32 skip
  { reserved := start :: last :: (List.range (skipped.toNat + 1)).map fun i => start + BitVec.ofNat 32 i
    nextIP := start + skipped + 1
    poolStart := start
    poolEnd := last }

variable (p : FakeIPPool)

/-- `(*FakeIPPool).Contains` of an IPv4 address. -/
def FakeIPPool.contains (a : Addr) : Bool := p.poolStart ≤ a && a ≤ p.poolEnd

/-- `(*FakeIPPool).InAllocRange` of an IPv4 address. -/
def FakeIPPool.inAllocRange (a : Addr) : Bool := p.contains a && !p.reserved.contains a

/-- One mapping of `LoadFromDB`. `To4` of an IPv6 address is nil, and indexing it in `Contains` panics. -/
def FakeIPPool.load (entry : FakeIPEntry) : Option FakeIPPool :=
  match NetIp.parseIP entry.ip with
  | none => some p
  | some (.v6 _) => none
  | some (.v4 a) =>
      if p.contains a then
        some
          { p with
            domainToIP := p.domainToIP.insert entry.domain a
            ipToDomain := p.ipToDomain.insert (ipString a) entry.domain
            nextIP :=
              if p.nextIP ≤ a then if p.poolEnd < a + 1 then p.poolStart else a + 1 else p.nextIP }
      else some p

/-- `(*FakeIPPool).LoadFromDB`; `none` is a panic. -/
def FakeIPPool.loadFromDB (b : Bucket) : Option FakeIPPool :=
  (getAllFakeIPs b).foldlM load p

/-- The cursor moves on: `p.nextIP++`, and back to the start behind the end. -/
def FakeIPPool.advance : FakeIPPool :=
  { p with nextIP := if p.poolEnd < p.nextIP + 1 then p.poolStart else p.nextIP + 1 }

/-- The loop of `Lookup` up to an address that is not reserved, with the pool after it. -/
def FakeIPPool.candidate : ℕ → FakeIPPool → Option (Addr × FakeIPPool)
  | 0, _ => none
  | fuel + 1, p => if p.nextIP ∈ p.reserved then candidate fuel p.advance else some (p.nextIP, p.advance)

/-- The maps after `domain` was given `ip`; a domain that had it loses it. -/
def FakeIPPool.assign (p : FakeIPPool) (domain : Domain) (ip : Addr) : FakeIPPool :=
  { p with
    domainToIP :=
      (match p.ipToDomain.lookup (ipString ip) with
        | some oldDomain => p.domainToIP.erase oldDomain
        | none => p.domainToIP).insert domain ip
    ipToDomain := p.ipToDomain.insert (ipString ip) domain }

/-- The bucket after `domain` was given `ip`. -/
def Bucket.assign (b : Bucket) (p : FakeIPPool) (domain : Domain) (ip : Addr) : Bucket :=
  putFakeIP domain (ipString ip)
    (match p.ipToDomain.lookup (ipString ip) with
      | some oldDomain => deleteFakeIP oldDomain (ipString ip) b
      | none => b)

/-- A pool and the bucket behind it, if the database was opened. -/
structure Node where
  pool : FakeIPPool
  db : Option Bucket

/-- `(*FakeIPPool).Lookup`, with the address it returns; the writes to the database succeed. -/
def Node.lookup (fuel : ℕ) (s : Node) (domain : Domain) : Option (Node × Addr) :=
  match s.pool.domainToIP.lookup domain with
  | some ip => some (s, ip)
  | none =>
      (s.pool.candidate fuel).map fun (ip, pool) =>
        (⟨pool.assign domain ip, s.db.map fun b => b.assign pool domain ip⟩, ip)

/-- `(*FakeIPPool).SetRealIP`. -/
def FakeIPPool.setRealIP (p : FakeIPPool) (fakeIP : Addr) (realIP : Ip) : FakeIPPool :=
  { p with ipToRealIP := p.ipToRealIP.insert (ipString fakeIP) realIP }

/-- `(*FakeIPPool).LookupRealIP`, by the text of the address. -/
def FakeIPPool.lookupRealIP (p : FakeIPPool) (fakeIP : String) : Option Ip := p.ipToRealIP.lookup fakeIP

/-! ## The two maps -/

/-- The two maps are inverse to each other. -/
structure FakeIPPool.Paired (p : FakeIPPool) : Prop where
  domain : ∀ {d a}, p.domainToIP.lookup d = some a → p.ipToDomain.lookup (ipString a) = some d
  ip : ∀ {t d}, p.ipToDomain.lookup t = some d → ∃ a, t = ipString a ∧ p.domainToIP.lookup d = some a

theorem paired_new (subnet : Prefix) (skip : ℕ) : (newFakeIPPoolWithSubnet subnet skip).Paired where
  domain h := by simp [newFakeIPPoolWithSubnet] at h
  ip h := by simp [newFakeIPPoolWithSubnet] at h

variable {ip : Addr} {p : FakeIPPool} {fuel : ℕ}

/-- What the cursor passes leaves everything but the cursor alone. -/
theorem candidate_pool {q : FakeIPPool} (h : p.candidate fuel = some (ip, q)) :
    q = { p with nextIP := q.nextIP } := by
  induction fuel generalizing p with
  | zero => cases h
  | succ fuel ih =>
    unfold candidate at h
    split at h
    · exact ih (p := p.advance) h
    · cases h
      rfl

theorem lookup_assign_ip (p : FakeIPPool) (d : Domain) (a : Addr) (t : String) :
    (p.assign d a).ipToDomain.lookup t = if t = ipString a then some d else p.ipToDomain.lookup t := by
  by_cases h : t = ipString a
  · subst h
    simp [assign]
  · simp [assign, h, AList.lookup_insert_ne h]

/-- A domain keeps its address unless that is the one given away. -/
theorem lookup_assign_domain (d : Domain) (a : Addr) {x : Domain} (hx : x ≠ d) :
    (p.assign d a).domainToIP.lookup x =
      if p.ipToDomain.lookup (ipString a) = some x then none else p.domainToIP.lookup x := by
  simp only [assign, AList.lookup_insert_ne hx]
  cases hold : p.ipToDomain.lookup (ipString a) with
  | none => simp
  | some old =>
    by_cases hxo : x = old
    · subst hxo
      simp
    · simp [AList.lookup_erase_ne hxo, Ne.symm hxo]

@[simp] theorem lookup_assign_self (p : FakeIPPool) (d : Domain) (a : Addr) :
    (p.assign d a).domainToIP.lookup d = some a := by
  simp [assign]

/-- A new domain is given an address. -/
theorem FakeIPPool.Paired.assign (h : p.Paired) {d : Domain} (a : Addr)
    (hnew : p.domainToIP.lookup d = none) : (p.assign d a).Paired where
  domain := by
    intro x b hx
    rw [lookup_assign_ip]
    by_cases hxd : x = d
    · subst hxd
      obtain rfl : a = b := by simpa using hx
      simp
    · rw [lookup_assign_domain d a hxd] at hx
      split at hx
      · cases hx
      · next hold =>
          have hb := h.domain hx
          have hba : ipString b ≠ ipString a := fun he => hold (he ▸ hb)
          rwa [if_neg hba]
  ip := by
    intro t x ht
    rw [lookup_assign_ip] at ht
    split at ht
    · next hta =>
        obtain rfl : d = x := Option.some.inj ht
        exact ⟨a, hta, by simp⟩
    · next hta =>
        obtain ⟨b, rfl, hb⟩ := h.ip ht
        have hxd : x ≠ d := by
          rintro rfl
          simp [hnew] at hb
        refine ⟨b, rfl, ?_⟩
        rw [lookup_assign_domain d a hxd, if_neg, hb]
        -- the domain that loses the address has no other
        intro hold
        obtain ⟨c, hc, hxc⟩ := h.ip hold
        rw [hb, Option.some.injEq] at hxc
        exact hta (hxc ▸ hc.symm)

/-- Everything a `Lookup` can do. -/
theorem lookup_cases {s s' : Node} {d : Domain} (h : s.lookup fuel d = some (s', ip)) :
    (s.pool.domainToIP.lookup d = some ip ∧ s' = s) ∨
      ∃ pool, s.pool.domainToIP.lookup d = none ∧ s.pool.candidate fuel = some (ip, pool) ∧
        s' = ⟨pool.assign d ip, s.db.map fun b => b.assign pool d ip⟩ := by
  unfold Node.lookup at h
  cases hd : s.pool.domainToIP.lookup d with
  | some a =>
    simp only [hd, Option.some.injEq, Prod.mk.injEq] at h
    exact .inl ⟨congrArg some h.2, h.1.symm⟩
  | none =>
    simp only [hd] at h
    obtain ⟨⟨a, pool⟩, hc, he⟩ := map_eq_some_iff.mp h
    cases he
    exact .inr ⟨pool, rfl, hc, rfl⟩

theorem FakeIPPool.Paired.candidate {q : FakeIPPool} (h : p.Paired)
    (hc : p.candidate fuel = some (ip, q)) : q.Paired := by
  rw [candidate_pool hc]
  exact ⟨h.domain, h.ip⟩

/-! ## Real addresses -/

/-- The calls of the DNS hijacker: `realIP` was resolved for `domain`. -/
inductive Call where
  | lookup (domain : Domain)
  | setRealIP (fakeIP : Addr) (realIP : Ip) (domain : Domain)
  deriving DecidableEq

/-- One call. `SetRealIP` is only called while the fake address is mapped to the domain that the real one
was resolved for. -/
def Node.call (fuel : ℕ) (s : Node) : Call → Option Node
  | .lookup domain => (s.lookup fuel domain).map (·.1)
  | .setRealIP fakeIP realIP domain =>
      if s.pool.ipToDomain.lookup (ipString fakeIP) = some domain then
        some { s with pool := s.pool.setRealIP fakeIP realIP }
      else none

/-- What `SetRealIP` recorded last for an address, and the domain the address was mapped to then. -/
abbrev Origins := String → Option (Ip × Domain)

/-- The origins after a call. -/
def observe (s : Node) (c : Call) (_ : Node) (origins : Origins) : Origins :=
  match c with
  | .lookup _ => origins
  | .setRealIP fakeIP realIP _ =>
      update origins (ipString fakeIP)
        ((s.pool.ipToDomain.lookup (ipString fakeIP)).map fun domain => (realIP, domain))

/-- A node with the origins of its real addresses. -/
abbrev Traced := Node × Origins

/-- One call, with its record. -/
abbrev Traced.call (fuel : ℕ) : Traced → Call → Option Traced := recorded (Node.call fuel) observe

/-- What `LookupRealIP` returns was recorded while the address was mapped to the domain that it is mapped
to now. -/
def NoStale (s : Traced) : Prop :=
  ∀ t real, s.1.pool.lookupRealIP t = some real →
    ∃ d, s.1.pool.ipToDomain.lookup t = some d ∧ s.2 t = some (real, d)

/-- A domain without an address is not given one for which a real address is recorded. -/
def Unrecycled (fuel : ℕ) (s : Traced) : Call → Prop
  | .lookup domain => s.1.pool.domainToIP.lookup domain = none →
      ∀ c ∈ s.1.pool.candidate fuel, s.1.pool.lookupRealIP (ipString c.1) = none
  | .setRealIP .. => True

instance (fuel : ℕ) (s : Traced) : (c : Call) → Decidable (Unrecycled fuel s c)
  | .lookup domain =>
      inferInstanceAs (Decidable (s.1.pool.domainToIP.lookup domain = none → ∀ c ∈ _, _))
  | .setRealIP .. => .isTrue trivial

private theorem noStale_step {s s' : Traced} {c : Call} (hpair : s.1.pool.Paired)
    (h : NoStale s) (hok : Unrecycled fuel s c) (hs : Traced.call fuel s c = some s') :
    s'.1.pool.Paired ∧ NoStale s' := by
  obtain ⟨hs, ho⟩ := recorded_eq_some.mp hs
  cases c with
  | setRealIP fakeIP realIP d =>
    simp only [Node.call] at hs
    split at hs
    case isFalse => cases hs
    case isTrue hmap =>
      obtain ⟨s', o'⟩ := s'
      cases hs
      obtain rfl : update s.2 (ipString fakeIP) (some (realIP, d)) = o' := by
        simpa [observe, hmap] using ho
      refine ⟨⟨hpair.domain, hpair.ip⟩, fun t real ht => ?_⟩
      by_cases hti : t = ipString fakeIP
      · subst hti
        obtain rfl : realIP = real := by
          simpa [lookupRealIP, setRealIP] using ht
        exact ⟨d, hmap, by simp⟩
      · simp only [update_of_ne hti]
        refine h t real ?_
        simpa [lookupRealIP, setRealIP, AList.lookup_insert_ne hti] using ht
  | lookup d =>
    obtain ⟨⟨n, ip⟩, hl, hn⟩ := map_eq_some_iff.mp hs
    obtain ⟨s', o'⟩ := s'
    obtain rfl : n = s' := hn
    obtain rfl : s.2 = o' := ho
    rcases lookup_cases hl with ⟨-, rfl⟩ | ⟨pool, hnew, hc, rfl⟩
    · exact ⟨hpair, h⟩
    · have hfree := hok hnew (ip, pool) hc
      have hpool := candidate_pool hc
      have hmaps : pool.domainToIP = s.1.pool.domainToIP ∧ pool.ipToDomain = s.1.pool.ipToDomain ∧
          pool.ipToRealIP = s.1.pool.ipToRealIP := by
        rw [hpool]
        exact ⟨rfl, rfl, rfl⟩
      refine ⟨(hpair.candidate hc).assign ip (hmaps.1 ▸ hnew), fun t real ht => ?_⟩
      have ht : s.1.pool.lookupRealIP t = some real := by
        simpa [lookupRealIP, assign, hmaps.2.2] using ht
      have hti : t ≠ ipString ip := by
        rintro rfl
        simp [hfree] at ht
      obtain ⟨x, hx, hor⟩ := h t real ht
      exact ⟨x, by rwa [lookup_assign_ip, if_neg hti, hmaps.2.1], hor⟩

/-- An address with a recorded real address is given to another domain. -/
private theorem not_noStale {s s' : Traced} {c : Call} (hpair : s.1.pool.Paired)
    (h : NoStale s) (hok : ¬ Unrecycled fuel s c) (hs : Traced.call fuel s c = some s') :
    ¬ NoStale s' := by
  obtain ⟨hs, ho⟩ := recorded_eq_some.mp hs
  cases c with
  | setRealIP => exact absurd trivial hok
  | lookup d =>
    simp only [Unrecycled] at hok
    push Not at hok
    obtain ⟨hnew, ⟨ip, pool⟩, hc, hreal⟩ := hok
    obtain ⟨real, hreal⟩ := ne_none_iff_exists'.mp hreal
    obtain ⟨old, hold, hor⟩ := h _ real hreal
    obtain ⟨a, -, hmap⟩ := hpair.ip hold
    have hmem : s.1.pool.candidate fuel = some (ip, pool) := hc
    have hpool : pool.ipToRealIP = s.1.pool.ipToRealIP := by rw [candidate_pool hmem]
    simp only [Node.call, Node.lookup, hnew, hmem, map_some, Option.some.injEq] at hs
    intro hafter
    obtain ⟨x, hx, hxo⟩ := hafter (ipString ip) real (by
      rw [← hs]
      simpa [lookupRealIP, assign, hpool] using hreal)
    obtain rfl : d = x := by simpa [← hs, lookup_assign_ip] using hx
    -- the record still has the domain that lost the address
    have hsame : old = d := by
      have ho : s.2 = s'.2 := ho
      rw [← ho, hor, Option.some.injEq, Prod.mk.injEq] at hxo
      exact hxo.2
    rw [hsame, hnew] at hmap
    cases hmap

/-- The pool of 10.0.0.0/28 without its first ten addresses: five addresses are given away. -/
def smallPool : FakeIPPool := newFakeIPPoolWithSubnet ⟨0x0a000000, 28, by decide, by decide⟩ 9

end FakeIp
