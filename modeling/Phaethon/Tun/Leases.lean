import Mathlib.Tactic.IntervalCases
import Phaethon.Tun.Dhcp

/-!
# Who holds which address

The lease table, as long as requests are for addresses that are free: an address has one holder, and it
is a host address of the subnet from the pool or the client's own binding. `allocateIP` sees to both, but
a `REQUEST` enters whatever it is for, and a generated pool need not be made of host addresses.
-/

namespace Dhcp

open List Ipv4 AList Server

open Ipv4 (Addr)

/-- A host address of the interface's subnet other than the server's. -/
structure Iface.Usable (iface : Iface) (ip : Addr) : Prop where
  subnet : network ip iface.len = network iface.ip iface.len
  not_server : ip ≠ iface.ip
  not_network : ip ≠ network iface.ip iface.len
  not_broadcast : ip ≠ broadcast iface.ip iface.len

/-- The pool is a range of such addresses. -/
structure Iface.Fits (iface : Iface) (first last : Addr) : Prop where
  nonempty : first ≤ last
  usable : ∀ ip, first ≤ ip → ip ≤ last → iface.Usable ip

/-! ## Generated pools -/

section AutoPool

variable {iface : Iface}

theorem autoPoolSize_bounds {len : ℕ} (h₁ : 8 ≤ len) (h₂ : len ≤ 28) :
    10 ≤ (autoPoolSize len).toNat ∧ (autoPoolSize len).toNat + 2 ≤ 2 ^ (32 - len) := by
  interval_cases len <;> decide

theorem Iface.usable_iff {ip : Addr} (hserver : ip ≠ iface.ip) :
    iface.Usable ip ↔
      (network iface.ip iface.len).toNat < ip.toNat ∧
        ip.toNat < (broadcast iface.ip iface.len).toNat := by
  constructor
  · intro h
    obtain ⟨hlow, hhigh⟩ := network_eq_network_iff.mp h.subnet
    have hnetwork := mt BitVec.eq_of_toNat_eq h.not_network
    have hbroadcast := mt BitVec.eq_of_toNat_eq h.not_broadcast
    omega
  · rintro ⟨hlow, hhigh⟩
    refine ⟨network_eq_network_iff.mpr ⟨by omega, by omega⟩, hserver, ?_, ?_⟩
    · rintro rfl
      omega
    · rintro rfl
      omega

/-- A generated pool ends below the last address of the subnet. -/
theorem toNat_autoPool_snd (hlen : iface.len ≤ 29) :
    (autoPool iface).2.toNat + 1 = (broadcast iface.ip iface.len).toNat := by
  have hpow : 2 ^ 3 ≤ 2 ^ (32 - iface.len) := Nat.pow_le_pow_right (by omega) (by omega)
  have hpos : 1 ≤ (broadcast iface.ip iface.len).toNat := by
    rw [toNat_broadcast]
    omega
  show (broadcast iface.ip iface.len - 1).toNat + 1 = _
  bv_omega

/-- Down to prefixes of 28 bits it begins above the first. -/
theorem toNat_autoPool_fst (h₁ : 8 ≤ iface.len) (h₂ : iface.len ≤ 28) :
    (network iface.ip iface.len).toNat < (autoPool iface).1.toNat ∧
      (autoPool iface).1.toNat ≤ (autoPool iface).2.toNat := by
  obtain ⟨hlow, hhigh⟩ := autoPoolSize_bounds h₁ h₂
  have hlast : (autoPool iface).2.toNat + 1 = _ := toNat_autoPool_snd (by omega)
  have hbroadcast := toNat_broadcast iface.ip iface.len
  show _ < ((autoPool iface).2 - autoPoolSize iface.len + 1).toNat ∧
    ((autoPool iface).2 - autoPoolSize iface.len + 1).toNat ≤ _
  bv_omega

/-- Which generated pools consist of host addresses: a pool has at least ten addresses, more than a
subnet of 29 bits can hold, and nothing keeps the server's address out of it. -/
theorem autoPool_fits_iff (h₁ : 8 ≤ iface.len) (h₂ : iface.len ≤ 29) :
    iface.Fits (autoPool iface).1 (autoPool iface).2 ↔
      iface.len ≤ 28 ∧ ¬ ((autoPool iface).1 ≤ iface.ip ∧ iface.ip ≤ (autoPool iface).2) := by
  have hlast := toNat_autoPool_snd h₂
  constructor
  · intro h
    refine ⟨?_, fun hserver => (h.usable iface.ip hserver.1 hserver.2).not_server rfl⟩
    by_contra hlen
    obtain hlen : iface.len = 29 := by omega
    have hfirst := h.usable _ (BitVec.le_refl _) h.nonempty
    obtain ⟨hlow, _⟩ := (Iface.usable_iff hfirst.not_server).mp hfirst
    have hsize : autoPoolSize iface.len = 10#32 := by
      rw [hlen]
      decide
    have hbroadcast := toNat_broadcast iface.ip iface.len
    have hnetwork := toNat_network iface.ip iface.len
    have hle : (autoPool iface).2 - 10#32 + 1 ≤ (autoPool iface).2 := hsize ▸ h.nonempty
    have hbelow : (network iface.ip iface.len).toNat <
        ((autoPool iface).2 - 10#32 + 1).toNat := hsize ▸ hlow
    simp only [hlen, Nat.reduceSub, Nat.reducePow] at hbroadcast hnetwork hlast hbelow
    bv_omega
  · rintro ⟨hlen, hserver⟩
    obtain ⟨hlow, hle⟩ := toNat_autoPool_fst h₁ hlen
    refine ⟨hle, fun ip hfirst hip => ?_⟩
    have hne : ip ≠ iface.ip := by
      rintro rfl
      exact hserver ⟨hfirst, hip⟩
    rw [BitVec.le_def] at hfirst hip
    exact (Iface.usable_iff hne).mpr ⟨by omega, by omega⟩

end AutoPool

/-! ## The lease table -/

/-- The address is in the pool that the server started with. -/
def Server.InPool (start : Server) (ip : Addr) : Prop :=
  start.poolNext ≤ ip ∧ ip ≤ start.poolEnd

/-- The client may have the address: it is a host address, from the pool or its own binding. -/
def Server.Admits (start : Server) (iface : Iface) (mac : String) (ip : Addr) : Prop :=
  iface.Usable ip ∧ (start.InPool ip ∨ start.staticBindings.lookup mac = some ip)

/-- Nobody else holds the address from `now` on. -/
def Free (leases : Table Lease) (now : ℕ) (mac : String) (ip : Addr) : Prop :=
  ∀ other lease, other ≠ mac → leases.lookup other = some lease → lease.ip = ip →
    lease.expires ≤ now

/-- At `now` every address has one holder, and every lease is one its client may have. -/
structure Sound (iface : Iface) (start : Server) (leases : Table Lease) (now : ℕ) : Prop where
  exclusive : ∀ {mac₁ mac₂ lease₁ lease₂}, mac₁ ≠ mac₂ → leases.lookup mac₁ = some lease₁ →
    leases.lookup mac₂ = some lease₂ → now < lease₁.expires → now < lease₂.expires →
    lease₁.ip ≠ lease₂.ip
  admitted : ∀ {mac lease}, leases.lookup mac = some lease → start.Admits iface mac lease.ip

section Table

variable {iface : Iface} {start : Server} {leases : Table Lease} {now later : ℕ} {mac : String}
  {ip : Addr}

/-- A lease in the table after a write is the one written, or an old one of another client. -/
theorem lookup_insert_cases {β : Type} {table : Table β} {other : String} {new found : β}
    (h : (table.insert mac new).lookup other = some found) :
    other = mac ∧ found = new ∨ other ≠ mac ∧ table.lookup other = some found := by
  by_cases hother : other = mac
  · rw [hother, lookup_insert] at h
    exact .inl ⟨hother, (Option.some.inj h).symm⟩
  · rw [lookup_insert_ne hother] at h
    exact .inr ⟨hother, h⟩

theorem sound_empty : Sound iface start ∅ now := by
  constructor
  · intro mac₁ mac₂ lease₁ lease₂ _ h₁
    cases h₁
  · intro mac lease h
    cases h

/-- Leases only run out by themselves. -/
theorem Sound.mono (h : Sound iface start leases now) (hle : now ≤ later) : Sound iface start leases later :=
  ⟨fun hne h₁ h₂ hl₁ hl₂ => h.exclusive hne h₁ h₂ (by omega) (by omega), h.admitted⟩

theorem Free.mono (h : Free leases now mac ip) (hle : now ≤ later) : Free leases later mac ip :=
  fun other lease hne hl hip => (h other lease hne hl hip).trans hle

section

variable (h : Sound iface start leases now)

include h

/-- What a client holds is free for it. -/
theorem Sound.free {lease : Lease}
    (hlease : leases.lookup mac = some lease) (hactive : now < lease.expires) :
    Free leases now mac lease.ip := by
  intro other l hne hl hip
  by_contra hactive'
  exact h.exclusive hne hl hlease (by omega) hactive hip

theorem Sound.erase (mac : String) : Sound iface start (leases.erase mac) now := by
  have hold {other : String} {lease : Lease} (hl : (leases.erase mac).lookup other = some lease) :
      leases.lookup other = some lease := by
    by_cases hne : other = mac
    · rw [hne, lookup_erase] at hl
      cases hl
    · rwa [lookup_erase_ne hne] at hl
  exact ⟨fun hne h₁ h₂ => h.exclusive hne (hold h₁) (hold h₂), fun hl => h.admitted (hold hl)⟩

/-- An address that is free for a client, and that it may have, can be leased to it. -/
theorem Sound.insert (hle : now ≤ later) {lease : Lease}
    (hfree : Free leases later mac lease.ip) (hadmits : start.Admits iface mac lease.ip) :
    Sound iface start (leases.insert mac lease) later := by
  constructor
  · intro mac₁ mac₂ lease₁ lease₂ hne h₁ h₂ hl₁ hl₂
    rcases lookup_insert_cases h₁ with ⟨hm₁, rfl⟩ | ⟨hm₁, hold₁⟩
    · rcases lookup_insert_cases h₂ with ⟨hm₂, _⟩ | ⟨hm₂, hold₂⟩
      · exact absurd (hm₁.trans hm₂.symm) hne
      · intro hip
        have := hfree mac₂ lease₂ hm₂ hold₂ hip.symm
        omega
    · rcases lookup_insert_cases h₂ with ⟨_, rfl⟩ | ⟨_, hold₂⟩
      · intro hip
        have := hfree mac₁ lease₁ hm₁ hold₁ hip
        omega
      · exact h.exclusive hne hold₁ hold₂ (by omega) (by omega)
  · intro other l hl
    rcases lookup_insert_cases hl with ⟨hmac, rfl⟩ | ⟨_, hl⟩
    · exact hmac ▸ hadmits
    · exact h.admitted hl

end

end Table

/-! ## Finding an address -/

section Allocate

variable {iface : Iface} {start s t : Server} {now later n : ℕ} {mac : String} {ip : Addr}

/-- A search of the table that would have found another holder found none. -/
theorem free_of_any_eq_false {leases : Table Lease} {found : (_ : String) × Lease → Bool}
    (h : leases.entries.any found = false)
    (hfound : ∀ other lease, other ≠ mac → lease.ip = ip → now < lease.expires →
      found ⟨other, lease⟩ = true) : Free leases now mac ip := by
  intro other lease hne hl hip
  by_contra hactive
  have hmem : Sigma.mk other lease ∈ leases.entries := mem_lookup_iff.mp hl
  exact any_eq_false.mp h _ hmem (hfound other lease hne hip (by omega))

theorem Server.free_of_not_leased (h : s.leased now ip = false) : Free s.leases now mac ip :=
  free_of_any_eq_false h fun _ _ _ hip hactive => decide_eq_true ⟨hip, hactive⟩

theorem Server.free_of_no_conflict (h : s.conflict now mac ip = false) : Free s.leases now mac ip :=
  free_of_any_eq_false h fun _ _ hne hip hactive => decide_eq_true ⟨hne, hip, hactive⟩

/-- What the configuration has to give: a pool of host addresses that is not left at its end, and host
addresses for the bindings. -/
structure Server.Sane (start : Server) (iface : Iface) : Prop where
  fits : iface.Fits start.poolNext start.poolEnd
  wraps : ∀ {ip}, start.poolStart = some ip → start.InPool ip
  bound : ∀ {mac ip}, start.staticBindings.lookup mac = some ip → iface.Usable ip

/-- What messages leave alone, and that the cursor stays in the pool. -/
structure Server.Kept (start s : Server) : Prop where
  poolEnd : s.poolEnd = start.poolEnd
  poolStart : s.poolStart = start.poolStart
  bindings : s.staticBindings = start.staticBindings
  cursor : start.InPool s.poolNext

theorem Server.Sane.admits_of_inPool (h : start.Sane iface) (hip : start.InPool ip) : start.Admits iface mac ip :=
  ⟨h.fits.usable ip hip.1 hip.2, .inl hip⟩

theorem Server.Sane.admits_of_bound (h : start.Sane iface)
    (hip : start.staticBindings.lookup mac = some ip) : start.Admits iface mac ip :=
  ⟨h.bound hip, .inr hip⟩

theorem Server.Kept.advancePool (h : start.Kept s) (hsane : start.Sane iface) : start.Kept s.advancePool := by
  refine ⟨h.poolEnd, h.poolStart, h.bindings, ?_⟩
  show start.InPool (if s.poolEnd < s.poolNext + 1 then s.poolStart.getD s.poolNext
    else s.poolNext + 1)
  rw [h.poolEnd, h.poolStart]
  split
  case isTrue =>
      cases hstart : start.poolStart with
      | none => exact h.cursor
      | some ip => exact hsane.wraps hstart
  case isFalse hend =>
      -- the pool ends below the last address of its subnet, so the cursor does not overflow
      have hlast := hsane.fits.usable _ hsane.fits.nonempty (BitVec.le_refl _)
      obtain ⟨_, hbelow⟩ := (Iface.usable_iff hlast.not_server).mp hlast
      obtain ⟨hlow, hhigh⟩ := h.cursor
      unfold InPool
      bv_omega

/-- An address that `allocateIP` returns, with the server after it. -/
structure Offer (iface : Iface) (start : Server) (leases : Table Lease) (now : ℕ) (mac : String)
    (ip : Addr) (t : Server) : Prop where
  free : Free leases now mac ip
  admits : start.Admits iface mac ip
  overwritten : ∀ lease, t.leases.insert mac lease = leases.insert mac lease

/-- What `allocateIP` does: it keeps the configuration, and either leaves the leases as they are or makes
an offer. -/
def Allocated (iface : Iface) (start : Server) (leases : Table Lease) (now : ℕ) (mac : String)
    (r : Option Addr × Server) : Prop :=
  start.Kept r.2 ∧
    match r.1 with
    | none => r.2.leases = leases
    | some ip => Offer iface start leases now mac ip r.2

theorem Server.allocated_hold (hkept : start.Kept s) (hfree : Free s.leases now mac ip)
    (hadmits : start.Admits iface mac ip) :
    Allocated iface start s.leases now mac (some ip, s.hold mac ip now) :=
  ⟨⟨hkept.poolEnd, hkept.poolStart, hkept.bindings, hkept.cursor⟩, hfree, hadmits,
    fun _ => insert_insert _⟩

/-- The loop only moves the cursor, which stays in the pool, until it takes a candidate that is free. -/
theorem Server.scan_allocated (hsane : start.Sane iface) (hkept : start.Kept s) {startIP : Addr}
    {r : Option Addr × Server} (h : scan mac now startIP n s = some r) :
    Allocated iface start s.leases now mac r := by
  induction n generalizing s with
  | zero => cases h
  | succ n ih =>
    have hnext : start.Kept s.advancePool := hkept.advancePool hsane
    simp only [scan] at h
    split at h
    case isTrue hfree =>
        cases h
        rw [Bool.not_eq_true, inUse, Bool.or_eq_false_iff] at hfree
        have hfree : Free s.advancePool.leases now mac s.poolNext :=
          free_of_not_leased (s := s) hfree.1
        exact allocated_hold (s := s.advancePool) hnext hfree
          (hsane.admits_of_inPool hkept.cursor)
    case isFalse =>
        split at h
        case isTrue =>
            cases h
            exact ⟨hnext, rfl⟩
        case isFalse => exact ih (s := s.advancePool) hnext h

theorem Server.allocateDynamic_allocated (hsane : start.Sane iface) (hkept : start.Kept s)
    (hsound : Sound iface start s.leases now) {r : Option Addr × Server}
    (h : s.allocateDynamic mac now n = some r) : Allocated iface start s.leases now mac r := by
  unfold allocateDynamic at h
  split at h
  case h_1 lease hlease =>
      split at h
      case isTrue hactive =>
          cases h
          exact ⟨hkept, hsound.free hlease hactive, hsound.admitted hlease, fun _ => rfl⟩
      case isFalse => exact scan_allocated hsane hkept h
  case h_2 => exact scan_allocated hsane hkept h

theorem Server.allocateIP_allocated (hsane : start.Sane iface) (hkept : start.Kept s)
    (hsound : Sound iface start s.leases now) {r : Option Addr × Server}
    (h : s.allocateIP mac now n = some r) : Allocated iface start s.leases now mac r := by
  unfold allocateIP at h
  split at h
  case h_1 ip hip =>
      split at h
      case isTrue => exact allocateDynamic_allocated hsane hkept hsound h
      case isFalse hfree =>
          cases h
          rw [hkept.bindings] at hip
          exact allocated_hold hkept (free_of_no_conflict (Bool.eq_false_of_not_eq_true hfree))
            (hsane.admits_of_bound hip)
  case h_2 => exact allocateDynamic_allocated hsane hkept hsound h

end Allocate

/-! ## Messages -/

/-- What holds between messages. -/
structure Inv (iface : Iface) (start : Server) (r : Running) : Prop where
  kept : start.Kept r.server
  sound : Sound iface start r.server.leases r.clock

/-- The address that a `REQUEST` is answered with, if the message is one that is answered. -/
def Server.asked (s : Server) (m : Message) : Option Addr :=
  if m.op = 1 ∧ s.ifaceMac ≠ some (macString m.clientMAC) ∧ m.messageType = dhcpRequest then
    m.wanted.map (s.staticBindings.lookup (macString m.clientMAC)).getD
  else none

/-- A `REQUEST` is for the address that the client holds, or for one that is free and that it may
have. -/
def AsksFree (iface : Iface) (start : Server) (r : Running) (a : Arrival) : Prop :=
  ∀ ip, r.server.asked a.message = some ip →
    (∃ lease, r.server.leases.lookup (macString a.message.clientMAC) = some lease ∧
      lease.ip = ip ∧ a.now < lease.expires) ∨
    Free r.server.leases a.now (macString a.message.clientMAC) ip ∧
      start.Admits iface (macString a.message.clientMAC) ip

section Messages

variable {iface : Iface} {start s t : Server} {now later n : ℕ} {mac : String} {m : Message}

theorem Server.Kept.setLease (h : start.Kept s) (mac : String) (lease : Lease) : start.Kept (s.setLease mac lease) :=
  ⟨h.poolEnd, h.poolStart, h.bindings, h.cursor⟩

theorem Server.discover_inv (hsane : start.Sane iface) (hkept : start.Kept s)
    (hsound : Sound iface start s.leases now) (hle : now ≤ later)
    (h : s.discover m mac now later n = some t) : Inv iface start ⟨t, later⟩ := by
  obtain ⟨⟨offered, u⟩, halloc, rfl⟩ := Option.map_eq_some_iff.mp h
  obtain ⟨hu, hoffer⟩ := allocateIP_allocated hsane hkept hsound halloc
  cases offered with
  | none =>
    have hsame : u.leases = s.leases := hoffer
    exact ⟨hu, hsame ▸ hsound.mono hle⟩
  | some ip =>
    refine ⟨hu.setLease _ _, ?_⟩
    show Sound iface start (u.leases.insert mac _) later
    rw [hoffer.overwritten]
    exact hsound.insert hle (hoffer.free.mono hle) hoffer.admits

theorem Server.request_inv (hkept : start.Kept s) (hsound : Sound iface start s.leases now)
    (hle : now ≤ later) {wanted : Addr} (hasks : (∃ lease, s.leases.lookup mac = some lease ∧
        lease.ip = (s.staticBindings.lookup mac).getD wanted ∧ now < lease.expires) ∨
      Free s.leases now mac ((s.staticBindings.lookup mac).getD wanted) ∧
        start.Admits iface mac ((s.staticBindings.lookup mac).getD wanted)) :
    Inv iface start ⟨s.request m mac wanted now later, later⟩ := by
  generalize hip : (s.staticBindings.lookup mac).getD wanted = ip at hasks
  -- either way the address is free for the client and one that it may have
  have hfree : Free s.leases now mac ip ∧ start.Admits iface mac ip := by
    rcases hasks with ⟨lease, hlease, rfl, hactive⟩ | h
    · exact ⟨hsound.free hlease hactive, hsound.admitted hlease⟩
    · exact h
  have hentered (lease : Lease) (h : lease.ip = ip) :
      Inv iface start ⟨s.setLease mac lease, later⟩ :=
    ⟨hkept.setLease mac lease, hsound.insert hle (h ▸ hfree.1.mono hle) (h ▸ hfree.2)⟩
  unfold request
  simp only [hip]
  split
  case h_1 lease hlease =>
      split
      case isTrue hsame => exact hentered _ hsame.1
      case isFalse => exact hentered _ rfl
  case h_2 => exact hentered _ rfl

/-- The branches of `handleMessage`. -/
theorem Server.handleMessage_cases (h : s.handleMessage m now later n = some t) :
    t = s ∨ s.discover m (macString m.clientMAC) now later n = some t ∨
      (∃ wanted, s.ifaceMac ≠ some (macString m.clientMAC) ∧ m.messageType = dhcpRequest ∧
        m.wanted = some wanted ∧ t = s.request m (macString m.clientMAC) wanted now later) ∨
      t = { s with leases := s.leases.erase (macString m.clientMAC) } := by
  simp only [handleMessage] at h
  by_cases hown : s.ifaceMac = some (macString m.clientMAC)
  · rw [if_pos hown] at h
    exact .inl (Option.some.inj h).symm
  rw [if_neg hown] at h
  by_cases hdiscover : m.messageType = dhcpDiscover
  · rw [if_pos hdiscover] at h
    exact .inr (.inl h)
  rw [if_neg hdiscover] at h
  by_cases hrequest : m.messageType = dhcpRequest
  · rw [if_pos hrequest] at h
    cases hwanted : m.wanted with
    | none =>
      rw [hwanted] at h
      exact .inl (Option.some.inj h).symm
    | some wanted =>
      rw [hwanted] at h
      exact .inr (.inr (.inl ⟨wanted, hown, hrequest, rfl, (Option.some.inj h).symm⟩))
  rw [if_neg hrequest] at h
  split at h
  · exact .inr (.inr (.inr (Option.some.inj h).symm))
  · exact .inl (Option.some.inj h).symm

/-- One message. -/
theorem receive_inv {r r' : Running} {a : Arrival} (hsane : start.Sane iface)
    (h : Inv iface start r) (hasks : AsksFree iface start r a) (hstep : receive r a = some r') :
    Inv iface start r' := by
  unfold receive at hstep
  split at hstep
  case isFalse => cases hstep
  case isTrue htime =>
      obtain ⟨hclock, hle⟩ := htime
      have hsound : Sound iface start r.server.leases a.now := h.sound.mono hclock
      have hunchanged : Inv iface start ⟨r.server, a.later⟩ := ⟨h.kept, hsound.mono hle⟩
      split at hstep
      case isTrue => exact Option.some.inj hstep ▸ hunchanged
      case isFalse hop =>
          obtain ⟨t, hhandle, rfl⟩ := Option.map_eq_some_iff.mp hstep
          rcases handleMessage_cases hhandle with
            rfl | hdiscover | ⟨wanted, hown, hrequest, hwanted, rfl⟩ | rfl
          · exact hunchanged
          · exact discover_inv hsane h.kept hsound hle hdiscover
          · refine request_inv h.kept hsound hle (hasks _ ?_)
            rw [asked, if_pos ⟨not_not.mp hop, hown, hrequest⟩, hwanted]
            rfl
          · exact ⟨⟨h.kept.poolEnd, h.kept.poolStart, h.kept.bindings, h.kept.cursor⟩,
              (hsound.mono hle).erase _⟩

end Messages

/-! ## Runs -/

/-- A configuration that makes sense: a configured pool consists of host addresses, and so do the static
bindings, which are for different clients. -/
structure DHCPConfig.Proper (cfg : DHCPConfig) (iface : Iface) : Prop where
  len_ge : 8 ≤ iface.len
  len_le : iface.len ≤ 29
  pool : cfg.Explicit → ∀ {first last}, cfg.pool iface = .ok (first, last) → iface.Fits first last
  bound : ∀ b ∈ cfg.staticBindings, iface.Usable b.ip
  distinct : ∀ b ∈ cfg.staticBindings, ∀ b' ∈ cfg.staticBindings, b.ip = b'.ip →
    macString b.mac = macString b'.mac

/-- What a generated pool needs: room in the subnet, the server's address outside of it and, if only the
start of a pool is configured, that start inside of it. -/
structure DHCPConfig.PoolFits (cfg : DHCPConfig) (iface : Iface) : Prop where
  len_le : ¬ cfg.Explicit → iface.len ≤ 28
  not_server : ¬ cfg.Explicit → ¬ ((autoPool iface).1 ≤ iface.ip ∧ iface.ip ≤ (autoPool iface).2)
  wraps : ¬ cfg.Explicit → ∀ ip, parse4 cfg.poolStart = some ip →
    (autoPool iface).1 ≤ ip ∧ ip ≤ (autoPool iface).2

section Runs

variable {iface : Iface} {cfg : DHCPConfig} {start : Server}

theorem lookup_bindings {bindings : List StaticBinding} {table : Table Addr} {mac : String} {ip : Addr}
    (h : (bindings.foldl (fun t b => t.insert (macString b.mac) b.ip) table).lookup mac = some ip) :
    table.lookup mac = some ip ∨ ∃ b ∈ bindings, b.ip = ip := by
  induction bindings generalizing table with
  | nil => exact .inl h
  | cons b bindings ih =>
    rcases ih h with hold | ⟨b', hb', hip⟩
    · rcases lookup_insert_cases hold with ⟨_, hip⟩ | ⟨_, hold⟩
      · exact .inr ⟨b, mem_cons_self, hip.symm⟩
      · exact .inl hold
    · exact .inr ⟨b', mem_cons_of_mem b hb', hip⟩

/-- A configured pool begins where the cursor returns to. -/
theorem DHCPConfig.pool_of_explicit {first last : Addr} (hexplicit : cfg.Explicit)
    (h : cfg.pool iface = .ok (first, last)) : parse4 cfg.poolStart = some first := by
  rw [pool, if_pos hexplicit] at h
  split at h
  case h_1 first' last' hfirst _ =>
      obtain ⟨rfl, rfl⟩ := Prod.mk.inj (Except.ok.inj h)
      exact hfirst
  case h_2 => cases h

theorem newDHCPServerImpl_eq_ok (h : newDHCPServerImpl iface cfg = .ok start) :
    ∃ first last, cfg.pool iface = .ok (first, last) ∧
      start = ⟨∅, first, last, parse4 cfg.poolStart, cfg.leaseDuration,
        cfg.staticBindings.foldl (fun t b => t.insert (macString b.mac) b.ip) ∅, iface.mac⟩ := by
  unfold newDHCPServerImpl at h
  cases hpool : cfg.pool iface with
  | error e =>
    rw [hpool] at h
    cases h
  | ok pool =>
    rw [hpool] at h
    exact ⟨pool.1, pool.2, rfl, (Except.ok.inj h).symm⟩

theorem sane_of_new (hproper : cfg.Proper iface) (hfits : cfg.PoolFits iface)
    (h : newDHCPServerImpl iface cfg = .ok start) : start.Sane iface := by
  obtain ⟨first, last, hpool, rfl⟩ := newDHCPServerImpl_eq_ok h
  have hbound : ∀ {mac ip}, (cfg.staticBindings.foldl
      (fun t b => t.insert (macString b.mac) b.ip) (∅ : Table Addr)).lookup mac = some ip →
      iface.Usable ip := by
    intro mac ip hip
    rcases lookup_bindings hip with hempty | ⟨b, hb, rfl⟩
    · cases hempty
    · exact hproper.bound b hb
  by_cases hexplicit : cfg.Explicit
  · have hrange := hproper.pool hexplicit hpool
    refine ⟨hrange, fun {ip} hip => ?_, hbound⟩
    obtain rfl : first = ip :=
      Option.some.inj ((DHCPConfig.pool_of_explicit hexplicit hpool).symm.trans hip)
    exact ⟨BitVec.le_refl _, hrange.nonempty⟩
  · rw [DHCPConfig.pool, if_neg hexplicit] at hpool
    obtain ⟨rfl, rfl⟩ := Prod.mk.inj (Except.ok.inj hpool)
    refine ⟨?_, fun hip => hfits.wraps hexplicit _ hip, hbound⟩
    exact (autoPool_fits_iff hproper.len_ge hproper.len_le).mpr
      ⟨hfits.len_le hexplicit, hfits.not_server hexplicit⟩

theorem inv_of_new (hsane : start.Sane iface) (h : newDHCPServerImpl iface cfg = .ok start)
    (clock : ℕ) : Inv iface start ⟨start, clock⟩ := by
  refine ⟨⟨rfl, rfl, rfl, BitVec.le_refl _, hsane.fits.nonempty⟩, ?_⟩
  obtain ⟨first, last, _, rfl⟩ := newDHCPServerImpl_eq_ok h
  exact sound_empty

end Runs

/-! ## One subnet -/

/-- 10.0.0.1/24. -/
def lan : Iface := ⟨0x0a000001, 24, none⟩

/-- The generated pool, 10.0.0.205 to 10.0.0.254. -/
def generated : DHCPConfig := ⟨"", "", none, []⟩

theorem generated_proper : generated.Proper lan where
  len_ge := by decide
  len_le := by decide
  pool h := absurd rfl h.1
  bound b hb := by cases hb
  distinct b hb := by cases hb

theorem generated_poolFits : generated.PoolFits lan where
  len_le _ := by decide
  not_server _ := by decide
  wraps _ ip h := by cases h

/-- A message of the client 02:00:00:00:00:`client`, for the address 10.0.0.`host` if it is a request. -/
def message (type client host : UInt8) : Message where
  op := 1
  hlen := 6
  ciaddr := 0
  chaddr := [2, 0, 0, 0, 0, client, 0, 0, 0, 0, 0, 0, 0, 0, 0, 0]
  options code :=
    if code = optMessageType then some [type]
    else if code = optRequestedIP then some [10, 0, 0, host]
    else none

end Dhcp
