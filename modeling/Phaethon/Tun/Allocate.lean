import Phaethon.Common.Orbit
import Phaethon.Tun.Leases

/-!
# Whether an address is found

The loop of `allocateIP` follows the cursor through the pool until it meets an address that is not in use
or is back where it began. At the end of the pool the cursor goes on at the configured start, and stays
where it is without one: then the loop does not see what lies before the cursor, and does not end if all
that lies behind it is in use.
-/

namespace Dhcp

open Function List Server Orbit AList

open Ipv4 (Addr)

/-- Where `advancePool` moves the cursor from `ip`. -/
def Server.after (s : Server) (ip : Addr) : Addr :=
  if s.poolEnd < ip + 1 then s.poolStart.getD ip else ip + 1

/-- The loop of `allocateIP` is entered: the client has no binding that is free for it and no lease. -/
def Server.scans (s : Server) (mac : String) (now : ℕ) : Bool :=
  (s.staticBindings.lookup mac).all (s.conflict now mac) &&
    (s.leases.lookup mac).all (·.expires ≤ now)

/-- The candidates of the loop, in the order in which it looks at them. -/
def Server.candidates (now : ℕ) (startIP : Addr) : ℕ → Server → List Addr
  | 0, _ => []
  | n + 1, s =>
      s.poolNext ::
        if s.inUse now s.poolNext ∧ s.advancePool.poolNext ≠ startIP then
          candidates now startIP n s.advancePool
        else []

/-- The pool addresses that `allocateIP` looks at. -/
def Server.examined (s : Server) (mac : String) (now n : ℕ) : List Addr :=
  if s.scans mac now then candidates now s.poolNext n s else []

/-- Another client holds the address or is bound to it. -/
def Server.Taken (s : Server) (mac : String) (now : ℕ) (ip : Addr) : Prop :=
  (∃ other lease, other ≠ mac ∧ s.leases.lookup other = some lease ∧ lease.ip = ip ∧
    now < lease.expires) ∨
  ∃ other, other ≠ mac ∧ s.staticBindings.lookup other = some ip

/-- `allocateIP` returns after looking at no address twice, and without an address only if none of the
pool is left for the client. -/
def Server.Completes (start s : Server) (mac : String) (now : ℕ) : Prop :=
  ∃ n r, s.allocateIP mac now n = some r ∧ (s.examined mac now n).Nodup ∧
    (r.1 = none → ∀ ip, start.InPool ip → s.Taken mac now ip)

/-! ## The way of the cursor -/

variable (s : Server)

/-- Where the cursor goes on behind the last address. -/
def Server.wrapsTo : Addr :=
  if s.poolEnd = 0xffffffff then 0 else s.poolStart.getD s.poolEnd

/-- What the cursor comes to: the rest of the pool, what lies between the start and the cursor, and a start
that is not in the pool. -/
def Server.Ahead (ip : Addr) : Prop :=
  s.poolNext ≤ ip ∧ ip ≤ s.poolEnd ∨ s.wrapsTo ≤ ip ∧ ip < s.poolNext ∨
    s.poolEnd < s.wrapsTo ∧ (ip = s.wrapsTo ∨ s.wrapsTo = 0xffffffff ∧ ip < s.poolNext)

/-- The cursor comes back to where it is. -/
def Server.ComesBack : Prop :=
  s.wrapsTo ≤ s.poolNext ∨ s.poolEnd < s.wrapsTo ∧ s.wrapsTo = 0xffffffff

section Way

variable {s : Server} {ip ip' : Addr}

theorem Server.after_of_lt (h : ip < s.poolEnd) : s.after ip = ip + 1 :=
  if_neg (by bv_omega)

theorem Server.after_poolEnd : s.after s.poolEnd = s.wrapsTo := by
  unfold after wrapsTo
  generalize s.poolEnd = last
  by_cases hmax : last = 0xffffffff
  · rw [if_pos hmax, if_neg (by bv_omega)]
    bv_omega
  · rw [if_neg hmax, if_pos (by bv_omega)]

/-- A start behind the end is kept, up to the overflow. -/
theorem Server.after_of_gt (h : s.poolEnd < s.wrapsTo) :
    s.after s.wrapsTo = if s.wrapsTo = 0xffffffff then 0 else s.wrapsTo := by
  have hlast : s.poolEnd ≠ 0xffffffff := by bv_omega
  have hwraps : s.wrapsTo = s.poolStart.getD s.poolEnd := if_neg hlast
  have hstart : s.poolStart.getD s.wrapsTo = s.wrapsTo := by
    rw [hwraps]
    cases s.poolStart <;> rfl
  unfold after
  rw [hstart]
  generalize s.wrapsTo = first at h
  by_cases hmax : first = 0xffffffff
  · rw [if_pos hmax, if_neg (by bv_omega)]
    bv_omega
  · rw [if_neg hmax, if_pos (by bv_omega)]

/-- The cursor comes from one address to another. -/
def Server.Leads (s : Server) (ip ip' : Addr) : Prop :=
  ∃ k, s.after^[k] ip = ip'

theorem Server.Leads.refl (ip : Addr) : s.Leads ip ip :=
  ⟨0, rfl⟩

theorem Server.Leads.trans {ip'' : Addr} (h : s.Leads ip ip') (h' : s.Leads ip' ip'') : s.Leads ip ip'' := by
  obtain ⟨k, rfl⟩ := h
  obtain ⟨k', rfl⟩ := h'
  exact ⟨k' + k, iterate_add_apply _ _ _ _⟩

theorem Server.leads_of_le (h : ip ≤ ip') (hend : ip' ≤ s.poolEnd) : s.Leads ip ip' := by
  obtain ⟨k, hk⟩ : ∃ k, ip'.toNat = ip.toNat + k := Nat.exists_eq_add_of_le h
  induction k generalizing ip with
  | zero =>
    obtain rfl : ip' = ip := BitVec.eq_of_toNat_eq hk
    exact .refl ip'
  | succ k ih =>
    have hafter : s.after ip = ip + 1 := after_of_lt (by bv_omega)
    have hrest : s.Leads (ip + 1) ip' := ih (by bv_omega) (by bv_omega)
    exact Leads.trans ⟨1, hafter⟩ hrest

/-- From 255.255.255.255 the cursor goes on at 0.0.0.0. -/
theorem Server.leads_zero (h : s.poolEnd < s.wrapsTo) (hmax : s.wrapsTo = 0xffffffff) : s.Leads s.wrapsTo 0 :=
  ⟨1, (after_of_gt h).trans (if_pos hmax)⟩

section

variable (h : s.poolNext ≤ s.poolEnd)

include h

theorem Server.leads_wrapsTo : s.Leads s.poolNext s.wrapsTo :=
  (leads_of_le h (BitVec.le_refl _)).trans ⟨1, after_poolEnd⟩

theorem Server.ahead_after (hip : s.Ahead ip) : s.Ahead (s.after ip) := by
  have hlast : s.Ahead s.wrapsTo := by
    by_cases hbehind : s.poolEnd < s.wrapsTo
    · exact .inr (.inr ⟨hbehind, .inl rfl⟩)
    · unfold Ahead
      bv_omega
  by_cases hlt : ip < s.poolEnd
  · rw [after_of_lt hlt]
    unfold Ahead at hip ⊢
    bv_omega
  · by_cases heq : ip = s.poolEnd
    · rw [heq, after_poolEnd]
      exact hlast
    · obtain ⟨hbehind, rfl⟩ : s.poolEnd < s.wrapsTo ∧ ip = s.wrapsTo := by
        unfold Ahead at hip
        bv_omega
      rw [after_of_gt hbehind]
      split
      · unfold Ahead
        bv_omega
      · exact hlast

theorem Server.leads_iff : s.Leads s.poolNext ip ↔ s.Ahead ip := by
  constructor
  · rintro ⟨k, rfl⟩
    induction k with
    | zero => exact .inl ⟨BitVec.le_refl _, h⟩
    | succ k ih =>
      rw [iterate_succ_apply']
      exact ahead_after h ih
  · rintro (⟨hlow, hhigh⟩ | ⟨hlow, hhigh⟩ | ⟨hbehind, rfl | ⟨hmax, hhigh⟩⟩)
    · exact leads_of_le hlow hhigh
    · exact (leads_wrapsTo h).trans (leads_of_le hlow (by bv_omega))
    · exact leads_wrapsTo h
    · exact (leads_wrapsTo h).trans ((leads_zero hbehind hmax).trans
        (leads_of_le (by bv_omega) (by bv_omega)))

end

/-- Without a way back, the cursor does not leave what is behind it. -/
theorem Server.lt_after (h : ¬ s.ComesBack) (hlow : s.poolNext ≤ ip) (hip : ip ≤ s.poolEnd ∨ ip = s.wrapsTo) :
    s.poolNext < s.after ip ∧ (s.after ip ≤ s.poolEnd ∨ s.after ip = s.wrapsTo) := by
  obtain ⟨hnext, hmax⟩ := not_or.mp h
  by_cases hlt : ip < s.poolEnd
  · rw [after_of_lt hlt]
    bv_omega
  · by_cases heq : ip = s.poolEnd
    · rw [heq, after_poolEnd]
      exact ⟨by bv_omega, .inr rfl⟩
    · obtain rfl : ip = s.wrapsTo := by bv_omega
      have hbehind : s.poolEnd < s.wrapsTo := by bv_omega
      rw [after_of_gt hbehind, if_neg fun h => hmax ⟨hbehind, h⟩]
      exact ⟨by bv_omega, .inr rfl⟩

theorem Server.comesBack_iff (h : s.poolNext ≤ s.poolEnd) :
    (∃ k, s.after^[k + 1] s.poolNext = s.poolNext) ↔ s.ComesBack := by
  constructor
  · rintro ⟨k, hk⟩
    by_contra hnot
    have hbeyond (k : ℕ) : s.poolNext < s.after^[k + 1] s.poolNext ∧
        (s.after^[k + 1] s.poolNext ≤ s.poolEnd ∨ s.after^[k + 1] s.poolNext = s.wrapsTo) := by
      induction k with
      | zero => exact lt_after hnot (BitVec.le_refl _) (.inl h)
      | succ k ih =>
        rw [iterate_succ_apply']
        exact lt_after hnot (by bv_omega) ih.2
    have hlt := (hbeyond k).1
    bv_omega
  · intro hback
    obtain ⟨k, hk⟩ : s.Leads s.poolNext s.poolEnd := leads_of_le h (BitVec.le_refl _)
    obtain ⟨k', hk'⟩ : s.Leads s.wrapsTo s.poolNext := by
      rcases hback with hle | ⟨hbehind, hmax⟩
      · exact leads_of_le hle h
      · exact (leads_zero hbehind hmax).trans (leads_of_le (by bv_omega) h)
    refine ⟨k' + k, ?_⟩
    rw [show k' + k + 1 = k' + (1 + k) by omega, iterate_add_apply,
      iterate_add_apply, hk]
    exact (congrArg s.after^[k'] after_poolEnd).trans hk'

end Way

/-! ## The loop -/

section Loop

variable {start s : Server} {mac : String} {now n : ℕ} {startIP ip : Addr}

theorem Server.scan_eq_search (mac : String) :
    (scan mac now startIP n s).map Prod.fst =
      search s.after (s.inUse now) startIP n s.poolNext := by
  induction n generalizing s with
  | zero => rfl
  | succ n ih =>
    simp only [scan, search]
    split
    · rfl
    · show Option.map Prod.fst (if s.after s.poolNext = startIP then _ else _) = _
      split
      · rfl
      · exact ih (s := s.advancePool)

theorem Server.candidates_eq_examined :
    candidates now startIP n s =
      Orbit.examined s.after (s.inUse now) startIP n s.poolNext := by
  induction n generalizing s with
  | zero => rfl
  | succ n ih =>
    rw [candidates, Orbit.examined, ih (s := s.advancePool)]
    rfl

theorem Server.allocateIP_of_scans (h : s.scans mac now = true) :
    s.allocateIP mac now n = scan mac now s.poolNext n s := by
  obtain ⟨hbound, hlease⟩ := Bool.and_eq_true_iff.mp h
  have hdynamic : s.allocateDynamic mac now n = scan mac now s.poolNext n s := by
    unfold allocateDynamic
    split
    case h_1 lease hfound =>
        rw [hfound] at hlease
        exact if_neg (not_lt.mpr (of_decide_eq_true hlease))
    case h_2 => rfl
  unfold allocateIP
  split
  case h_1 ip hfound =>
      rw [hfound] at hbound
      exact (if_pos hbound).trans hdynamic
  case h_2 => exact hdynamic

/-- The client is given its binding or what it holds. -/
theorem Server.allocateIP_of_not_scans (h : s.scans mac now = false) :
    ∃ ip t, s.allocateIP mac now n = some (some ip, t) := by
  have hdynamic (hlease : (s.leases.lookup mac).all (·.expires ≤ now) = false) :
      ∃ ip t, s.allocateDynamic mac now n = some (some ip, t) := by
    unfold allocateDynamic
    split
    case h_1 lease hfound =>
        rw [hfound] at hlease
        exact ⟨lease.ip, s, if_pos (not_le.mp (of_decide_eq_false hlease))⟩
    case h_2 hfound =>
        rw [hfound] at hlease
        cases hlease
  unfold allocateIP
  cases hfound : s.staticBindings.lookup mac with
  | none =>
    rw [scans, hfound] at h
    exact hdynamic h
  | some ip =>
    by_cases hconflict : s.conflict now mac ip = true
    · simp only [scans, hfound, Option.all_some, hconflict, Bool.true_and] at h
      obtain ⟨ip', t, hfound'⟩ := hdynamic h
      exact ⟨ip', t, (if_pos hconflict).trans hfound'⟩
    · exact ⟨ip, _, if_neg hconflict⟩

/-- For a client that enters the loop, the addresses in use are those that others have: its own lease has
run out, and its own binding is held by another. -/
theorem Server.inUse_iff_taken (h : s.scans mac now = true) : s.inUse now ip = true ↔ s.Taken mac now ip := by
  obtain ⟨hbound, hlease⟩ := Bool.and_eq_true_iff.mp h
  constructor
  · intro hused
    rcases Bool.or_eq_true_iff.mp hused with hleased | hstatic
    · obtain ⟨⟨other, lease⟩, hmem, hfound⟩ := any_eq_true.mp hleased
      obtain ⟨hip, hactive⟩ := of_decide_eq_true hfound
      have hlookup : s.leases.lookup other = some lease := mem_lookup_iff.mpr hmem
      refine .inl ⟨other, lease, ?_, hlookup, hip, hactive⟩
      rintro rfl
      rw [hlookup] at hlease
      exact absurd (of_decide_eq_true hlease) (not_le.mpr hactive)
    · obtain ⟨⟨other, bound⟩, hmem, hfound⟩ := any_eq_true.mp hstatic
      obtain rfl : bound = ip := of_decide_eq_true hfound
      have hlookup : s.staticBindings.lookup other = some bound := mem_lookup_iff.mpr hmem
      by_cases hown : other = mac
      · rw [← hown, hlookup] at hbound
        obtain ⟨⟨holder, lease⟩, hmem', hfound'⟩ := any_eq_true.mp hbound
        obtain ⟨hne, hip, hactive⟩ := of_decide_eq_true hfound'
        exact .inl ⟨holder, lease, hown ▸ hne, mem_lookup_iff.mpr hmem', hip, hactive⟩
      · exact .inr ⟨other, hown, hlookup⟩
  · rintro (⟨other, lease, _, hlookup, hip, hactive⟩ | ⟨other, _, hlookup⟩)
    · refine Bool.or_eq_true_iff.mpr (.inl (any_eq_true.mpr ⟨⟨other, lease⟩, ?_, ?_⟩))
      · exact mem_lookup_iff.mp hlookup
      · exact decide_eq_true ⟨hip, hactive⟩
    · refine Bool.or_eq_true_iff.mpr (.inr (any_eq_true.mpr ⟨⟨other, ip⟩, ?_, ?_⟩))
      · exact mem_lookup_iff.mp hlookup
      · exact decide_eq_true rfl

theorem Server.completes_of_not_scans (h : s.scans mac now = false) : Completes start s mac now := by
  obtain ⟨ip, t, halloc⟩ := allocateIP_of_not_scans (n := 0) h
  refine ⟨0, _, halloc, ?_, fun hnone => by cases hnone⟩
  rw [examined, h]
  exact nodup_nil

/-- The loop does what it should if it comes to an address that is left, or back to where it began when
none is left. -/
theorem Server.completes_iff_of_scans (h : s.scans mac now = true) (hle : s.poolNext ≤ s.poolEnd) :
    Completes start s mac now ↔
      (∃ ip, s.Ahead ip ∧ ¬ s.Taken mac now ip) ∨
        s.ComesBack ∧ ∀ ip, start.InPool ip → s.Taken mac now ip := by
  have hsearch (n : ℕ) (found : Option Addr) :
      (∃ t, s.allocateIP mac now n = some (found, t)) ↔
        search s.after (s.inUse now) s.poolNext n s.poolNext = some found := by
    rw [allocateIP_of_scans h, ← scan_eq_search mac]
    simp
  have hleft : (∃ k, s.inUse now (s.after^[k] s.poolNext) = false) ↔
      ∃ ip, s.Ahead ip ∧ ¬ s.Taken mac now ip := by
    simp only [← leads_iff hle, ← inUse_iff_taken h, Leads, Bool.not_eq_true]
    constructor
    · rintro ⟨k, hfree⟩
      exact ⟨_, ⟨k, rfl⟩, hfree⟩
    · rintro ⟨_, ⟨k, rfl⟩, hfree⟩
      exact ⟨k, hfree⟩
  rw [← hleft, ← comesBack_iff hle]
  constructor
  · rintro ⟨n, ⟨found, t⟩, halloc, _, hall⟩
    have hends := (hsearch n found).mp ⟨t, halloc⟩
    cases found with
    | none =>
      rcases exists_search_iff.mp ⟨n, none, hends⟩ with hfree | hback
      · exact .inl hfree
      · exact .inr ⟨hback, hall rfl⟩
    | some ip =>
      obtain ⟨k, hend, _⟩ := endsAt_of_search hends
      rcases hend.result with ⟨_, hfree⟩ | ⟨hnone, _⟩
      · exact .inl ⟨k, hfree⟩
      · cases hnone
  · intro hcond
    have hstops : ∃ n found, search s.after (s.inUse now) s.poolNext n s.poolNext = some found :=
      exists_search_iff.mpr (hcond.imp_right And.left)
    obtain ⟨n, found, hends⟩ := hstops
    obtain ⟨t, halloc⟩ := (hsearch n found).mpr hends
    refine ⟨n, (found, t), halloc, ?_, ?_⟩
    · rw [examined, if_pos h, candidates_eq_examined]
      exact examined_nodup hends
    · rintro rfl
      rcases hcond with ⟨k, hfree⟩ | ⟨_, hall⟩
      · rw [used_of_search_none hends k] at hfree
        cases hfree
      · exact hall

end Loop

/-! ## Pools -/

/-- What a pool needs for an allocation to come to its end. A pool configured by both its ends has it
always. In a generated one the cursor has to come to an address that is left, or to where it is if none of
the pool is left. -/
def Serves (cfg : DHCPConfig) (start s : Server) (mac : String) (now : ℕ) : Prop :=
  cfg.Explicit ∨ s.scans mac now = false ∨ (∃ ip, s.Ahead ip ∧ ¬ s.Taken mac now ip) ∨
    s.ComesBack ∧ ∀ ip, start.InPool ip → s.Taken mac now ip

section Pools

variable {iface : Iface} {cfg : DHCPConfig} {start : Server} {cursor : Addr}

/-- Behind the end of a configured pool the cursor goes on before where it is. -/
theorem wrapsTo_of_explicit (hnew : newDHCPServerImpl iface cfg = .ok start)
    (hexplicit : cfg.Explicit) : start.wrapsTo ≤ start.poolNext := by
  obtain ⟨first, last, hpool, rfl⟩ := newDHCPServerImpl_eq_ok hnew
  unfold wrapsTo
  simp only [DHCPConfig.pool_of_explicit hexplicit hpool, Option.getD_some]
  split
  · bv_omega
  · exact BitVec.le_refl _

end Pools

/-! ## A full end of the pool -/

/-- The server of the subnet 10.0.0.0/24, with a pool from 10.0.0.205 to 10.0.0.254. -/
def lanServer : Server := ⟨∅, 0x0a0000cd, 0x0a0000fe, none, 86400000000000, ∅, none⟩

theorem new_lanServer : newDHCPServerImpl lan generated = .ok lanServer :=
  rfl

/-- 02:00:00:00:00:0a holds 10.0.0.253. -/
def lastButOne : Table Lease :=
  insert "02:00:00:00:00:0a" ⟨0x0a0000fd, [], [], 10⟩ ∅

/-- 02:00:00:00:00:0b holds 10.0.0.254 besides. -/
def lastTwo : Table Lease :=
  lastButOne.insert "02:00:00:00:00:0b" ⟨0x0a0000fe, [], [], 10⟩

/-- The server with its cursor at 10.0.0.253. -/
def lanServerAt (leases : Table Lease) : Server :=
  { lanServer with poolNext := 0x0a0000fd, leases := leases }

theorem not_taken_lanServerAt {leases : Table Lease} {mac : String} {ip : Addr}
    (h : (lanServerAt leases).inUse 0 ip = false)
    (hscans : (lanServerAt leases).scans mac 0 = true) : ¬ (lanServerAt leases).Taken mac 0 ip := by
  rw [← inUse_iff_taken hscans, h]
  exact Bool.false_ne_true

end Dhcp
