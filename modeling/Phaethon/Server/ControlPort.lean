import Phaethon.Server.Control

/-!
# The port of a client that comes back

A client that registers again without a preferred port is to get the port of its binding. `handleRegister` removes
the binding before it looks for it, so that the port comes from `allocatePort` like that of a new client: it is the
old one only if that is the next free port (`port_eq_bound_iff`).
-/

namespace Control

open List Option ControlManager BindingStore

variable {env : Env} {m : ControlManager} {req : ControlRequest}

section

variable (m : ControlManager)

/-- The manager after the old session of the identity was closed. -/
def ControlManager.renewed (env : Env) (req : ControlRequest) : ControlManager :=
  (m.closeSessionByIdentity env req.reverseID req.seq).2

/-- The port is in the configured range, if there is one. -/
def ControlManager.InRange (port : ℤ) : Prop :=
  m.portMin ≤ 0 ∨ m.portMin ≤ port ∧ port ≤ m.portMax

/-- How many ports of the range `allocatePort` looks at before a port. -/
def ControlManager.turn (port : ℤ) : ℤ :=
  (port - m.cursor) % (m.portMax - m.portMin + 1)

/-- The port is the next one: the first free port from the cursor on or, without a range, the first free port of
those that the system offers. -/
def ControlManager.Next (env : Env) (reverseID : String) (port : ℤ) : Prop :=
  if m.portMin ≤ 0 ∨ m.portMax ≤ 0 ∨ m.portMin > m.portMax then
    ∃ i < 10, env.offered i = some port ∧
      ∀ j < i, ∀ p, env.offered j = some p → m.isPortAvailable env p reverseID = false
  else
    ∀ p, m.portMin ≤ p → p ≤ m.portMax → m.isPortAvailable env p reverseID → m.turn port ≤ m.turn p

/-! ## What a close leaves alone -/

/-- A close changes neither the range nor the cursor, and of the bindings only the time of a disconnection. -/
structure SamePorts (m m' : ControlManager) : Prop where
  portMin : m'.portMin = m.portMin
  portMax : m'.portMax = m.portMax
  portNext : m'.portNext = m.portNext
  bindings : ∀ {reverseID seq b}, m.bindingStore.get reverseID seq = some b →
    ∃ b', m'.bindingStore.get reverseID seq = some b' ∧ b'.reverseID = b.reverseID

theorem SamePorts.refl : SamePorts m m :=
  ⟨rfl, rfl, rfl, fun hb => ⟨_, hb, rfl⟩⟩

end

theorem SamePorts.trans {m m' m'' : ControlManager} (h : SamePorts m m') (h' : SamePorts m' m'') : SamePorts m m'' := by
  refine ⟨h'.portMin.trans h.portMin, h'.portMax.trans h.portMax, h'.portNext.trans h.portNext, fun hb => ?_⟩
  obtain ⟨b', hb', hid⟩ := h.bindings hb
  obtain ⟨b'', hb'', hid'⟩ := h'.bindings hb'
  exact ⟨b'', hb'', hid'.trans hid⟩

theorem cleanUp_ports (m : ControlManager) (matcher : Bool) (r : DynamicResource) :
    SamePorts m
    (m.cleanUp matcher r) := by
  unfold cleanUp
  split <;> split <;> exact ⟨rfl, rfl, rfl, fun hb => ⟨_, hb, rfl⟩⟩

variable {seq port : ℤ} {s : BindingStore} {reverseID : String} {b : PortBinding}

theorem get_setDisconnected {now : ℕ} {reverseID' : String} {seq' : ℤ} (h : s.get reverseID seq = some b) :
    ∃ b', (s.setDisconnected now reverseID' seq').get reverseID seq = some b' ∧ b'.reverseID = b.reverseID := by
  unfold setDisconnected
  split
  case h_1 b' hb' =>
    by_cases hkey : makeKey reverseID seq = makeKey reverseID' seq'
    · have hsame : b' = b := by
        rw [BindingStore.get, ← hkey, ← BindingStore.get, h] at hb'
        exact (Option.some.inj hb').symm
      refine ⟨{ b' with disconnectedAt := some now }, ?_, by rw [hsame]⟩
      rw [BindingStore.get, hkey, AList.lookup_insert]
    · refine ⟨b, ?_, rfl⟩
      rw [BindingStore.get, AList.lookup_insert_ne hkey]
      exact h
  case h_2 => exact ⟨b, h, rfl⟩

theorem shut_ports (m : ControlManager) (now c : ℕ) : SamePorts m (m.shut now c) := by
  refine ⟨rfl, rfl, rfl, fun hb => ?_⟩
  unfold shut
  dsimp only
  split <;> exact get_setDisconnected hb

theorem handleClose_ports (m : ControlManager) (now : ℕ) (matcher : Bool) (address : String) :
    SamePorts m (m.handleClose now matcher address) := by
  unfold handleClose
  dsimp only
  generalize (m.resources.lookup address <|> _ : Option DynamicResource) = resource
  generalize hm : ({ m with sessions := _, resources := _ } : ControlManager) = m'
  have hsame : SamePorts m m' := hm ▸ ⟨rfl, rfl, rfl, fun hb => ⟨_, hb, rfl⟩⟩
  have hshut : SamePorts m ((m.sessions.lookup address).map (m'.shut now) |>.getD m') := by
    cases m.sessions.lookup address with
    | none => exact hsame
    | some c => exact hsame.trans (shut_ports m' now c)
  cases resource with
  | none => exact hshut
  | some r => exact hshut.trans (cleanUp_ports _ matcher r)

theorem closeSessionByIdentity_ports (m : ControlManager) (env : Env) (reverseID : String) (seq : ℤ) :
    SamePorts m (m.closeSessionByIdentity env reverseID seq).2 := by
  unfold closeSessionByIdentity
  split
  · exact .refl m
  · dsimp only
    split
    · exact .refl m
    · split
      · exact .refl m
      · split
        · exact .refl m
        · exact handleClose_ports m _ _ _

/-! ## Free ports without the own binding -/

theorem isPortBoundByOther_iff :
    s.isPortBoundByOther port reverseID = true ↔
      ∃ key b, s.bindings.lookup key = some b ∧ b.port = port ∧ b.reverseID ≠ reverseID := by
  simp only [isPortBoundByOther, List.any_eq_true, decide_eq_true_eq, GoMap.Table.mem_values]
  constructor
  · rintro ⟨b, ⟨key, hkey⟩, hport, hid⟩
    exact ⟨key, b, hkey, hport, hid⟩
  · rintro ⟨key, b, hkey, hport, hid⟩
    exact ⟨b, ⟨key, hkey⟩, hport, hid⟩

/-- The own binding does not take a port away. -/
theorem isPortBoundByOther_remove (hb : s.get reverseID seq = some b) (hown : b.reverseID = reverseID) (port : ℤ) :
    (s.remove reverseID seq).isPortBoundByOther port reverseID = s.isPortBoundByOther port reverseID := by
  rw [Bool.eq_iff_iff, isPortBoundByOther_iff, isPortBoundByOther_iff]
  refine exists_congr fun key => exists_congr fun b' => ?_
  by_cases hkey : key = makeKey reverseID seq
  · subst hkey
    simp only [remove, AList.lookup_erase, reduceCtorEq, false_and, false_iff]
    rintro ⟨hb', -, hother⟩
    obtain rfl : b' = b := Option.some.inj (hb'.symm.trans hb)
    exact hother hown
  · rw [remove, AList.lookup_erase_ne hkey]

theorem isPortAvailable_remove
    (hb : m.bindingStore.get reverseID seq = some b) (hown : b.reverseID = reverseID) (port : ℤ) :
    ({ m with bindingStore := m.bindingStore.remove reverseID seq } : ControlManager).isPortAvailable env port
      reverseID = m.isPortAvailable env port reverseID := by
  simp only [isPortAvailable, isPortBoundByOther_remove hb hown]

/-! ## The next port -/

variable {i : ℕ}

/-- The first number for which something holds is the only one of those with no smaller one. -/
theorem find?_range_iff {n : ℕ} {p : ℕ → Bool} :
    (List.range n).find? p = some i ↔ i < n ∧ p i = true ∧ ∀ j < i, p j = false := by
  rw [find?_range_eq_some]
  simp only [mem_range, Bool.not_eq_true']
  tauto

theorem offered_eq_iff {free : ℤ → Bool} (hfree : free port = true) :
    ((List.range 10).filterMap env.offered).find? free = some port ↔
      ∃ i < 10, env.offered i = some port ∧ ∀ j < i, ∀ p, env.offered j = some p → free p = false := by
  rw [find?_filterMap, bind_eq_some_iff]
  simp only [find?_range_iff]
  constructor
  · rintro ⟨i, ⟨hi, -, hbefore⟩, hport⟩
    refine ⟨i, hi, hport, fun j hj p hp => ?_⟩
    have hno := hbefore j hj
    rwa [hp, any_some] at hno
  · rintro ⟨i, hi, hport, hbefore⟩
    refine ⟨i, ⟨hi, by rw [hport, any_some, hfree], fun j hj => ?_⟩, hport⟩
    cases hp : env.offered j with
    | none => rfl
    | some p => exact hbefore j hj p hp

section Range

variable (hrange : 0 < m.portMin ∧ m.portMin ≤ m.portMax)

include hrange

theorem cursor_mem : m.portMin ≤ m.cursor ∧ m.cursor ≤ m.portMax := by
  unfold cursor
  split <;> omega

theorem portAt_mem (hi : i < (m.portMax - m.portMin + 1).toNat) :
    m.portMin ≤ m.portAt i ∧ m.portAt i ≤ m.portMax := by
  have hcursor := cursor_mem hrange
  unfold portAt
  dsimp only
  split <;> omega

theorem turn_portAt (hi : i < (m.portMax - m.portMin + 1).toNat) : m.turn (m.portAt i) = i := by
  unfold turn portAt
  dsimp only
  split
  · have hback : m.portMin + (m.cursor + i - m.portMax - 1) - m.cursor = i - (m.portMax - m.portMin + 1) := by omega
    rw [hback, Int.sub_emod_right, Int.emod_eq_of_lt (by omega) (by omega)]
  · have hon : m.cursor + i - m.cursor = i := by omega
    rw [hon, Int.emod_eq_of_lt (by omega) (by omega)]

/-- Every port of the range has its turn. -/
theorem exists_portAt (hport : m.portMin ≤ port ∧ port ≤ m.portMax) :
    ∃ i < (m.portMax - m.portMin + 1).toNat, m.portAt i = port := by
  have hcursor := cursor_mem hrange
  by_cases hle : m.cursor ≤ port
  · refine ⟨(port - m.cursor).toNat, by omega, ?_⟩
    unfold portAt
    rw [if_neg (by omega)]
    omega
  · refine ⟨(m.portMax - m.cursor + 1 + (port - m.portMin)).toNat, by omega, ?_⟩
    unfold portAt
    rw [if_pos (by omega)]
    omega

/-- `allocatePort` finds a free port exactly if no free port has its turn before. -/
theorem roundRobin_eq_iff {free : ℤ → Bool} {p : ℤ} (hport : m.portMin ≤ port ∧ port ≤ m.portMax)
    (hfree : free port = true) (hfound : m.roundRobin.find? free = some p) :
    p = port ↔ ∀ q, m.portMin ≤ q → q ≤ m.portMax → free q = true → m.turn port ≤ m.turn q := by
  rw [roundRobin, find?_map, map_eq_some_iff] at hfound
  obtain ⟨i, hi, rfl⟩ := hfound
  obtain ⟨hlt, hp, hbefore⟩ := find?_range_iff.mp hi
  obtain ⟨k, hk, rfl⟩ := exists_portAt hrange hport
  have hle : i ≤ k := by
    by_contra hgt
    have hno := hbefore k (by omega)
    simp [hfree] at hno
  constructor
  · intro heq q hmin hmax hq
    obtain ⟨j, hj, rfl⟩ := exists_portAt hrange ⟨hmin, hmax⟩
    rw [← heq, turn_portAt hrange hlt, turn_portAt hrange hj]
    by_contra hgt
    have hno := hbefore j (by omega)
    simp [hq] at hno
  · intro hfirst
    have hmem := portAt_mem hrange hlt
    have hturn := hfirst (m.portAt i) hmem.1 hmem.2 hp
    rw [turn_portAt hrange hk, turn_portAt hrange hlt] at hturn
    obtain rfl : i = k := by omega
    rfl

/-- A free port of the range is found. -/
theorem exists_roundRobin (free : ℤ → Bool) (hport : m.portMin ≤ port ∧ port ≤ m.portMax)
    (hfree : free port = true) : ∃ p, m.roundRobin.find? free = some p := by
  obtain ⟨k, hk, rfl⟩ := exists_portAt hrange hport
  rw [← isSome_iff_exists, roundRobin, find?_isSome]
  exact ⟨m.portAt k, mem_map_of_mem (mem_range.mpr hk), hfree⟩

end Range

/-- What `allocatePort` gives, where a port of the range is free. -/
theorem allocatePort_eq_iff {p : ℤ} {m' : ControlManager}
    (h : m.allocatePort env reverseID = (.ok p, m')) (hrange : m.InRange port)
    (hfree : m.isPortAvailable env port reverseID = true) : p = port ↔ m.Next env reverseID port := by
  unfold allocatePort at h
  unfold Next
  by_cases hopen : m.portMin ≤ 0 ∨ m.portMax ≤ 0 ∨ m.portMin > m.portMax
  · rw [if_pos hopen] at h ⊢
    rw [← offered_eq_iff hfree]
    cases hfind : ((List.range 10).filterMap env.offered).find? fun p => m.isPortAvailable env p reverseID with
    | none =>
      rw [hfind] at h
      cases h
    | some q =>
      rw [hfind] at h
      cases h
      exact some_inj.symm
  · rw [if_neg hopen] at h ⊢
    have hmin : 0 < m.portMin ∧ m.portMin ≤ m.portMax := by omega
    have hport : m.portMin ≤ port ∧ port ≤ m.portMax := hrange.resolve_left (by omega)
    obtain ⟨q, hq⟩ := exists_roundRobin hmin (m.isPortAvailable env · reverseID) hport hfree
    rw [hq] at h
    cases h
    exact roundRobin_eq_iff hmin hport hfree hq

/-! ## Registering again -/

/-- A registration that succeeds takes its port from `allocatePort`, without the binding. -/
theorem port_of_ok {controlAddr registryAddr dynAddr : String} (hid : req.reverseID ≠ "")
    (hpreferred : req.preferredPort ≤ 0)
    (h : (m.handleRegister env controlAddr registryAddr req).1 = .ok dynAddr port) :
    ∃ m', ((m.renewed env req).forget req).allocatePort env req.reverseID = (.ok port, m') := by
  unfold handleRegister at h
  split at h
  case isTrue => cases h
  split at h
  case isTrue => cases h
  split at h
  case h_1 => cases h
  case h_2 m' hclose =>
    have hrenewed : m.renewed env req = m' := by rw [renewed, hclose]
    have hgone : (m'.forget req).bindingStore.get req.reverseID req.seq = none := by
      rw [forget, if_pos hid]
      exact AList.lookup_erase _ _
    have hchoose : (m'.forget req).choosePort env req = (m'.forget req).allocatePort env req.reverseID := by
      unfold choosePort
      rw [if_neg (not_lt.mpr hpreferred), if_pos hid, hgone]
      rfl
    rw [hrenewed, ← hchoose]
    unfold register at h
    split at h
    case h_1 => cases h
    case h_2 p m'' halloc =>
      split at h
      case h_1 => cases h
      case h_2 =>
        cases h
        exact ⟨m'', halloc⟩

/-- A client that registers again, without a preferred port, while the port of its binding is in the range and
free: it gets that port exactly if it is the next one. -/
theorem port_eq_bound_iff (env : Env) (m : ControlManager) (controlAddr registryAddr : String)
    (req : ControlRequest) (b : PortBinding) (dynAddr : String) (port : ℤ) (hid : req.reverseID ≠ "")
    (hpreferred : req.preferredPort ≤ 0)
    (hbound : m.bindingStore.get req.reverseID req.seq = some b) (hown : b.reverseID = req.reverseID)
    (hrange : m.InRange b.port) (hfree : (m.renewed env req).isPortAvailable env b.port req.reverseID = true)
    (hreply : (m.handleRegister env controlAddr registryAddr req).1 = .ok dynAddr port) :
    port = b.port ↔ (m.renewed env req).Next env req.reverseID b.port := by
  have hsame := closeSessionByIdentity_ports m env req.reverseID req.seq
  change SamePorts m (m.renewed env req) at hsame
  obtain ⟨b', hb', hown'⟩ := hsame.bindings hbound
  have hforget : (m.renewed env req).forget req = { m.renewed env req with
      bindingStore := (m.renewed env req).bindingStore.remove req.reverseID req.seq } := if_pos hid
  have hremove (p : ℤ) : ((m.renewed env req).forget req).isPortAvailable env p req.reverseID =
      (m.renewed env req).isPortAvailable env p req.reverseID := by
    rw [hforget]
    exact isPortAvailable_remove hb' (hown'.trans hown) p
  have hrange : ((m.renewed env req).forget req).InRange b.port := by
    rw [hforget]
    dsimp only
    rw [hsame.portMin, hsame.portMax]
    exact hrange
  obtain ⟨m', halloc⟩ := port_of_ok hid hpreferred hreply
  rw [allocatePort_eq_iff halloc hrange ((hremove b.port).trans hfree)]
  unfold Next
  simp only [hremove]
  rw [hforget]
  exact .rfl

/-! ## A client that comes back -/

/-- A registration of the client `r1`. -/
def plainRequest : ControlRequest := ⟨"register", "home", 0, 0, "", "", "", "", "", 0, "", "r1"⟩

variable (portMin portMax : ℤ)

/-- The client registers, is disconnected and connects again. -/
def returning : ControlManager :=
  let first := (newControlManager portMin portMax ⟨∅, ∅, []⟩).connect 0 0 "10.0.0.9:1000" "10.0.0.1:443"
  let registered := (first.command (quietEnv 1 0x1111111111111111) 0 (some plainRequest)).2
  let closed := registered.handleClose 2 true "10.0.0.9:1000"
  closed.connect 3 1 "10.0.0.9:1001" "10.0.0.1:443"

/-- What the client is answered. -/
def answer : ControlReply :=
  ((returning portMin portMax).handleRegister (quietEnv 4 0x2222222222222222) "10.0.0.9:1001" "10.0.0.1:443"
    plainRequest).1

/-- In a range of one port, the client gets the port that it had. -/
theorem port_eq_bound_iff_single : answer 20000 20000 = .ok "dyn-2222222222222222" 20000 ∧
    ((returning 20000 20000).renewed (quietEnv 4 0x2222222222222222) plainRequest).Next
      (quietEnv 4 0x2222222222222222) "r1" 20000 := by
  obtain ⟨b, hb, hport, hown⟩ : ∃ b, (returning 20000 20000).bindingStore.get "r1" 0 = some b ∧ b.port = 20000 ∧
      b.reverseID = "r1" := ⟨_, rfl, rfl, rfl⟩
  have hreply : answer 20000 20000 = .ok "dyn-2222222222222222" 20000 := by decide +kernel
  refine ⟨hreply, ?_⟩
  have hnext := port_eq_bound_iff (quietEnv 4 0x2222222222222222) (returning 20000 20000) "10.0.0.9:1001"
    "10.0.0.1:443" plainRequest b "dyn-2222222222222222" 20000 (by decide) (by decide) hb hown
    (by rw [hport]; exact .inr (by decide +kernel)) (by rw [hport]; decide +kernel) hreply
  rw [hport] at hnext
  exact hnext.mp rfl

/-- In a range of ten ports, the client had the first one, which is free; it gets the second one. -/
theorem returning_client_gets_another_port :
    ∃ b, (returning 20000 20009).bindingStore.get "r1" 0 = some b ∧ b.reverseID = "r1" ∧ b.port = 20000 ∧
      (returning 20000 20009).InRange 20000 ∧
      ((returning 20000 20009).renewed (quietEnv 4 0x2222222222222222) plainRequest).isPortAvailable
        (quietEnv 4 0x2222222222222222) 20000 "r1" = true ∧
      answer 20000 20009 = .ok "dyn-2222222222222222" 20001 :=
  ⟨_, rfl, rfl, rfl, .inr (by decide +kernel), by decide +kernel, by decide +kernel⟩

end Control
