import Phaethon.Common.Lts
import Phaethon.Server.ControlTables

/-!
# What a control session leaves behind

Control connections come over TCP or an h_tunnel, register, and end in any order. Once a session is closed,
nothing that it registered is to remain, and its close is not to touch what the other open sessions registered.
Both hold as long as no two connections have the same address, no session registers twice and no two dynamic
addresses agree in the digits that names are made of (`tidy_of_careful`). All connections over an h_tunnel have the
address `:0`, and a session only remembers the dynamic address that it got last.
-/

namespace Control

open Config Function List Option ControlManager ControlSession AList

/-! ## The system -/

/-- What a control connection runs over. -/
inductive Transport where
  | tcp (ip : String) (port : ℕ)
  | htunnel

/-- `RemoteAddr` of the connection, as text; that of an h_tunnel is the zero `net.TCPAddr`. -/
def Transport.remoteAddr : Transport → String
  | .tcp ip port => (if ':' ∈ ip.toList then "[" ++ ip ++ "]" else ip) ++ ":" ++ toString port
  | .htunnel => ":0"

/-- A dynamic address is not the address of a connection. -/
theorem remoteAddr_ne_dyn (transport : Transport) (random : BitVec 64) :
    transport.remoteAddr ≠ generateDynAddress random := by
  intro h
  have hcolon : ':' ∈ transport.remoteAddr.toList := by
    cases transport with
    | tcp ip port => simp [Transport.remoteAddr]
    | htunnel => simp [Transport.remoteAddr]
  have hplain := plainChar_dyn random ':' (h ▸ hcolon)
  exact absurd hplain (by decide)

/-- What happens: a connection comes in, a frame without a command or a command arrives on it, or its loop ends. -/
inductive Event where
  | connect (c : ℕ) (transport : Transport) (registryAddr : String) (now : ℕ)
  | frame (c : ℕ) (now : ℕ)
  | command (c : ℕ) (env : Env) (payload : Option ControlRequest)
  | close (c : ℕ) (now : ℕ) (matcher : Bool)

/-- The manager, the connections whose loop runs and those whose loop has ended, and which connection made which
registration. -/
structure System where
  manager : ControlManager
  running : List ℕ
  ended : List ℕ
  made : List (ℕ × ℕ)

open Control.System

/-- The loop of the connection runs, and its session was not closed. -/
def System.Open (s : System) (c : ℕ) : Prop := c ∈ s.running ∧ (s.manager.objects c).closed = false

instance (s : System) (c : ℕ) : Decidable (s.Open c) := inferInstanceAs (Decidable (_ ∧ _))

/-- One step. After its connection was closed, a session reads no more frames. -/
def System.step (s : System) : Event → Option System
  | .connect c transport registryAddr now =>
      if c ∈ s.running ∨ c ∈ s.ended then none
      else some { s with
        manager := s.manager.connect now c transport.remoteAddr registryAddr
        running := c :: s.running }
  | .frame c now => if s.Open c then some { s with manager := s.manager.touch now c } else none
  | .command c env payload =>
      if s.Open c ∧ s.manager.mayAnswer env.matcher then
        match s.manager.command env c payload with
        | (.ok _ _, m) => some { s with manager := m, made := (c, s.manager.count) :: s.made }
        | (.error _, m) => some { s with manager := m }
      else none
  | .close c now matcher =>
      if c ∈ s.running ∧ s.manager.mayAnswer matcher then
        some { s with
          manager := s.manager.handleClose now matcher (s.manager.objects c).address
          running := s.running.erase c
          ended := c :: s.ended }
      else none

/-- A new manager. -/
def System.init (portMin portMax : ℤ) (routing : Routing) : System :=
  ⟨newControlManager portMin portMax routing, [], [], []⟩

/-! ## What is to hold -/

/-- Nothing remains of what a session registered that is closed. -/
def System.Tidy (s : System) : Prop :=
  ∀ c n, (c, n) ∈ s.made → ¬ s.Open c → ¬ s.manager.Remains n

/-- A step leaves alone what the sessions registered that stay open, and a close leaves all others open. -/
structure Undisturbed (s : System) (e : Event) (t : System) : Prop where
  unchanged : ∀ c n, (c, n) ∈ s.made → s.Open c → t.Open c → Unchanged s.manager t.manager n
  stays : ∀ c now matcher, e = .close c now matcher → ∀ d, d ≠ c → s.Open d → t.Open d

/-- What a step has to meet: a new connection has another address than those whose loop runs, and a session that
registers has no dynamic address yet and gets one that differs from all others in its first eight digits. -/
def System.Careful (s : System) : Event → Prop
  | .connect _ transport _ _ => ∀ d ∈ s.running, (s.manager.objects d).address ≠ transport.remoteAddr
  | .command c env (some req) => req.cmd = "register" →
      (s.manager.objects c).dynAddr = "" ∧
        ∀ address ∈ s.manager.resources.keys, hexID address ≠ hexID (generateDynAddress env.random)
  | .command _ _ none => True
  | .frame _ _ => True
  | .close _ _ _ => True

instance (s : System) : ∀ e, Decidable (s.Careful e)
  | .connect _ _ _ _ => inferInstanceAs (Decidable (∀ d ∈ _, _))
  | .command _ _ (some _) => inferInstanceAs (Decidable (_ → _))
  | .command _ _ none => .isTrue trivial
  | .frame _ _ => .isTrue trivial
  | .close _ _ _ => .isTrue trivial

/-! ## The invariant -/

/-- What holds as long as all steps are careful: the tables hold what the registrations in force made, each open
session is in the map under an address that no other connection has, and it has made the registration whose
dynamic address it keeps. -/
structure Keeps (s : System) (live : List Live) : Prop where
  tables : Tables s.manager live
  owners : (live.map Live.owner).Nodup
  fresh : ∀ g ∈ live, g.id < s.manager.count
  generated : ∀ g ∈ live, ∃ random, g.dynAddr = generateDynAddress random
  opened : ∀ g ∈ live, s.Open g.owner ∧ (s.manager.objects g.owner).dynAddr = g.dynAddr
  idle : ∀ c, s.Open c → (s.manager.objects c).dynAddr = "" ∨ ∃ g ∈ live, g.owner = c
  sessions : ∀ a c, s.manager.sessions.lookup a = some c ↔ s.Open c ∧ (s.manager.objects c).address = a
  nodup : s.running.Nodup
  apart : ∀ c ∈ s.running, ∀ d ∈ s.running,
    (s.manager.objects c).address = (s.manager.objects d).address → c = d
  remote : ∀ c ∈ s.running, ∃ transport : Transport, (s.manager.objects c).address = transport.remoteAddr
  made : ∀ c n, (c, n) ∈ s.made → n < s.manager.count ∧ ∀ g ∈ live, g.id = n → g.owner = c

theorem Keeps.tidy {s : System} {live : List Live} (h : Keeps s live) : s.Tidy := by
  intro c n hmade hclosed hremains
  obtain ⟨g, hg, hid⟩ := h.tables.remains hremains
  have howner := (h.made c n hmade).2 g hg hid
  exact hclosed (howner ▸ (h.opened g hg).1)

/-- How the registrations in force change: those of sessions that stay open stay, and others are new. -/
structure Passes (s : System) (live : List Live) (t : System) (live' : List Live) : Prop where
  kept : ∀ g ∈ live, t.Open g.owner → g ∈ live'
  added : ∀ g ∈ live', g ∈ live ∨ s.manager.count ≤ g.id

theorem Passes.unchanged {s t : System} {live live' : List Live} (h : Passes s live t live') (hs : Keeps s live)
    (ht : Keeps t live') {c n : ℕ} (hmade : (c, n) ∈ s.made) (hopen : t.Open c) :
    Unchanged s.manager t.manager n := by
  obtain ⟨hold, howner⟩ := hs.made c n hmade
  refine hs.tables.unchanged ht.tables fun g hid => ⟨fun hg => ?_, fun hg => ?_⟩
  · refine (h.added g hg).resolve_right fun hnew => ?_
    omega
  · exact h.kept g hg (howner g hg hid ▸ hopen)

/-! ## Closing a session -/

@[simp]
theorem cleanUp_frame (m : ControlManager) (matcher : Bool) (r : DynamicResource) :
    (m.cleanUp matcher r).objects = m.objects ∧ (m.cleanUp matcher r).sessions = m.sessions ∧
      (m.cleanUp matcher r).count = m.count := by
  unfold cleanUp
  split <;> split <;> exact ⟨rfl, rfl, rfl⟩

section HandleClose

variable (m : ControlManager) (now : ℕ) (matcher : Bool) (address : String)

theorem handleClose_frame :
    (m.handleClose now matcher address).sessions = m.sessions.erase address ∧
    (m.handleClose now matcher address).count = m.count ∧
    (m.handleClose now matcher address).objects = match m.sessions.lookup address with
    | some c => update m.objects c { m.objects c with closed := true } | none => m.objects := by
  unfold handleClose
  dsimp only
  generalize (m.resources.lookup address <|> _) = resource
  cases resource <;> cases m.sessions.lookup address <;> simp [shut]

theorem handleClose_address (d : ℕ) :
    ((m.handleClose now matcher address).objects d).address = (m.objects d).address ∧
      ((m.handleClose now matcher address).objects d).dynAddr = (m.objects d).dynAddr := by
  rw [(handleClose_frame m now matcher address).2.2]
  cases m.sessions.lookup address with
  | none => exact ⟨rfl, rfl⟩
  | some c =>
    dsimp only
    by_cases hd : d = c
    · subst hd
      rw [update_self]
      exact ⟨rfl, rfl⟩
    · rw [update_of_ne hd]
      exact ⟨rfl, rfl⟩

end HandleClose

section Closing

variable {s : System} {live : List Live} {c : ℕ}

/-- Under the address of a connection, the map has its own session, if that is open. -/
theorem Keeps.lookup_address (h : Keeps s live) (hc : c ∈ s.running) :
    s.manager.sessions.lookup (s.manager.objects c).address = if s.Open c then some c else none := by
  split
  case isTrue hopen => exact (h.sessions _ c).mpr ⟨hopen, rfl⟩
  case isFalse hclosed =>
    refine eq_none_iff_forall_ne_some.mpr fun d hd => hclosed ?_
    obtain ⟨hopen, hsame⟩ := (h.sessions _ d).mp hd
    exact h.apart d hopen.1 c hc hsame ▸ hopen

/-- No resource has the address of a connection. -/
theorem Keeps.no_resource (h : Keeps s live) (hc : c ∈ s.running) :
    s.manager.resources.lookup (s.manager.objects c).address = none := by
  refine eq_none_iff_forall_ne_some.mpr fun r hr => ?_
  obtain ⟨g, hg, hsame, -⟩ := (h.tables.resources _ r).mp hr
  obtain ⟨random, hrandom⟩ := h.generated g hg
  obtain ⟨transport, htransport⟩ := h.remote c hc
  exact remoteAddr_ne_dyn transport random (htransport.symm.trans (hsame.symm.trans hrandom))

theorem Keeps.lookup_erase (h : Keeps s live) (hc : c ∈ s.running) (address : String) :
    (s.manager.resources.erase (s.manager.objects c).address).lookup address = s.manager.resources.lookup address := by
  by_cases hsame : address = (s.manager.objects c).address
  · rw [hsame, AList.lookup_erase, h.no_resource hc]
  · rw [AList.lookup_erase_ne hsame]

/-- What closing the session of a connection does to the tables. -/
theorem Keeps.tables_handleClose (h : Keeps s live) (hc : c ∈ s.running) (now : ℕ) {matcher : Bool}
    (hmatcher : s.manager.mayAnswer matcher = true) :
    Tables (s.manager.handleClose now matcher (s.manager.objects c).address) (live.filter (·.owner ≠ c)) := by
  have hnone (hno : ∀ g ∈ live, g.owner ≠ c) : live.filter (·.owner ≠ c) = live :=
    filter_eq_self.mpr fun g hg => decide_eq_true (hno g hg)
  unfold handleClose
  rw [h.lookup_address hc, h.no_resource hc]
  by_cases hopen : s.Open c
  · rw [if_pos hopen]
    rcases h.idle c hopen with hidle | ⟨g, hg, howner⟩
    · have hno : ∀ g ∈ live, g.owner ≠ c := by
        rintro g hg rfl
        obtain ⟨random, hrandom⟩ := h.generated g hg
        exact dyn_ne_empty random (hrandom.symm.trans ((h.opened g hg).2.symm.trans hidle))
      rw [hnone hno]
      simp only [map_some, getD_some, hidle, ne_eq, not_true_eq_false, if_false]
      exact h.tables.congr ⟨rfl, rfl, rfl, rfl, rfl⟩ (h.lookup_erase hc)
    · obtain ⟨front, back, rfl⟩ := append_of_mem hg
      have hdyn : (s.manager.objects c).dynAddr = g.dynAddr := howner ▸ (h.opened g hg).2
      have hne : g.dynAddr ≠ "" := by
        obtain ⟨random, hrandom⟩ := h.generated g hg
        exact hrandom ▸ dyn_ne_empty random
      have hfound : (s.manager.resources.erase (s.manager.objects c).address).lookup
          (s.manager.objects c).dynAddr = some g.resource := by
        rw [h.lookup_erase hc, h.tables.resources]
        exact ⟨g, hg, hdyn.symm, rfl⟩
      have hfilter := filter_ne_of_nodup h.owners
      rw [howner] at hfilter
      rw [hfilter]
      simp only [map_some, getD_some, hdyn, ne_eq, hne, not_false_eq_true, if_true]
      rw [hfound]
      refine h.tables.cleanUp ⟨rfl, rfl, rfl, rfl, rfl⟩ (fun address => ?_) hmatcher
      change ((s.manager.resources.erase _).erase g.dynAddr).lookup address = _
      by_cases hsame : address = g.dynAddr
      · rw [hsame, AList.lookup_erase, AList.lookup_erase]
      · rw [AList.lookup_erase_ne hsame, h.lookup_erase hc, AList.lookup_erase_ne hsame]
  · have hno : ∀ g ∈ live, g.owner ≠ c := by
      rintro g hg rfl
      exact hopen (h.opened g hg).1
    rw [if_neg hopen, hnone hno]
    exact h.tables.congr ⟨rfl, rfl, rfl, rfl, rfl⟩ (h.lookup_erase hc)

/-- Closing the session of a connection closes no other one. -/
theorem Keeps.open_handleClose (h : Keeps s live) (hc : c ∈ s.running) (now : ℕ) (matcher : Bool) (d : ℕ) :
    ({ s with manager := s.manager.handleClose now matcher (s.manager.objects c).address } : System).Open d ↔
      s.Open d ∧ d ≠ c := by
  unfold System.Open
  rw [(handleClose_frame _ _ _ _).2.2, h.lookup_address hc]
  by_cases hopen : s.Open c
  · rw [if_pos hopen]
    by_cases hd : d = c
    · simp [hd]
    · simp [hd]
  · rw [if_neg hopen]
    exact ⟨fun hd => ⟨hd, fun heq => hopen (heq ▸ hd)⟩, And.left⟩

theorem Keeps.handleClose (h : Keeps s live) (hc : c ∈ s.running) (now : ℕ) {matcher : Bool}
    (hmatcher : s.manager.mayAnswer matcher = true) :
    Keeps { s with manager := s.manager.handleClose now matcher (s.manager.objects c).address }
      (live.filter (·.owner ≠ c)) := by
  have hopen := h.open_handleClose hc now matcher
  have haddress := handleClose_address s.manager now matcher (s.manager.objects c).address
  have hmem {g : Live} (hg : g ∈ live.filter (·.owner ≠ c)) : g ∈ live ∧ g.owner ≠ c := by
    simpa using hg
  refine ⟨h.tables_handleClose hc now hmatcher, h.owners.sublist (filter_sublist.map _), fun g hg => ?_,
    fun g hg => h.generated g (hmem hg).1, fun g hg => ?_, fun d hd => ?_, fun a d => ?_, h.nodup,
    fun d hd e he hsame => ?_, fun d hd => ?_, fun d n hmade => ?_⟩
  · rw [(handleClose_frame _ _ _ _).2.1]
    exact h.fresh g (hmem hg).1
  · rw [hopen, (haddress _).2]
    exact ⟨⟨(h.opened g (hmem hg).1).1, (hmem hg).2⟩, (h.opened g (hmem hg).1).2⟩
  · obtain ⟨hd, hne⟩ := (hopen d).mp hd
    rw [(haddress _).2]
    refine (h.idle d hd).imp id ?_
    rintro ⟨g, hg, rfl⟩
    exact ⟨g, by simpa using ⟨hg, hne⟩, rfl⟩
  · rw [hopen, (haddress _).1]
    rw [(handleClose_frame _ _ _ _).1]
    by_cases ha : a = (s.manager.objects c).address
    · subst ha
      rw [AList.lookup_erase]
      simp only [reduceCtorEq, false_iff]
      rintro ⟨⟨hd, hne⟩, hsame⟩
      exact hne (h.apart d hd.1 c hc hsame)
    · rw [AList.lookup_erase_ne ha, h.sessions]
      refine and_congr_left fun hsame => ⟨fun hd => ⟨hd, ?_⟩, And.left⟩
      rintro rfl
      exact ha hsame.symm
  · rw [(haddress _).1, (haddress _).1] at hsame
    exact h.apart d hd e he hsame
  · rw [(haddress _).1]
    exact h.remote d hd
  · rw [(handleClose_frame _ _ _ _).2.1]
    obtain ⟨hold, howner⟩ := h.made d n hmade
    exact ⟨hold, fun g hg => howner g (hmem hg).1⟩

/-- The end of the loop of a connection whose session is closed. -/
theorem Keeps.leave (h : Keeps s live) (hclosed : ¬ s.Open c) :
    Keeps { s with running := s.running.erase c, ended := c :: s.ended } live := by
  have hopen (d : ℕ) :
      ({ s with running := s.running.erase c, ended := c :: s.ended } : System).Open d ↔ s.Open d := by
    unfold System.Open
    rw [h.nodup.mem_erase_iff]
    exact ⟨fun hd => ⟨hd.1.2, hd.2⟩, fun hd => ⟨⟨fun heq => hclosed (heq ▸ hd), hd.1⟩, hd.2⟩⟩
  exact {
    tables := h.tables
    owners := h.owners
    fresh := h.fresh
    generated := h.generated
    opened := fun g hg => ⟨(hopen _).mpr (h.opened g hg).1, (h.opened g hg).2⟩
    idle := fun d hd => h.idle d ((hopen d).mp hd)
    sessions := fun a d => (h.sessions a d).trans (and_congr_left fun _ => (hopen d).symm)
    nodup := h.nodup.erase c
    apart := fun d hd e he => h.apart d (mem_of_mem_erase hd) e (mem_of_mem_erase he)
    remote := fun d hd => h.remote d (mem_of_mem_erase hd)
    made := h.made }

end Closing

/-! ## Registering -/

/-- Two managers that differ in ports and bindings only. -/
structure Alike (m m' : ControlManager) : Prop where
  agree : Agree m m'
  resources : m'.resources = m.resources
  sessions : m'.sessions = m.sessions
  objects : ∀ c, (m'.objects c).core = (m.objects c).core
  count : m'.count = m.count

namespace Alike

theorem refl (m : ControlManager) : Alike m m := ⟨⟨rfl, rfl, rfl, rfl, rfl⟩, rfl, rfl, fun _ => rfl, rfl⟩

theorem trans {m₁ m₂ m₃ : ControlManager} (h : Alike m₁ m₂) (h' : Alike m₂ m₃) : Alike m₁ m₃ where
  agree :=
    ⟨h'.agree.listeners.trans h.agree.listeners, h'.agree.proxies.trans h.agree.proxies,
      h'.agree.matchers.trans h.agree.matchers, h'.agree.texts.trans h.agree.texts,
      h'.agree.routing.trans h.agree.routing⟩
  resources := h'.resources.trans h.resources
  sessions := h'.sessions.trans h.sessions
  objects c := (h'.objects c).trans (h.objects c)
  count := h'.count.trans h.count

theorem touch (m : ControlManager) (now c : ℕ) : Alike m (m.touch now c) :=
  ⟨⟨rfl, rfl, rfl, rfl, rfl⟩, rfl, rfl, core_update (by rfl), rfl⟩

theorem forget (m : ControlManager) (req : ControlRequest) : Alike m (m.forget req) := by
  unfold ControlManager.forget
  split
  · exact ⟨⟨rfl, rfl, rfl, rfl, rfl⟩, rfl, rfl, fun _ => rfl, rfl⟩
  · exact refl m

theorem advance (m : ControlManager) (p : ℤ) : Alike m (m.advance p) :=
  ⟨⟨rfl, rfl, rfl, rfl, rfl⟩, rfl, rfl, fun _ => rfl, rfl⟩

theorem reclaim (m : ControlManager) (env : Env) : Alike m (m.reclaim env) := by
  unfold ControlManager.reclaim
  split
  · exact refl m
  · split
    · exact refl m
    · exact ⟨⟨rfl, rfl, rfl, rfl, rfl⟩, rfl, rfl, fun _ => rfl, rfl⟩

theorem allocatePort (m : ControlManager) (env : Env) (reverseID : String) :
    Alike m (m.allocatePort env reverseID).2 := by
  unfold ControlManager.allocatePort
  dsimp only
  split
  · split <;> exact refl m
  · split
    · exact advance m _
    · split
      · exact (reclaim m env).trans (advance _ _)
      · exact reclaim m env

theorem choosePort (m : ControlManager) (env : Env) (req : ControlRequest) : Alike m (m.choosePort env req).2 := by
  unfold ControlManager.choosePort
  dsimp only
  split
  · repeat' split
    all_goals exact refl m
  · split
    · exact refl m
    · exact allocatePort m env req.reverseID

end Alike

/-- What a register command comes to, with the manager that `closeSessionByIdentity` leaves. -/
theorem handleRegister_cases (m : ControlManager) (env : Env) (controlAddr registryAddr : String)
    (req : ControlRequest) :
    (∃ text m', m.handleRegister env controlAddr registryAddr req = (.error text, m') ∧
      (Alike m m' ∨ Alike (m.closeSessionByIdentity env req.reverseID req.seq).2 m')) ∨
    ∃ port m₁, Alike (m.closeSessionByIdentity env req.reverseID req.seq).2 m₁ ∧
      m.handleRegister env controlAddr registryAddr req =
        (.ok (generateDynAddress env.random) port,
          m₁.install env controlAddr registryAddr req.listener (generateDynAddress env.random) port req) := by
  unfold handleRegister
  split
  · exact .inl ⟨_, _, rfl, .inl (Alike.refl m)⟩
  split
  · exact .inl ⟨_, _, rfl, .inl (Alike.refl m)⟩
  generalize m.closeSessionByIdentity env req.reverseID req.seq = closed
  obtain ⟨active, m₀⟩ := closed
  cases active with
  | true => exact .inl ⟨_, _, rfl, .inr (Alike.refl m₀)⟩
  | false =>
    have hchosen := (Alike.forget m₀ req).trans (Alike.choosePort _ env req)
    dsimp only [register]
    generalize (m₀.forget req).choosePort env req = chosen at hchosen ⊢
    obtain ⟨port, m₁⟩ := chosen
    cases port with
    | error err => exact .inl ⟨_, _, rfl, .inr hchosen⟩
    | ok port =>
      dsimp only
      cases createListener env req.listener port with
      | error err => exact .inl ⟨_, _, rfl, .inr (hchosen.trans (Alike.forget m₁ req))⟩
      | ok _ => exact .inr ⟨port, m₁, hchosen, rfl⟩

/-- What a command comes to. Only one to register goes beyond touching the session. -/
theorem command_cases (m : ControlManager) (env : Env) (c : ℕ) (payload : Option ControlRequest) :
    (∃ text m', m.command env c payload = (.error text, m') ∧ Alike (m.touch env.now c) m') ∨
    ∃ req m₀, payload = some req ∧ req.cmd = "register" ∧
      m₀ = ((m.touch env.now c).closeSessionByIdentity env req.reverseID req.seq).2 ∧
      ((∃ text m', m.command env c payload = (.error text, m') ∧ Alike m₀ m') ∨
        ∃ port m₁ g m₂, Alike m₀ m₁ ∧ Adds m₁ g m₂ ∧ g.id = m₁.count ∧ g.owner = c ∧
          g.dynAddr = generateDynAddress env.random ∧
          m.command env c payload = (.ok g.dynAddr port,
            { m₂ with objects := update m₂.objects c { m₂.objects c with dynAddr := g.dynAddr } })) := by
  cases payload with
  | none => exact .inl ⟨_, _, rfl, Alike.refl _⟩
  | some req =>
    by_cases hcmd : req.cmd = "register"
    · have hcommand : (m.touch env.now c).handleCommand env c (some req) = _ := if_pos hcmd
      rcases handleRegister_cases (m.touch env.now c) env ((m.touch env.now c).objects c).address
        ((m.touch env.now c).objects c).registryAddr req with ⟨text, m', heq, halike⟩ | ⟨port, m₁, halike, heq⟩
      · have hresult : m.command env c (some req) = (.error text, m') := by
          rw [command, hcommand, heq]
        rcases halike with halike | halike
        · exact .inl ⟨text, m', hresult, halike⟩
        · exact .inr ⟨req, _, rfl, hcmd, rfl, .inl ⟨text, m', hresult, halike⟩⟩
      · refine .inr ⟨req, _, rfl, hcmd, rfl, .inr ⟨port, m₁, _, _, halike,
          install_adds m₁ env ((m.touch env.now c).objects c).address ((m.touch env.now c).objects c).registryAddr
            req.listener env.random port req c, rfl, rfl, rfl, ?_⟩⟩
        rw [command, hcommand, heq]
        dsimp only
        rw [if_pos (dyn_ne_empty env.random)]
    · have hcommand : (m.touch env.now c).handleCommand env c (some req) = _ := if_neg hcmd
      refine .inl ⟨"unknown command: " ++ req.cmd, m.touch env.now c, ?_, Alike.refl _⟩
      rw [command, hcommand]

/-- A session that `closeSessionByIdentity` closes is in the map and not active. -/
theorem closeSessionByIdentity_cases (m : ControlManager) (env : Env) (reverseID : String) (seq : ℤ) :
    (m.closeSessionByIdentity env reverseID seq).2 = m ∨
    ∃ address d, m.sessions.lookup address = some d ∧ (m.objects d).isActive env.now = false ∧
      (m.closeSessionByIdentity env reverseID seq).2 = m.handleClose env.now env.matcher address := by
  unfold closeSessionByIdentity
  split
  · exact .inl rfl
  dsimp only
  split
  · exact .inl rfl
  case h_2 address d hfound =>
    split
    · exact .inl rfl
    split
    case isTrue => exact .inl rfl
    case isFalse hactive =>
      have hmem := env.order.mem_run.mp (mem_of_find?_eq_some hfound)
      exact .inr ⟨address, d, mem_lookup_iff.mpr hmem, by simpa using hactive, rfl⟩

section Registering

variable {s : System} {live : List Live} {c : ℕ} {m : ControlManager}

theorem Alike.open_iff (h : Alike s.manager m) (d : ℕ) : ({ s with manager := m } : System).Open d ↔ s.Open d := by
  unfold System.Open
  rw [(core_inj.mp (h.objects d)).2.2]

theorem Keeps.alike (h : Keeps s live) (halike : Alike s.manager m) : Keeps { s with manager := m } live := by
  have hcore (d : ℕ) := core_inj.mp (halike.objects d)
  refine ⟨h.tables.congr halike.agree fun address => by rw [halike.resources], h.owners, fun g hg => ?_, h.generated,
    fun g hg => ?_, fun d hd => ?_, fun a d => ?_, h.nodup, fun d hd e he hsame => ?_, fun d hd => ?_,
    fun d n hmade => ?_⟩
  · exact halike.count ▸ h.fresh g hg
  · rw [halike.open_iff, (hcore _).2.1]
    exact h.opened g hg
  · rw [(hcore _).2.1]
    exact h.idle d ((halike.open_iff d).mp hd)
  · rw [halike.open_iff, (hcore _).1]
    exact halike.sessions ▸ h.sessions a d
  · rw [(hcore _).1, (hcore _).1] at hsame
    exact h.apart d hd e he hsame
  · rw [(hcore _).1]
    exact h.remote d hd
  · exact halike.count ▸ h.made d n hmade

/-- The system once a registration was made and the session was told its address. -/
def System.settled (s : System) (m : ControlManager) (g : Live) : System :=
  { s with
    manager := { m with
      objects := update m.objects g.owner { m.objects g.owner with dynAddr := g.dynAddr } }
    made := (g.owner, g.id) :: s.made }

theorem Adds.open_iff {g : Live} (h : Adds s.manager g m) (d : ℕ) : (s.settled m g).Open d ↔ s.Open d := by
  have hcore := core_inj.mp (h.objects d)
  by_cases hd : d = g.owner
  · subst hd
    simp [System.Open, settled, hcore]
  · simp [System.Open, settled, hd, hcore]

/-- A registration of an open session that had none. -/
theorem Keeps.adds {g : Live} {random : BitVec 64} (h : Keeps s live) (hadds : Adds s.manager g m)
    (hid : g.id = s.manager.count) (hdyn : g.dynAddr = generateDynAddress random) (hopen : s.Open g.owner)
    (hidle : (s.manager.objects g.owner).dynAddr = "")
    (hfresh : ∀ g' ∈ live, hexID g'.dynAddr ≠ hexID g.dynAddr) : Keeps (s.settled m g) (g :: live) := by
  have hcore (d : ℕ) := core_inj.mp (hadds.objects d)
  have haddress (d : ℕ) : ((s.settled m g).manager.objects d).address = (s.manager.objects d).address := by
    by_cases hd : d = g.owner
    · simp [settled, hd, hcore]
    · simp [settled, hd, hcore]
  have hother (d : ℕ) (hd : d ≠ g.owner) :
      ((s.settled m g).manager.objects d).dynAddr = (s.manager.objects d).dynAddr := by
    simp [settled, hd, hcore]
  have hown : ((s.settled m g).manager.objects g.owner).dynAddr = g.dynAddr := by
    simp [settled]
  have howner : ∀ g' ∈ live, g'.owner ≠ g.owner := by
    intro g' hg' hsame
    obtain ⟨random', hrandom⟩ := h.generated g' hg'
    have hempty := (h.opened g' hg').2
    rw [hsame, hidle, hrandom] at hempty
    exact dyn_ne_empty random' hempty.symm
  have htables : Tables (s.settled m g).manager (g :: live) :=
    (h.tables.adds hadds (fun g' hg' => ((h.fresh g' hg').trans_eq hid.symm).ne) hfresh).congr
      ⟨rfl, rfl, rfl, rfl, rfl⟩ fun _ => rfl
  have hcount : (s.settled m g).manager.count = s.manager.count + 1 := hadds.count
  refine ⟨htables, ?_, fun g' hg' => ?_, fun g' hg' => ?_, fun g' hg' => ?_, fun d hd => ?_, fun a d => ?_, h.nodup,
    fun d hd e he hsame => ?_, fun d hd => ?_, fun d n hmade => ?_⟩
  · rw [map_cons, nodup_cons]
    refine ⟨fun hmem => ?_, h.owners⟩
    obtain ⟨g', hg', hsame⟩ := mem_map.mp hmem
    exact howner g' hg' hsame
  · rw [hcount]
    rcases mem_cons.mp hg' with rfl | hg'
    · omega
    · exact Nat.lt_succ_of_lt (h.fresh g' hg')
  · rcases mem_cons.mp hg' with rfl | hg'
    · exact ⟨random, hdyn⟩
    · exact h.generated g' hg'
  · rw [hadds.open_iff]
    rcases mem_cons.mp hg' with rfl | hg'
    · exact ⟨hopen, hown⟩
    · rw [hother _ (howner g' hg')]
      exact h.opened g' hg'
  · by_cases hd' : d = g.owner
    · exact .inr ⟨g, mem_cons_self, hd'.symm⟩
    · rw [hother d hd']
      refine (h.idle d ((hadds.open_iff d).mp hd)).imp id ?_
      rintro ⟨g', hg', rfl⟩
      exact ⟨g', mem_cons_of_mem _ hg', rfl⟩
  · rw [hadds.open_iff, haddress, ← h.sessions]
    exact hadds.sessions ▸ Iff.rfl
  · rw [haddress, haddress] at hsame
    exact h.apart d hd e he hsame
  · rw [haddress]
    exact h.remote d hd
  · rw [hcount]
    rcases mem_cons.mp hmade with heq | hmade
    · cases heq
      refine ⟨by omega, fun g' hg' hsame => ?_⟩
      rcases mem_cons.mp hg' with rfl | hg'
      · rfl
      · exact absurd hsame ((h.fresh g' hg').trans_eq hid.symm).ne
    · obtain ⟨hold, howner'⟩ := h.made d n hmade
      refine ⟨Nat.lt_succ_of_lt hold, fun g' hg' hsame => ?_⟩
      rcases mem_cons.mp hg' with rfl | hg'
      · omega
      · exact howner' g' hg' hsame

/-- A session of the identity that is no longer active is closed; that is not the one that registers. -/
theorem Keeps.closeSessionByIdentity (h : Keeps s live) {env : Env} (hmatcher : s.manager.mayAnswer env.matcher = true)
    (hopen : s.Open c) (hactive : (s.manager.objects c).isActive env.now = true) (reverseID : String) (seq : ℤ)
    (hm : m = (s.manager.closeSessionByIdentity env reverseID seq).2) :
    ∃ live', Keeps { s with manager := m } live' ∧ (∀ g ∈ live', g ∈ live) ∧
      (∀ g ∈ live, ({ s with manager := m } : System).Open g.owner → g ∈ live') ∧
      ({ s with manager := m } : System).Open c ∧ (m.objects c).dynAddr = (s.manager.objects c).dynAddr ∧
      m.count = s.manager.count := by
  rcases closeSessionByIdentity_cases s.manager env reverseID seq with hsame | ⟨address, d, hfound, hidle, hclosed⟩
  · rw [hsame] at hm
    subst hm
    exact ⟨live, h, fun _ => id, fun _ hg _ => hg, hopen, rfl, rfl⟩
  · obtain ⟨hd, rfl⟩ := (h.sessions address d).mp hfound
    rw [hclosed] at hm
    subst hm
    have hiff := h.open_handleClose hd.1 env.now env.matcher
    have hne : c ≠ d := by
      rintro rfl
      exact absurd hactive (by simp [hidle])
    refine ⟨_, h.handleClose hd.1 env.now hmatcher, fun g hg => (mem_filter.mp hg).1, fun g hg hg' => ?_,
      (hiff c).mpr ⟨hopen, hne⟩, (handleClose_address _ _ _ _ c).2, (handleClose_frame _ _ _ _).2.1⟩
    exact mem_filter.mpr ⟨hg, decide_eq_true ((hiff _).mp hg').2⟩

/-- A new connection, with an address of its own. -/
theorem Keeps.connect (h : Keeps s live) (hnew : c ∉ s.running) (transport : Transport) (registryAddr : String)
    (now : ℕ) (hapart : ∀ d ∈ s.running, (s.manager.objects d).address ≠ transport.remoteAddr) {t : System}
    (ht : t = { s with
      manager := s.manager.connect now c transport.remoteAddr registryAddr
      running := c :: s.running }) :
    Keeps t live := by
  have hself : t.manager.objects c = ⟨transport.remoteAddr, registryAddr, "", "", 0, now, false⟩ := by
    simp [ht, ControlManager.connect]
  have hother (d : ℕ) (hd : d ≠ c) : t.manager.objects d = s.manager.objects d := by
    simp [ht, ControlManager.connect, hd]
  have hrunning : t.running = c :: s.running := ht ▸ rfl
  have hnewOpen : t.Open c := by
    simp [System.Open, hself, hrunning]
  have hopen (d : ℕ) (hd : d ≠ c) : t.Open d ↔ s.Open d := by
    simp [System.Open, hrunning, hother d hd, hd]
  have hne {d : ℕ} (hd : d ∈ s.running) : d ≠ c := fun heq => hnew (heq ▸ hd)
  refine ⟨?_, h.owners, ?_, h.generated, fun g hg => ?_, fun d hd => ?_, fun a d => ?_, ?_, fun d hd e he hsame => ?_,
    fun d hd => ?_, ?_⟩
  · exact h.tables.congr (ht ▸ ⟨rfl, rfl, rfl, rfl, rfl⟩) fun _ => ht ▸ rfl
  · exact ht ▸ h.fresh
  · have hg' := h.opened g hg
    rw [hopen _ (hne hg'.1.1), hother _ (hne hg'.1.1)]
    exact hg'
  · by_cases hd' : d = c
    · rw [hd', hself]
      exact .inl rfl
    · rw [hother d hd']
      exact h.idle d ((hopen d hd').mp hd)
  · have hsessions : t.manager.sessions = s.manager.sessions.insert transport.remoteAddr c := ht ▸ rfl
    rw [hsessions]
    by_cases ha : a = transport.remoteAddr
    · subst ha
      rw [lookup_insert, Option.some.injEq]
      constructor
      · rintro rfl
        exact ⟨hnewOpen, by rw [hself]⟩
      · rintro ⟨hd, hsame⟩
        by_contra hd'
        rw [hother d (Ne.symm hd')] at hsame
        exact hapart d ((hopen d (Ne.symm hd')).mp hd).1 hsame
    · rw [lookup_insert_ne ha, h.sessions]
      by_cases hd' : d = c
      · subst hd'
        rw [hself]
        exact iff_of_false (fun hd => hnew hd.1.1) fun hd => ha hd.2.symm
      · rw [hopen d hd', hother d hd']
  · rw [hrunning, nodup_cons]
    exact ⟨hnew, h.nodup⟩
  · rw [hrunning] at hd he
    by_cases hd' : d = c <;> by_cases he' : e = c
    · rw [hd', he']
    · rw [hd', hself, hother e he'] at hsame
      exact absurd hsame.symm (hapart e ((mem_cons.mp he).resolve_left he'))
    · rw [he', hself, hother d hd'] at hsame
      exact absurd hsame (hapart d ((mem_cons.mp hd).resolve_left hd'))
    · rw [hother d hd', hother e he'] at hsame
      exact h.apart d ((mem_cons.mp hd).resolve_left hd') e ((mem_cons.mp he).resolve_left he') hsame
  · rw [hrunning] at hd
    by_cases hd' : d = c
    · rw [hd', hself]
      exact ⟨transport, rfl⟩
    · rw [hother d hd']
      exact h.remote d ((mem_cons.mp hd).resolve_left hd')
  · exact ht ▸ h.made

end Registering

/-! ## Runs -/

/-- A command of an open session. -/
theorem Keeps.command {s t : System} {live : List Live} (h : Keeps s live) {c : ℕ} {env : Env}
    {payload : Option ControlRequest} (hcareful : s.Careful (.command c env payload))
    (hstep : s.step (.command c env payload) = some t) : ∃ live', Keeps t live' ∧ Passes s live t live' := by
  obtain ⟨⟨hopen, hmatcher⟩, hstep⟩ := ite_none_right_eq_some.mp hstep
  have htouch := Alike.touch s.manager env.now c
  have hkeeps := h.alike htouch
  rcases command_cases s.manager env c payload with ⟨text, m', heq, halike⟩ | ⟨req, m₀, rfl, hcmd, hm₀, hreply⟩
  · rw [heq] at hstep
    cases hstep
    exact ⟨live, h.alike (htouch.trans halike), fun g hg _ => hg, fun g hg => .inl hg⟩
  obtain ⟨live₀, hkeeps₀, hsub, hkept, hopen₀, hdyn₀, hcount₀⟩ := hkeeps.closeSessionByIdentity hmatcher
    ((htouch.open_iff c).mpr hopen) (by simp [touch, isActive]) req.reverseID req.seq hm₀
  rcases hreply with ⟨text, m', heq, halike⟩ | ⟨port, m₁, g, m₂, halike, hadds, hid, rfl, hdyn, heq⟩
  · rw [heq] at hstep
    cases hstep
    refine ⟨live₀, hkeeps₀.alike halike, fun g hg hg' => hkept g hg ?_, fun g hg => .inl (hsub g hg)⟩
    exact (Alike.open_iff (s := { s with manager := m₀ }) halike _).mp hg'
  · rw [heq] at hstep
    obtain ⟨hidle, hfresh⟩ := hcareful hcmd
    have hcount : g.id = s.manager.count := hid.trans (halike.count.trans hcount₀)
    have hopen₁ := (Alike.open_iff (s := { s with manager := m₀ }) halike g.owner).mpr hopen₀
    have hidle₁ : (m₁.objects g.owner).dynAddr = "" := by
      rw [(core_inj.mp (halike.objects g.owner)).2.1, hdyn₀]
      simpa [touch] using hidle
    have hfresh₀ : ∀ g' ∈ live₀, hexID g'.dynAddr ≠ hexID g.dynAddr := by
      intro g' hg'
      rw [hdyn]
      have hlookup := (h.tables.resources g'.dynAddr g'.resource).mpr ⟨g', hsub g' hg', rfl, rfl⟩
      exact hfresh g'.dynAddr (mem_keys.mp (lookup_isSome.mp (by rw [hlookup]; rfl)))
    have hadds' : Adds ({ s with manager := m₁ } : System).manager g m₂ := hadds
    have ht : settled { s with manager := m₁ } m₂ g = t := by
      rw [← Option.some.inj hstep, ← hcount]
      rfl
    subst ht
    refine ⟨g :: live₀, (hkeeps₀.alike halike).adds hadds' hid hdyn hopen₁ hidle₁ hfresh₀, fun g' hg' hg'open => ?_,
      fun g' hg' => ?_⟩
    · have hopen' := (Alike.open_iff (s := { s with manager := m₀ }) halike _).mp ((hadds'.open_iff _).mp hg'open)
      exact mem_cons_of_mem _ (hkept g' hg' hopen')
    · rcases mem_cons.mp hg' with rfl | hg'
      · exact .inr hcount.ge
      · exact .inl (hsub g' hg')

theorem Keeps.step {s t : System} {live : List Live} (h : Keeps s live) {e : Event} (hcareful : s.Careful e)
    (hstep : s.step e = some t) : ∃ live', Keeps t live' ∧ Passes s live t live' := by
  cases e with
  | connect c transport registryAddr now =>
    obtain ⟨hnew, ht⟩ := ite_none_left_eq_some.mp hstep
    exact ⟨live, h.connect (fun hc => hnew (.inl hc)) transport registryAddr now hcareful (Option.some.inj ht).symm,
      fun g hg _ => hg, fun g hg => .inl hg⟩
  | frame c now =>
    obtain ⟨-, ht⟩ := ite_none_right_eq_some.mp hstep
    cases ht
    exact ⟨live, h.alike (Alike.touch _ _ _), fun g hg _ => hg, fun g hg => .inl hg⟩
  | command c env payload => exact h.command hcareful hstep
  | close c now matcher =>
    obtain ⟨⟨hc, hmatcher⟩, ht⟩ := ite_none_right_eq_some.mp hstep
    cases ht
    have hiff := h.open_handleClose hc now matcher
    refine ⟨_, (h.handleClose hc now hmatcher).leave (fun hopen => ((hiff c).mp hopen).2 rfl), fun g hg hopen => ?_,
      fun g hg => .inl (mem_filter.mp hg).1⟩
    have hg' := (hiff g.owner).mp ⟨mem_of_mem_erase hopen.1, hopen.2⟩
    exact mem_filter.mpr ⟨hg, decide_eq_true hg'.2⟩

theorem Keeps.undisturbed {s t : System} {live : List Live} (h : Keeps s live) {e : Event} (hcareful : s.Careful e)
    (hstep : s.step e = some t) : Undisturbed s e t := by
  constructor
  · intro c n hmade _ hopen
    obtain ⟨live', hkeeps, hpasses⟩ := h.step hcareful hstep
    exact hpasses.unchanged h hkeeps hmade hopen
  · rintro c now matcher rfl d hne hopen
    obtain ⟨⟨hc, -⟩, ht⟩ := ite_none_right_eq_some.mp hstep
    cases ht
    have hstays := (h.open_handleClose hc now matcher d).mpr ⟨hopen, hne⟩
    exact ⟨(mem_erase_of_ne hne).mpr hstays.1, hstays.2⟩

/-- At first, nothing is registered. -/
theorem Keeps.init (portMin portMax : ℤ) {routing : Routing} (hrouting : routing.static = true) :
    Keeps (System.init portMin portMax routing) [] := by
  simp only [Routing.static, Bool.and_eq_true, List.all_eq_true] at hrouting
  obtain ⟨⟨hproxies, hmappings⟩, hrules⟩ := hrouting
  have hnone {t : GoMap.Table (Option ℕ)} (ht : ∀ x ∈ t.values, x.isNone = true) (name : String) (n : ℕ) :
      t.lookup name ≠ some (some n) := fun hlookup =>
    absurd (ht _ (GoMap.Table.mem_values.mpr ⟨_, hlookup⟩)) (by simp)
  have hrule (n : ℕ) (rule : Rule) : (some n, rule) ∉ routing.rules := fun hmem => absurd (hrules _ hmem) (by simp)
  have htables : Tables (System.init portMin portMax routing).manager [] := by
    refine ⟨rfl, fun address r => ?_, fun name p => ?_, rfl, rfl, fun name n => ?_, fun name n => ?_, fun n rule => ?_,
      nodup_nil, nodup_nil⟩
    · simp [System.init, newControlManager]
    · simp [System.init, newControlManager]
    · exact iff_of_false (hnone hproxies name n) (by simp)
    · exact iff_of_false (hnone hmappings name n) (by simp)
    · exact iff_of_false (hrule n rule) (by simp)
  refine ⟨htables, nodup_nil, by simp, by simp, by simp, fun c hc => ?_, fun a c => ?_, nodup_nil, ?_, ?_, ?_⟩
  · exact absurd hc.1 (by simp [System.init])
  · simp [System.Open, System.init, newControlManager]
  · simp [System.init]
  · simp [System.init]
  · simp [System.init]

/-- In every run of careful steps, nothing remains of what a closed session registered, and whatever comes next
leaves the registrations of the open sessions alone. -/
theorem tidy_of_careful (portMin portMax : ℤ) (routing : Routing) (hrouting : routing.static = true)
    (events : List Event) (s : System)
    (hcareful : Lts.Always step Careful (System.init portMin portMax routing) events)
    (hrun : Lts.exec step (System.init portMin portMax routing) events = some s) :
    s.Tidy ∧ ∀ e t, s.Careful e → s.step e = some t → Undisturbed s e t := by
  have hstep : ∀ s e t, (∃ live, Keeps s live) → s.Careful e → s.step e = some t → ∃ live, Keeps t live := by
    rintro s e t ⟨live, h⟩ hok hs
    obtain ⟨live', h', -⟩ := h.step hok hs
    exact ⟨live', h'⟩
  obtain ⟨live, hkeeps⟩ := Lts.exec_invariant hstep ⟨[], Keeps.init portMin portMax hrouting⟩ hcareful hrun
  exact ⟨hkeeps.tidy, fun e t hok hstep => hkeeps.undisturbed hok hstep⟩

/-! ## Two sessions with one address, and one session with two registrations -/

/-- A registration of a client. -/
def requestOf (reverseID : String) : ControlRequest := ⟨"register", "", 0, 0, "", "", "", "", "", 0, "", reverseID⟩

/-- A manager without any static configuration. -/
def bare : System := .init 20000 20009 ⟨∅, ∅, []⟩

/-- Two clients register over connections of their own. -/
def twoClients (first second : Transport) : List Event :=
  [.connect 0 first "10.0.0.1:443" 0, .connect 1 second "10.0.0.1:443" 0,
    .command 0 (quietEnv 1 0x1111111111111111) (some (requestOf "r1")),
    .command 1 (quietEnv 2 0x2222222222222222) (some (requestOf "r2"))]

/-- Over TCP, the second client keeps what it has when the first one leaves. -/
theorem tidy_of_careful_tcp :
    ∃ s t, Lts.exec step bare (twoClients (.tcp "10.0.0.8" 1000) (.tcp "10.0.0.9" 1000)) = some s ∧
      s.step (.close 0 3 true) = some t ∧ s.manager.listeners = [(1, 20001), (0, 20000)] ∧
      t.manager.listeners = [(1, 20001)] ∧ s.Tidy ∧ Undisturbed s (.close 0 3 true) t := by
  refine ⟨_, _, rfl, rfl, by decide +kernel, by decide +kernel, ?_⟩
  obtain ⟨htidy, hnext⟩ := tidy_of_careful 20000 20009 ⟨∅, ∅, []⟩ (by decide +kernel)
    (twoClients (.tcp "10.0.0.8" 1000) (.tcp "10.0.0.9" 1000)) _ (by decide +kernel) rfl
  exact ⟨htidy, hnext _ _ trivial rfl⟩

/-- One client registers twice, under different identities, and leaves. -/
def twice : List Event :=
  [.connect 0 (.tcp "10.0.0.9" 1000) "10.0.0.1:443" 0,
    .command 0 (quietEnv 1 0x1111111111111111) (some (requestOf "r1")),
    .command 0 (quietEnv 2 0x2222222222222222) (some (requestOf "r2")), .close 0 3 true]

/-- Over h_tunnels, the close of the first client takes away what the second one registered, and leaves what the
first one registered. What a client registered first remains if it registers twice. -/
theorem close_misses_and_hits :
    (∃ s t, Lts.exec step bare (twoClients .htunnel .htunnel) = some s ∧
      s.step (.close 0 3 true) = some t ∧ s.manager.listeners = [(1, 20001), (0, 20000)] ∧
      t.manager.listeners = [(0, 20000)] ∧ ¬ t.Tidy ∧ ¬ Undisturbed s (.close 0 3 true) t) ∧
    ∃ t, Lts.exec step bare twice = some t ∧ t.manager.listeners = [(0, 20000)] ∧ ¬ t.Tidy := by
  have huntidy {t : System} (hmade : (0, 0) ∈ t.made) (hclosed : ¬ t.Open 0)
      (hlisteners : t.manager.listeners = [(0, 20000)]) : ¬ t.Tidy := fun htidy =>
    htidy 0 0 hmade hclosed (.inl ⟨20000, by simp [hlisteners]⟩)
  constructor
  · refine ⟨_, _, rfl, rfl, by decide +kernel, by decide +kernel, ?_, fun hundisturbed => ?_⟩
    · exact huntidy (by decide +kernel) (by decide +kernel) (by decide +kernel)
    · have hopen := hundisturbed.stays 0 3 true rfl 1 (by decide) (by decide +kernel)
      exact absurd hopen (by decide +kernel)
  · refine ⟨_, rfl, by decide +kernel, ?_⟩
    exact huntidy (by decide +kernel) (by decide +kernel) (by decide +kernel)

end Control
