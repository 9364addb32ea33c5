import Mathlib.Algebra.Group.Nat.Defs
import Phaethon.Common.Lts

/-!
# Ids of P2P sessions

`HandleP2PTransport`, `StartPeer`, `StopPeerByProxyName`, `StopAllPeers` and `Stop` of `src/p2p/p2p.go`, as far as they
are about the ids of sessions. An id is the low half-word of a counter, so that a session which lives through 65,536
later ones meets its own id again (`unique_iff_roomy`).
-/

namespace SessionIds

open Function Lts

/-- The id that the `n`-th draw gives: `uint16` of a `uint64` counter. -/
def seq (n : ℕ) : ℕ := n % 2 ^ 64 % 2 ^ 16

/-- Where a call of `HandleP2PTransport` or `StartPeer` is, with the number of its draw. -/
inductive Pc where
  | idle
  /-- `StartPeer` looks for a session of its proxy -/
  | look
  | beginSession
  | draw
  | register (n : ℕ)
  | running (n : ℕ)
  | returned
  deriving DecidableEq, Repr

open Pc

/-- The draw of a session that is alive. -/
def Pc.number : Pc → Option ℕ
  | .register n | .running n => some n
  | _ => none

/-- The manager and its sessions. -/
structure State where
  stopped : Bool := false
  linkSeqCounter : ℕ := 0
  /-- the sessions by their ids -/
  peers : ℕ → Option ℕ := fun _ => none
  proxyPeers : String → Option ℕ := fun _ => none
  pc : ℕ → Pc := fun _ => .idle
  /-- the proxy of a session that `StartPeer` makes -/
  proxy : ℕ → Option String := fun _ => none

inductive Label where
  /-- a call of `HandleP2PTransport`, or of `StartPeer` with a proxy -/
  | call (u : ℕ) (proxy : Option String)
  /-- the next atomic step of a call -/
  | next (u : ℕ)
  | stopPeerByProxyName (name : String)
  | stopAllPeers
  | stop

/-- A map without the entry at a key, if that is the session. -/
def remove {κ : Type} [DecidableEq κ] (m : κ → Option ℕ) (key : κ) (u : ℕ) : κ → Option ℕ :=
  if m key = some u then update m key none else m

variable (s : State)

/-- The proxy of the session has another session. -/
def State.taken (u : ℕ) : Bool := (s.proxy u).any fun name => (s.proxyPeers name).isSome

def State.goto (u : ℕ) (pc : Pc) : State := { s with pc := update s.pc u pc }

def step : Label → Option State
  | .call u proxy =>
      if s.pc u = .idle then
        some { s.goto u (if proxy = none then .beginSession else .look) with proxy := update s.proxy u proxy }
      else none
  | .next u =>
      match s.pc u with
      | .look => some (s.goto u (if s.taken u then .returned else .beginSession))
      | .beginSession => some (s.goto u (if s.stopped then .returned else .draw))
      | .draw =>
          some { s.goto u (.register (s.linkSeqCounter + 1)) with linkSeqCounter := s.linkSeqCounter + 1 }
      | .register n =>
          if s.stopped ∨ s.taken u then some (s.goto u .returned)
          else
            some
              { s.goto u (.running n) with
                peers := update s.peers (seq n) (some u)
                proxyPeers := (s.proxy u).elim s.proxyPeers fun name => update s.proxyPeers name (some u) }
      | .running n =>
          -- the session has ended, for whatever reason
          some
            { s.goto u .returned with
              peers := remove s.peers (seq n) u
              proxyPeers := (s.proxy u).elim s.proxyPeers fun name => remove s.proxyPeers name u }
      | .idle | .returned => none
  | .stopPeerByProxyName name =>
      -- a session that is listed for its proxy is running
      match s.proxyPeers name with
      | some u =>
          some
            { s with
              proxyPeers := update s.proxyPeers name none
              peers := (s.pc u).number.elim s.peers fun n => update s.peers (seq n) none }
      | none => some s
  | .stopAllPeers => some { s with proxyPeers := fun _ => none, peers := fun _ => none }
  | .stop => some { s with stopped := true }

/-- No two live sessions have the same id, and a session that is about to be registered replaces no live one. -/
structure Unique (s : State) : Prop where
  apart : ∀ u v n m, (s.pc u).number = some n → (s.pc v).number = some m → seq n = seq m → u = v
  vacant : ∀ u v n, s.pc u = .register n → s.peers (seq n) = some v → (s.pc v).number = none

/-- No session that is alive drew its id 65,536 draws ago. -/
def Roomy : Label → Prop
  | .next u => s.pc u = .draw → ∀ v n, (s.pc v).number = some n → s.linkSeqCounter + 1 < n + 2 ^ 16
  | _ => True

/-! ## Invariant -/

structure Inv (s : State) : Prop where
  recent : ∀ u n, (s.pc u).number = some n → n ≤ s.linkSeqCounter ∧ s.linkSeqCounter < n + 2 ^ 16
  apart : ∀ u v n, (s.pc u).number = some n → (s.pc v).number = some n → u = v
  listed : ∀ i u, s.peers i = some u → (∃ n, s.pc u = .running n ∧ i = seq n) ∨ s.pc u = .returned

variable {s t : State} {u : ℕ} {pc : Pc}

theorem seq_eq (n : ℕ) : seq n = n % 2 ^ 16 := Nat.mod_mod_of_dvd n (by decide)

theorem eq_of_update {m : ℕ → Option ℕ} {key i v : ℕ} (h : update m key none i = some v) :
    m i = some v := by
  by_cases hi : i = key
  · simp [hi] at h
  · rwa [update_of_ne hi] at h

theorem eq_of_remove {m : ℕ → Option ℕ} {key i v : ℕ} (h : remove m key u i = some v) : m i = some v := by
  unfold remove at h
  split at h
  · exact eq_of_update h
  · exact h

namespace Inv

theorem init : Inv {} := ⟨by simp [number], by simp [number], by simp⟩

/-- A call goes on without another id. -/
theorem goto (h : Inv s) (hpc : t.pc = update s.pc u pc) (hcounter : t.linkSeqCounter = s.linkSeqCounter)
    (hnumber : ∀ n, pc.number = some n → (s.pc u).number = some n)
    (hpeers : ∀ i v, t.peers i = some v → s.peers i = some v ∧ (v = u → pc = .returned) ∨
      v = u ∧ ∃ n, pc = .running n ∧ i = seq n) : Inv t := by
  have hold {v n : ℕ} (hv : (t.pc v).number = some n) : (s.pc v).number = some n := by
    rw [hpc] at hv
    by_cases hvu : v = u
    · subst hvu
      exact hnumber n (by simpa using hv)
    · rwa [update_of_ne hvu] at hv
  refine ⟨fun v n hv => hcounter ▸ h.recent v n (hold hv), fun v w n hv hw => h.apart v w n (hold hv) (hold hw),
    fun i v hi => ?_⟩
  rw [hpc]
  by_cases hvu : v = u
  · subst hvu
    rw [update_self]
    rcases hpeers i v hi with ⟨-, hend⟩ | ⟨-, hrunning⟩
    · exact .inr (hend rfl)
    · exact .inl hrunning
  · rw [update_of_ne hvu]
    exact h.listed i v ((hpeers i v hi).resolve_right fun hv => hvu hv.1).1

/-- A call that has not been registered is not listed. -/
theorem unlisted (h : Inv s) (hrunning : ∀ n, s.pc u ≠ .running n) (hreturned : s.pc u ≠ .returned) {i v : ℕ}
    (hi : s.peers i = some v) : v ≠ u := by
  rintro rfl
  rcases h.listed i v hi with ⟨n, hn, -⟩ | hn
  · exact hrunning n hn
  · exact hreturned hn

/-- A session draws its id. -/
theorem draw (h : Inv s) (hroomy : ∀ v n, (s.pc v).number = some n → s.linkSeqCounter + 1 < n + 2 ^ 16)
    (hpc : s.pc u = .draw) :
    Inv { s.goto u (.register (s.linkSeqCounter + 1)) with linkSeqCounter := s.linkSeqCounter + 1 } := by
  have hcases {v n : ℕ} (hv : (update s.pc u (.register (s.linkSeqCounter + 1)) v).number = some n) :
      v = u ∧ n = s.linkSeqCounter + 1 ∨ (s.pc v).number = some n ∧ n ≤ s.linkSeqCounter := by
    by_cases hvu : v = u
    · exact .inl ⟨hvu, by simpa [hvu, number, eq_comm] using hv⟩
    · rw [update_of_ne hvu] at hv
      exact .inr ⟨hv, (h.recent v n hv).1⟩
  refine ⟨fun v n hv => ?_, fun v w n hv hw => ?_, fun i v hi => ?_⟩
  · rcases hcases hv with ⟨-, rfl⟩ | ⟨hv, hle⟩
    · exact ⟨Nat.le_refl _, Nat.lt_add_of_pos_right (by decide)⟩
    · exact ⟨Nat.le_succ_of_le hle, hroomy v n hv⟩
  · rcases hcases hv with ⟨rfl, hn⟩ | ⟨hv, hn⟩ <;> rcases hcases hw with ⟨rfl, hm⟩ | ⟨hw, hm⟩
    · rfl
    · omega
    · omega
    · exact h.apart v w n hv hw
  · have hvu : v ≠ u := h.unlisted (by simp [hpc]) (by simp [hpc]) hi
    simpa only [State.goto, update_of_ne hvu] using h.listed i v hi

theorem step {l : Label} (h : Inv s) (hroomy : Roomy s l) (hstep : step s l = some t) : Inv t := by
  cases l with
  | call u proxy =>
    obtain ⟨hidle, hstep⟩ := Option.ite_none_right_eq_some.mp hstep
    cases hstep
    refine h.goto rfl rfl (by split <;> simp [number]) fun i v hi => .inl ⟨hi, fun hv => ?_⟩
    exact absurd hv (h.unlisted (by simp [hidle]) (by simp [hidle]) hi)
  | next u =>
    simp only [SessionIds.step] at hstep
    split at hstep
    case h_1 hpc | h_2 hpc =>
      cases hstep
      refine h.goto rfl rfl (by split <;> simp [number]) fun i v hi => .inl ⟨hi, fun hv => ?_⟩
      exact absurd hv (h.unlisted (by simp [hpc]) (by simp [hpc]) hi)
    case h_3 hpc =>
      cases hstep
      exact h.draw (hroomy hpc) hpc
    case h_4 n hpc =>
      split at hstep <;> cases hstep
      · exact h.goto rfl rfl (by simp [number]) fun _ _ hi => .inl ⟨hi, fun _ => rfl⟩
      · refine h.goto rfl rfl (by simp [hpc, number]) fun i v hi => ?_
        by_cases hin : i = seq n
        · exact .inr ⟨by simpa [hin, eq_comm] using hi, n, rfl, hin⟩
        · have hi : s.peers i = some v := (update_of_ne hin ..).symm.trans hi
          exact .inl ⟨hi, fun hv => absurd hv (h.unlisted (by simp [hpc]) (by simp [hpc]) hi)⟩
    case h_5 hpc =>
      cases hstep
      exact h.goto rfl rfl (by simp [number]) fun _ _ hi => .inl ⟨eq_of_remove hi, fun _ => rfl⟩
    case h_6 | h_7 => cases hstep
  | stopPeerByProxyName name =>
    simp only [SessionIds.step] at hstep
    split at hstep <;> cases hstep
    case h_1 u _ =>
      refine ⟨h.recent, h.apart, fun i v hi => h.listed i v ?_⟩
      cases hnumber : (s.pc u).number with
      | none => simpa [hnumber] using hi
      | some n => exact eq_of_update (by simpa [hnumber] using hi)
    case h_2 => exact h
  | stopAllPeers =>
    cases hstep
    exact ⟨h.recent, h.apart, by simp⟩
  | stop =>
    cases hstep
    exact ⟨h.recent, h.apart, h.listed⟩

theorem unique (h : Inv s) : Unique s := by
  have hapart (u v n m : ℕ) (hu : (s.pc u).number = some n) (hv : (s.pc v).number = some m) (heq : seq n = seq m) :
      u = v := by
    have hn := h.recent u n hu
    have hm := h.recent v m hv
    rw [seq_eq, seq_eq] at heq
    obtain rfl : n = m := by omega
    exact h.apart u v n hu hv
  refine ⟨hapart, fun u v n hu hv => ?_⟩
  rcases h.listed _ v hv with ⟨m, hm, heq⟩ | hreturned
  · obtain rfl := hapart u v n m (by rw [hu]; rfl) (by rw [hm]; rfl) heq
    cases hu.symm.trans hm
  · rw [hreturned]; rfl

/-- A draw that meets the id of a live session. -/
theorem not_unique {l : Label} (h : Inv s) (hroomy : ¬ Roomy s l) (hstep : SessionIds.step s l = some t) :
    ¬ Unique t := by
  intro hunique
  match l with
  | .next u =>
    simp only [Roomy, Classical.not_imp, not_forall, Nat.not_lt] at hroomy
    obtain ⟨hpc, v, n, hv, hold⟩ := hroomy
    have hvu : v ≠ u := by
      rintro rfl
      simp [hpc, number] at hv
    have hlast : s.linkSeqCounter + 1 = n + 2 ^ 16 := Nat.le_antisymm (h.recent v n hv).2 hold
    simp only [SessionIds.step, hpc, Option.some.injEq] at hstep
    subst hstep
    refine hvu (hunique.apart v u n (s.linkSeqCounter + 1) (by simpa [State.goto, hvu] using hv) ?_ ?_)
    · simp [State.goto, number]
    · simp [hlast, seq_eq]
  | .call _ _ | .stopPeerByProxyName _ | .stopAllPeers | .stop => exact hroomy trivial

end Inv

/-! ## Runs -/

/-- The ids of live sessions are unique throughout a run exactly if no session lives through 65,536 draws. -/
theorem unique_iff_roomy (labels : List Label) (s : State) (hrun : exec step {} labels = some s) :
    Always step Roomy {} labels ↔ ∀ bs, bs <+: labels → ∀ t, exec step {} bs = some t → Unique t :=
  always_iff_exec (fun _ _ _ => Inv.step) (fun _ => Inv.unique) (fun _ _ _ => Inv.not_unique) Inv.init hrun

/-- Two connections are accepted. -/
def twoSessions : List Label := [.call 0 none, .next 0, .next 0, .call 1 none, .next 1, .next 1]

theorem unique_iff_roomy_twoSessions :
    ∃ s, exec step {} twoSessions = some s ∧ s.pc 0 = .register 1 ∧ s.pc 1 = .register 2 ∧ Unique s := by
  have hnew (n m : ℕ) (h : n < 3) : n < m + 2 ^ 16 := by omega
  refine ⟨_, rfl, rfl, rfl, (unique_iff_roomy twoSessions _ rfl).mp ?_ twoSessions (List.prefix_refl _) _ rfl⟩
  exact ⟨trivial, nofun, fun _ _ n _ => hnew _ n (by decide), trivial, nofun, fun _ _ n _ => hnew _ n (by decide),
    trivial⟩

/-- The first session is alive, and `k` others have come and gone. -/
@[mk_iff]
structure Outlives (k : ℕ) (s : State) : Prop where
  stopped : s.stopped = false
  counter : s.linkSeqCounter = k + 1
  first : s.pc 0 = .running 1
  idle : ∀ u, k < u → s.pc u = .idle

theorem exists_outlives (k : ℕ) : ∃ labels s, exec step {} labels = some s ∧ Outlives k s := by
  induction k with
  | zero =>
    refine ⟨[.call 0 none, .next 0, .next 0, .next 0], _, rfl, rfl, rfl, rfl, fun u hu => ?_⟩
    simp [State.goto, Nat.ne_of_gt hu]
  | succ k ih =>
    obtain ⟨labels, s, hrun, hs⟩ := ih
    have hidle := hs.idle (k + 1) k.lt_succ_self
    have hlater (u : ℕ) (hu : k + 1 < u) : u ≠ k + 1 ∧ s.pc u = .idle := ⟨by omega, hs.idle u (by omega)⟩
    let short : List Label := [.call (k + 1) none, .next (k + 1), .next (k + 1), .next (k + 1), .next (k + 1)]
    have hshort : ∃ t, exec step s short = some t ∧ Outlives (k + 1) t := by
      simp +contextual [short, exec, step, hidle, State.goto, State.taken, outlives_iff, hs.stopped, hs.counter,
        hs.first, hlater]
    obtain ⟨t, ht, hk⟩ := hshort
    exact ⟨labels ++ short, t, by rw [exec_append, hrun]; exact ht, hk⟩

/-- The first session is alive when the 65,536th after it draws the id that the first has. -/
theorem outlived_meets_its_id :
    ∃ labels s, exec step {} labels = some s ∧ s.pc 0 = .running 1 ∧ s.pc 65536 = .register 65537 ∧
      seq 65537 = seq 1 ∧ ¬ Unique s := by
  obtain ⟨labels, s, hrun, hs⟩ := exists_outlives 65535
  have hlast : ∃ t, exec step s [.call 65536 none, .next 65536, .next 65536] = some t ∧ t.pc 0 = .running 1 ∧
      t.pc 65536 = .register 65537 := by
    simp [exec, step, hs.idle 65536 (by decide), State.goto, hs.stopped, hs.counter, hs.first]
  obtain ⟨t, ht, hfirst, hregister⟩ := hlast
  refine ⟨labels ++ [.call 65536 none, .next 65536, .next 65536], t, by rw [exec_append, hrun]; exact ht, hfirst,
    hregister, by decide, fun h => ?_⟩
  exact absurd (h.apart 65536 0 65537 1 (by rw [hregister]; rfl) (by rw [hfirst]; rfl) (by decide)) (by decide)

end SessionIds
