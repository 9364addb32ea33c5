import Phaethon.Common.Custody
import Phaethon.Mesh.DnsForward

/-!
# Forwarded DNS queries: who answers

A query is with its call, in `pendingQueries`, in the hands of the listener or of `Stop`, or answered; in one of these
places, once (`Answered`). This lasts as long as a call whose write has failed still finds its entry, and `Stop` does
not return while the listener has yet to answer a query whose call has returned (`Careful`).
-/

namespace DnsForward

open Custody Dns GoMap Function List Option DnsForward.Handler Prod Listener Lts

variable {toLower : List UInt8 → List UInt8} {s t : State} {u : ℕ}

/-! ## Places -/

/-- The query of a call that goes on. -/
def Handler.query : Handler → Option Query
  | .cache q | .socket q | .register q | .write q | .failed q | .answer q _ => some q
  | .idle | .returned => none

/-- A call that has not registered its query, or has removed it, has to answer it. -/
def Handler.held (u : ℕ) : Handler → List ℕ
  | .cache _ | .socket _ | .register _ | .answer _ _ => [u]
  | .idle | .write _ | .failed _ | .returned => []

/-- The call has registered, and its write may still fail. -/
def Handler.writing : Handler → Bool
  | .write _ | .failed _ => true
  | _ => false

/-- The write of the call has failed. -/
def Handler.hasFailed : Handler → Bool
  | .failed _ => true
  | _ => false

def Handler.registered (pc : Handler) : Bool := pc.writing || decide (pc = .returned)

def Listener.todo : Listener → List PendingQuery
  | .sweeping todo _ | .answering _ todo => todo
  | _ => []

def Stop.todo : Stop → List PendingQuery
  | .answering todo => todo
  | _ => []

/-- `Stop` has taken what was waiting. -/
def Stop.swept : Stop → Bool
  | .answering _ | .returned => true
  | _ => false

/-- The entries that are not answered yet. -/
def State.waiting (s : State) : List PendingQuery := s.pending.map snd ++ s.listener.todo ++ s.stop.todo

theorem mem_waiting_of_pending {e : List UInt8 × PendingQuery} (he : e ∈ s.pending) : e.2 ∈ s.waiting :=
  mem_append_left _ (mem_append_left _ (mem_map_of_mem he))

variable {pq : PendingQuery}

theorem mem_waiting_of_listener (hpq : pq ∈ s.listener.todo) : pq ∈ s.waiting :=
  mem_append_left _ (mem_append_right _ hpq)

inductive Place where
  | handler (u : ℕ) | pending | listener | stop | replied
deriving DecidableEq

def State.contents (s : State) : Place → List ℕ
  | .handler u => (s.handlers u).held u
  | .pending => s.pending.map fun e => e.2.id
  | .listener => s.listener.todo.map fun pq => pq.id
  | .stop => s.stop.todo.map fun pq => pq.id
  | .replied => s.replies.map fun r => r.id

attribute [local simp] State.contents

theorem replied_perm (s : State) (r : Reply) :
    ((s.replies ++ [r]).map fun r => r.id).Perm ([r.id] ++ s.contents .replied) := by
  rw [map_append]
  exact perm_append_comm

/-- A query that its call has to answer does not wait. -/
theorem not_waiting {items : List ℕ} (h : Accounted s.contents items) (hheld : (s.handlers u).held u = [u]) :
    ∀ pq ∈ s.waiting, pq.id ≠ u := by
  rintro pq hpq rfl
  have hhere : pq.id ∈ s.contents (.handler pq.id) := by simp [hheld]
  rcases mem_append.mp hpq with hpq | hpq
  · rcases mem_append.mp hpq with hpq | hpq
    · obtain ⟨e, he, rfl⟩ := mem_map.mp hpq
      exact absurd (h.apart _ _ .pending hhere (mem_map.mpr ⟨e, he, rfl⟩)) (by simp)
    · exact absurd (h.apart _ _ .listener hhere (mem_map.mpr ⟨pq, hpq, rfl⟩)) (by simp)
  · exact absurd (h.apart _ _ .stop hhere (mem_map.mpr ⟨pq, hpq, rfl⟩)) (by simp)

/-! ## The property -/

/-- A reply goes to the client of its call, with the transaction id of the query. -/
def Addressed (begun : List (ℕ × Query)) (r : Reply) : Prop :=
  ∃ q, (r.id, q) ∈ begun ∧ r.remoteAddr = q.remoteAddr ∧ r.packet.take 2 = q.query.take 2

/-- Each query is in one place, once, and replies go where they should. A query whose call has returned has one reply
once it does not wait any more, and when `Stop` has returned. -/
structure Answered (s : State) : Prop where
  accounted : Accounted s.contents (s.begun.map fst)
  addressed : ∀ r ∈ s.replies, Addressed s.begun r
  once : ∀ u ∈ s.begun.map fst, s.handlers u = .returned →
    (∀ pq ∈ s.waiting, pq.id ≠ u) ∨ s.stop = .returned → (s.replies.map fun r => r.id).count u = 1

/-- A call whose write has failed finds its entry; `Stop` does not return while the listener has an entry whose call
has returned. -/
def Careful (s : State) : Label → Prop
  | .handler u .next => (s.handlers u).hasFailed → u ∈ s.pending.map fun e => e.2.id
  | .stop _ => s.stop = .answering [] → ∀ pq ∈ s.listener.todo, s.handlers pq.id ≠ .returned
  | _ => True

instance (s : State) : ∀ l, Decidable (Careful s l)
  | .handler _ .next | .stop _ => inferInstanceAs (Decidable (_ → _))
  | .handler _ (.hit _) | .handler _ .miss | .handler _ (.now _) | .handler _ .sent | .handler _ .unsent
  | .begin .. | .startForwarder | .listener _ => .isTrue trivial

/-! ## The invariant -/

structure Sound (toLower : List UInt8 → List UInt8) (s : State) : Prop where
  accounted : Accounted s.contents (s.begun.map fst)
  unique : (s.begun.map fst).Nodup
  parsed : ∀ e ∈ s.begun, (parseDNSQueryDomain e.2.query).isSome
  fresh : ∀ u, s.handlers u = .idle → u ∉ s.begun.map fst
  active : ∀ u q, (s.handlers u).query = some q → (u, q) ∈ s.begun
  waiting : ∀ pq ∈ s.waiting, (pq.id, pq.toQuery) ∈ s.begun ∧ (s.handlers pq.id).registered
  keyed : ∀ e ∈ s.pending, e.1 = e.2.key toLower
  addressed : ∀ r ∈ s.replies, Addressed s.begun r
  off : s.socket = .unset → s.listener = .off
  closed : s.stop ≠ .idle → s.socket ≠ .opened
  late : s.stop.swept → ∀ e ∈ s.pending, (s.handlers e.2.id).writing
  left : s.stop = .returned → ∀ pq ∈ s.listener.todo, (s.handlers pq.id).writing

theorem Sound.init : Sound toLower .init where
  accounted := by
    have hnone : State.init.contents = fun _ => [] := by
      funext k
      cases k <;> rfl
    rw [hnone]
    exact .empty
  unique := nodup_nil
  parsed := by simp [State.init]
  fresh := by simp [State.init]
  active := by simp [State.init, query]
  waiting := by simp [State.init, State.waiting, todo, Stop.todo]
  keyed := by simp [State.init]
  addressed := by simp [State.init]
  off := fun _ => rfl
  closed := by simp [State.init]
  late := by simp [State.init]
  left := by simp [State.init]

variable {q : Query} {f : ℕ → Handler} {pc : Handler} {listener : Listener}

namespace Sound

/-- A call is for one query. -/
theorem query_eq (h : Sound toLower s) {q' : Query} (hq : (u, q) ∈ s.begun) (hq' : (u, q') ∈ s.begun) : q = q' :=
  congrArg snd (inj_on_of_nodup_map h.unique hq hq' rfl)

/-- The reply to a query is written. -/
theorem reply_eq (h : Sound toLower s) {id : ℕ} (hq : (id, q) ∈ s.begun) (ip : Option (List UInt8)) :
    ∃ r : Reply, r.id = id ∧ s.reply id q ip = { s with replies := s.replies ++ [r] } ∧
      ∀ r' ∈ s.replies ++ [r], Addressed s.begun r' := by
  obtain ⟨packet, hpacket, htxid⟩ := buildReply_of_parse (h.parsed _ hq) ip
  refine ⟨⟨id, q.remoteAddr, packet⟩, rfl, by rw [State.reply, hpacket], fun r hr => ?_⟩
  rcases mem_append.mp hr with hr | hr
  · exact h.addressed r hr
  · rw [mem_singleton.mp hr]
    exact ⟨q, hq, rfl, htxid⟩

theorem answered (h : Sound toLower s) : Answered s where
  accounted := h.accounted
  addressed := h.addressed
  once := by
    intro u hu hreturned hover
    refine count_eq_one_of_mem (h.accounted.nodup .replied) ?_
    have hout : ∀ pq ∈ s.waiting, pq.id ≠ u := by
      rcases hover with hover | hstop
      · exact hover
      · -- What is still waiting belongs to calls whose write has yet to fail.
        rintro pq hpq rfl
        have hwriting : (s.handlers pq.id).writing := by
          rcases mem_append.mp hpq with hpq | hpq
          · rcases mem_append.mp hpq with hpq | hpq
            · obtain ⟨e, he, rfl⟩ := mem_map.mp hpq
              exact h.late (by rw [hstop]; rfl) e he
            · exact h.left hstop pq hpq
          · simp [hstop, Stop.todo] at hpq
        simp [hreturned, writing] at hwriting
    obtain ⟨k, hk⟩ := h.accounted.somewhere u hu
    cases k with
    | handler v =>
      have hv : v = u := by
        cases hpc : s.handlers v <;> simp [hpc, held] at hk <;> exact hk.symm
      simp [hv, hreturned, held] at hk
    | pending =>
      obtain ⟨e, he, heq⟩ := mem_map.mp hk
      exact absurd heq (hout e.2 (mem_waiting_of_pending he))
    | listener =>
      obtain ⟨pq, hpq, heq⟩ := mem_map.mp hk
      exact absurd heq (hout pq (mem_waiting_of_listener hpq))
    | stop =>
      obtain ⟨pq, hpq, heq⟩ := mem_map.mp hk
      exact absurd heq (hout pq (mem_append_right _ hpq))
    | replied => exact hk

/-! ## Steps of a call -/

theorem update_other (P : Handler → Prop) {v : ℕ} (hne : v ≠ u) (hv : P (f v)) : P (update f u pc v) := by
  rwa [update_of_ne hne]

theorem fresh_update {ids : List ℕ} (hf : ∀ v, f v = .idle → v ∉ ids)
    (hpc : pc = .idle → u ∉ ids) : ∀ v, update f u pc v = .idle → v ∉ ids :=
  (forall_update_iff f (p := fun v pc => pc = .idle → v ∉ ids)).mpr ⟨hpc, fun v _ => hf v⟩

theorem active_update {begun : List (ℕ × Query)}
    (hf : ∀ v q, (f v).query = some q → (v, q) ∈ begun) (hpc : ∀ q, pc.query = some q → (u, q) ∈ begun) :
    ∀ v q, (update f u pc v).query = some q → (v, q) ∈ begun :=
  (forall_update_iff f (p := fun v pc => ∀ q, pc.query = some q → (v, q) ∈ begun)).mpr
    ⟨hpc, fun v _ => hf v⟩

/-- A call goes on, with its query where it was. -/
theorem advance {old : Handler} (h : Sound toLower s) (hold : s.handlers u = old)
    (hwriting : s.stop ≠ .idle → old.writing → pc.writing := by simp [writing])
    (hregistered : old.registered → pc.registered := by simp [registered, writing])
    (hidle : pc ≠ .idle := by simp) (hheld : pc.held u = old.held u := by rfl)
    (hquery : ∀ q, pc.query = some q → old.query = some q := by simp [query]) :
    Sound toLower { s with handlers := update s.handlers u pc } := by
  subst hold
  have hlast (P : Handler → Prop) (hpc : P (s.handlers u) → P pc) {v : ℕ} (hv : P (s.handlers v)) :
      P (update s.handlers u pc v) := by
    by_cases hvu : v = u
    · subst hvu
      rw [update_self]
      exact hpc hv
    · rwa [update_of_ne hvu]
  have hbusy (hswept : s.stop.swept) : s.stop ≠ .idle := fun hstop => by simp [hstop, Stop.swept] at hswept
  exact {
    h with
    accounted := by
      refine h.accounted.perm fun k => .of_eq ?_
      cases k with
      | handler v =>
        by_cases hv : v = u
        · subst hv; simp [hheld]
        · simp [hv]
      | _ => rfl
    fresh := fresh_update h.fresh fun hpc => absurd hpc hidle
    active := active_update h.active fun q hq => h.active u q (hquery q hq)
    waiting := fun pq hpq => ⟨(h.waiting pq hpq).1, hlast (fun pc => pc.registered) hregistered (h.waiting pq hpq).2⟩
    late := fun hswept e he => hlast (fun pc => pc.writing) (hwriting (hbusy hswept)) (h.late hswept e he)
    left := fun hstop pq hpq =>
      hlast (fun pc => pc.writing) (hwriting (hbusy (by rw [show s.stop = .returned from hstop]; rfl)))
        (h.left hstop pq hpq) }

section

variable (h : Sound toLower s)

include h

/-- A call begins. -/
theorem begin (hidle : s.handlers u = .idle)
    (hparse : (parseDNSQueryDomain q.query).isSome) (hheld : pc.held u = [u]) (hquery : pc.query = some q) :
    Sound toLower { s with handlers := update s.handlers u pc, begun := s.begun ++ [(u, q)] } := by
  have hnew := h.fresh u hidle
  have hne (pq : PendingQuery) (hpq : pq ∈ s.waiting) : pq.id ≠ u := by
    rintro rfl
    exact hnew (mem_map_of_mem (h.waiting pq hpq).1)
  have hids : (s.begun ++ [(u, q)]).map fst = s.begun.map fst ++ [u] := by simp
  exact {
    h with
    accounted := by
      rw [hids]
      refine h.accounted.deposit (.handler u) (by simpa using hnew) (by simp) ?_ fun k hk => ?_
      · have hnone : (s.handlers u).held u = [] := by rw [hidle]; rfl
        simp [hheld, hnone]
      · cases k <;> simp_all
    unique := by
      rw [hids]
      exact nodup_append.mpr ⟨h.unique, by simp, by simpa using fun v hv => ne_of_mem_of_not_mem hv hnew⟩
    parsed := by
      intro e he
      rcases mem_append.mp he with he | he
      · exact h.parsed e he
      · rwa [mem_singleton.mp he]
    fresh := by
      refine (forall_update_iff s.handlers (p := fun v pc => pc = .idle → v ∉ _)).mpr ⟨?_, ?_⟩
      · rintro rfl
        simp [held] at hheld
      · intro v hv hvidle
        simpa [hv] using h.fresh v hvidle
    active := by
      refine active_update (fun v q' hv => mem_append_left _ (h.active v q' hv)) fun q' hq' => ?_
      rw [← Option.some.inj (hquery.symm.trans hq')]
      exact mem_append_right _ mem_cons_self
    waiting := by
      intro pq hpq
      obtain ⟨hbegun, hregistered⟩ := h.waiting pq hpq
      exact ⟨mem_append_left _ hbegun, update_other (fun pc => pc.registered) (hne pq hpq) hregistered⟩
    addressed := by
      intro r hr
      obtain ⟨q, hq, hrest⟩ := h.addressed r hr
      exact ⟨q, mem_append_left _ hq, hrest⟩
    late := fun hswept e he =>
      update_other (fun pc => pc.writing) (hne e.2 (mem_waiting_of_pending he)) (h.late hswept e he)
    left := fun hstop pq hpq =>
      update_other (fun pc => pc.writing) (hne pq (mem_waiting_of_listener hpq)) (h.left hstop pq hpq) }

/-- A call adds itself to `pendingQueries`. -/
theorem register (hpc : s.handlers u = .register q) (time : ℤ) :
    Sound toLower
      { s with
        handlers := update s.handlers u (.write q)
        pending := s.pending ++ [(q.key toLower, ⟨q, u, time⟩)] } := by
  have hne := not_waiting h.accounted (u := u) (by rw [hpc]; rfl)
  have hq := h.active u q (by rw [hpc]; rfl)
  exact {
    h with
    accounted := by
      refine h.accounted.transfer (.handler u) .pending [u] (by simp) ?_ ?_ fun k _ _ => ?_
      · simp [hpc, held]
      · simp
      · cases k <;> simp_all
    fresh := fresh_update h.fresh (by simp)
    active := active_update h.active fun q' hq' => by rwa [← Option.some.inj hq']
    waiting := by
      intro pq hpq
      have hcases : pq ∈ s.waiting ∨ pq = ⟨q, u, time⟩ := by
        simp only [State.waiting, map_append, mem_append, map_cons, map_nil,
          mem_singleton] at hpq ⊢
        tauto
      rcases hcases with hpq | rfl
      · exact ⟨(h.waiting pq hpq).1, update_other (fun pc => pc.registered) (hne pq hpq) (h.waiting pq hpq).2⟩
      · refine ⟨hq, ?_⟩
        simp [registered, writing]
    keyed := by
      intro e he
      rcases mem_append.mp he with he | he
      · exact h.keyed e he
      · rw [mem_singleton.mp he]
    late := by
      intro hswept e he
      rcases mem_append.mp he with he | he
      · exact update_other (fun pc => pc.writing) (hne e.2 (mem_waiting_of_pending he)) (h.late hswept e he)
      · rw [mem_singleton.mp he]
        simp [writing]
    left := fun hstop pq hpq =>
      update_other (fun pc => pc.writing) (hne pq (mem_waiting_of_listener hpq)) (h.left hstop pq hpq) }

/-- The entry of a call whose write has failed. -/
theorem remove_perm (hpc : s.handlers u = .failed q) (hu : u ∈ s.pending.map fun e => e.2.id) :
    ∃ e, e.2.id = u ∧ s.pending.Perm (e :: s.pending.eraseP fun e => e.1 = q.key toLower ∧ e.2.id = u) := by
  obtain ⟨e, he, rfl⟩ := mem_map.mp hu
  have hq : e.2.toQuery = q :=
    h.query_eq (h.waiting e.2 (mem_waiting_of_pending he)).1 (h.active e.2.id q (by rw [hpc]; rfl))
  have hkey : e.1 = q.key toLower := hq ▸ h.keyed e he
  let own : List UInt8 × PendingQuery → Bool := fun f => f.1 = q.key toLower ∧ f.2.id = e.2.id
  have hown : own e = true := decide_eq_true ⟨hkey, rfl⟩
  obtain ⟨f, l₁, l₂, -, hf, hl, herase⟩ := exists_of_eraseP he hown
  refine ⟨f, (of_decide_eq_true hf).2, ?_⟩
  rw [herase, hl]
  exact perm_middle

/-- A call whose write has failed removes its entry. -/
theorem remove (hpc : s.handlers u = .failed q) (hu : u ∈ s.pending.map fun e => e.2.id) :
    Sound toLower
      { s with
        handlers := update s.handlers u (.answer q none)
        pending := s.pending.eraseP fun e => e.1 = q.key toLower ∧ e.2.id = u } := by
  obtain ⟨e, hid, hperm⟩ := h.remove_perm hpc hu
  have haccounted : Accounted
      (State.contents
        { s with
          handlers := update s.handlers u (.answer q none)
          pending := s.pending.eraseP fun e => e.1 = q.key toLower ∧ e.2.id = u }) (s.begun.map fst) := by
    refine h.accounted.transfer .pending (.handler u) [u] (by simp) ?_ ?_ fun k _ _ => ?_
    · simpa [hid] using hperm.map fun e => e.2.id
    · simp [hpc, held]
    · cases k <;> simp_all
  have hne := not_waiting haccounted (u := u) (by simp [held])
  have hsub : (s.pending.eraseP fun e => e.1 = q.key toLower ∧ e.2.id = u).Sublist s.pending := eraseP_sublist
  exact {
    h with
    accounted := haccounted
    fresh := fresh_update h.fresh (by simp)
    active := active_update h.active fun q' hq' => h.active u q' (by rw [hpc]; exact hq')
    waiting := by
      intro pq hpq
      have hold : pq ∈ s.waiting :=
        (((hsub.map snd).append (.refl s.listener.todo)).append (.refl s.stop.todo)).subset hpq
      exact ⟨(h.waiting pq hold).1, update_other (fun pc => pc.registered) (hne pq hpq) (h.waiting pq hold).2⟩
    keyed := fun e he => h.keyed e (hsub.subset he)
    late := fun hswept e he =>
      update_other (fun pc => pc.writing) (hne e.2 (mem_waiting_of_pending he)) (h.late hswept e (hsub.subset he))
    left := fun hstop pq hpq =>
      update_other (fun pc => pc.writing) (hne pq (mem_waiting_of_listener hpq)) (h.left hstop pq hpq) }

/-- A call answers its query. -/
theorem answer {ip : Option (List UInt8)} (hpc : s.handlers u = .answer q ip) :
    Sound toLower { s.reply u q ip with handlers := update s.handlers u .returned } := by
  have hne := not_waiting h.accounted (u := u) (by rw [hpc]; rfl)
  obtain ⟨r, rfl, heq, haddressed⟩ := h.reply_eq (h.active u q (by rw [hpc]; rfl)) ip
  rw [heq]
  exact {
    h with
    accounted := by
      refine h.accounted.transfer (.handler r.id) .replied [r.id] (by simp) ?_ (replied_perm s r) fun k _ _ => ?_
      · simp [hpc, held]
      · cases k <;> simp_all
    fresh := fresh_update h.fresh (by simp)
    active := active_update h.active (by simp [query])
    waiting := fun pq hpq =>
      ⟨(h.waiting pq hpq).1, update_other (fun pc => pc.registered) (hne pq hpq) (h.waiting pq hpq).2⟩
    addressed := haddressed
    late := fun hswept e he =>
      update_other (fun pc => pc.writing) (hne e.2 (mem_waiting_of_pending he)) (h.late hswept e he)
    left := fun hstop pq hpq =>
      update_other (fun pc => pc.writing) (hne pq (mem_waiting_of_listener hpq)) (h.left hstop pq hpq) }

/-! ## Steps of the listener -/

/-- `startForwarder` opens the socket and starts the listener. -/
theorem start (hsocket : s.socket = .unset) (hstop : s.stop = .idle) :
    Sound toLower { s with socket := .opened, listener := .idle } := by
  have hoff := h.off hsocket
  have hwaiting : State.waiting { s with socket := .opened, listener := .idle } = s.waiting := by
    simp [State.waiting, hoff, todo]
  exact {
    h with
    accounted := by
      refine h.accounted.perm fun k => .of_eq ?_
      cases k <;> simp [hoff, todo]
    waiting := fun pq hpq => h.waiting pq (hwaiting ▸ hpq)
    off := by simp
    closed := fun hbusy => absurd hstop hbusy
    left := by simp [todo] }

end

/-- The listener takes entries. -/
theorem take {old : Listener} (h : Sound toLower s) {pending : List (List UInt8 × PendingQuery)}
    (hold : s.listener = old) (hsub : pending.Sublist s.pending)
    (hperm : (s.pending.map snd).Perm (listener.todo ++ pending.map snd)) (hon : old ≠ .off := by simp)
    (hempty : old.todo = [] := by rfl) : Sound toLower { s with pending, listener } := by
  subst hold
  have htaken {pq : PendingQuery} (hpq : pq ∈ listener.todo) : ∃ e ∈ s.pending, e.2 = pq :=
    mem_map.mp (hperm.mem_iff.mpr (mem_append_left _ hpq))
  have hwaiting {pq : PendingQuery} (hpq : pq ∈ State.waiting { s with pending, listener }) : pq ∈ s.waiting := by
    rcases mem_append.mp hpq with hpq | hpq
    · rw [State.waiting, hempty, append_nil]
      exact mem_append_left _ (hperm.mem_iff.mpr (perm_append_comm.mem_iff.mp hpq))
    · exact mem_append_right _ hpq
  exact {
    h with
    accounted := by
      refine h.accounted.transfer .pending .listener (listener.todo.map fun pq => pq.id) (by simp) ?_ ?_ fun k _ _ => ?_
      · simpa [comp_def] using hperm.map fun pq => pq.id
      · simp [hempty]
      · cases k <;> simp_all
    waiting := fun pq hpq => h.waiting pq (hwaiting hpq)
    keyed := fun e he => h.keyed e (hsub.subset he)
    off := fun hunset => absurd (h.off hunset) hon
    late := fun hswept e he => h.late hswept e (hsub.subset he)
    left := by
      intro hstop pq hpq
      obtain ⟨e, he, rfl⟩ := htaken hpq
      exact h.late (by rw [show s.stop = .returned from hstop]; rfl) e he }

/-- The listener goes on with what it has. -/
theorem listen {old : Listener} (h : Sound toLower s) (hold : s.listener = old) (hon : old ≠ .off := by simp)
    (htodo : listener.todo = old.todo := by rfl) : Sound toLower { s with listener } := by
  subst hold
  have hwaiting : State.waiting { s with listener } = s.waiting := by simp [State.waiting, htodo]
  exact {
    h with
    accounted := by
      refine h.accounted.perm fun k => .of_eq ?_
      cases k <;> simp [htodo]
    waiting := fun pq hpq => h.waiting pq (hwaiting ▸ hpq)
    off := fun hunset => absurd (h.off hunset) hon
    left := fun hstop pq hpq => h.left hstop pq (htodo ▸ hpq) }

/-- The listener answers a query. -/
theorem listener_reply {old : Listener} (h : Sound toLower s) (ip : Option (List UInt8)) (hold : s.listener = old)
    (htodo : old.todo = pq :: listener.todo := by rfl) :
    Sound toLower { s.reply pq.id pq.toQuery ip with listener } := by
  subst hold
  have hpq : pq ∈ s.waiting := mem_waiting_of_listener (by rw [htodo]; exact mem_cons_self)
  obtain ⟨r, hid, heq, haddressed⟩ := h.reply_eq (h.waiting pq hpq).1 ip
  rw [heq]
  have hwaiting {p : PendingQuery} (hp : p ∈ State.waiting { s with listener }) : p ∈ s.waiting := by
    simp only [State.waiting, htodo, mem_append, mem_cons] at hp ⊢
    tauto
  exact {
    h with
    accounted := by
      refine h.accounted.transfer .listener .replied [r.id] (by simp) ?_ (replied_perm s r) fun k _ _ => ?_
      · simp [htodo, hid]
      · cases k <;> simp_all
    waiting := fun p hp => h.waiting p (hwaiting hp)
    addressed := haddressed
    off := fun hunset => absurd htodo (by simp [h.off hunset, todo])
    left := fun hstop p hp => h.left hstop p (by rw [htodo]; exact mem_cons_of_mem _ hp) }

/-! ## Steps of `Stop` -/

/-- `Stop` closes the socket, or signals that it has. -/
theorem stop_begin (h : Sound toLower s) {socket : Socket} {stopped : Bool} {stop : Stop}
    (htodo : stop.todo = s.stop.todo) (hswept : stop.swept = false) (hsocket : socket ≠ .opened)
    (hunset : socket = .unset → s.socket = .unset) :
    Sound toLower { s with socket, stopped, stop } := by
  have hwaiting : State.waiting { s with socket, stopped, stop } = s.waiting := by simp [State.waiting, htodo]
  exact {
    h with
    accounted := by
      refine h.accounted.perm fun k => .of_eq ?_
      cases k <;> simp [htodo]
    waiting := fun pq hpq => h.waiting pq (hwaiting ▸ hpq)
    off := fun hsocket => h.off (hunset hsocket)
    closed := fun _ => hsocket
    late := by simp [hswept]
    left := by
      rintro rfl
      simp [Stop.swept] at hswept }

/-- `Stop` takes what is waiting. -/
theorem stop_sweep (h : Sound toLower s) (hstop : s.stop = .sweep) (order : Shuffle) :
    Sound toLower { s with pending := [], stop := .answering ((order.run s.pending).map snd) } := by
  have hperm : ((order.run s.pending).map snd).Perm (s.pending.map snd) := (order.perm s.pending).map _
  exact {
    h with
    accounted := by
      refine h.accounted.transfer .pending .stop (((order.run s.pending).map snd).map fun pq => pq.id) (by simp)
        ?_ ?_ fun k _ _ => ?_
      · simpa [comp_def] using (hperm.map fun pq => pq.id).symm
      · simp [hstop, Stop.todo]
      · cases k <;> simp_all
    waiting := by
      intro pq hpq
      refine h.waiting pq ?_
      simp only [State.waiting, Stop.todo, hstop, map_nil, nil_append, append_nil,
        mem_append, hperm.mem_iff] at hpq ⊢
      tauto
    keyed := by simp
    closed := fun _ => h.closed (by simp [hstop])
    late := by simp
    left := by simp }

/-- `Stop` answers a query. -/
theorem stop_reply (h : Sound toLower s) {todo : List PendingQuery} (hstop : s.stop = .answering (pq :: todo)) :
    Sound toLower { s.reply pq.id pq.toQuery none with stop := .answering todo } := by
  have htodo : s.stop.todo = pq :: todo := by rw [hstop]; rfl
  have hpq : pq ∈ s.waiting := mem_append_right _ (by rw [htodo]; exact mem_cons_self)
  obtain ⟨r, hid, heq, haddressed⟩ := h.reply_eq (h.waiting pq hpq).1 none
  rw [heq]
  have hwaiting {p : PendingQuery} (hp : p ∈ State.waiting { s with stop := .answering todo }) : p ∈ s.waiting := by
    rcases mem_append.mp hp with hp | hp
    · exact mem_append_left _ hp
    · exact mem_append_right _ (by rw [htodo]; exact mem_cons_of_mem _ hp)
  exact {
    h with
    accounted := by
      refine h.accounted.transfer .stop .replied [r.id] (by simp) ?_ (replied_perm s r) fun k _ _ => ?_
      · simp [hstop, hid, Stop.todo]
      · cases k <;> simp_all
    waiting := fun p hp => h.waiting p (hwaiting hp)
    addressed := haddressed
    closed := fun _ => h.closed (by simp [hstop])
    late := fun _ => h.late (by rw [hstop]; rfl)
    left := by simp }

/-- `Stop` returns, with no query of a call that has returned in the hands of the listener. -/
theorem stop_return (h : Sound toLower s) (hstop : s.stop = .answering [])
    (hcareful : ∀ pq ∈ s.listener.todo, s.handlers pq.id ≠ .returned) :
    Sound toLower { s with stop := .returned } := by
  have hwaiting : State.waiting { s with stop := .returned } = s.waiting := by simp [State.waiting, hstop, Stop.todo]
  exact {
    h with
    accounted := by
      refine h.accounted.perm fun k => .of_eq ?_
      cases k <;> simp [hstop, Stop.todo]
    waiting := fun pq hpq => h.waiting pq (hwaiting ▸ hpq)
    closed := fun _ => h.closed (by simp [hstop])
    late := fun _ => h.late (by rw [hstop]; rfl)
    left := by
      intro _ pq hpq
      have hregistered := (h.waiting pq (mem_waiting_of_listener hpq)).2
      simpa [registered, hcareful pq hpq] using hregistered }

end Sound

/-! ## Runs -/

theorem handlerStep_sound (h : Sound toLower s) {c : Choice} (hcareful : Careful s (.handler u c))
    (hstep : handlerStep toLower s u c = some t) : Sound toLower t := by
  unfold handlerStep at hstep
  split at hstep <;> try cases hstep
  case h_1 q ip hpc => exact h.advance hpc
  case h_2 q hpc => exact h.advance hpc
  case h_3 q hpc =>
    refine h.advance hpc ?_ (by simp [registered, writing]) ?_ ?_ ?_
    · simp [writing]
    · split <;> simp
    · split <;> rfl
    · split <;> exact fun _ => id
  case h_4 q time hpc => exact h.register hpc time
  case h_5 q hpc =>
    split at hstep <;> cases hstep
    case isTrue hopened => exact h.advance hpc fun hstop => absurd hopened (h.closed hstop)
  case h_6 q hpc => exact h.advance hpc
  case h_7 q hpc => exact h.remove hpc (hcareful (by rw [hpc]; rfl))
  case h_8 q ip hpc => exact h.answer hpc

/-- The expired entries, in any order, and the others are the entries. -/
theorem split_perm (order : Shuffle) (expired : List UInt8 × PendingQuery → Bool)
    (pending : List (List UInt8 × PendingQuery)) :
    (pending.map snd).Perm
      ((order.run (pending.filter expired)).map snd ++ (pending.filter fun e => !expired e).map snd) := by
  rw [← map_append]
  refine Perm.map _ (Perm.symm ?_)
  exact ((order.perm _).append_right _).trans (filter_append_perm expired pending)

theorem sweepPending_sound (h : Sound toLower s) (hold : s.listener = listener) (clock : ℕ → ℤ) (order : Shuffle)
    (r : Option Response) (hon : listener ≠ .off := by simp) (hempty : listener.todo = [] := by rfl) :
    Sound toLower (sweepPending s clock order r) :=
  h.take hold filter_sublist (split_perm order _ s.pending) hon hempty

theorem listenerStep_sound (h : Sound toLower s) {e : Event} (hstep : listenerStep toLower s e = some t) :
    Sound toLower t := by
  unfold listenerStep at hstep
  split at hstep <;> try cases hstep
  case h_1 r hold => exact h.listen hold
  case h_2 clock order hold => exact sweepPending_sound h hold clock order none
  case h_3 hold =>
    split at hstep <;> cases hstep
    exact h.listen hold
  case h_4 r hold => exact h.listen hold
  case h_5 r clock order hold => exact sweepPending_sound h hold clock order r
  case h_6 r hold => exact h.listen hold
  case h_7 pq todo r hold => exact h.listener_reply none hold
  case h_8 hold => exact h.listen hold
  case h_9 domain ip hold => exact h.take hold filter_sublist (split_perm .asListed _ s.pending)
  case h_10 ip hold => exact h.listen hold
  case h_11 ip pq todo hold => exact h.listener_reply (some ip) hold

theorem stopStep_sound (h : Sound toLower s) {order : Shuffle} (hcareful : Careful s (.stop order))
    (hstep : stopStep s order = some t) : Sound toLower t := by
  unfold stopStep at hstep
  split at hstep <;> cases hstep
  case h_1 hstop =>
    refine h.stop_begin (by rw [hstop]; rfl) rfl ?_ ?_
    · split
      case isTrue => simp
      case isFalse hopened => exact hopened
    · split <;> simp
  case h_2 hstop =>
    exact h.stop_begin (by rw [hstop]; rfl) rfl (h.closed (by simp [hstop])) id
  case h_3 hstop => exact h.stop_sweep hstop order
  case h_4 hstop => exact h.stop_return hstop (hcareful hstop)
  case h_5 pq todo hstop => exact h.stop_reply hstop

theorem first_eq (q : Query) (subnetIPv4 : Bool) :
    (first q subnetIPv4).held u = [u] ∧ (first q subnetIPv4).query = some q := by
  unfold first
  split_ifs <;> exact ⟨rfl, rfl⟩

theorem sound_step (h : Sound toLower s) {l : Label} (hcareful : Careful s l) (hstep : step toLower s l = some t) :
    Sound toLower t := by
  cases l with
  | begin u q subnetIPv4 =>
    obtain ⟨hbegin, hstep⟩ := ite_none_right_eq_some.mp hstep
    cases hstep
    obtain ⟨hheld, hquery⟩ := first_eq (u := u) q subnetIPv4
    exact h.begin hbegin.1 hbegin.2 hheld hquery
  | handler u c => exact handlerStep_sound h hcareful hstep
  | startForwarder =>
    obtain ⟨hstart, hstep⟩ := ite_none_right_eq_some.mp hstep
    cases hstep
    exact h.start hstart.1 hstart.2
  | listener e => exact listenerStep_sound h hstep
  | stop order => exact stopStep_sound h hcareful hstep

theorem hasFailed_iff : pc.hasFailed ↔ ∃ q, pc = .failed q := by
  cases pc <;> simp [hasFailed]

/-- A call that does not find its entry answers a query that another has taken, and a query that the listener has
yet to answer when `Stop` returns has no reply. -/
theorem not_answered (h : Sound toLower s) {l : Label} (hcareless : ¬ Careful s l)
    (hstep : step toLower s l = some t) : ¬ Answered t := by
  intro hanswered
  match l with
  | .handler u .next =>
    simp only [Careful, Classical.not_imp] at hcareless
    obtain ⟨hfailed, hu⟩ := hcareless
    obtain ⟨q, hpc⟩ := hasFailed_iff.mp hfailed
    simp only [step, handlerStep, hpc, Option.some.injEq] at hstep
    subst hstep
    obtain ⟨k, hk⟩ := h.accounted.somewhere u (mem_map_of_mem (h.active u q (by rw [hpc]; rfl)))
    have hhandler : k ≠ .handler u := by
      rintro rfl
      simp [hpc, held] at hk
    have hpending : k ≠ .pending := by
      rintro rfl
      exact hu hk
    refine hhandler (hanswered.accounted.apart u k (.handler u) ?_ ?_)
    · cases k <;> simp_all
    · simp [held]
  | .stop order =>
    simp only [Careful, Classical.not_imp, not_forall, not_not] at hcareless
    obtain ⟨hstop, pq, hpq, hreturned⟩ := hcareless
    simp only [step, stopStep, hstop, Option.some.injEq] at hstep
    subst hstep
    have hbegun : pq.id ∈ s.begun.map fst :=
      mem_map_of_mem (h.waiting pq (mem_waiting_of_listener hpq)).1
    have hcount := hanswered.once pq.id hbegun hreturned (.inr rfl)
    have hreplied : pq.id ∈ s.replies.map fun r => r.id :=
      count_pos_iff.mp (by rw [show count _ _ = 1 from hcount]; exact Nat.one_pos)
    exact absurd (h.accounted.apart pq.id .listener .replied (mem_map.mpr ⟨pq, hpq, rfl⟩) hreplied) (by simp)
  | .begin _ _ _ | .startForwarder | .listener _ => exact hcareless trivial
  | .handler _ (.hit _) | .handler _ .miss | .handler _ (.now _) | .handler _ .sent | .handler _ .unsent =>
    exact hcareless trivial

/-- A run is careful exactly if in every state of it each query is in one place, is answered once and to its
client. -/
theorem answered_iff_careful (toLower : List UInt8 → List UInt8) (labels : List Label) (s : State)
    (hrun : exec (step toLower) .init labels = some s) :
    Always (step toLower) Careful .init labels ↔
      ∀ bs, bs <+: labels → ∀ t, exec (step toLower) .init bs = some t → Answered t :=
  always_iff_exec (fun _ _ _ h => sound_step h) (fun _ h => h.answered) (fun _ _ _ h => not_answered h)
    (show Sound toLower .init from .init) hrun

/-! ## Runs that are careful or not -/

/-- A query for `a`, with transaction id 7. -/
def queryA : Query where
  query := [0, 7, 1, 0, 0, 1, 0, 0, 0, 0, 0, 0, 1, 0x61, 0, 0, 1, 0, 1]
  remoteAddr := 10

/-- A query for `a` by another client. -/
def queryB : Query where
  query := [0, 9, 1, 0, 0, 1, 0, 0, 0, 0, 0, 0, 1, 0x61, 0, 0, 1, 0, 1]
  remoteAddr := 20

/-- Two queries for one domain; one response answers the first, and the write of the second fails. -/
def oneFlight : List Label :=
  [.startForwarder,
    .begin 0 queryA true, .handler 0 .miss, .handler 0 .next, .handler 0 (.now 0), .handler 0 .sent,
    .begin 1 queryB true, .handler 1 .miss, .handler 1 .next, .handler 1 (.now 1), .handler 1 .unsent,
    .handler 1 .next, .handler 1 .next,
    .listener (.receive (some ([0x61], [1, 2, 3, 4]))), .listener .next, .listener .next, .listener .next]

/-- `Stop` closes the socket and answers a query before the query is written; then the write fails. -/
def stopRace : List Label :=
  ([.startForwarder, .begin 0 queryA true, .handler 0 .miss, .handler 0 .next, .handler 0 (.now 0)] : List Label) ++
    (List.replicate 5 (.stop .asListed) : List Label) ++
    ([.handler 0 .unsent, .handler 0 .next, .handler 0 .next] : List Label)

/-- The listener has taken a query when `Stop` runs and returns. -/
def stopReturns : List Label :=
  ([.startForwarder, .begin 0 queryA true, .handler 0 .miss, .handler 0 .next, .handler 0 (.now 0), .handler 0 .sent,
    .listener (.receive (some ([0x61], [1, 2, 3, 4]))), .listener .next, .listener .next] : List Label) ++
    (List.replicate 4 (.stop .asListed) : List Label)

theorem answered_iff_careful_oneFlight :
    ∃ s, exec (step id) .init oneFlight = some s ∧
      (s.replies.map fun r => (r.id, r.remoteAddr, r.packet.take 4)) =
        [(1, 20, [0, 9, 0x80, 0x02]), (0, 10, [0, 7, 0x81, 0x80])] ∧ Answered s := by
  have hrun : ((exec (step id) .init oneFlight).map fun s =>
      s.replies.map fun r => (r.id, r.remoteAddr, r.packet.take 4)) =
      some [(1, 20, [0, 9, 0x80, 0x02]), (0, 10, [0, 7, 0x81, 0x80])] := by decide +kernel
  obtain ⟨s, hs, hreplies⟩ := map_eq_some_iff.mp hrun
  have hcareful : Always (step id) Careful .init oneFlight := by decide +kernel
  exact ⟨s, hs, hreplies, (answered_iff_careful id oneFlight s hs).mp hcareful oneFlight (prefix_refl _) s hs⟩

/-- The client gets two replies, or none by the time `Stop` has returned. -/
theorem stop_answers_twice_or_never :
    (∃ s, exec (step id) .init stopRace = some s ∧ s.handlers 0 = .returned ∧ s.stop = .returned ∧
      (s.replies.map fun r => r.id) = [0, 0] ∧ ¬ Answered s) ∧
    ∃ s, exec (step id) .init stopReturns = some s ∧ s.handlers 0 = .returned ∧ s.stop = .returned ∧
      s.replies = [] ∧ ¬ Answered s := by
  have hrace : ((exec (step id) .init stopRace).map fun s =>
      (s.handlers 0, s.stop, s.replies.map fun r => r.id, s.begun.map fst)) =
      some (.returned, .returned, [0, 0], [0]) := by decide +kernel
  have hreturns : ((exec (step id) .init stopReturns).map fun s =>
      (s.handlers 0, s.stop, s.replies, s.begun.map fst)) = some (.returned, .returned, [], [0]) := by
    decide +kernel
  obtain ⟨s, hs, heq⟩ := map_eq_some_iff.mp hrace
  obtain ⟨t, ht, heq'⟩ := map_eq_some_iff.mp hreturns
  simp only [mk.injEq] at heq heq'
  refine ⟨⟨s, hs, heq.1, heq.2.1, heq.2.2.1, fun h => ?_⟩, t, ht, heq'.1, heq'.2.1, heq'.2.2.1, fun h => ?_⟩
  · exact absurd (h.once 0 (by simp [heq]) heq.1 (.inr heq.2.1)) (by simp [heq])
  · exact absurd (h.once 0 (by simp [heq']) heq'.1 (.inr heq'.2.1)) (by simp [heq'])

end DnsForward
