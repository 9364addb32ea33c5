import Phaethon.P2P.PeerSteps

/-!
# Where sent frames come from

`Peer.all` counts the frames of a peer, queued, in the hands of a goroutine or sent. Every step but one
keeps it or adds a frame that `enqueueWriteReq` accepts (`Effect`), so sent frames are accepted frames,
each sent at most once. The exception is the notification of a credit change taken with no credit left:
the writer then goes on with the zero value of its local, and sends it (`credit_wakeup_sends_zero`).
-/

namespace P2P

open Function List Multiset Transit

/-- Every frame of the peer: in transit or sent. -/
def Peer.all (s : Peer) : Multiset Frame := total s.places + (s.sent.flatten : Multiset Frame)

/-- The call has put its frame into a channel. -/
def Enqueue.inserted : Enqueue → Prop
  | .notify => True
  | .returned .ok => True
  | _ => False

/-- What one step does to the frames of the peer. -/
inductive Effect (s t : Peer) : Prop where
  | keep (all : t.all = s.all) (accepted : t.accepted = s.accepted)
      (calls : ∀ u, (s.enqueue u).inserted → (t.enqueue u).inserted)
  | accept (u : ℕ) (f : Frame) (all : t.all = f ::ₘ s.all) (accepted : t.accepted = f :: s.accepted)
      (calls : ∀ v, (s.enqueue v).inserted → (t.enqueue v).inserted)
      (call : f.call = some u) (before : ¬ (s.enqueue u).inserted) (after : (t.enqueue u).inserted)

/-- The writer stands at its `select` with no credit left. -/
def Peer.exhausted (s : Peer) : Bool :=
  match s.writer with
  | .select credit => credit ≤ 0
  | _ => false

/-- The writer does not take the notification case of its `select` while it has no credit. -/
def Gated (s : Peer) (l : Label) : Prop := l = .writer .flowNotify → s.exhausted = false

instance (s : Peer) (l : Label) : Decidable (Gated s l) := inferInstanceAs (Decidable (_ → _))

/-! ## Steps -/

private theorem inserted_update {e : ℕ → Enqueue} {t : ℕ} {pc : Enqueue}
    (h : (e t).inserted → pc.inserted) (u : ℕ) (hu : (e u).inserted) :
    (update e t pc u).inserted := by
  by_cases hut : u = t
  · subst hut
    rw [update_self]
    exact h hu
  · rwa [update_of_ne hut]

/-- A call that has inserted its frame does nothing but notify. -/
private theorem Thinks.not_inserted {cls : Classifier} {s : Peer} {pc pc' : Enqueue} (h : Thinks cls s pc pc') :
    ¬ pc.inserted := by
  cases h <;> exact id

private theorem Called.effect {cls : Classifier} {s s' : Peer} {t : ℕ} (h : Called cls s t s') : Effect s s' := by
  cases h with
  | think h => exact .keep rfl rfl (inserted_update fun hi => (h.not_inserted hi).elim)
  | reserve hpc => exact .keep rfl rfl (inserted_update fun hi => by rw [hpc] at hi; exact hi.elim)
  | @insert req dst pc hpc hnext =>
    -- the one step that lets a frame in
    have hin : pc.inserted := by rcases hnext with ⟨-, rfl⟩ | ⟨-, rfl⟩ <;> trivial
    have hno : ¬ (s.enqueue t).inserted := by rw [hpc]; exact id
    refine .accept t ⟨some t, req⟩ ?_ rfl (inserted_update fun _ => hin) rfl hno ?_
    · simp only [Peer.all, total_push, cons_add]
    · simpa using hin
  | notify => exact .keep rfl rfl (inserted_update fun _ => trivial)
  | refund hpc => exact .keep rfl rfl (inserted_update fun hi => by rw [hpc] at hi; exact hi.elim)

/-- A step that moves a frame. -/
private theorem effect_of_move {s t : Peer} {p q : Place} (hmove : move s.places p q = some t.places)
    (hsent : t.sent = s.sent) (hacc : t.accepted = s.accepted) (henq : t.enqueue = s.enqueue) : Effect s t :=
  .keep (by rw [Peer.all, Peer.all, total_move hmove, hsent]) hacc fun u hu => henq ▸ hu

/-- Writing moves the collected frames to the wire. -/
private theorem write_effect (s : Peer) (next : Writer) :
    Effect s { s with
      places := update (update (update s.places .ctrl []) .dns []) .data []
      sent := s.sent ++ [s.collected]
      writer := next } := by
  refine .keep ?_ rfl fun _ hu => hu
  have h₁ := total_clear s.places .ctrl
  have h₂ := total_clear (update s.places .ctrl []) .dns
  have h₃ := total_clear (update (update s.places .ctrl []) .dns []) .data
  rw [update_of_ne (by decide)] at h₂
  simp only [Peer.all, Peer.collected, flatten_append, flatten_cons, flatten_nil,
    append_nil, ← coe_add]
  rw [← h₁, ← h₂, ← h₃]
  abel

/-- Every step of the peer that respects the gate. -/
theorem step_effect {cls : Classifier} {s s' : Peer} {l : Label} (hok : Gated s l)
    (h : step cls s l = some s') : Effect s s' := by
  cases step_stepped h with
  | call hidle => exact .keep rfl rfl (inserted_update fun hi => by rw [hidle] at hi; exact hi.elim)
  | enqueue h => exact h.effect
  | sched h =>
    cases h with
    | take _ _ hmove => exact effect_of_move hmove rfl rfl rfl
    | output _ _ hmove => exact effect_of_move hmove rfl rfl rfl
    | _ => exact .keep rfl rfl fun _ => id
  | writer h =>
    cases h with
    | zero hwriter hcredit => exact absurd (hok rfl) (by simp [Peer.exhausted, hwriter, hcredit])
    | first _ _ _ hmove => exact effect_of_move hmove rfl rfl rfl
    | drain _ hmove => exact effect_of_move hmove rfl rfl rfl
    | write => exact write_effect s _
    | _ => exact .keep rfl rfl fun _ => id
  | _ => exact .keep rfl rfl fun _ => id

/-! ## Runs -/

/-- The frames of the peer are the accepted ones, each once and from a call of its own. -/
structure Provenance (s : Peer) : Prop where
  conserved : s.all = (s.accepted : Multiset Frame)
  nodup : s.accepted.Nodup
  called : ∀ f ∈ s.accepted, ∃ u, f.call = some u ∧ (s.enqueue u).inserted

theorem Provenance.init : Provenance {} where
  conserved := by simp [Peer.all, total]
  nodup := nodup_nil
  called := by simp

theorem Provenance.effect {s t : Peer} (h : Provenance s) (he : Effect s t) : Provenance t := by
  cases he with
  | keep hall hacc hcalls =>
    refine ⟨by rw [hall, hacc, h.conserved], hacc ▸ h.nodup, fun f hf => ?_⟩
    obtain ⟨u, hu, hins⟩ := h.called f (hacc ▸ hf)
    exact ⟨u, hu, hcalls u hins⟩
  | accept u f hall hacc hcalls hcall hbefore hafter =>
    have hnew : f ∉ s.accepted := by
      intro hf
      obtain ⟨v, hv, hins⟩ := h.called f hf
      rw [hcall, Option.some.injEq] at hv
      exact hbefore (hv ▸ hins)
    refine ⟨by rw [hall, hacc, h.conserved, cons_coe],
      hacc ▸ nodup_cons.mpr ⟨hnew, h.nodup⟩, fun g hg => ?_⟩
    rcases mem_cons.mp (hacc ▸ hg) with rfl | hg
    · exact ⟨u, hcall, hafter⟩
    · obtain ⟨v, hv, hins⟩ := h.called g hg
      exact ⟨v, hv, hcalls v hins⟩

/-- Sent frames are accepted frames, and none is sent twice. -/
theorem Provenance.sent {s : Peer} (h : Provenance s) :
    (∀ b ∈ s.sent, ∀ f ∈ b, f ∈ s.accepted) ∧ s.sent.flatten.Nodup := by
  have hle : (s.sent.flatten : Multiset Frame) ≤ (s.accepted : Multiset Frame) := by
    rw [← h.conserved, Peer.all]
    generalize total s.places = queued
    exact le_add_left _ _
  refine ⟨fun b hb f hf => ?_, ?_⟩
  · have hmem : f ∈ (s.sent.flatten : Multiset Frame) :=
      mem_coe.mpr (mem_flatten.mpr ⟨b, hb, hf⟩)
    exact mem_coe.mp (mem_of_le hle hmem)
  · have hnd : (s.accepted : Multiset Frame).Nodup := coe_nodup.mpr h.nodup
    exact coe_nodup.mp (nodup_of_le hle hnd)

/-- In every interleaving in which the writer never takes a credit notification while it has no credit,
each frame it sends was accepted by an `enqueueWriteReq` call, and no accepted frame is sent twice. -/
theorem sent_accepted_of_gated (cls : Classifier) (labels : List Label) (s : Peer)
    (hok : Lts.Always (step cls) Gated {} labels) (hrun : Lts.exec (step cls) {} labels = some s) :
    (∀ b ∈ s.sent, ∀ f ∈ b, f ∈ s.accepted ∧ ∃ u, f.call = some u ∧ (s.enqueue u).inserted) ∧
      s.sent.flatten.Nodup := by
  have hstep : ∀ s l t, Provenance s → Gated s l → step cls s l = some t → Provenance t :=
    fun s l t h hok hs => h.effect (step_effect hok hs)
  have hprov : Provenance s := Lts.exec_invariant hstep .init hok hrun
  obtain ⟨hmem, hnodup⟩ := hprov.sent
  exact ⟨fun b hb f hf => ⟨hmem b hb f hf, hprov.called f (hmem b hb f hf)⟩, hnodup⟩

/-- One control frame is enqueued and sent. -/
theorem sent_accepted_of_gated_control :
    ∃ s, Lts.exec (step ⟨fun _ => false, fun _ => 0⟩) {}
        [.call 0 ⟨1, [7], true, false⟩, .enqueue 0, .enqueue 0, .writer (.credit 0), .credit,
          .writer .controlCh, .writer .next, .writer .next, .writer .next, .writer .next] = some s ∧
      s.sent = [[⟨some 0, ⟨1, [7], true, false⟩⟩]] ∧
      (∀ b ∈ s.sent, ∀ f ∈ b, f ∈ s.accepted ∧ ∃ u, f.call = some u ∧ (s.enqueue u).inserted) ∧
      s.sent.flatten.Nodup := by
  refine ⟨_, rfl, rfl, sent_accepted_of_gated ⟨fun _ => false, fun _ => 0⟩
    [.call 0 ⟨1, [7], true, false⟩, .enqueue 0, .enqueue 0, .writer (.credit 0), .credit,
      .writer .controlCh, .writer .next, .writer .next, .writer .next, .writer .next] _ ?_ rfl⟩
  decide

/-- A credit notification, taken with no credit left, sends the zero value of `writeReq`: no call brought
it. -/
theorem credit_wakeup_sends_zero :
    ∃ s, Lts.exec (step ⟨fun _ => false, fun _ => 0⟩) {}
        [.credit, .writer (.credit 0), .writer .flowNotify, .writer .next, .writer .next, .writer .next,
          .writer .next] = some s ∧
      s.sent = [[Frame.zero]] ∧ ¬ ∀ b ∈ s.sent, ∀ f ∈ b, f ∈ s.accepted :=
  ⟨_, rfl, rfl, by decide⟩

end P2P
