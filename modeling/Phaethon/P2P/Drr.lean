import Phaethon.P2P.Budget
import Phaethon.P2P.SenderSteps

/-!
# Deficit round robin

`NextBatch` visits the 256 data queues in turn, from where the last round stopped, and takes frames from a queue while
its deficit is positive. A queue that is never empty is served within any 256 calls that return frames (`drr_serves`).
A `Ledger` beside the peer counts the visits, and `Cursor` says which queue comes next.
-/

namespace P2P

open Function List Lts

/-! ## What is recorded -/

/-- `frame.MaxPayload`. -/
def maxPayload : ℕ := 65535

/-- How many queues were visited, how many calls of `NextBatch` have returned frames, and the frames that were taken
from each queue. -/
structure Ledger where
  visits : ℕ := 0
  returns : ℕ := 0
  served : Fin 256 → List Frame := fun _ => []

/-- What the ledger takes from a step. -/
def Ledger.observe (s : Peer) (l : Label) (t : Peer) (b : Ledger) : Ledger :=
  match l, s.sched, t.sched with
  | .sched _, .visit _ _, .drain _ _ => { b with visits := b.visits + 1 }
  | .sched _, .visit _ _, .send => { b with returns := b.returns + 1 }
  | .sched _, .drain _ idx, .refund _ _ _ =>
      { b with served := update b.served idx (b.served idx ++ (s.places (.dataQueue idx)).take 1) }
  | _, _, _ => b

/-- The peer with its ledger. -/
def ledgered (cls : Classifier) : Peer × Ledger → Label → Option (Peer × Ledger) :=
  recorded (step cls) Ledger.observe

/-- A call of `NextBatch` begins. -/
structure AtCall (cls : Classifier) (s : Peer) : Prop where
  calls : ∀ u, (s.enqueue u).Classified cls
  sched : ∃ last, s.sched = .visit 0 last
  batch : s.places .batch = []

/-- The deficit is above minus the maximum payload and at most one quantum. -/
def InBounds (deficit : ℤ) : Prop := -(maxPayload : ℤ) < deficit ∧ deficit ≤ drrQuantum

/-- No frame of the queue is larger than the maximum payload. -/
def Small (q : Fin 256) (s : Peer) : Prop := ∀ f ∈ s.places (.dataQueue q), f.req.data.length ≤ maxPayload

instance (q : Fin 256) (s : Peer) : Decidable (Small q s) :=
  inferInstanceAs (Decidable (∀ f ∈ s.places (.dataQueue q), f.req.data.length ≤ maxPayload))

variable {cls : Classifier} {s t : Peer} {b : Ledger} {c : Case} {q : Fin 256} {start : ℕ}

/-! ## Steps of the others -/

/-- The step leaves alone what the scheduler works with. -/
structure Aside (s t : Peer) : Prop where
  sched : t.sched = s.sched
  round : t.round = s.round
  deficits : t.deficits = s.deficits
  batch : t.places .batch = s.places .batch

theorem Called.aside {u : ℕ} (h : Called cls s u t) (hcall : (s.enqueue u).Classified cls) : Aside s t := by
  cases h with
  | insert hpc =>
    rw [hpc] at hcall
    obtain ⟨e, -, rfl⟩ := hcall
    exact ⟨rfl, rfl, rfl, by cases e <;> simp [Transit.push, Entry.place]⟩
  | _ => exact ⟨rfl, rfl, rfl, rfl⟩

/-- An invariant of the scheduler's steps that the others leave alone holds in every run. -/
theorem ledgered_invariant (inv : Peer → Ledger → Prop) {ok : Peer → Prop}
    (haside : ∀ s t b, inv s b → Aside s t → inv t b)
    (hsched : ∀ s c t b, inv s b → ok s → Scheduled s c t → inv t (b.observe s (.sched c) t))
    (hcalls : ∀ u, (s.enqueue u).Classified cls) (hs : inv s {}) {labels : List Label}
    (hok : Always (ledgered cls) (fun r _ => ok r.1) (s, {}) labels)
    (hrun : exec (ledgered cls) (s, {}) labels = some (t, b)) : inv t b := by
  have hstep (r : Peer × Ledger) (l : Label) (r' : Peer × Ledger)
      (h : (fun r => (∀ u, (r.1.enqueue u).Classified cls) ∧ inv r.1 r.2) r) (hok : ok r.1)
      (hr : ledgered cls r l = some r') : (fun r => (∀ u, (r.1.enqueue u).Classified cls) ∧ inv r.1 r.2) r' := by
    obtain ⟨s, b⟩ := r
    obtain ⟨t, b'⟩ := r'
    obtain ⟨hr', hledger⟩ := recorded_eq_some.mp hr
    dsimp only at h hok hr' hledger ⊢
    subst hledger
    refine ⟨(step_advance hr').classified h.1, ?_⟩
    cases step_stepped hr' with
    | enqueue hcall => exact haside _ _ _ h.2 (hcall.aside (h.1 _))
    | sched hsched' => exact hsched _ _ _ _ h.2 hok hsched'
    | writer hwrote =>
      have hbatch := hwrote.places_eq (.inl rfl)
      exact haside _ _ _ h.2 (by cases hwrote <;> exact ⟨rfl, rfl, rfl, hbatch⟩)
    | _ => exact haside _ _ _ h.2 ⟨rfl, rfl, rfl, rfl⟩
  exact (exec_invariant hstep ⟨hcalls, hs⟩ hok hrun).2

/-! ## The order of the visits -/

/-- The visits go round the queues from `start` on, and each call that has returned frames has made one at least. -/
def Cursor (start : ℕ) (s : Peer) (b : Ledger) : Prop :=
  match s.sched with
  | .visit i last => (s.round + i) % 256 = (start + b.visits) % 256 ∧ b.returns + i ≤ b.visits ∧
      (i = 0 ∧ s.places .batch = [] ∨ 0 < i ∧ (last + 1) % 256 = (s.round + i) % 256)
  | .drain i idx | .refund i idx _ =>
      (s.round + i) % 256 = idx ∧ (idx + 1) % 256 = (start + b.visits) % 256 ∧ b.returns + i < b.visits
  | .wait => s.round % 256 = (start + b.visits) % 256 ∧ b.returns ≤ b.visits ∧ s.places .batch = []
  | .send | .stopped => s.round % 256 = (start + b.visits) % 256 ∧ b.returns ≤ b.visits

theorem Cursor.aside (h : Cursor start s b) (ha : Aside s t) : Cursor start t b := by
  simp only [Cursor, ha.sched, ha.round, ha.batch]
  exact h

theorem AtCall.cursor (h : AtCall cls s) : Cursor s.round s {} := by
  obtain ⟨last, hsched⟩ := h.sched
  simp [Cursor, hsched, h.batch]

theorem Cursor.scheduled (h : Cursor start s b) (hs : Scheduled s c t) :
    Cursor start t (b.observe s (.sched c) t) := by
  cases hs with
  | @visit i last hsched =>
    have hidx : (s.queueAt i : ℕ) = (s.round + i) % 256 := rfl
    simp only [Cursor, hsched] at h
    simp only [Cursor, Ledger.observe, hsched]
    omega
  | @finish i last hsched hend =>
    simp only [Cursor, hsched] at h
    by_cases hbatch : s.places .batch = []
    · simp only [Cursor, Ledger.observe, hsched, hbatch, if_true, and_true]
      simp only [hbatch, length_nil] at hend
      omega
    · simp only [Cursor, Ledger.observe, hsched, hbatch, if_false]
      simp only [hbatch, and_false, false_or] at h
      omega
  | take hsched =>
    simpa only [Cursor, Ledger.observe, hsched] using h
  | empty hsched =>
    simp only [Cursor, hsched] at h
    simp only [Cursor, Ledger.observe, hsched]
    omega
  | full hsched =>
    simp only [Cursor, hsched] at h
    simp only [Cursor, Ledger.observe, hsched]
    omega
  | @refund i idx need hsched =>
    simp only [Cursor, hsched] at h
    by_cases hdeficit : s.deficits idx ≤ 0
    · simp only [Cursor, Ledger.observe, hsched, hdeficit, if_true]
      omega
    · simpa only [Cursor, Ledger.observe, hsched, hdeficit, if_false] using h
  | stop hsched =>
    rcases hsched with hsched | hsched
    all_goals
      simp only [Cursor, hsched] at h
      simp only [Cursor, Ledger.observe, hsched]
      omega
  | wake hsched =>
    simp only [Cursor, hsched] at h
    simp only [Cursor, Ledger.observe, hsched]
    exact ⟨h.1, h.2.1, .inl ⟨trivial, h.2.2⟩⟩
  | again hsched hbatch =>
    simp only [Cursor, hsched] at h
    simp only [Cursor, Ledger.observe, hsched]
    exact ⟨h.1, h.2, .inl ⟨trivial, hbatch⟩⟩
  | output hsched =>
    simpa only [Cursor, Ledger.observe, hsched] using h

/-! ## No queue starves -/

/-- A queue whose turn has come was served, unless it is about to be. -/
structure Attended (start : ℕ) (q : Fin 256) (s : Peer) (b : Ledger) : Prop where
  cursor : Cursor start s b
  visited : ∀ k < b.visits, (start + k) % 256 = q →
    b.served q ≠ [] ∨ ∃ i, s.sched = .drain i q ∧ (s.places .batch).length < 64
  returned : 256 ≤ b.returns → b.served q ≠ []

theorem Attended.scheduled (h : Attended start q s b) (hq : s.places (.dataQueue q) ≠ []) (hs : Scheduled s c t) :
    Attended start q t (b.observe s (.sched c) t) := by
  have hcursor := h.cursor.scheduled hs
  -- outside of the turn of a queue, all queues whose turn has come were served
  have hserved (hsched : ∀ i, s.sched = .drain i q → 64 ≤ (s.places .batch).length) (k : ℕ) (hk : k < b.visits)
      (hkq : (start + k) % 256 = q) : b.served q ≠ [] := by
    rcases h.visited k hk hkq with hserved | ⟨i, hi, hroom⟩
    · exact hserved
    · exact absurd (hsched i hi) (by omega)
  have hkeep (hsame : b.observe s (.sched c) t = b)
      (hsched : ∀ i, s.sched = .drain i q → 64 ≤ (s.places .batch).length) :
      Attended start q t (b.observe s (.sched c) t) := by
    rw [hsame] at hcursor ⊢
    exact ⟨hcursor, fun k hk hkq => .inl (hserved hsched k hk hkq), h.returned⟩
  cases hs with
  | @visit i last hsched hi hroom =>
    have hat := h.cursor
    simp only [Cursor, hsched] at hat
    simp only [Ledger.observe, hsched] at hcursor ⊢
    refine ⟨hcursor, fun k hk hkq => ?_, h.returned⟩
    rcases Nat.lt_succ_iff_lt_or_eq.mp hk with hk | rfl
    · exact .inl (hserved (by simp [hsched]) k hk hkq)
    · exact .inr ⟨i, by rw [show s.queueAt i = q from Fin.ext (hat.1.trans hkq)], hroom⟩
  | @finish i last hsched hend =>
    have hat := h.cursor
    simp only [Cursor, hsched] at hat
    have hall := hserved (by simp [hsched])
    by_cases hbatch : s.places .batch = []
    · exact hkeep (by simp [Ledger.observe, hsched, hbatch]) (by simp [hsched])
    · simp only [Ledger.observe, hsched, hbatch, if_false] at hcursor ⊢
      refine ⟨hcursor, fun k hk hkq => .inl (hall k hk hkq), fun hreturns => ?_⟩
      -- the last 256 visits went to all queues
      simp only [hbatch, and_false, false_or] at hat
      exact hall ((q + 256 - start % 256) % 256) (by dsimp only at hreturns; omega) (by omega)
  | @take i idx f l places hsched hhead =>
    simp only [Ledger.observe, hsched, hhead, take_succ_cons, take_zero] at hcursor ⊢
    by_cases hidx : idx = q
    · subst hidx
      exact ⟨hcursor, by simp, by simp⟩
    · have hother : update b.served idx (b.served idx ++ [f]) q = b.served q :=
        update_of_ne (Ne.symm hidx) ..
      exact ⟨hcursor, fun k hk hkq => .inl (hother.trans_ne (hserved (by simp [hsched, hidx]) k hk hkq)),
        fun hreturns => hother.trans_ne (h.returned hreturns)⟩
  | empty hsched hempty =>
    refine hkeep (by simp [Ledger.observe, hsched]) fun j hj => ?_
    obtain ⟨-, rfl⟩ := Sched.drain.inj (hsched.symm.trans hj)
    exact absurd hempty hq
  | full hsched hfull => exact hkeep (by simp [Ledger.observe, hsched]) fun _ _ => hfull
  | refund hsched => exact hkeep (by simp [Ledger.observe, hsched]) (by simp [hsched])
  | stop hsched =>
    rcases hsched with hsched | hsched <;> exact hkeep (by simp [Ledger.observe, hsched]) (by simp [hsched])
  | wake hsched => exact hkeep (by simp [Ledger.observe, hsched]) (by simp [hsched])
  | again hsched => exact hkeep (by simp [Ledger.observe, hsched]) (by simp [hsched])
  | output hsched => exact hkeep (by simp [Ledger.observe, hsched]) (by simp [hsched])

/-! ## Deficits -/

/-- The deficit of a queue is in bounds, and positive when a frame is about to be taken. -/
structure Bounded (q : Fin 256) (s : Peer) : Prop where
  inBounds : InBounds (s.deficits q)
  pos : ∀ i, s.sched = .drain i q → 0 < s.deficits q

theorem Bounded.aside (h : Bounded q s) (ha : Aside s t) : Bounded q t := by
  refine ⟨?_, fun i hi => ?_⟩
  · rw [ha.deficits]
    exact h.inBounds
  · rw [ha.deficits]
    exact h.pos i (ha.sched ▸ hi)

theorem Bounded.scheduled (h : Bounded q s) (hsmall : Small q s) (hs : Scheduled s c t) : Bounded q t := by
  have hbounds : -65535 < s.deficits q ∧ s.deficits q ≤ 65536 := h.inBounds
  have hset {d : ℤ} (hdeficit : t.deficits q = d) (hd : -65535 < d ∧ d ≤ 65536)
      (hpos : ∀ i, t.sched = .drain i q → 0 < d) : Bounded q t :=
    ⟨hdeficit ▸ hd, fun i hi => hdeficit ▸ hpos i hi⟩
  cases hs with
  | @visit i last hsched =>
    by_cases hq : s.queueAt i = q
    · subst hq
      refine hset (update_self ..) ?_ fun _ _ => ?_
      all_goals
        simp only [drrQuantum]
        split <;> omega
    · exact hset (update_of_ne (Ne.symm hq) ..) hbounds fun j hj => absurd (Sched.drain.inj hj).2 hq
  | finish => exact hset rfl hbounds fun j hj => by dsimp only at hj; split at hj <;> cases hj
  | @take i idx f l places hsched hhead =>
    by_cases hq : idx = q
    · subst hq
      have hpos := h.pos i hsched
      have hlen : f.req.data.length ≤ 65535 := hsmall f (by rw [hhead]; exact mem_cons_self)
      exact hset (update_self ..) (by omega) nofun
    · exact hset (update_of_ne (Ne.symm hq) ..) hbounds nofun
  | @empty i idx =>
    by_cases hq : idx = q
    · subst hq
      exact hset (update_self ..) (by decide) nofun
    · exact hset (update_of_ne (Ne.symm hq) ..) hbounds nofun
  | @refund i idx need =>
    refine ⟨h.inBounds, fun j hj => ?_⟩
    split at hj
    · cases hj
    case isFalse hpos =>
      obtain ⟨-, rfl⟩ := Sched.drain.inj hj
      exact not_le.mp hpos
  | output hsched => exact hset rfl hbounds fun j hj => absurd (hsched.symm.trans hj) nofun
  | _ => exact hset rfl hbounds nofun

/-- Whatever the other queues hold: a deficit that is in bounds stays there as long as the frames of its queue are no
larger than the maximum payload, and a queue that is never empty is served within any 256 calls that return frames. -/
theorem drr_serves (cls : Classifier) (s t : Peer) (b : Ledger) (labels : List Label) (hstart : AtCall cls s)
    (hrun : exec (ledgered cls) (s, {}) labels = some (t, b)) (q : Fin 256) :
    (InBounds (s.deficits q) → Always (ledgered cls) (fun r _ => Small q r.1) (s, {}) labels →
      InBounds (t.deficits q)) ∧
    (Always (ledgered cls) (fun r _ => r.1.places (.dataQueue q) ≠ []) (s, {}) labels → 256 ≤ b.returns →
      b.served q ≠ []) := by
  obtain ⟨last, hsched⟩ := hstart.sched
  constructor
  · intro hbounds hsmall
    have hbounded := ledgered_invariant (fun s _ => Bounded q s) (fun _ _ _ => Bounded.aside)
      (fun _ _ _ _ => Bounded.scheduled) hstart.calls ⟨hbounds, by simp [hsched]⟩ hsmall hrun
    exact hbounded.inBounds
  · intro hbusy
    have hattended := ledgered_invariant (Attended s.round q)
      (fun _ _ _ h ha => ⟨h.cursor.aside ha, by rw [ha.sched, ha.batch]; exact h.visited, h.returned⟩)
      (fun _ _ _ _ => Attended.scheduled) hstart.calls ⟨hstart.cursor, nofun, by simp⟩ hbusy hrun
    exact hattended.returned

theorem drr_serves_threeBytes : ∃ t b,
    exec (ledgered ⟨fun _ => false, fun _ => 0⟩) ({}, {}) threeBytes = some (t, b) ∧ t.deficits 0 = 65533 ∧
      InBounds (t.deficits 0) :=
  ⟨_, _, rfl, rfl, (drr_serves ⟨fun _ => false, fun _ => 0⟩ {} _ _ threeBytes ⟨fun _ => trivial, ⟨0, rfl⟩, rfl⟩ rfl
    0).1 ⟨by decide, by decide⟩ (by decide)⟩

end P2P
