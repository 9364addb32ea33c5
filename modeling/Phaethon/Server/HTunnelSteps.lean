import Phaethon.Server.HTunnel

/-!
# What one step of a tunnel handler does

The critical sections and the code outside the mutex of `src/server/htunnel.go`, taken apart once: what an
action does to the pending operations (`Effect`, `Move`), to the fields that `closeChannel` writes
(`Closing`), and what it leaves of the lock discipline. `Outcome` has all of it, for every program point.
-/

namespace HTunnel

open Function Option HtChannel Section

/-! ## Pending operations -/

/-- The fields that coordinate the handlers. -/
structure Sync where
  pend : Slot → PendingOp
  connSeq : ℤ
  connReadyClosed : Bool
  closedDone : List ℕ
  nextDone : ℕ

/-- The coordination state of a channel. -/
def HtChannel.sync (ch : HtChannel) : Sync :=
  ⟨ch.pend, ch.connSeq, ch.connReadyClosed, ch.closedDone, ch.nextDone⟩

/-- The operation a goroutine leads, with its content sequence. -/
abbrev Lead := Option (Slot × ℤ)

/-- What one step does to the coordination state and to the operation the goroutine leads. -/
inductive Effect (s : Sync) (a : Lead) : Sync → Lead → Prop where
  | keep : Effect s a s a
  | drop : Effect s a s none
  | lead (p : Slot) (q : ℤ) : (s.pend p).active = false → (p = .conn → q = s.connSeq + 1) →
      Effect s a
        { s with
          pend := update s.pend p ⟨true, some s.nextDone⟩
          nextDone := s.nextDone + 1 }
        (some (p, q))
  | complete (p : Slot) (q : ℤ) (d : ℕ) (n : ℤ) (ready : Bool) : a = some (p, q) →
      (s.pend p).done = some d → 0 ≤ n → (ready = true → n = 1 ∧ p = .conn) →
      Effect s a
        { s with
          pend := update s.pend p ⟨false, some d⟩
          closedDone := d :: s.closedDone
          connSeq := s.connSeq + n
          connReadyClosed := s.connReadyClosed || ready }
        none

/-! ## Program points -/

/-- The program points at which a goroutine holds `ch.mu`. -/
def Pc.holds : Pc → Prop
  | .inside _ => True
  | .leave _ => True
  | .crashed => True
  | _ => False

/-- The operation whose leader runs a critical section. -/
def Section.leads : Section → Lead
  | .pushSnapshot r => some (.conn, r.contentSeq)
  | .pushReverse r => some (.conn, r.contentSeq)
  | .pushTarget r => some (.conn, r.contentSeq)
  | .pushFinish r _ => some (.conn, r.contentSeq)
  | .heartbeatFinish r => some (.hb, r.contentSeq)
  | .readSnapshot r => some (.read, r.contentSeq)
  | .readFinish r _ => some (.read, r.contentSeq)
  | .writeFail r => some (.write, r.contentSeq)
  | .writeSnapshot r _ => some (.write, r.contentSeq)
  | .writeRecord r => some (.write, r.contentSeq)
  | .writeDrop r _ => some (.write, r.contentSeq)
  | .writeFinish r _ => some (.write, r.contentSeq)
  | _ => none

/-- The operation whose leader runs code outside the mutex. -/
def Job.leads : Job → Lead
  | .pushSetup r _ => some (.conn, r.contentSeq)
  | .heartbeatSleep r => some (.hb, r.contentSeq)
  | .readSource r _ => some (.read, r.contentSeq)
  | .writeBody r => some (.write, r.contentSeq)
  | .writeSend r _ _ => some (.write, r.contentSeq)
  | .writeUdp r => some (.write, r.contentSeq)
  | _ => none

/-- The operation a goroutine leads at a program point. -/
def Pc.leads : Pc → Lead
  | .enter s => s.leads
  | .inside s => s.leads
  | .leave next => next.leads
  | .await _ next => next.leads
  | .relock next => next.leads
  | .run j => j.leads
  | _ => none

/-- The first push never ends without a result. -/
def Section.settled : Section → Prop
  | .pushFinish r o => r.contentSeq = 1 → o ≠ .neither
  | _ => True

/-- What the code after `Unlock` and after the second `Lock` of `leaderOrWait` expects of the mutex. -/
def Pc.disciplined : Pc → Prop
  | .enter s => s.settled
  | .inside s => s.settled
  | .leave next => ¬ next.holds ∧ next.disciplined
  | .await _ next => next.holds ∧ next.disciplined
  | .relock next => next.holds ∧ next.disciplined
  | .crashed => False
  | _ => True

/-- The request whose loop round runs at a program point. -/
def Pc.round : Pc → Option Req
  | .inside (.loop r) => some r
  | _ => none

variable (ch : HtChannel)

/-- A handler that reads its counter one below its content sequence does not find its operation in
flight. -/
def NotInFlight (pc : Pc) : Prop :=
  ∀ r ∈ pc.round, r.step ch = 1 → (ch.pend r.kind.slot).active = false

instance (ch : HtChannel) (pc : Pc) : Decidable (NotInFlight ch pc) :=
  inferInstanceAs (Decidable (∀ r ∈ pc.round, _))

/-- The leader of an operation can complete it without a panic. -/
def Completable (a : Lead) : Prop :=
  ∀ p q, a = some (p, q) →
    (∃ d, (ch.pend p).done = some d ∧ d ∉ ch.closedDone) ∧
      (p = .conn → q = 1 → ch.connReadyClosed = false)

/-- The fields a channel keeps for good and the setup of a push decides on. -/
def HtChannel.mode : Bool × ℤ := (ch.isReverse, ch.port)

/-- A program point of the code: the first push ends with a result, a waiter leads nothing, the copied
fields are those of the channel. -/
def Pc.tidy (mode : Bool × ℤ) : Pc → Prop
  | .enter s => s.settled
  | .inside s => s.settled
  | .leave next => next.tidy mode
  | .await _ next => next.tidy mode ∧ next.leads = none
  | .relock next => next.tidy mode ∧ next.leads = none
  | .run (.pushSetup _ s) => (s.isReverse, s.port) = mode
  | .crashed => False
  | _ => True

/-- The fields that `closeChannel` alone writes. -/
def HtChannel.life (ch : HtChannel) : Bool × Once × Bool := (ch.closed, ch.closeOnce, ch.registered)

/-- The program points of `closeChannel` after `close(ch.closed)`. -/
def Pc.closing : Pc → Bool
  | .enter (.closeClean _) => true
  | .inside (.closeClean _) => true
  | .leave next => next.closing
  | .await _ next => next.closing
  | .relock next => next.closing
  | .run (.closeEnd _) => true
  | .run (.closeDelete _) => true
  | _ => false

/-! ## Effects -/

/-- What an action does to the pending operations: nothing, it takes one, it completes a push or another
operation, or it returns from a rejected setup. -/
inductive Move (ch : HtChannel) (e : Event) : Pc → HtChannel → Pc → Prop where
  | quiet {l k : Pc} {ch' : HtChannel} : ch'.sync = ch.sync → ch'.mode = ch.mode → k.leads = l.leads →
      k.tidy ch.mode → Move ch e l ch' k
  | lead (r : Req) : r.step ch = 1 → (ch.pend r.kind.slot).active = false →
      Move ch e (.inside (.loop r))
        { ch with
          pend := update ch.pend r.kind.slot ⟨true, some ch.nextDone⟩
          nextDone := ch.nextDone + 1 }
        (.leave r.lead)
  | push (r : Req) (o : Setup) :
      Move ch e (.inside (.pushFinish r o)) (pushFinish r o ch).1 (pushFinish r o ch).2
  | finish {s : Section} {p : Slot} {q n : ℤ} {next : Pc} {ch₀ : HtChannel} :
      s.leads = some (p, q) → p ≠ .conn → 0 ≤ n →
      ch₀.sync = { ch.sync with connSeq := ch.connSeq + n } → ch₀.mode = ch.mode →
      next.leads = none → next.tidy ch.mode →
      Move ch e (.inside s) (broadcastThen p next ch₀).1 (broadcastThen p next ch₀).2
  | reject (r : Req) (s : Snapshot) : r.contentSeq = 1 → s.isReverse = true →
      (2 < s.port ∨ s.port = 0 ∧ e = .known false) →
      Move ch e (.run (.pushSetup r s)) ch (.returned { status := none })

/-- What an action does to the fields that `closeChannel` writes. -/
inductive Closing (ch : HtChannel) : Pc → HtChannel → Pc → Prop where
  | keep {l k : Pc} {ch' : HtChannel} : ch'.life = ch.life → (k.closing = true → l.closing = true) →
      Closing ch l ch' k
  | close (a : Option Response) :
      Closing ch (.run (.closeOnce a)) { ch with closeOnce := .running, closed := true }
        (.enter (.closeClean a))
  | again (a : Option Response) : ch.closeOnce = .done →
      Closing ch (.run (.closeOnce a)) ch (.run (.closeDelete a))
  | done (a : Option Response) :
      Closing ch (.run (.closeEnd a)) { ch with closeOnce := .done } (.run (.closeDelete a))
  | delete (a : Option Response) :
      Closing ch (.run (.closeDelete a)) { ch with registered := false } (.after a)

/-- The outcome of an action that finds its operation completable. -/
structure Outcome (ch : HtChannel) (e : Event) (l : Pc) (out : HtChannel × Pc) : Prop where
  effect : (∀ s, l = .inside s → s.settled) → Effect ch.sync l.leads out.1.sync out.2.leads
  move : l.tidy ch.mode → Move ch e l out.1 out.2
  closing : Closing ch l out.1 out.2
  holds : out.2.holds ↔ l.holds
  disciplined : l.disciplined → NotInFlight ch l → out.2.disciplined

/-- A program point that leads nothing, outside the mutex and before `close(ch.closed)`. -/
structure Pc.Free (k : Pc) : Prop where
  leads : k.leads = none
  holds : ¬ k.holds
  disciplined : k.disciplined
  tidy : ∀ mode, k.tidy mode
  closing : k.closing = false

variable {ch ch' : HtChannel} {e : Event} {l k : Pc} {r : Req} {s : Section} {out : HtChannel × Pc}

/-- An action that leaves the coordination state alone and goes on with its operation. -/
private theorem Outcome.quiet (hsync : ch'.sync = ch.sync) (hmode : ch'.mode = ch.mode)
    (hlife : ch'.life = ch.life) (hleads : k.leads = l.leads) (hholds : k.holds ↔ l.holds)
    (hd : l.disciplined → k.disciplined) (htidy : l.tidy ch.mode → k.tidy ch.mode)
    (hclosing : k.closing = true → l.closing = true) : Outcome ch e l (ch', k) where
  effect _ := by
    rw [hsync, hleads]
    exact .keep
  move ht := .quiet hsync hmode hleads (htidy ht)
  closing := .keep hlife hclosing
  holds := hholds
  disciplined h _ := hd h

/-- An action that leaves the channel alone and goes on at a free program point. -/
private theorem Outcome.free (hl : l.leads = none) (hlh : ¬ l.holds) (hk : k.Free) : Outcome ch e l (ch, k) :=
  .quiet rfl rfl rfl (hk.leads.trans hl.symm) (iff_of_false hk.holds hlh) (fun _ => hk.disciplined)
    (fun _ => hk.tidy _) (by simp [hk.closing])

/-- The end of a critical section that leaves the channel alone. -/
private theorem Outcome.leave_free (hs : s.leads = none) (hk : k.Free) : Outcome ch e (.inside s) (ch, .leave k) :=
  .quiet rfl rfl rfl (hk.leads.trans hs.symm) .rfl (fun _ => ⟨hk.holds, hk.disciplined⟩)
    (fun _ => hk.tidy _) (by simp [Pc.closing, hk.closing])

theorem Pc.Free.status (code : ℕ) : (Pc.status code).Free := ⟨rfl, id, trivial, fun _ => trivial, rfl⟩

theorem Pc.Free.after (answer : Option Response) : (Pc.after answer).Free := by
  cases answer <;> exact ⟨rfl, id, trivial, fun _ => trivial, rfl⟩

private theorem Pc.Free.answer (o : Setup) : o.answer.Free := by
  cases o <;> exact ⟨rfl, id, trivial, fun _ => trivial, rfl⟩

private theorem Pc.Free.duplicate (r : Req) (ch : HtChannel) : (duplicate r ch).Free := by
  unfold HTunnel.duplicate
  split
  · split_ifs <;> exact .status _
  · split_ifs <;> exact .status _
  · split
    · exact ⟨rfl, id, trivial, fun _ => trivial, rfl⟩
    · exact .status _
  · split_ifs <;> exact .status _

/-! ## The retry loop -/

theorem leads_lead (r : Req) : r.lead.leads = some (r.kind.slot, r.contentSeq) := by
  cases hk : r.kind <;> simp [Req.lead, hk, Pc.leads, leads, Job.leads, Kind.slot]

/-- A leader does not close the channel. -/
theorem closing_of_leads {k : Pc} {x : Slot × ℤ} (h : k.leads = some x) : k.closing = false := by
  induction k with
  | enter s => cases s <;> first | rfl | cases h
  | inside s => cases s <;> first | rfl | cases h
  | leave next ih => exact ih h
  | await d next ih => exact ih h
  | relock next ih => exact ih h
  | run j => cases j <;> first | rfl | cases h
  | _ => rfl

private theorem waitAgain_outcome (hact : (ch.pend r.kind.slot).active = true) :
    Outcome ch e (.inside (.loop r)) (waitAgain r ch) := by
  simp only [waitAgain, leaderOrWait, if_pos hact]
  exact .quiet rfl rfl rfl rfl .rfl (fun _ => ⟨id, trivial, id, trivial⟩) (fun _ => ⟨trivial, rfl⟩) id

/-- The goroutine becomes the leader of an operation that is not in flight. -/
private theorem lead_outcome (hstep : r.step ch = 1) (hidle : (ch.pend r.kind.slot).active = false) :
    Outcome ch e (.inside (.loop r))
      ({ ch with
          pend := update ch.pend r.kind.slot ⟨true, some ch.nextDone⟩
          nextDone := ch.nextDone + 1 }, .leave r.lead) where
  effect _ := by
    rw [show (Pc.leave r.lead).leads = _ from leads_lead r]
    refine Effect.lead (s := ch.sync) r.kind.slot r.contentSeq hidle fun hconn => ?_
    have hpush : r.kind = .push := by cases hk : r.kind <;> simp [hk, Kind.slot] at hconn ⊢
    simp only [Req.step, hpush, Kind.counter, sync] at hstep ⊢
    omega
  move _ := .lead r hstep hidle
  closing := .keep rfl (by simp [Pc.closing, closing_of_leads (leads_lead r)])
  holds := .rfl
  disciplined _ _ := by
    cases hk : r.kind <;> simp [Req.lead, hk, Pc.holds, Pc.disciplined, settled]

-- A waiter goes on at the head of the loop, which does not hold the mutex: the discipline does not allow it
-- to find its operation in flight.
private theorem leadOrLoop_outcome (hstep : r.step ch = 1) : Outcome ch e (.inside (.loop r)) (leadOrLoop r ch) := by
  unfold leadOrLoop leaderOrWait
  split
  · next hact =>
      refine ⟨fun _ => .keep, fun _ => .quiet rfl rfl rfl ⟨trivial, rfl⟩, .keep rfl id, .rfl, fun _ hok => ?_⟩
      simp [hok r rfl hstep] at hact
  · next hact => exact lead_outcome hstep (by simpa using hact)

private theorem loopRound_outcome (r : Req) (ch : HtChannel) (e : Event) :
    Outcome ch e (.inside (.loop r)) (loopRound r ch) := by
  have hdup : Outcome ch e (.inside (.loop r)) (ch, .leave (duplicate r ch)) :=
    .leave_free rfl (.duplicate r ch)
  unfold loopRound
  split
  · next hk =>
      have hslot : r.kind.slot = .conn := by rw [hk]; rfl
      unfold loopPush
      split_ifs with h0 hact h1 hact
      · exact waitAgain_outcome (by rwa [hslot])
      · exact hdup
      · exact waitAgain_outcome (by rwa [hslot])
      · exact .leave_free rfl ⟨rfl, id, trivial, fun _ => trivial, rfl⟩
      · exact leadOrLoop_outcome (not_not.mp h1)
  · unfold loopOther
    split_ifs with h0 hact h1
    · exact waitAgain_outcome hact
    · exact hdup
    · exact .leave_free rfl (.status 410)
    · exact leadOrLoop_outcome (not_not.mp h1)

/-! ## Critical sections -/

/-- A completable operation is completed by `broadcast`. -/
theorem broadcast_eq {ch : HtChannel} {p : Slot} {d : ℕ} (hd : (ch.pend p).done = some d)
    (hopen : d ∉ ch.closedDone) :
    broadcast p ch = some
      { ch with
        pend := update ch.pend p ⟨false, some d⟩
        closedDone := d :: ch.closedDone } := by
  simp [broadcast, closeDone, hd, hopen]

/-- The end of a leader other than a push: the counter moves by `n` and the operation is completed. -/
private theorem finish_outcome {ch₀ : HtChannel} {p : Slot} {q n : ℤ} {next : Pc}
    (hl : s.leads = some (p, q)) (hc : Completable ch s.leads) (hp : p ≠ .conn) (hn : 0 ≤ n)
    (hsync : ch₀.sync = { ch.sync with connSeq := ch.connSeq + n }) (hmode : ch₀.mode = ch.mode)
    (hlife : ch₀.life = ch.life) (hnext : next.Free) :
    Outcome ch e (.inside s) (broadcastThen p next ch₀) := by
  obtain ⟨⟨d, hd, hopen⟩, -⟩ := hc p q hl
  obtain ⟨hpend, hseq, hready, hclosed, hnextDone⟩ := Sync.mk.inj hsync
  dsimp only [sync] at hpend hseq hready hclosed hnextDone
  have hmove : Move ch e (.inside s) (broadcastThen p next ch₀).1 (broadcastThen p next ch₀).2 :=
    .finish hl hp hn hsync hmode hnext.leads (hnext.tidy _)
  simp only [broadcastThen, broadcast_eq (hpend ▸ hd) (hclosed ▸ hopen)] at hmove ⊢
  refine ⟨fun _ => ?_, fun _ => hmove, .keep hlife (by simp [Pc.closing, hnext.closing]), .rfl,
    fun _ _ => ⟨hnext.holds, hnext.disciplined⟩⟩
  have he := Effect.complete (s := ch.sync) p q d n false hl hd hn (by simp)
  simpa [sync, hpend, hseq, hready, hclosed, hnextDone, Pc.leads, hnext.leads] using he

/-- The end of a push leader that can complete its operation. -/
theorem pushFinish_eq {r : Req} {o : Setup} {ch : HtChannel} {d : ℕ}
    (hd : (ch.pend .conn).done = some d) (hopen : d ∉ ch.closedDone)
    (hready : r.contentSeq = 1 → ch.connReadyClosed = false) :
    pushFinish r o ch =
      ({ ch with
          connSeq := ch.connSeq + if o = .neither then 0 else 1
          pend := update ch.pend .conn ⟨false, some d⟩
          closedDone := d :: ch.closedDone
          connReadyClosed := ch.connReadyClosed || decide (r.contentSeq = 1) },
        .leave o.answer) := by
  by_cases ho : o = .neither <;> by_cases hone : r.contentSeq = 1
  all_goals simp [pushFinish, ho, hone, hready, broadcast_eq, hd, hopen]

/-- The end of a push: `connReady` is closed by the first push only, which moves the counter. -/
private theorem pushFinish_outcome {o : Setup} (hc : Completable ch (some (.conn, r.contentSeq))) :
    Outcome ch e (.inside (.pushFinish r o)) (pushFinish r o ch) := by
  have hmove : Move ch e (.inside (.pushFinish r o)) (pushFinish r o ch).1 (pushFinish r o ch).2 := .push r o
  obtain ⟨⟨d, hd, hopen⟩, hready⟩ := hc .conn r.contentSeq rfl
  rw [pushFinish_eq hd hopen (hready rfl)] at hmove ⊢
  have hanswer := Pc.Free.answer o
  refine ⟨fun hset => ?_, fun _ => hmove, .keep rfl (by simp [Pc.closing, hanswer.closing]), .rfl,
    fun _ _ => ⟨hanswer.holds, hanswer.disciplined⟩⟩
  rw [show (Pc.leave o.answer).leads = none from hanswer.leads]
  exact Effect.complete (s := ch.sync) .conn r.contentSeq d (if o = .neither then 0 else 1)
    (decide (r.contentSeq = 1)) rfl hd (by split <;> decide)
    (fun h => ⟨if_neg (hset _ rfl (by simpa using h)), rfl⟩)

private theorem readFinish_outcome {res : ReadResult} {resp : Option Body}
    (hc : Completable ch (some (.read, r.contentSeq))) :
    Outcome ch e (.inside (.readFinish r res)) (readFinish res resp ch) := by
  refine finish_outcome rfl hc (by decide) (n := 0) (by decide) (by simp [sync]) rfl rfl ?_
  split
  · exact ⟨rfl, id, trivial, fun _ => trivial, rfl⟩
  · exact .status 408
  · exact .status 410

private theorem writeFinish_outcome {q : ℤ} {ok : Bool} (hl : s.leads = some (.write, q))
    (hc : Completable ch s.leads) : Outcome ch e (.inside s) (writeFinish ok ch) :=
  finish_outcome hl hc (by decide) (n := 0) (by decide) (by simp [sync]) rfl rfl (.status _)

/-- Every critical section. -/
private theorem body_outcome (hc : Completable ch s.leads) (h : body s ch e = some out) :
    Outcome ch e (.inside s) out := by
  unfold body at h
  split at h
  case h_1 r => exact Option.some.inj h ▸ .leave_free rfl ⟨rfl, id, trivial, fun _ => trivial, rfl⟩
  case h_2 r => exact Option.some.inj h ▸ loopRound_outcome r ch _
  case h_3 r =>
    exact Option.some.inj h ▸ .quiet rfl rfl rfl rfl .rfl (fun _ => ⟨id, trivial⟩) (fun _ => rfl) id
  case h_4 r =>
    exact Option.some.inj h ▸
      .quiet rfl rfl rfl rfl .rfl (fun _ => ⟨id, fun _ => by simp⟩) (fun _ _ => by simp) id
  case h_5 r =>
    exact Option.some.inj h ▸
      .quiet rfl rfl rfl rfl .rfl (fun _ => ⟨id, fun _ => by simp⟩) (fun _ _ => by simp) id
  case h_6 r o => exact Option.some.inj h ▸ pushFinish_outcome hc
  case h_7 r =>
    exact Option.some.inj h ▸
      finish_outcome rfl hc (by decide) (n := 1) (by decide) rfl rfl rfl
        ⟨rfl, id, trivial, fun _ => trivial, rfl⟩
  case h_9 r b =>
    split at h <;> cases h
    exact readFinish_outcome hc
  case h_10 r b sealed =>
    split at h <;> cases h
    exact readFinish_outcome hc
  case h_11 r res _ => exact Option.some.inj h ▸ readFinish_outcome hc
  case h_12 r => exact Option.some.inj h ▸ writeFinish_outcome rfl hc
  case h_15 r conn =>
    refine Option.some.inj h ▸ .quiet ?_ ?_ ?_ rfl .rfl (fun _ => ⟨id, trivial⟩) (fun _ => trivial) id
    all_goals split <;> rfl
  case h_16 r ok => exact Option.some.inj h ▸ writeFinish_outcome rfl hc
  case h_18 =>
    refine Option.some.inj h ▸ .leave_free rfl ?_
    split <;> exact ⟨rfl, id, trivial, fun _ => trivial, rfl⟩
  case h_19 => cases h
  -- the remaining sections leave the coordination state alone and keep their operation
  all_goals
    exact Option.some.inj h ▸ .quiet rfl rfl rfl rfl .rfl (fun _ => ⟨id, trivial⟩) (fun _ => trivial) id

/-! ## Outside the mutex -/

/-- A leader goes on in a critical section. -/
private theorem Outcome.enter {j : Job} {x : Slot × ℤ} (hk : Pc.enter s = k) (hj : j.leads = some x)
    (hs : s.leads = j.leads) (hset : s.settled) : Outcome ch e (.run j) (ch, k) := by
  subst hk
  have hclosing : (Pc.enter s).closing = false := closing_of_leads (hs.trans hj)
  exact .quiet rfl rfl rfl hs .rfl (fun _ => hset) (fun _ => hset) (by simp [hclosing])

-- Every way out of the setup but the bare returns ends in `pushFinish`; for content sequence 1 it has a
-- result.
private theorem pushSetup_outcome {s : Snapshot} (h : pushSetup r s e = some k) :
    Outcome ch e (.run (.pushSetup r s)) (ch, k) := by
  have hbare : r.contentSeq = 1 → s.isReverse = true → 2 < s.port ∨ s.port = 0 ∧ e = .known false →
      Pc.returned { status := none } = k → Outcome ch e (.run (.pushSetup r s)) (ch, k) := by
    rintro h1 hrev hbad rfl
    exact ⟨fun _ => .drop, fun _ => .reject r s h1 hrev hbad, .keep rfl id, .rfl, fun _ _ => trivial⟩
  unfold pushSetup at h
  split_ifs at h with h1 hrev hbad hdata hudp htarget h2
  · exact hbare h1 hrev (.inl hbad) (Option.some.inj h)
  · split at h
    · exact .enter (Option.some.inj h) rfl rfl trivial
    · exact hbare h1 hrev (.inr ⟨hdata, rfl⟩) (Option.some.inj h)
    · cases h
  · exact .enter (Option.some.inj h) rfl rfl trivial
  · exact .enter (Option.some.inj h) rfl rfl (by simp [settled])
  · exact .enter (Option.some.inj h) rfl rfl (by simp [settled])
  · split at h
    · exact .enter (Option.some.inj h) rfl rfl trivial
    · exact .enter (Option.some.inj h) rfl rfl (by simp [settled])
    · cases h
  all_goals exact .enter (Option.some.inj h) rfl rfl (fun h => absurd h h1)

private theorem writeSend_outcome {s : Snapshot} {data : Bytes} (h : writeSend r s data e = some k) :
    Outcome ch e (.run (.writeSend r s data)) (ch, k) := by
  unfold writeSend at h
  split_ifs at h
  · exact .enter (Option.some.inj h) rfl rfl trivial
  · exact .enter (Option.some.inj h) rfl rfl trivial
  · split at h
    exacts [.enter (Option.some.inj h) rfl rfl trivial, .enter (Option.some.inj h) rfl rfl trivial, nomatch h]
  · split at h
    exacts [.enter (Option.some.inj h) rfl rfl trivial, .enter (Option.some.inj h) rfl rfl trivial]
  · split at h
    · exact .enter (Option.some.inj h) rfl rfl trivial
    · split at h
      exacts [.enter (Option.some.inj h) rfl rfl trivial, .enter (Option.some.inj h) rfl rfl trivial, nomatch h]

/-- Every step outside the mutex. -/
private theorem job_outcome {j : Job} (h : job j ch e = some out) : Outcome ch e (.run j) out := by
  unfold job at h
  split at h
  case h_1 r =>
    refine Option.some.inj h ▸ .free rfl id ?_
    split
    · exact ⟨rfl, id, trivial, fun _ => trivial, rfl⟩
    · exact .status 410
  case h_2 r =>
    split at h <;> cases h
    exact .free rfl id ⟨rfl, id, trivial, fun _ => trivial, rfl⟩
  case h_3 =>
    split at h <;> cases h
    exact .free rfl id (.status 410)
  case h_4 => exact Option.some.inj h ▸ .free rfl id (.status 410)
  case h_5 r s =>
    obtain ⟨k, hk, rfl⟩ := map_eq_some_iff.mp h
    exact pushSetup_outcome hk
  case h_7 r =>
    split at h <;> cases h
    exact .quiet rfl rfl rfl rfl .rfl id id id
  case h_8 =>
    refine Option.some.inj h ▸ .free rfl id ?_
    split <;> exact .status _
  case h_9 r s =>
    obtain ⟨p, -, rfl⟩ := map_eq_some_iff.mp h
    exact .quiet rfl rfl rfl rfl .rfl id id id
  case h_12 r s data =>
    obtain ⟨k, hk, rfl⟩ := map_eq_some_iff.mp h
    exact writeSend_outcome hk
  case h_15 => exact Option.some.inj h ▸ .free rfl id ⟨rfl, id, trivial, fun _ => trivial, rfl⟩
  case h_16 answer =>
    refine Option.some.inj h ▸ .free rfl id ?_
    split
    · exact ⟨rfl, id, trivial, fun _ => trivial, rfl⟩
    · exact .after answer
  case h_17 answer =>
    split at h
    · exact Option.some.inj h ▸
        ⟨fun _ => .keep, fun _ => .quiet rfl rfl rfl trivial, .close answer, .rfl, fun _ _ => trivial⟩
    · cases h
    · next hdone =>
        exact Option.some.inj h ▸
          ⟨fun _ => .keep, fun _ => .quiet rfl rfl rfl trivial, .again answer hdone, .rfl, fun _ _ => trivial⟩
  case h_18 answer =>
    exact Option.some.inj h ▸
      ⟨fun _ => .keep, fun _ => .quiet rfl rfl rfl trivial, .done answer, .rfl, fun _ _ => trivial⟩
  case h_19 answer =>
    have hafter := Pc.Free.after answer
    refine Option.some.inj h ▸ ⟨fun _ => ?_, fun _ => .quiet rfl rfl hafter.leads (hafter.tidy _),
      .delete answer, iff_of_false hafter.holds id, fun _ _ => hafter.disciplined⟩
    rw [hafter.leads]
    exact .keep
  case h_20 => cases h
  -- the remaining steps go on with their operation
  all_goals exact Option.some.inj h ▸ .quiet rfl rfl rfl rfl .rfl id id id

private theorem start_free (h : start e = some k) : k.Free := by
  unfold start at h
  split at h
  · split at h
    · cases h
    · cases h; exact ⟨rfl, id, trivial, fun _ => trivial, rfl⟩
  all_goals cases h
  all_goals exact ⟨rfl, id, trivial, fun _ => trivial, rfl⟩

/-! ## Actions -/

/-- Every action of the code. -/
theorem act_outcome {run : HtChannel → Event → Option (HtChannel × Pc)} (hcode : code l = .act run)
    (hc : Completable ch l.leads) (h : run ch e = some out) : Outcome ch e l out := by
  cases l <;> simp only [code, reduceCtorEq, Mutex.Op.act.injEq] at hcode <;> subst hcode
  case idle =>
    obtain ⟨k, hk, rfl⟩ := map_eq_some_iff.mp h
    exact .free rfl id (start_free hk)
  case inside s => exact body_outcome hc h
  case await d next =>
    unfold awaitDone at h
    split at h
    · split at h <;> cases h
      exact .quiet rfl rfl rfl rfl .rfl id id id
    · cases h
  case run j => exact job_outcome h

theorem lock_cases (h : code l = .lock k) : (∃ s, l = .enter s ∧ k = .inside s) ∨ l = .relock k := by
  cases l <;> simp only [code, reduceCtorEq, Mutex.Op.lock.injEq] at h <;> subst h
  · exact .inl ⟨_, rfl, rfl⟩
  · exact .inr rfl

theorem unlock_eq (h : code l = .unlock k) : l = .leave k := by
  cases l <;> simp only [code, reduceCtorEq, Mutex.Op.unlock.injEq] at h
  exact h ▸ rfl

theorem lock_leads (h : code l = .lock k) : k.leads = l.leads := by
  obtain ⟨s, rfl, rfl⟩ | rfl := lock_cases h <;> rfl

theorem unlock_leads (h : code l = .unlock k) : k.leads = l.leads := by
  rw [unlock_eq h]
  rfl

end HTunnel
