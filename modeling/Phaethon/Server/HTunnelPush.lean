import Phaethon.Server.HTunnelLock

/-!
# The leader of a push completes it

`handleConnectionPush` in `src/server/htunnel.go`: the goroutine that leads a push owes its channel one
`broadcast`, for content sequence 1 one `close(connReady)`, and its client one status. `Account` records
what each goroutine has done of that, and `Accounted` says that nothing is left over once it returned.

The two bare returns of a reverse setup break this (`Accepts`): an invalid port, and an address that is not
registered. They leave the operation in flight with nobody to complete it.
-/

namespace HTunnel

open Function

/-! ## Accounts -/

/-- What a goroutine did to the push operation of its channel: the content sequence it led it with, how
often it completed it and closed `connReady`, and how far it moved `connSeq` as it completed it. -/
structure Account where
  led : Option ℤ := none
  broadcasts : ℕ := 0
  readyCloses : ℕ := 0
  moved : ℤ := 0
  deriving DecidableEq, Repr

/-- `connPend.active`. -/
def HtChannel.pushing (ch : HtChannel) : Bool := (ch.pend .conn).active

/-- The account of a goroutine after a step of its own, from `pc` and `ch` to `ch'`. -/
def Account.observe (a : Account) (ch : HtChannel) (pc : Pc) (ch' : HtChannel) : Account where
  led := if !ch.pushing && ch'.pushing then pc.round.map Req.contentSeq else a.led
  broadcasts := a.broadcasts + if ch.pushing && !ch'.pushing then 1 else 0
  readyCloses := a.readyCloses + if !ch.connReadyClosed && ch'.connReadyClosed then 1 else 0
  moved := if ch.pushing && !ch'.pushing then ch'.connSeq - ch.connSeq else a.moved

/-- A channel with the accounts of its goroutines. -/
abbrev Ledger := Config × (ℕ → Account)

/-- One goroutine runs one operation, which goes into its account. -/
abbrev Ledger.step : Ledger → ℕ × Event → Option Ledger :=
  Lts.recorded HTunnel.step fun c lab d accounts =>
    update accounts lab.1
      ((accounts lab.1).observe c.shared (c.threads lab.1) d.shared)

/-- No request has arrived yet. -/
def Ledger.init (ch : HtChannel) : Ledger := (HTunnel.init ch, fun _ => {})

/-- The account of a leader that returned `resp`: one completed operation, `connReady` closed by the first
push only, and a status that agrees with the counter. It moves with a 200, and with a 410 only if the
channel is closed. -/
structure Account.Settled (a : Account) (q : ℤ) (closed : Bool) (resp : Response) : Prop where
  broadcast_once : a.broadcasts = 1
  ready_once : a.readyCloses = if q = 1 then 1 else 0
  status : resp.status = some 200 ∧ a.moved = 1 ∨
    resp.status = some 410 ∧ (a.moved = 0 ∨ a.moved = 1 ∧ closed = true)

/-- Every leader that returned has settled its account, none panicked, and each operation in flight has a
goroutine that runs it. -/
structure Accounted (l : Ledger) : Prop where
  returned : ∀ {t q resp}, (l.2 t).led = some q → l.1.threads t = .returned resp →
    (l.2 t).Settled q l.1.shared.closed resp
  not_crashed : ∀ t, l.1.threads t ≠ .crashed
  run : ∀ {p}, (l.1.shared.pend p).active = true → ∃ t q, (l.1.threads t).leads = some (p, q)

/-- The reverse setup does not turn the goroutine's first push down: the port is one of the three, and
`db.HasReverseAddress` knows the address of a data connection. -/
def Accepts (l : Ledger) (lab : ℕ × Event) : Prop :=
  match l.1.threads lab.1 with
  | .run (.pushSetup r _) =>
      r.contentSeq = 1 → l.1.shared.isReverse = true →
        l.1.shared.port ≤ 2 ∧ (l.1.shared.port = 0 → lab.2 ≠ .known false)
  | _ => True

instance (l : Ledger) (lab : ℕ × Event) : Decidable (Accepts l lab) := by
  unfold Accepts
  split <;> infer_instance

/-! ## Closing the channel -/

/-- Whoever is past `close(ch.closed)`, or came after it, finds the channel closed. -/
structure Shut (c : Config) : Prop where
  once : c.shared.closeOnce ≠ .fresh → c.shared.closed = true
  gone : c.shared.registered = false → c.shared.closed = true
  closing : ∀ t, (c.threads t).closing = true → c.shared.closed = true

variable {l k : Pc}

private theorem lock_closing (h : code l = .lock k) : k.closing = l.closing := by
  obtain ⟨s, rfl, rfl⟩ | rfl := lock_cases h
  · cases s <;> rfl
  · rfl

private theorem unlock_closing (h : code l = .unlock k) : k.closing = l.closing := by
  rw [unlock_eq h]
  rfl

variable {t : ℕ}

/-- A goroutine other than the one that moved is where it was. -/
private theorem closing_update {c : Config} {u : ℕ} (h : (update c.threads u k t).closing = true) :
    k.closing = true ∨ (c.threads t).closing = true := by
  by_cases htu : t = u
  · subst htu
    exact .inl (by simpa using h)
  · exact .inr (by simpa [update_of_ne htu] using h)

variable {lab : ℕ × Event}

theorem Shut.step {c d : Config} (h : Shut c)
    (hc : Completable c.shared (c.threads lab.1).leads) (hs : HTunnel.step c lab = some d) :
    Shut d ∧ (c.shared.closed = true → d.shared.closed = true) := by
  rcases Mutex.step_cases hs with ⟨k, hk, -, rfl⟩ | ⟨k, hk, -, rfl⟩ | ⟨run, ch', k, hk, hr, rfl⟩
  · refine ⟨⟨h.once, h.gone, fun t ht => ?_⟩, id⟩
    rcases closing_update ht with ht | ht
    · exact h.closing lab.1 (lock_closing hk ▸ ht)
    · exact h.closing t ht
  · refine ⟨⟨h.once, h.gone, fun t ht => ?_⟩, id⟩
    rcases closing_update ht with ht | ht
    · exact h.closing lab.1 (unlock_closing hk ▸ ht)
    · exact h.closing t ht
  · have hcl := (act_outcome hk hc hr).closing
    have hpast := h.closing lab.1
    generalize c.threads lab.1 = l at hk hcl hpast
    cases hcl with
    | keep hlife hkl =>
      simp only [HtChannel.life, Prod.mk.injEq] at hlife
      obtain ⟨hclosed, honce, hreg⟩ := hlife
      refine ⟨⟨?_, ?_, fun t ht => ?_⟩, fun hc => hclosed.trans hc⟩
      · exact fun ho => hclosed.trans (h.once (honce ▸ ho))
      · exact fun hg => hclosed.trans (h.gone (hreg.symm.trans hg))
      · rcases closing_update ht with ht | ht
        · exact hclosed.trans (hpast (hkl ht))
        · exact hclosed.trans (h.closing t ht)
    | close a => exact ⟨⟨fun _ => rfl, fun _ => rfl, fun _ _ => rfl⟩, fun _ => rfl⟩
    | again a hdone =>
      have hc := h.once (by simp [hdone])
      exact ⟨⟨fun _ => hc, fun _ => hc, fun _ _ => hc⟩, id⟩
    | done a =>
      have hc := hpast rfl
      exact ⟨⟨fun _ => hc, fun _ => hc, fun _ _ => hc⟩, id⟩
    | delete a =>
      have hc := hpast rfl
      exact ⟨⟨fun _ => hc, fun _ => hc, fun _ _ => hc⟩, id⟩

/-! ## Operations in flight -/

/-- Every operation in flight has a leader. -/
def Attended (s : Sync) (leads : ℕ → Lead) : Prop :=
  ∀ p, (s.pend p).active = true → ∃ t q, leads t = some (p, q)

variable {p : Slot} {q moved : ℤ}

private theorem Attended.lead {s : Sync} {leads : ℕ → Lead} (h : Attended s leads) {n : ℕ} {d : Option ℕ}
    (ht : leads t = none) :
    Attended { s with pend := update s.pend p ⟨true, d⟩, nextDone := n }
      (update leads t (some (p, q))) := by
  intro p' hp'
  by_cases hp : p' = p
  · subst hp
    exact ⟨t, q, by simp⟩
  · obtain ⟨u, q', hu⟩ := h p' (by simpa [update_of_ne hp] using hp')
    have hut : u ≠ t := by
      rintro rfl
      simp [ht] at hu
    exact ⟨u, q', by simpa [update_of_ne hut] using hu⟩

private theorem Attended.complete {s s' : Sync} {leads : ℕ → Lead} (h : Attended s leads) {d : Option ℕ}
    (ht : leads t = some (p, q))
    (hs : s'.pend = update s.pend p ⟨false, d⟩) :
    Attended s' (update leads t none) := by
  intro p' hp'
  rw [hs] at hp'
  have hp : p' ≠ p := by
    rintro rfl
    simp at hp'
  obtain ⟨u, q', hu⟩ := h p' (by simpa [update_of_ne hp] using hp')
  have hut : u ≠ t := by
    rintro rfl
    rw [ht, Option.some.injEq, Prod.mk.injEq] at hu
    exact hp hu.1.symm
  exact ⟨u, q', by simpa [update_of_ne hut] using hu⟩

/-! ## Answering -/

/-- The answer that `closeChannel` returns to. -/
def Pc.pending : Pc → Option Response
  | .enter (.closeClean a) => a
  | .inside (.closeClean a) => a
  | .run (.closeLoad a) => a
  | .run (.closeOnce a) => a
  | .run (.closeEnd a) => a
  | .run (.closeDelete a) => a
  | _ => none

/-- The program points of a push leader after it completed its operation: it holds the answer that goes
with the move of the counter. -/
def Pc.answers (closed : Bool) (moved : ℤ) : Pc → Prop
  | .leave next => next.answers closed moved
  | .returned resp => resp.status = some 200 ∧ moved = 1 ∨
      resp.status = some 410 ∧ (moved = 0 ∨ moved = 1 ∧ closed = true)
  | l => moved = 1 ∧ ∃ resp ∈ l.pending, resp.status = some 410

variable {closed : Bool}

/-- Who answers leads nothing any more. -/
theorem leads_of_answers (h : l.answers closed moved) : l.leads = none := by
  induction l with
  | enter s => cases s <;> first | rfl | simp [Pc.answers, Pc.pending] at h
  | inside s => cases s <;> first | rfl | simp [Pc.answers, Pc.pending] at h
  | leave next ih => exact ih h
  | run j => cases j <;> first | rfl | simp [Pc.answers, Pc.pending] at h
  | await d next => simp [Pc.answers, Pc.pending] at h
  | relock next => simp [Pc.answers, Pc.pending] at h
  | _ => rfl

/-- The channel may close while a goroutine answers. -/
theorem Pc.answers.closed_mono {closed' : Bool}
    (h : l.answers closed moved) (hc : closed = true → closed' = true) : l.answers closed' moved := by
  induction l with
  | returned resp => exact h.imp_right (And.imp_right (Or.imp_right (And.imp_right hc)))
  | leave next ih => exact ih h
  | _ => exact h

theorem answers_after {a : Option Response} (hm : moved = 1)
    (ha : ∃ resp ∈ a, resp.status = some 410) (hc : closed = true) :
    (Pc.after a).answers closed moved := by
  obtain ⟨resp, hresp, hst⟩ := ha
  subst hresp
  exact .inr ⟨hst, .inr ⟨hm, hc⟩⟩

variable {ch ch' : HtChannel} {e : Event}

/-- An action of a goroutine that answers: it goes on with its answer and leaves the pending operations
alone. -/
theorem act_answers {out : HtChannel × Pc}
    {run : HtChannel → Event → Option (HtChannel × Pc)} (hcode : code l = .act run)
    (h : run ch e = some out) (hl : l.answers ch.closed moved)
    (hgone : ch.registered = false → ch.closed = true) (hpast : l.closing = true → ch.closed = true) :
    out.2.answers out.1.closed moved ∧ out.1.sync = ch.sync ∧ out.1.mode = ch.mode := by
  cases l <;> simp only [code, reduceCtorEq, Mutex.Op.act.injEq] at hcode <;> subst hcode
  case idle => simp [Pc.answers, Pc.pending] at hl
  case await => simp [Pc.answers, Pc.pending] at hl
  case inside s =>
    cases s <;> try (simp [Pc.answers, Pc.pending] at hl; done)
    case closeClean a =>
      cases e <;> cases h
      exact ⟨hl, rfl, rfl⟩
  case run j =>
    cases j <;> try (simp [Pc.answers, Pc.pending] at hl; done)
    case closeLoad a =>
      cases e <;> cases h
      refine ⟨?_, rfl, rfl⟩
      split
      · exact hl
      · next hreg => exact answers_after hl.1 hl.2 (hgone (by simpa using hreg))
    case closeOnce a =>
      cases e <;> try cases h
      cases ho : ch.closeOnce <;> simp only [job, ho, reduceCtorEq, Option.some.injEq] at h
      · exact h ▸ ⟨hl, rfl, rfl⟩
      · exact h ▸ ⟨hl, rfl, rfl⟩
    case closeEnd a =>
      cases e <;> cases h
      exact ⟨hl, rfl, rfl⟩
    case closeDelete a =>
      cases e <;> cases h
      exact ⟨answers_after hl.1 hl.2 (hpast rfl), rfl, rfl⟩

/-! ## The books -/

theorem Account.observe_of_eq {a : Account} {pc : Pc}
    (hp : ch'.pushing = ch.pushing) (hr : ch'.connReadyClosed = ch.connReadyClosed) :
    a.observe ch pc ch' = a := by
  simp [Account.observe, hp, hr]

theorem Account.observe_of_sync {a : Account} {pc : Pc} (h : ch'.sync = ch.sync) : a.observe ch pc ch' = a := by
  obtain ⟨hpend, -, hready, -, -⟩ := Sync.mk.inj h
  exact Account.observe_of_eq (by simp [HtChannel.pushing, hpend]) hready

/-- The account of a goroutine against its program point. -/
inductive Fits (closed : Bool) (pc : Pc) (a : Account) : Prop where
  | idle : (∀ q, pc.leads ≠ some (.conn, q)) → a = {} → Fits closed pc a
  | leading (q : ℤ) : pc.leads = some (.conn, q) → a = { led := some q } → Fits closed pc a
  | answering (q : ℤ) : a.led = some q → a.broadcasts = 1 → a.readyCloses = (if q = 1 then 1 else 0) →
      pc.answers closed a.moved → Fits closed pc a

/-- The invariant of the accounts. -/
structure Books (l : Ledger) : Prop where
  coherent : Coherent l.1.shared.sync (Pc.leads ∘ l.1.threads)
  attended : Attended l.1.shared.sync (Pc.leads ∘ l.1.threads)
  tidy : ∀ t, (l.1.threads t).tidy l.1.shared.mode
  shut : Shut l.1
  fits : ∀ t, Fits l.1.shared.closed (l.1.threads t) (l.2 t)

/-- What a step of goroutine `t` owes the books, from the channel `ch` and the program point `l` to `ch'`
and `k`. -/
structure Entry (ch : HtChannel) (l : Pc) (ch' : HtChannel) (k : Pc) : Prop where
  effect : Effect ch.sync l.leads ch'.sync k.leads
  attended : ∀ {leads : ℕ → Lead} {t}, leads t = l.leads → Attended ch.sync leads →
    Attended ch'.sync (update leads t k.leads)
  mode : ch'.mode = ch.mode
  tidy : k.tidy ch.mode
  fits : ∀ a, Fits ch.closed l a → Fits ch'.closed k (a.observe ch l ch')

private theorem fits_of (hidle : (∀ q, l.leads ≠ some (.conn, q)) → Fits ch'.closed k (Account.observe {} ch l ch'))
    (hlead : ∀ q, l.leads = some (.conn, q) →
      Fits ch'.closed k (Account.observe { led := some q } ch l ch'))
    (hanswer : ∀ moved, l.answers ch.closed moved → k.answers ch'.closed moved ∧ ch'.sync = ch.sync)
    (a : Account) (ha : Fits ch.closed l a) : Fits ch'.closed k (a.observe ch l ch') := by
  cases ha with
  | idle hl ha => exact ha ▸ hidle hl
  | leading q hl ha => exact ha ▸ hlead q hl
  | answering q hq hb hr hans =>
    obtain ⟨hk, hsync⟩ := hanswer _ hans
    rw [Account.observe_of_sync hsync]
    exact .answering q hq hb hr hk

variable {r : Req}

/-- The end of a push leader goes into the books. -/
private theorem pushFinish_entry {o : Setup}
    (hact : (ch.pend .conn).active = true) (hc : Completable ch (some (.conn, r.contentSeq)))
    (he : Effect ch.sync (some (.conn, r.contentSeq)) (pushFinish r o ch).1.sync (pushFinish r o ch).2.leads) :
    Entry ch (.inside (.pushFinish r o)) (pushFinish r o ch).1 (pushFinish r o ch).2 := by
  obtain ⟨⟨d, hd, hopen⟩, hready⟩ := hc .conn r.contentSeq rfl
  rw [pushFinish_eq hd hopen (hready rfl)] at he ⊢
  have hleads : (Pc.leave o.answer).leads = none := by cases o <;> rfl
  refine ⟨he, fun {leads t} ht h => ?_, rfl, ?_, fits_of (fun hl => ?_) (fun q hl => ?_) fun moved ha => ?_⟩
  · rw [hleads]
    exact h.complete (ht.trans rfl) rfl
  · cases o <;> trivial
  · exact absurd rfl (hl r.contentSeq)
  · obtain rfl : r.contentSeq = q := by simpa [Pc.leads, Section.leads] using hl
    refine .answering r.contentSeq ?_ ?_ ?_ ?_
    · simp [Account.observe, HtChannel.pushing, hact]
    · simp [Account.observe, HtChannel.pushing, hact]
    · by_cases hone : r.contentSeq = 1
      · simp [Account.observe, hone, hready rfl hone]
      · simp [Account.observe, hone]
    · have hmoved : ch.connSeq + 1 - ch.connSeq = 1 := by omega
      cases o <;> simp [Account.observe, HtChannel.pushing, hact, hmoved, Setup.answer, Pc.status,
        Pc.answers, Pc.pending]
  · simpa [Pc.leads, Section.leads] using leads_of_answers ha

/-- The end of another leader. -/
private theorem finish_entry {ch₀ : HtChannel} {s : Section} {n : ℤ} {next : Pc}
    (hl : s.leads = some (p, q)) (hp : p ≠ .conn) (hc : Completable ch s.leads)
    (hsync : ch₀.sync = { ch.sync with connSeq := ch.connSeq + n }) (hmode : ch₀.mode = ch.mode)
    (hnext : next.leads = none) (htidy : next.tidy ch.mode)
    (he : Effect ch.sync s.leads (broadcastThen p next ch₀).1.sync (broadcastThen p next ch₀).2.leads) :
    Entry ch (.inside s) (broadcastThen p next ch₀).1 (broadcastThen p next ch₀).2 := by
  obtain ⟨⟨d, hd, hopen⟩, -⟩ := hc p q hl
  obtain ⟨hpend, -, hready, hclosed, -⟩ := Sync.mk.inj hsync
  dsimp only [HtChannel.sync] at hpend hready hclosed
  simp only [broadcastThen, broadcast_eq (hpend ▸ hd) (hclosed ▸ hopen)] at he ⊢
  have hleads : (Pc.leave next).leads = none := hnext
  have hnot : ∀ q', (Pc.inside s).leads ≠ some (.conn, q') := by
    intro q' h
    rw [show (Pc.inside s).leads = s.leads from rfl, hl, Option.some.injEq, Prod.mk.injEq] at h
    exact hp h.1
  refine ⟨he, fun {leads t} ht h => ?_, hmode, htidy, fits_of (fun _ => ?_) (fun q' h => ?_)
    fun moved ha => ?_⟩
  · rw [hleads]
    exact h.complete (d := some d) (ht.trans hl) (by simp [HtChannel.sync, hpend])
  · rw [Account.observe_of_eq]
    · exact .idle (by simp [hleads]) rfl
    · simp [HtChannel.pushing, hpend, update_of_ne hp.symm]
    · exact hready
  · exact absurd h (hnot q')
  · have := leads_of_answers ha
    simp [Pc.leads, hl] at this

/-- A goroutine that becomes a leader opens its account. -/
private theorem lead_entry (hidle : (ch.pend r.kind.slot).active = false) (hch' : ch' =
      { ch with
        pend := update ch.pend r.kind.slot ⟨true, some ch.nextDone⟩
        nextDone := ch.nextDone + 1 })
    (he : Effect ch.sync none ch'.sync (Pc.leave r.lead).leads) :
    Entry ch (.inside (.loop r)) ch' (.leave r.lead) := by
  subst hch'
  have hleads : (Pc.leave r.lead).leads = some (r.kind.slot, r.contentSeq) := leads_lead r
  refine ⟨he, fun {leads t} ht h => ?_, rfl, ?_, fits_of (fun hl => ?_) (fun q hl => ?_) fun moved ha => ?_⟩
  · rw [hleads]
    exact h.lead (ht.trans rfl)
  · cases hk : r.kind <;> simp [Req.lead, hk, Pc.tidy, Section.settled]
  · by_cases hconn : r.kind.slot = .conn
    · refine .leading r.contentSeq (hconn ▸ hleads) ?_
      simp [Account.observe, HtChannel.pushing, hconn, hconn ▸ hidle, Pc.round]
    · rw [Account.observe_of_eq]
      · refine .idle (fun q h => hconn ?_) rfl
        rw [hleads, Option.some.injEq, Prod.mk.injEq] at h
        exact h.1
      · simp [HtChannel.pushing, update_of_ne (Ne.symm hconn)]
      · rfl
  · simp [Pc.leads, Section.leads] at hl
  · simp [Pc.answers, Pc.pending] at ha

/-- Every action but the bare returns goes into the books. -/
theorem act_entry {out : HtChannel × Pc}
    {run : HtChannel → Event → Option (HtChannel × Pc)} (hcode : code l = .act run)
    (h : run ch e = some out) (htidy : l.tidy ch.mode)
    (hactive : ∀ q, l.leads = some (.conn, q) → (ch.pend .conn).active = true) (hc : Completable ch l.leads)
    (hgone : ch.registered = false → ch.closed = true) (hpast : l.closing = true → ch.closed = true)
    (hok : ∀ r s, l = .run (.pushSetup r s) → r.contentSeq = 1 → s.isReverse = true →
      s.port ≤ 2 ∧ (s.port = 0 → e ≠ .known false)) : Entry ch l out.1 out.2 := by
  have hanswer : ∀ moved, l.answers ch.closed moved →
      out.2.answers out.1.closed moved ∧ out.1.sync = ch.sync ∧ out.1.mode = ch.mode :=
    fun _ ha => act_answers hcode h ha hgone hpast
  have hset : ∀ s, l = .inside s → s.settled := by
    rintro s rfl
    exact htidy
  have hout := act_outcome hcode hc h
  have heffect := hout.effect hset
  have hmove := hout.move htidy
  obtain ⟨ch', k⟩ := out
  cases hmove with
  | quiet hsync hmode hl hk =>
    refine ⟨heffect, fun {leads t} ht hatt => ?_, hmode, hk, fits_of (fun hi => ?_) (fun q hq => ?_)
      fun moved ha => ⟨(hanswer moved ha).1, hsync⟩⟩
    · rwa [hsync, hl, ← ht, update_eq_self]
    · rw [Account.observe_of_sync hsync]
      exact .idle (hl ▸ hi) rfl
    · rw [Account.observe_of_sync hsync]
      exact .leading q (hl.trans hq) rfl
  | lead r hstep hidle => exact lead_entry hidle rfl heffect
  | push r o => exact pushFinish_entry (hactive _ rfl) hc heffect
  | finish hl hp hn hsync hmode hnext hk => exact finish_entry hl hp hc hsync hmode hnext hk heffect
  | reject r s h1 hrev hbad =>
    obtain ⟨hport, haddr⟩ := hok r s rfl h1 hrev
    rcases hbad with hbad | ⟨hzero, he⟩
    · omega
    · exact absurd he (haddr hzero)

/-! ## Runs -/

private theorem answers_lock (h : code l = .lock k) (hl : l.answers closed moved) : k.answers closed moved := by
  obtain ⟨s, rfl, rfl⟩ | rfl := lock_cases h
  · cases s <;> exact hl
  · simp [Pc.answers, Pc.pending] at hl

theorem lock_tidy {mode : Bool × ℤ} (h : code l = .lock k) (hl : l.tidy mode) : k.tidy mode := by
  obtain ⟨s, rfl, rfl⟩ | rfl := lock_cases h
  · exact hl
  · exact hl.1

/-- `Lock` and `Unlock` leave nothing in the books. -/
private theorem lockstep_entry (hleads : k.leads = l.leads) (htidy : k.tidy ch.mode)
    (hanswer : ∀ moved, l.answers ch.closed moved → k.answers ch.closed moved) : Entry ch l ch k := by
  refine ⟨hleads ▸ .keep, fun {leads t} ht h => ?_, rfl, htidy, fits_of (fun hi => ?_) (fun q hq => ?_)
    fun moved ha => ⟨hanswer moved ha, rfl⟩⟩
  · rwa [hleads, ← ht, update_eq_self]
  · rw [Account.observe_of_sync rfl]
    exact .idle (hleads ▸ hi) rfl
  · rw [Account.observe_of_sync rfl]
    exact .leading q (hleads.trans hq) rfl

variable {m : Ledger}

/-- What the books say about the next step of a goroutine. -/
theorem Books.entry {l : Ledger} (h : Books l) (hok : Accepts l lab) (hs : HTunnel.step l.1 lab = some m.1) :
    Entry l.1.shared (l.1.threads lab.1) m.1.shared (m.1.threads lab.1) ∧
      ∀ t, t ≠ lab.1 → m.1.threads t = l.1.threads t := by
  have htidy := h.tidy lab.1
  rcases Mutex.step_cases hs with ⟨k, hk, -, hm⟩ | ⟨k, hk, -, hm⟩ | ⟨run, ch', k, hk, hr, hm⟩ <;>
    simp only [hm, update_self] <;>
    refine ⟨?_, fun t ht => update_of_ne ht ..⟩
  · exact lockstep_entry (lock_leads hk) (lock_tidy hk htidy) fun _ => answers_lock hk
  · rw [unlock_eq hk] at htidy ⊢
    exact lockstep_entry rfl htidy fun _ => id
  · refine act_entry hk hr htidy (fun q hq => h.coherent.leader_active (t := lab.1) hq)
      (h.coherent.completable lab.1) h.shut.gone (h.shut.closing lab.1) fun r s hl h1 hrev => ?_
    -- the setup decides on a copy of the channel's fields
    rw [hl] at htidy
    obtain ⟨hrev', hport⟩ := Prod.mk.inj htidy
    simp only [Accepts, hl] at hok
    rw [hport]
    exact hok h1 (hrev'.symm.trans hrev)

theorem Books.step {l : Ledger} (h : Books l) (hok : Accepts l lab) (hs : Ledger.step l lab = some m) : Books m := by
  obtain ⟨hs, hrec⟩ := Lts.recorded_eq_some.mp hs
  obtain ⟨hentry, hother⟩ := h.entry hok hs
  obtain ⟨hshut, hclosed⟩ := h.shut.step (h.coherent.completable lab.1) hs
  have hthreads : m.1.threads = update l.1.threads lab.1 (m.1.threads lab.1) := by
    funext t
    by_cases ht : t = lab.1
    · simp [ht]
    · simp [update_of_ne ht, hother t ht]
  have hleads : Pc.leads ∘ m.1.threads =
      update (Pc.leads ∘ l.1.threads) lab.1 (m.1.threads lab.1).leads := by
    rw [hthreads, comp_update, update_self]
  refine ⟨?_, ?_, fun t => ?_, hshut, fun t => ?_⟩
  · exact hleads ▸ h.coherent.effect (t := lab.1) hentry.effect
  · exact hleads ▸ hentry.attended rfl h.attended
  · rw [hentry.mode]
    by_cases ht : t = lab.1
    · exact ht ▸ hentry.tidy
    · exact hother t ht ▸ h.tidy t
  · by_cases ht : t = lab.1
    · rw [ht, ← hrec]
      simpa using hentry.fits _ (h.fits lab.1)
    · rw [hother t ht, ← hrec]
      simp only [update_of_ne ht]
      cases h.fits t with
      | idle hl ha => exact .idle hl ha
      | leading q hl ha => exact .leading q hl ha
      | answering q hq hb hr hans => exact .answering q hq hb hr (hans.closed_mono hclosed)

theorem Books.init (port : ℤ) (isReverse isUDP encrypted : Bool) :
    Books (Ledger.init (newChannel port isReverse isUDP encrypted)) where
  coherent := (Inv.init port isReverse isUDP encrypted).coherent
  attended := by
    intro p hp
    simp [Ledger.init, HTunnel.init, newChannel, HtChannel.sync] at hp
  tidy _ := trivial
  shut := by constructor <;> simp [Ledger.init, HTunnel.init, newChannel, Pc.closing]
  fits _ := .idle (by simp [Ledger.init, HTunnel.init, Pc.leads]) rfl

theorem Books.accounted {l : Ledger} (h : Books l) : Accounted l where
  returned := by
    intro t q resp hled hpc
    cases h.fits t with
    | idle _ ha => simp [ha] at hled
    | leading q' hl _ => simp [hpc, Pc.leads] at hl
    | answering q' hq hb hr hans =>
      obtain rfl : q' = q := by simpa [hq] using hled
      rw [hpc] at hans
      exact ⟨hb, hr, hans⟩
  not_crashed t ht := by simpa [ht, Pc.tidy] using h.tidy t
  run := h.attended _

/-- The bare returns. -/
private theorem pushSetup_bare {s : Snapshot} (h1 : r.contentSeq = 1)
    (hrev : s.isReverse = true) (hbad : s.port ≤ 2 → s.port = 0 ∧ e = .known false) :
    pushSetup r s e = some (.returned { status := none }) := by
  by_cases hport : 2 < s.port
  · simp [pushSetup, h1, hrev, hport]
  · obtain ⟨hzero, rfl⟩ := hbad (by omega)
    simp [pushSetup, h1, hrev, hzero]

/-- A rejected setup leaves its operation in flight and its client without a status. -/
theorem Books.not_accounted {l : Ledger} (h : Books l) (hok : ¬ Accepts l lab)
    (hs : Ledger.step l lab = some m) : ¬ Accounted m := by
  obtain ⟨hs, hrec⟩ := Lts.recorded_eq_some.mp hs
  have htidy := h.tidy lab.1
  have hfits := h.fits lab.1
  unfold Accepts at hok
  split at hok
  case h_2 => exact absurd trivial hok
  case h_1 r s hl =>
    push Not at hok
    obtain ⟨h1, hrev, hbad⟩ := hok
    rw [hl] at htidy hfits
    obtain ⟨hrev', hport⟩ := Prod.mk.inj htidy
    have hbare : pushSetup r s lab.2 = some (.returned { status := none }) :=
      pushSetup_bare h1 (hrev'.trans hrev) (hport ▸ hbad)
    have hm : m.1 =
        ⟨l.1.owner, l.1.shared, update l.1.threads lab.1 (.returned { status := none })⟩ := by
      simpa [HTunnel.step, Mutex.step, hl, code, job, hbare] using hs.symm
    intro hacc
    cases hfits with
    | idle hnot _ => exact hnot r.contentSeq rfl
    | answering q _ _ _ hans => simp [Pc.answers, Pc.pending] at hans
    | leading q _ ha =>
      have haccount : m.2 lab.1 = { led := some q } := by
        rw [← hrec, update_self, Account.observe_of_sync (by rw [hm]), ha]
      have hreturned : m.1.threads lab.1 = .returned { status := none } := by simp [hm]
      have hsettled := hacc.returned (q := q) (by rw [haccount]) hreturned
      simpa [haccount] using hsettled.broadcast_once

/-- On a channel of any kind, in every run: its pushes are accounted for in every state it goes through
exactly if no setup turns its first push down. -/
theorem accounted_iff_accepts (port : ℤ) (isReverse isUDP encrypted : Bool) (labels : List (ℕ × Event)) (l : Ledger)
    (hrun : Lts.exec Ledger.step (Ledger.init (newChannel port isReverse isUDP encrypted)) labels = some l) :
    (∀ done, done <+: labels → ∀ m,
      Lts.exec Ledger.step (Ledger.init (newChannel port isReverse isUDP encrypted)) done = some m →
        Accounted m) ↔
      Lts.Always Ledger.step Accepts (Ledger.init (newChannel port isReverse isUDP encrypted)) labels :=
  (Lts.always_iff_exec (fun _ _ _ h hok hs => h.step hok hs) (fun _ h => h.accounted)
    (fun _ _ _ h hok hs => h.not_accounted hok hs) (Books.init ..) hrun).symm

/-- One push of a TCP channel whose target answers. -/
theorem accounted_iff_accepts_tcp :
    ∃ l, Lts.exec Ledger.step (Ledger.init (newChannel 80 false false false))
        ((0, .request ⟨.push, 1⟩) :: List.replicate 17 (0, .next)) = some l ∧
      l.1.threads 0 = .status 200 ∧ l.2 0 = ⟨some 1, 1, 1, 1⟩ ∧ Accounted l := by
  refine ⟨_, rfl, rfl, rfl, ?_⟩
  have hiff := accounted_iff_accepts 80 false false false
    ((0, .request ⟨.push, 1⟩) :: List.replicate 17 (0, .next)) _ rfl
  exact hiff.mpr (by decide) _ (List.prefix_refl _) _ rfl

/-- The first push of a reverse channel with port 3: the leader returns without a status and without
completing its operation, and the retry waits for a `done` channel that nobody closes. -/
theorem reverse_port_strands_push :
    ∃ l, Lts.exec Ledger.step (Ledger.init (newChannel 3 true false false))
        ((0, .request ⟨.push, 1⟩) :: List.replicate 11 (0, .next) ++
          (1, .request ⟨.push, 1⟩) :: List.replicate 7 (1, .next)) = some l ∧
      l.1.threads 0 = .returned { status := none } ∧ l.1.shared.pushing = true ∧
      l.1.threads 1 = .await (some 0) (.enter (.loop ⟨.push, 1⟩)) ∧ ¬ Accounted l := by
  refine ⟨_, rfl, rfl, rfl, rfl, fun h => ?_⟩
  exact absurd (h.returned (t := 0) (q := 1) rfl rfl).broadcast_once (by decide)

end HTunnel
