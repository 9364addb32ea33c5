import Phaethon.Common.Handover
import Phaethon.P2P.SessionSteps

/-!
# What `Close` leaves open

Packet connections and lane transports are handed over to the session as `Handover` has it, and `Close` sweeps them.
Nothing keeps a dial or `attachLane` from registering its result after the sweep; such a connection stays open.
`Orderly` excludes this, and a `Close` that returns while another goroutine is about to close what it has taken.
-/

namespace Session

open Function List Option Closer State Session.Task

open UdpLeg (Action)
open Handover (View Kept Move)

variable {α : Type*} {cfg : Config}

/-! ## The connections and the lanes of a session -/

/-- `Close` has taken the leg's connection. -/
def Closer.channelSwept : Closer → Bool
  | .closing _ | .unregister | .returning | .returned => true
  | _ => false

/-- `Close` has taken its snapshot of the lanes. -/
def Closer.lanesSwept : Closer → Bool
  | .uncalled | .base | .snapshot => false
  | _ => true

/-- The lanes that `Close` has still to close. -/
def Closer.todo : Closer → List ℕ
  | .lanes todo => todo
  | .shut l todo => l :: todo
  | _ => []

/-- `closeChannel` has taken the connection. -/
def Task.Closing (n : ℕ) (p : Task) : Prop := ∃ todo tick, p = .close n todo tick

variable (s : State α)

/-- The packet connections. -/
def State.conns : View ℕ where
  given := {n | n ∈ s.leg.returned}
  held := {n | ∃ w, s.leg.tasks w = .dialled (some n)}
  registered := {n | s.leg.pc = some n}
  taken := {n | (∃ w, (s.leg.tasks w).Closing n) ∨ s.closer = .closing n}
  shut := {n | n ∈ s.leg.shut}
  swept := s.closer.channelSwept = true
  finished := s.closer = .returned

/-- The transports of the lanes. -/
def State.transports : View ℕ where
  given := {l | l ∈ s.handed}
  held := {l | l ∈ s.handed ∧ s.stripe.writer l = .none}
  registered := {l | l ∈ s.stripe.lanes}
  taken := {l | s.stripe.Removing l ∨ l ∈ s.pending ∨ l ∈ s.closer.todo}
  shut := {l | l ∈ s.shut}
  swept := s.closer.lanesSwept = true
  finished := s.closer = .returned

/-- Nothing is registered after `Close` has looked, and when `Close` returns, the other goroutines have closed what
they have taken. -/
def Orderly : Label α → Prop
  | .leg w _ => ∀ n, s.leg.tasks w = .dialled (some n) → s.closer.channelSwept = false
  | .stripe (.attach _) => s.closer.lanesSwept = false
  | .close =>
      s.closer = .returning →
        (∀ w n, (s.leg.tasks w).Closing n → n ∈ s.leg.shut) ∧
          ∀ l, s.stripe.Removing l ∨ l ∈ s.pending → l ∈ s.shut
  | _ => True

variable {closed primaryClosed : Bool} {c closer : Closer} {l : ℕ} {done : ℕ → Bool}

section Steps

variable {s t : State α}

/-- A goroutine of the leg goes on and registers nothing; the others keep what they have. -/
theorem conns_goto {leg : Leg α} {w : Who} {p : Task} (hself : leg.tasks w = p)
    (hkeep : ∀ w' ≠ w, (s.leg.tasks w').plain = false → leg.tasks w' = s.leg.tasks w')
    (hdialled : ∀ n, s.leg.tasks w ≠ .dialled (some n)) (hclosing : ∀ n, (s.leg.tasks w).Closing n → n ∈ leg.shut)
    (hgiven : ∀ n ∈ leg.returned, n ∈ s.leg.returned ∨ p = .dialled (some n) := by exact fun _ => .inl)
    (hpc : ∀ n, s.leg.pc = some n → leg.pc = some n ∨ p.Closing n := by exact fun _ => .inl)
    (hpc' : ∀ n, leg.pc = some n → s.leg.pc = some n := by exact fun _ => id)
    (hshut : s.leg.shut ⊆ leg.shut := by exact Subset.refl _) : Move s.conns { s with leg }.conns := by
  have hheld (n : ℕ) : (∃ w', s.leg.tasks w' = .dialled (some n)) → ∃ w', leg.tasks w' = .dialled (some n) := by
    rintro ⟨w', hw'⟩
    have hne : w' ≠ w := by
      rintro rfl
      exact hdialled n hw'
    exact ⟨w', (hkeep w' hne (by rw [hw']; rfl)).trans hw'⟩
  refine ⟨fun n hn => (hgiven n hn).imp id fun hp => ⟨w, hself.trans hp⟩, fun n hn => .inl (hheld n hn),
    fun n hn => ?_, ?_, hshut, fun h => ⟨h, hheld, hpc'⟩, .inl, .inl⟩
  · rcases hpc n hn with hpc | hp
    · exact .inl (.inl hpc)
    · exact .inl (.inr (.inl ⟨w, hself ▸ hp⟩))
  · rintro n (⟨w', hw'⟩ | hn)
    · by_cases hne : w' = w
      · exact .inr (hclosing n (hne ▸ hw'))
      · have hplain : (s.leg.tasks w').plain = false := by
          obtain ⟨_, _, hw'⟩ := hw'
          rw [hw']
          rfl
        exact .inl (.inl ⟨w', by rwa [hkeep w' hne hplain]⟩)
    · exact .inl (.inr hn)

theorem Task.plain_eq_false {p : Task} {n : ℕ} (h : p = .dialled (some n) ∨ p.Closing n) : p.plain = false := by
  rcases h with rfl | ⟨_, _, rfl⟩ <;> rfl

theorem LegEffect.conns {leg : Leg α} (heffect : LegEffect (s.closer.channelSwept = false) s.leg leg)
    (hsingle : s.leg.Single) : Move s.conns { s with leg }.conns := by
  have hkeep {w : Who} {p : Task} (w' : Who) (hne : w' ≠ w) (_ : (s.leg.tasks w').plain = false) :
      update s.leg.tasks w p w' = s.leg.tasks w' := update_of_ne hne ..
  have hdialled {w : Who} (hold : (s.leg.tasks w).plain = true) (n : ℕ) : s.leg.tasks w ≠ .dialled (some n) :=
    fun hw => absurd hold (by simp [plain_eq_false (.inl hw)])
  have hclosing {w : Who} {l : List ℕ} (hold : (s.leg.tasks w).plain = true) (n : ℕ)
      (hw : (s.leg.tasks w).Closing n) : n ∈ l := absurd hold (by simp [plain_eq_false (.inr hw)])
  cases heffect with
  | machine => exact .refl s.conns
  | quiet hold => exact conns_goto (update_self ..) hkeep (hdialled hold) (hclosing hold)
  | spawn hold _ _ _ hidle =>
    refine conns_goto (update_self ..) (fun w' hne hplain => ?_) (hdialled hold) (hclosing hold)
    refine (update_of_ne hne ..).trans (update_of_ne ?_ ..)
    rintro rfl
    simp [hidle, plain] at hplain
  | failed hold =>
    exact conns_goto (update_self ..) hkeep (by simp [hold]) (by simp [hold, Closing])
  | dialled hold n =>
    refine conns_goto (update_self ..) hkeep (by simp [hold]) (by simp [hold, Closing]) fun m hm => ?_
    rcases mem_cons.mp hm with rfl | hm
    · exact .inr rfl
    · exact .inl hm
  | @register w res hold hfree =>
    cases res with
    | none => exact conns_goto (update_self ..) hkeep (by simp [hold]) (by simp [hold, Closing])
    | some n =>
      have hopen := hfree n rfl
      have hpc : s.leg.pc = none := hsingle.pc (hsingle.dialing (w := w) (by rw [hold]; rfl))
      have hother {w' : Who} (hne : s.leg.tasks w' ≠ .dialled (some n)) :
          update s.leg.tasks w (.report true) w' = s.leg.tasks w' := by
        apply update_of_ne
        rintro rfl
        exact hne hold
      refine ⟨fun _ => .inl, fun m hm => ?_, fun m hm => ?_, fun m hm => ?_, subset_rfl, fun hswept => ?_,
        .inl, .inl⟩
      · obtain ⟨w', hw'⟩ := hm
        by_cases hmn : m = n
        · exact .inr (hmn ▸ rfl)
        · exact .inl ⟨w', (hother (by simp [hw', hmn])).trans hw'⟩
      · exact absurd (hpc.symm.trans hm) (by simp)
      · refine .inl (hm.imp_left fun hclose => ?_)
        obtain ⟨w', todo, tick, hw'⟩ := hclose
        exact ⟨w', todo, tick, (hother (by simp [hw'])).trans hw'⟩
      · exact absurd (hopen.symm.trans hswept) (by simp)
  | take hold hpc todo tick =>
    refine conns_goto (update_self ..) hkeep (hdialled hold) (hclosing hold) (fun _ => .inl)
      (fun m hm => ?_) (by simp)
    obtain rfl := Option.some.inj (hpc.symm.trans hm)
    exact .inr ⟨todo, tick, rfl⟩
  | shut hold =>
    refine conns_goto (update_self ..) hkeep (by simp [hold]) (fun m hm => ?_) (fun _ => .inl)
      (fun _ => .inl) (fun _ => id) (subset_cons_self _ _)
    obtain ⟨_, _, heq⟩ := hm
    rw [hold] at heq
    exact (close.inj heq).1 ▸ mem_cons_self

/-- `Close` goes on without touching the leg's connection. -/
theorem conns_closer {ep : Option ℤ} (hleg : t.leg = { s.leg with closed, ep })
    (hclosing : ∀ n, s.closer ≠ .closing n) (hlate : s.closer.channelSwept = true → t.closer.channelSwept = true)
    (hsweep : t.closer.channelSwept = true → s.closer.channelSwept = true ∨ s.leg.pc = none)
    (hfinish : t.closer = .returned → ∀ n w, (s.leg.tasks w).Closing n → n ∈ s.leg.shut) :
    Move s.conns t.conns := by
  simp only [conns, hleg]
  refine ⟨fun _ => .inl, fun _ => .inl, fun _ hn => .inl (.inl hn), fun n hn => .inl (.inl ?_), subset_rfl,
    fun h => ⟨hlate h, subset_rfl, subset_rfl⟩, fun h => (hsweep h).imp_right fun hpc n hn => ?_,
    fun h => .inr ⟨?_, ?_⟩⟩
  · exact hn.resolve_right (hclosing n)
  · exact absurd (hpc.symm.trans hn) (by simp)
  · exact congrArg channelSwept h
  · rintro n (⟨w, hw⟩ | hn)
    · exact hfinish h n w hw
    · exact absurd (Eq.trans (Eq.symm h) hn) (by simp)

/-- `Close` has not yet come to the leg's connection. -/
theorem conns_unswept {ep : Option ℤ} (hleg : t.leg = { s.leg with closed, ep })
    (hcloser : s.closer = c) (hs : c.channelSwept = false := by rfl) (ht : t.closer.channelSwept = false := by rfl) :
    Move s.conns t.conns := by
  subst hcloser
  refine conns_closer hleg (fun n hn => ?_) (by simp [hs]) (by simp [ht]) fun hreturned => ?_
  · rw [hn] at hs
    cases hs
  · rw [hreturned] at ht
    cases ht

/-! ### Steps on the lanes -/

/-- A step of the stripe transport other than `attachLane` and `Close`. -/
theorem transports_detaches {lb : Stripe.Label} {stripe : Stripe.State}
    (h : Stripe.Detaches s.stripe stripe (marked s.stripe lb)) :
    Move s.transports
      { s with stripe, pending := (marked s.stripe lb).toList ++ s.pending : State α }.transports := by
  refine ⟨fun _ => .inl, fun l hl => .inl ⟨hl.1, (h.fresh l).mp hl.2⟩, fun l hl => .inl ?_, fun l hl => .inl ?_,
    subset_rfl, fun hs => ⟨hs, fun l hl => ⟨hl.1, (h.fresh l).mp hl.2⟩, h.lanes⟩, .inl, .inl⟩
  · exact (h.detached l hl).imp id .inl
  · rcases hl with hl | hl | hl
    · rcases h.removing l hl with hl | hmark
      · exact .inl hl
      · exact .inr (.inl (mem_append_left _ (by simp [hmark])))
    · exact .inr (.inl (mem_append_right _ hl))
    · exact .inr (.inr hl)

/-- A transport is handed over whose lane does not exist yet. -/
theorem transports_handed {controller : Controller} (hl : s.stripe.writer l = .none) :
    Move s.transports { s with controller, handed := l :: s.handed }.transports := by
  have hheld : s.transports.held ⊆ { s with controller, handed := l :: s.handed }.transports.held :=
    fun m hm => ⟨mem_cons_of_mem l hm.1, hm.2⟩
  refine ⟨fun m hm => ?_, fun m hm => .inl (hheld hm), fun _ hm => .inl (.inl hm), fun _ => .inl, subset_rfl,
    fun hs => ⟨hs, hheld, subset_rfl⟩, .inl, .inl⟩
  rcases mem_cons.mp hm with rfl | hm'
  · exact .inr ⟨hm, hl⟩
  · exact .inl hm'

/-- `attachLane` puts a lane into the list. -/
theorem transports_attach {stripe : Stripe.State} (hopen : s.closer.lanesSwept = false)
    (hstep : Stripe.step cfg.salt s.stripe (.attach l) = some stripe) :
    Move s.transports { s with stripe }.transports := by
  obtain ⟨hnone, hstep⟩ := ite_none_right_eq_some.mp hstep
  cases hstep
  refine ⟨fun _ => .inl, fun m hm => ?_, fun m hm => .inl (.inl (mem_append_left _ hm)), fun m hm => .inl ?_,
    subset_rfl, fun hs => absurd (hopen.symm.trans hs) (by simp), .inl, .inl⟩
  · by_cases hml : m = l
    · exact .inr (mem_append_right _ (by simp [hml]))
    · exact .inl ⟨hm.1, (update_of_ne hml ..).trans hm.2⟩
  · refine hm.imp_left fun hm => hm.imp_left fun hm => ?_
    obtain ⟨next, hnext, hm⟩ := hm
    refine ⟨next, hnext, (update_of_ne ?_ ..).trans hm⟩
    rintro rfl
    simp [hnone] at hm

/-- `Close` goes on without closing a lane. -/
theorem transports_closer {leg : Leg α}
    (htodo : s.closer.todo ⊆ closer.todo) (hlate : s.closer.lanesSwept = true → closer.lanesSwept = true)
    (hsweep : closer.lanesSwept = true → s.closer.lanesSwept = true ∨ s.stripe.lanes ⊆ closer.todo)
    (hfinish : closer = .returned → ∀ l, s.stripe.Removing l ∨ l ∈ s.pending → l ∈ s.shut) :
    Move s.transports
      { s with leg, stripe := { s.stripe with closed, done }, primaryClosed, closer }.transports := by
  refine ⟨fun _ => .inl, fun _ => .inl, fun _ hl => .inl (.inl hl), fun l hl => .inl ?_, subset_rfl,
    fun h => ⟨hlate h, subset_rfl, subset_rfl⟩,
    fun h => (hsweep h).imp_right fun hl m hm => .inl (.inr (.inr (hl hm))),
    fun h => .inr ⟨congrArg lanesSwept h, fun l hl => ?_⟩⟩
  · exact hl.imp_right fun hl => hl.imp_right fun hl => htodo hl
  · rcases hl with hl | hl | hl
    · exact hfinish h l (.inl hl)
    · exact hfinish h l (.inr hl)
    · rw [show closer = .returned from h] at hl
      cases hl

/-- The same before the snapshot. -/
theorem transports_unswept {leg : Leg α}
    (hcloser : s.closer = c) (hs : c.lanesSwept = false := by rfl) (ht : closer.lanesSwept = false := by rfl) :
    Move s.transports
      { s with leg, stripe := { s.stripe with closed, done }, primaryClosed, closer }.transports := by
  subst hcloser
  refine transports_closer ?_ (by simp [hs]) (by simp [ht]) fun hreturned => ?_
  · cases hcloser : s.closer <;> first | exact nil_subset _ | simp [hcloser, lanesSwept] at hs
  · rw [hreturned] at ht
    cases ht

/-- The same after it. -/
theorem transports_swept {leg : Leg α} (hcloser : s.closer = c) (ht : closer.lanesSwept = true := by rfl)
    (hreturned : closer ≠ .returned := by simp) (hs : c.lanesSwept = true := by rfl)
    (htodo : c.todo ⊆ closer.todo := by simp [todo]) :
    Move s.transports
      { s with leg, stripe := { s.stripe with closed, done }, primaryClosed, closer }.transports := by
  subst hcloser
  exact transports_closer htodo (fun _ => ht) (fun _ => .inl hs) fun h => absurd h hreturned

/-! ### Steps of `Close` -/

theorem closeStep_moves (hkept : Kept s.transports) (hleg : cfg.leg = false → s.leg.pc = none)
    (horderly : Orderly s (.close : Label α)) (h : closeStep cfg s = some t) :
    Move s.conns t.conns ∧ Move s.transports t.transports := by
  unfold closeStep at h
  split at h
  case h_1 hcloser =>
    split at h <;> cases h <;> exact ⟨conns_unswept rfl hcloser, transports_unswept hcloser⟩
  case h_2 hcloser =>
    cases h
    exact ⟨conns_unswept rfl hcloser, transports_unswept hcloser⟩
  case h_3 hcloser =>
    cases h
    exact ⟨conns_unswept rfl hcloser, transports_closer (by simp [hcloser, todo]) (fun _ => rfl)
      (fun _ => .inr (Subset.refl _)) (by simp)⟩
  case h_4 hcloser =>
    cases h
    exact ⟨conns_unswept rfl hcloser, transports_swept hcloser⟩
  case h_5 hcloser =>
    cases h
    exact ⟨conns_unswept rfl hcloser, transports_swept hcloser⟩
  case h_6 l todo hcloser =>
    cases h
    refine ⟨conns_unswept rfl hcloser, fun _ => .inl, fun _ => .inl, fun _ hm => .inl (.inl hm), fun m hm => ?_,
      fun m => mem_cons_of_mem l, fun _ => ⟨rfl, subset_rfl, subset_rfl⟩,
      fun _ => .inl (congrArg lanesSwept hcloser), nofun⟩
    rcases hm with hm | hm | hm
    · exact .inl (.inl hm)
    · exact .inl (.inr (.inl hm))
    · rw [hcloser] at hm
      rcases mem_cons.mp hm with rfl | hm
      · exact .inr mem_cons_self
      · exact .inl (.inr (.inr hm))
  case h_7 hcloser =>
    cases h
    -- the snapshot has all lanes of the list
    have hswept := hkept.swept (congrArg lanesSwept hcloser)
    have htaken : s.transports.taken ⊆
        ({ s with stripe := { s.stripe with lanes := [] }, closer := .primary } : State α).transports.taken := by
      intro m hm
      refine hm.imp_right fun hm => hm.imp_right fun hm => ?_
      rw [hcloser] at hm
      exact hm
    refine ⟨conns_unswept rfl hcloser, fun _ => .inl, fun _ => .inl, fun m hm => ?_, fun m hm => .inl (htaken hm),
      subset_rfl, fun _ => ⟨rfl, subset_rfl, nofun⟩, fun _ => .inr nofun, nofun⟩
    exact (hswept hm).imp (fun hm => .inr (htaken hm)) id
  case h_8 hcloser =>
    cases h
    constructor
    · cases hcfg : cfg.leg with
      | true => exact conns_unswept rfl hcloser
      | false =>
        exact conns_closer rfl (by simp [hcloser]) (fun _ => rfl) (fun _ => .inr (hleg hcfg)) (by simp)
    · exact transports_swept hcloser (by split <;> rfl) (by split <;> simp) rfl
        (by split <;> simp [todo])
  case h_9 hcloser =>
    split at h <;> cases h
    case h_1 n hpc =>
      refine ⟨⟨fun _ => .inl, fun _ => .inl, fun m hm => ?_, fun m hm => ?_, subset_rfl,
        fun hswept => absurd hswept (by simp [conns, hcloser, channelSwept]), fun _ => .inr nofun,
        nofun⟩, transports_swept hcloser⟩
      · obtain rfl := Option.some.inj (hpc.symm.trans hm)
        exact .inl (.inr (.inr rfl))
      · exact .inl (.inl (hm.resolve_right (by simp [hcloser])))
    case h_2 hpc =>
      exact ⟨conns_closer rfl (by simp [hcloser]) (fun _ => rfl) (fun _ => .inr hpc) (by simp),
        transports_swept hcloser⟩
  case h_10 n hcloser =>
    cases h
    refine ⟨⟨fun _ => .inl, fun _ => .inl, fun _ hm => .inl (.inl hm), fun m hm => ?_,
      fun m => mem_cons_of_mem n, fun _ => ⟨rfl, subset_rfl, subset_rfl⟩,
      fun _ => .inl (congrArg channelSwept hcloser), nofun⟩, transports_swept hcloser⟩
    rcases hm with hm | hm
    · exact .inl (.inl hm)
    · obtain rfl := closing.inj (hcloser.symm.trans hm)
      exact .inr mem_cons_self
  case h_11 hcloser =>
    cases h
    exact ⟨conns_closer rfl (by simp [hcloser]) (fun _ => rfl) (fun _ => .inl (hcloser ▸ rfl)) (by simp),
      transports_swept hcloser⟩
  case h_12 hcloser =>
    cases h
    exact ⟨conns_closer rfl (by simp [hcloser]) (fun _ => rfl) (fun _ => .inl (hcloser ▸ rfl))
      fun _ n w => (horderly hcloser).1 w n, transports_closer (by simp [hcloser, todo]) (fun _ => rfl)
      (fun _ => .inl (congrArg lanesSwept hcloser)) fun _ => (horderly hcloser).2⟩
  case h_13 => cases h

/-! ## Runs -/

/-- What every orderly step preserves. -/
structure Inv (cfg : Config) (s : State α) : Prop where
  conns : Kept s.conns
  transports : Kept s.transports
  single : s.leg.Single
  known : ∀ l, s.stripe.writer l ≠ .none → l ∈ s.handed
  noLeg : cfg.leg = false → s.leg.pc = none

theorem inv_new (cfg : Config) : Inv cfg (new cfg : State α) where
  conns := by
    apply Kept.empty <;> simp [conns, new, channelSwept]
  transports := by
    apply Kept.empty <;> simp [transports, new, lanesSwept]
  single := ⟨nofun, nofun, nofun, nofun⟩
  known := by simp [new]
  noLeg _ := rfl

theorem closeStep_leg (h : closeStep cfg s = some t) :
    t.leg.tasks = s.leg.tasks ∧ t.leg.dialing = s.leg.dialing ∧ (t.leg.pc = s.leg.pc ∨ t.leg.pc = none) ∧
      t.stripe.writer = s.stripe.writer ∧ t.handed = s.handed := by
  unfold closeStep at h
  split at h
  case h_1 => split at h <;> cases h <;> exact ⟨rfl, rfl, .inl rfl, rfl, rfl⟩
  case h_9 =>
    split at h <;> cases h
    · exact ⟨rfl, rfl, .inr rfl, rfl, rfl⟩
    · exact ⟨rfl, rfl, .inl rfl, rfl, rfl⟩
  case h_13 => cases h
  all_goals
    cases h
    exact ⟨rfl, rfl, .inl rfl, rfl, rfl⟩

theorem closeStep_inv (h : Inv cfg s) (horderly : Orderly s (.close : Label α)) (hstep : closeStep cfg s = some t) :
    Inv cfg t := by
  obtain ⟨htasks, hdialing, hpc, hwriter, hhanded⟩ := closeStep_leg hstep
  obtain ⟨hconns, htransports⟩ := closeStep_moves h.transports h.noLeg horderly hstep
  refine ⟨h.conns.move hconns, h.transports.move htransports, ⟨?_, ?_, ?_, ?_⟩, ?_, ?_⟩
  · rw [htasks, hdialing]
    exact h.single.dialing
  · rw [htasks]
    exact h.single.dial
  · rw [htasks]
    exact h.single.unique
  · rw [hdialing]
    exact fun hd => hpc.elim (·.trans (h.single.pc hd)) id
  · rw [hwriter, hhanded]
    exact h.known
  · exact fun hleg => hpc.elim (·.trans (h.noLeg hleg)) id

theorem stripeStep_inv {lb : Stripe.Label} (h : Inv cfg s) (horderly : Orderly s (.stripe lb : Label α))
    (hstep : stripeStep cfg s lb = some t) : Inv cfg t := by
  unfold stripeStep at hstep
  split at hstep
  case h_1 => cases hstep
  case h_2 l =>
    obtain ⟨hl, hstep⟩ := ite_none_right_eq_some.mp hstep
    obtain ⟨stripe, hattach, rfl⟩ := map_eq_some_iff.mp hstep
    refine ⟨h.conns, h.transports.move (transports_attach horderly hattach), h.single, fun m hm => ?_, h.noLeg⟩
    by_cases hml : m = l
    · exact hml ▸ hl
    · obtain ⟨-, hattach⟩ := ite_none_right_eq_some.mp hattach
      cases hattach
      exact h.known m fun hnone => hm ((update_of_ne hml ..).trans hnone)
  case h_3 hattach =>
    obtain ⟨stripe, hstripe, rfl⟩ := map_eq_some_iff.mp hstep
    have hdetaches := Stripe.step_detaches hattach hstripe
    exact ⟨h.conns, h.transports.move (transports_detaches hdetaches), h.single,
      fun l hl => h.known l fun hnone => hl ((hdetaches.fresh l).mp hnone), h.noLeg⟩

/-- A new transport has no lane yet. -/
theorem Inv.fresh (h : Inv cfg s) (hl : l ∉ s.handed) : s.stripe.writer l = .none := by
  by_contra hne
  exact hl (h.known l hne)

theorem Inv.handed {controller : Controller} (h : Inv cfg s) (hl : l ∉ s.handed) :
    Inv cfg { s with controller, handed := l :: s.handed } :=
  ⟨h.conns, h.transports.move (transports_handed (h.fresh hl)), h.single,
    fun m hm => mem_cons_of_mem l (h.known m hm), h.noLeg⟩

theorem Inv.leg {lb : Label α} (h : Inv cfg s) (horderly : Orderly s lb)
    (hstep : (if cfg.leg then (legLabel cfg s.leg lb).map fun leg => { s with leg } else none) = some t) :
    Inv cfg t := by
  obtain ⟨hcfg, hstep⟩ := ite_none_right_eq_some.mp hstep
  obtain ⟨leg, hleg, rfl⟩ := map_eq_some_iff.mp hstep
  have heffect : LegEffect (s.closer.channelSwept = false) s.leg leg := by
    refine legLabel_effect (fun w c hlb => ?_) hleg
    rw [hlb] at horderly
    exact horderly
  exact ⟨h.conns.move (heffect.conns h.single), h.transports, heffect.single h.single, h.known,
    fun hleg => absurd hcfg (by simp [hleg])⟩

theorem step_inv {lb : Label α} (h : Inv cfg s) (horderly : Orderly s lb) (hstep : step cfg s lb = some t) :
    Inv cfg t := by
  cases lb with
  | gossip | tick | tickStop | dataSent | udpInbound | leg => exact h.leg horderly hstep
  | dialLane | controllerStop =>
    obtain ⟨-, hstep⟩ := ite_none_right_eq_some.mp hstep
    cases hstep
    exact ⟨h.conns, h.transports, h.single, h.known, h.noLeg⟩
  | laneDialled res =>
    obtain ⟨-, hstep⟩ := ite_none_right_eq_some.mp hstep
    split at hstep
    case h_1 l =>
      split at hstep <;> cases hstep
      case isFalse hl => exact h.handed hl
    case h_2 =>
      cases hstep
      exact ⟨h.conns, h.transports, h.single, h.known, h.noLeg⟩
  | laneAttached =>
    simp only [step] at hstep
    split at hstep
    · split at hstep <;> cases hstep
      exact ⟨h.conns, h.transports, h.single, h.known, h.noLeg⟩
    · cases hstep
  | inbound l =>
    simp only [step] at hstep
    split at hstep
    · cases hstep
    case isFalse hl =>
      cases hstep
      exact h.handed hl
  | stripe lb => exact stripeStep_inv h horderly hstep
  | shut l =>
    obtain ⟨-, hstep⟩ := ite_none_right_eq_some.mp hstep
    cases hstep
    refine ⟨h.conns, h.transports.move ?_, h.single, h.known, h.noLeg⟩
    refine ⟨fun _ => .inl, fun _ => .inl, fun _ hm => .inl (.inl hm), fun m hm => ?_,
      fun m => mem_cons_of_mem l, fun hs => ⟨hs, subset_rfl, subset_rfl⟩, .inl, .inl⟩
    by_cases hml : m = l
    · exact .inr (hml ▸ mem_cons_self)
    · exact .inl (hm.imp_right fun hm => hm.imp_left fun hm => (mem_erase_of_ne hml).mpr hm)
  | close => exact closeStep_inv h horderly hstep

theorem step_single {lb : Label α} (h : s.leg.Single) (hstep : step cfg s lb = some t) : t.leg.Single := by
  cases lb with
  | gossip | tick | tickStop | dataSent | udpInbound | leg =>
    obtain ⟨-, hstep⟩ := ite_none_right_eq_some.mp hstep
    obtain ⟨leg, hleg, rfl⟩ := map_eq_some_iff.mp hstep
    have heffect : LegEffect True s.leg leg := legLabel_effect (fun _ _ _ _ _ => trivial) hleg
    exact heffect.single h
  | close =>
    obtain ⟨htasks, hdialing, hpc, -⟩ := closeStep_leg hstep
    exact h.update (w := .ticker) (htasks.trans (update_eq_self _ _).symm) id hdialing hpc
  | dialLane | controllerStop | laneDialled | laneAttached | inbound | stripe | shut =>
    have hleg : t.leg = s.leg := by
      simp only [step, stripeStep] at hstep
      repeat' split at hstep
      all_goals first
        | cases hstep <;> rfl
        | obtain ⟨_, -, rfl⟩ := map_eq_some_iff.mp hstep; rfl
    exact hleg ▸ h

end Steps

/-- In a run whose steps are all orderly, once `Close` has returned and the dials and attachments have finished, every
packet connection and every lane transport is closed. -/
theorem nothing_left_open (cfg : Config) (labels : List (Label α)) (s : State α)
    (hrun : Lts.exec (step cfg) (new cfg) labels = some s) (horderly : Lts.Always (step cfg) Orderly (new cfg) labels)
    (hreturned : s.closer = .returned) (hsettled : s.Settled) : s.AllShut := by
  have hinv : Inv cfg s :=
    Lts.exec_invariant (fun _ _ _ h horderly hstep => step_inv h horderly hstep) (inv_new cfg) horderly hrun
  constructor
  · refine hinv.conns.all_shut hreturned (Set.eq_empty_of_forall_notMem ?_)
    rintro n ⟨w, hw⟩
    obtain ⟨k, rfl⟩ := hinv.single.dial (w := w) (by rw [hw]; rfl)
    exact absurd ((hsettled.dials k).symm.trans hw) (by simp)
  · refine hinv.transports.all_shut hreturned (Set.eq_empty_of_forall_notMem ?_)
    rintro l ⟨hl, hnone⟩
    simpa [attached, hnone] using hsettled.lanes l hl

/-- A session with an active leg and a controller. -/
def dialler : Config := ⟨true, true, true, true, 7⟩

/-- The leg has dialled and a lane is attached before the session is closed. -/
def closedAfterwards : List (Label Unit) :=
  [.tick 5, .leg .ticker .next, .leg .ticker (.goroutine 0 5), .leg (.dial 0) (.conn (some 1)), .leg (.dial 0) .next,
    .leg (.dial 0) .next, .leg (.dial 0) .next, .inbound 2, .stripe (.attach 2), .stripe (.start 2)] ++
    List.replicate 12 .close

theorem nothing_left_open_closedAfterwards :
    ∃ s, Lts.exec (step dialler) (new dialler) closedAfterwards = some s ∧ s.leg.returned = [1] ∧ s.handed = [2] ∧
      s.AllShut := by
  obtain ⟨s, hrun, hreturned, hdials, hcontroller, hwriter, hconns, hlanes⟩ :
      ∃ s, Lts.exec (step dialler) (new dialler) closedAfterwards = some s ∧ s.closer = .returned ∧
        (∀ k, s.leg.tasks (.dial k) = .idle) ∧ s.controller = .idle ∧ s.stripe.writer 2 = .select ∧
        s.leg.returned = [1] ∧ s.handed = [2] :=
    ⟨_, rfl, rfl, fun k => by cases k <;> rfl, rfl, rfl, rfl, rfl⟩
  refine ⟨s, hrun, hconns, hlanes, nothing_left_open dialler closedAfterwards s hrun ?_ hreturned
    ⟨hdials, by simp [hcontroller], fun l hl => ?_⟩⟩
  · refine ⟨trivial, fun _ _ => rfl, fun _ _ => rfl, fun _ _ => rfl, fun _ _ => rfl, fun _ _ => rfl, fun _ _ => rfl,
      trivial, rfl, trivial, nofun, nofun, nofun, nofun, nofun, nofun, nofun, nofun, nofun, nofun, nofun,
      fun _ => ⟨?_, ?_⟩, trivial⟩
    · rintro (_ | u | k) n ⟨todo, tick, h⟩
      · cases h
      · cases h
      · cases k <;> cases h
    · rintro l ((⟨next, -, h⟩ | ⟨g, next, -, h⟩) | h)
      · rcases l with _ | _ | _ | l <;> cases h
      · cases h
      · cases h
  · rw [hlanes, mem_singleton] at hl
    simp [attached, hl, hwriter]

/-- The session is closed while the leg and the controller dial; both dials succeed afterwards. -/
def closedMeanwhile : List (Label Unit) :=
  [.tick 5, .leg .ticker .next, .leg .ticker (.goroutine 0 5), .dialLane] ++ List.replicate 9 .close ++
    [.leg (.dial 0) (.conn (some 1)), .leg (.dial 0) .next, .leg (.dial 0) .next, .leg (.dial 0) .next,
      .laneDialled (some 2), .stripe (.attach 2), .stripe (.start 2), .laneAttached]

/-- The connection and the lane transport stay open. -/
theorem closedMeanwhile_leaves_open :
    ∃ s, Lts.exec (step dialler) (new dialler) closedMeanwhile = some s ∧ s.closer = .returned ∧ s.Settled ∧
      s.leg.returned = [1] ∧ s.leg.shut = [] ∧ s.handed = [2] ∧ s.shut = [] ∧ ¬ s.AllShut := by
  obtain ⟨s, hrun, hreturned, hdials, hcontroller, hwriter, hconns, hshut, hlanes, hshut'⟩ :
      ∃ s, Lts.exec (step dialler) (new dialler) closedMeanwhile = some s ∧ s.closer = .returned ∧
        (∀ k, s.leg.tasks (.dial k) = .idle) ∧ s.controller = .idle ∧ s.stripe.writer 2 = .select ∧
        s.leg.returned = [1] ∧ s.leg.shut = [] ∧ s.handed = [2] ∧ s.shut = [] :=
    ⟨_, rfl, rfl, fun k => by cases k <;> rfl, rfl, rfl, rfl, rfl, rfl, rfl⟩
  refine ⟨s, hrun, hreturned, ⟨hdials, by simp [hcontroller], fun l hl => ?_⟩, hconns, hshut, hlanes, hshut',
    fun h => ?_⟩
  · rw [hlanes, mem_singleton] at hl
    simp [attached, hl, hwriter]
  · have hleak := h.1
    simp [hconns, hshut] at hleak

/-- In every run, orderly or not, at most one goroutine dials the UDP channel, and only while there is no packet
connection. -/
theorem one_dial (cfg : Config) (labels : List (Label α)) (s : State α)
    (hrun : Lts.exec (step cfg) (new cfg) labels = some s) : s.leg.Single :=
  Lts.exec_preserves (fun _ _ _ => step_single) (inv_new cfg).single hrun

theorem one_dial_closedMeanwhile :
    ∃ s, Lts.exec (step dialler) (new dialler) closedMeanwhile = some s ∧ s.leg.Single :=
  ⟨_, rfl, one_dial dialler closedMeanwhile _ rfl⟩

end Session
