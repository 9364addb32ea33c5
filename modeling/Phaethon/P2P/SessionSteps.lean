import Phaethon.P2P.Session
import Phaethon.P2P.StripeCustody

/-!
# What steps of a session do to its lanes and connections

Of the stripe transport, `Detaches` says how a lane leaves the list; of the UDP leg, `LegEffect` says how a packet
connection goes from the dial to the leg and from there to be closed, and `Leg.Single` that there is one at a time.
-/

/-! ## Steps of the stripe transport -/

open Function List Option

namespace Stripe

variable {salt : UInt32} {s t : State} {u l : ℕ}

/-- `removeLane` has detached the lane and not yet closed it. -/
def State.Removing (s : State) (l : ℕ) : Prop :=
  (∃ next, next ≠ .detach ∧ s.writer l = .failed next) ∨ ∃ g next, next ≠ .detach ∧ s.removals g = some (l, next)

/-- A call of `Send` or `SendBatch` leaves the lanes alone. -/
theorem callStep_lanes {c : Choice} (h : callStep salt s u c = some t) :
    t.lanes = s.lanes ∧ t.writer = s.writer ∧ t.removals = s.removals := by
  unfold callStep at h
  split at h
  case h_4 f _ _ l _ =>
      split at h
      · obtain ⟨affinity, hpin⟩ := pin_eq s (P2P.flowHash32 salt f.payload) l
        rw [hpin] at h
        exact Option.some.inj h ▸ ⟨rfl, rfl, rfl⟩
      · cases h
  case h_16 batch _ _ _ =>
      obtain ⟨affinity, hrepin⟩ := repinPrimary_eq salt s batch
      rw [hrepin] at h
      exact Option.some.inj h ▸ ⟨rfl, rfl, rfl⟩
  all_goals try split at h
  all_goals try split at h
  all_goals try split at h
  all_goals cases h <;> exact ⟨rfl, rfl, rfl⟩

/-- What a step other than `attachLane` does to the lanes: one that leaves the list is being removed, until its
removal has marked it as done. -/
structure Detaches (s t : State) (mark : Option ℕ) : Prop where
  fresh : ∀ l, s.writer l = .none ↔ t.writer l = .none
  lanes : t.lanes ⊆ s.lanes
  detached : ∀ l ∈ s.lanes, l ∈ t.lanes ∨ t.Removing l
  removing : ∀ l, s.Removing l → t.Removing l ∨ mark = some l

theorem Detaches.of_eq {mark : Option ℕ} (hlanes : t.lanes = s.lanes) (hwriter : t.writer = s.writer)
    (hremovals : t.removals = s.removals) : Detaches s t mark := by
  refine ⟨fun l => by rw [hwriter], hlanes ▸ Subset.refl _, fun l hl => .inl (hlanes ▸ hl), fun l hl => .inl ?_⟩
  rw [State.Removing, hwriter, hremovals]
  exact hl

/-- A writer that is not in `removeLane` goes on. -/
theorem Detaches.of_writer {mark : Option ℕ} {w : Writer} (hlanes : t.lanes = s.lanes)
    (hremovals : t.removals = s.removals) (hwriter : t.writer = update s.writer l w)
    (hold : s.writer l ≠ .none ∧ ∀ next, s.writer l ≠ .failed next) (hnew : w ≠ .none) : Detaches s t mark := by
  refine ⟨fun m => ?_, hlanes ▸ Subset.refl _, fun m hm => .inl (hlanes ▸ hm), fun m hm => .inl ?_⟩
  · rw [hwriter]
    by_cases hm : m = l
    · subst hm
      simp [hold.1, hnew]
    · rw [update_of_ne hm]
  · rcases hm with ⟨next, hnext, hm⟩ | hm
    · refine .inl ⟨next, hnext, ?_⟩
      rw [hwriter, update_of_ne, hm]
      rintro rfl
      exact hold.2 next hm
    · exact .inr (hremovals ▸ hm)

theorem mem_removalStep_lanes {next : Removal} {m : ℕ} (hm : m ∈ s.lanes) (hne : m ≠ l) :
    m ∈ (removalStep s l next).1.lanes := by
  cases next with
  | detach => exact (mem_erase_of_ne hne).mpr hm
  | dropAffinity => exact hm
  | close => exact hm

theorem removalStep_lanes_subset (s : State) (l : ℕ) (next : Removal) : (removalStep s l next).1.lanes ⊆ s.lanes := by
  cases next with
  | detach => exact erase_subset
  | dropAffinity => exact Subset.refl _
  | close => exact Subset.refl _

/-- `removeLane` goes on behind `detach`, or it has marked the lane as done. -/
theorem removalStep_after (s : State) (l : ℕ) (next : Removal) :
    (∃ after, after ≠ .detach ∧ (removalStep s l next).2 = some after) ∨
      next = .close ∧ (removalStep s l next).2 = none ∧ (removalStep s l next).1.lanes = s.lanes := by
  cases next with
  | detach => exact .inl ⟨.dropAffinity, by simp, rfl⟩
  | dropAffinity => exact .inl ⟨.close, by simp, rfl⟩
  | close => exact .inr ⟨rfl, rfl, rfl⟩

/-- A step of `removeLane`, by the lane's writer or by another goroutine. -/
theorem Detaches.of_removal {next : Removal} {mark : Option ℕ} (hlanes : t.lanes = (removalStep s l next).1.lanes)
    (hfresh : ∀ m, s.writer m = .none ↔ t.writer m = .none) (hothers : ∀ m, m ≠ l → s.Removing m → t.Removing m)
    (hafter : ∀ after, after ≠ .detach → (removalStep s l next).2 = some after → t.Removing l)
    (hmark : next = .close → mark = some l) : Detaches s t mark := by
  refine ⟨hfresh, hlanes ▸ removalStep_lanes_subset s l next, fun m hm => ?_, fun m hm => ?_⟩
  · by_cases hne : m = l
    · subst hne
      rcases removalStep_after s m next with ⟨after, hne, hnext⟩ | ⟨-, -, hsame⟩
      · exact .inr (hafter after hne hnext)
      · exact .inl (hlanes ▸ hsame.symm ▸ hm)
    · exact .inl (hlanes ▸ mem_removalStep_lanes hm hne)
  · by_cases hne : m = l
    · subst hne
      rcases removalStep_after s m next with ⟨after, hne, hnext⟩ | ⟨hclose, -, -⟩
      · exact .inl (hafter after hne hnext)
      · exact .inr (hmark hclose)
    · exact .inl (hothers m hne hm)

/-- A step of `removeLane` by the lane's writer. -/
theorem Detaches.of_failed {next : Removal} (hold : s.writer l = .failed next)
    (hlanes : t.lanes = (removalStep s l next).1.lanes) (hremovals : t.removals = s.removals)
    (hwriter : t.writer = update s.writer l
      (match (removalStep s l next).2 with | some next => .failed next | .none => .stopped)) :
    Detaches s t (Session.marked s (.writer l .next)) := by
  refine .of_removal hlanes (fun m => ?_) (fun m hne hm => ?_) (fun after hne hnext => .inl ⟨after, hne, ?_⟩)
    fun hclose => ?_
  · rw [hwriter]
    by_cases hm : m = l
    · subst hm
      rw [update_self, hold]
      split <;> simp
    · rw [update_of_ne hm]
  · rcases hm with ⟨next, hnext, hm⟩ | hm
    · exact .inl ⟨next, hnext, by rw [hwriter, update_of_ne hne, hm]⟩
    · exact .inr (hremovals ▸ hm)
  · rw [hwriter, update_self, hnext]
  · rw [Session.marked, hold, hclose, if_pos rfl]

/-- The goroutine `g` calls `removeLane`, or goes on in it. -/
theorem Removing.of_update {g m : ℕ} {r : Option (ℕ × Removal)} (hm : s.Removing m) (hwriter : t.writer = s.writer)
    (hremovals : t.removals = update s.removals g r) (hg : ∀ next, s.removals g ≠ some (m, next)) :
    t.Removing m := by
  rcases hm with hm | ⟨g', next, hnext, hm⟩
  · exact .inl (hwriter ▸ hm)
  · refine .inr ⟨g', next, hnext, ?_⟩
    rw [hremovals, update_of_ne, hm]
    rintro rfl
    exact hg next hm

theorem writerStep_detaches {c : Choice} (h : writerStep s l c = some t) :
    Detaches s t (Session.marked s (.writer l c)) := by
  unfold writerStep at h
  dsimp only at h
  split at h
  case h_6 next hwriter =>
    obtain ⟨lanes, affinity, done, heq⟩ := removalStep_eq s l next
    have hlanes := congrArg State.lanes heq
    rw [heq] at h
    cases h
    exact .of_failed hwriter hlanes.symm rfl rfl
  case h_7 => cases h
  all_goals
    rename_i hwriter
    try split at h
    all_goals cases h
    all_goals exact .of_writer rfl rfl rfl (by simp [hwriter]) (by simp)

theorem step_detaches {lb : Label} (hattach : ∀ l, lb ≠ .attach l) (h : step salt s lb = some t) :
    Detaches s t (Session.marked s lb) := by
  cases lb with
  | send u frames | probe l =>
    obtain ⟨-, h⟩ := ite_none_right_eq_some.mp h
    cases h
    exact .of_eq rfl rfl rfl
  | call u c =>
    obtain ⟨hlanes, hwriter, hremovals⟩ := callStep_lanes h
    exact .of_eq hlanes hwriter hremovals
  | attach l => exact absurd rfl (hattach l)
  | start l =>
    obtain ⟨hstarting, h⟩ := ite_none_right_eq_some.mp h
    cases h
    exact .of_writer rfl rfl rfl (by simp [hstarting]) (by simp)
  | writer l c => exact writerStep_detaches h
  | remove g l =>
    obtain ⟨hidle, h⟩ := ite_none_right_eq_some.mp h
    cases h
    refine ⟨fun _ => .rfl, Subset.refl _, fun _ => .inl, fun m hm => .inl ?_⟩
    exact Removing.of_update hm rfl rfl (by simp [hidle.1])
  | removal g =>
    simp only [step] at h
    split at h
    case h_1 l next hg =>
      obtain ⟨lanes, affinity, done, heq⟩ := removalStep_eq s l next
      have hlanes := congrArg State.lanes heq
      rw [heq] at h
      cases h
      refine .of_removal hlanes.symm (fun _ => .rfl) (fun m hne hm => ?_) (fun after hne hnext => ?_) fun hclose => ?_
      · refine Removing.of_update hm rfl rfl fun next' hm => ?_
        rw [hg] at hm
        exact hne (Prod.mk.inj (Option.some.inj hm)).1.symm
      · exact .inr ⟨g, after, hne, by simp [hnext]⟩
      · simp only [Session.marked, hg, hclose]
    case h_2 => cases h
  | close =>
    cases h
    exact .of_eq rfl rfl rfl

end Stripe

namespace Session

open UdpLeg (UdpLegFSM Action)

variable {α : Type*} {cfg : Config}

/-! ## Steps of the leg -/

/-- The goroutine has no connection in its hands and is not in a dial. -/
def Task.plain : Task → Bool
  | .dial | .dialled _ | .close .. => false
  | _ => true

/-- The goroutine is between `spawnDial` and the registration of the result. -/
def Task.dialing : Task → Bool
  | .dial | .dialled _ => true
  | _ => false

variable {p : Task} {c : Answer} {dialFn : Bool} {w : Who}

section Leg

variable {free : Prop} {s t : Leg α}

/-- What a step of the leg does to its connections. A connection is registered if this is `free`. -/
inductive LegEffect (free : Prop) (s : Leg α) : Leg α → Prop where
  | machine (fsm : UdpLegFSM α) : LegEffect free s { s with fsm }
  | quiet {w : Who} {p : Task} (hold : (s.tasks w).plain = true) (hnew : p.plain = true) (fsm : UdpLegFSM α)
      (ep : Option ℤ) : LegEffect free s { s with fsm, ep, tasks := update s.tasks w p }
  | spawn {w : Who} {p : Task} {k : ℕ} (hold : (s.tasks w).plain = true) (hnew : p.plain = true)
      (hdialing : s.dialing = false) (hpc : s.pc = none) (hidle : s.tasks (.dial k) = .idle) (lastDialAt : ℕ) :
      LegEffect free s
        { s with
          dialing := true
          lastDialAt
          tasks := update (update s.tasks (.dial k) .dial) w p }
  | failed {w : Who} (hold : s.tasks w = .dial) :
      LegEffect free s { s with tasks := update s.tasks w (.dialled none) }
  | dialled {w : Who} (hold : s.tasks w = .dial) (n : ℕ) :
      LegEffect free s { s with returned := n :: s.returned, tasks := update s.tasks w (.dialled (some n)) }
  | register {w : Who} {res : Option ℕ} (hold : s.tasks w = .dialled res) (hfree : ∀ n, res = some n → free) :
      LegEffect free s
        { s with dialing := false, pc := res <|> s.pc, tasks := update s.tasks w (.report res.isSome) }
  | take {w : Who} {n : ℕ} (hold : (s.tasks w).plain = true) (hpc : s.pc = some n) (todo : List Action)
      (tick : Option ℕ) :
      LegEffect free s { s with pc := none, tasks := update s.tasks w (.close n todo tick) }
  | shut {w : Who} {n : ℕ} {todo : List Action} {tick : Option ℕ} (hold : s.tasks w = .close n todo tick) :
      LegEffect free s { s with shut := n :: s.shut, tasks := update s.tasks w (.acts todo tick) }

/-- `spawnDial` and the step to the goroutine's next point. -/
theorem spawnDial_effect (hold : (s.tasks w).plain = true)
    (hnew : p.plain = true) (h : (spawnDial dialFn s c).map (·.goto w p) = some t) : LegEffect free s t := by
  obtain ⟨s', hs, rfl⟩ := map_eq_some_iff.mp h
  unfold spawnDial at hs
  split at hs
  case isTrue => exact Option.some.inj hs ▸ .quiet hold hnew s.fsm s.ep
  case isFalse hfree =>
    simp only [Bool.or_eq_true, Bool.not_eq_true', not_or, Bool.not_eq_true, isSome_eq_false_iff,
      isNone_iff_eq_none] at hfree
    split at hs
    case h_1 =>
      obtain ⟨hidle, hs⟩ := ite_none_right_eq_some.mp hs
      exact Option.some.inj hs ▸ .spawn hold hnew hfree.1.2 hfree.2 hidle _
    case h_2 => cases hs

theorem actStep_effect {a : Action} {todo : List Action} {tick : Option ℕ}
    (hold : (s.tasks w).plain = true) (h : actStep dialFn s w a todo tick c = some t) : LegEffect free s t := by
  have hquiet {ep : Option ℤ} {p : Task} (hp : p.plain = true) : LegEffect free s ({ s with ep }.goto w p) :=
    .quiet hold hp s.fsm ep
  unfold actStep at h
  split at h
  case h_1 => exact spawnDial_effect hold rfl h
  case h_2 =>
    split at h <;> cases h
    case h_1 n hpc => exact .take hold hpc todo tick
    case h_2 => exact hquiet rfl
  case h_3 =>
    split at h
    · cases h
      exact hquiet rfl
    · split at h <;> cases h <;> exact hquiet rfl
  all_goals
    cases h
    exact hquiet rfl

theorem legStep_effect
    (hfree : ∀ n, s.tasks w = .dialled (some n) → free) (h : legStep dialFn s w c = some t) : LegEffect free s t := by
  have hquiet {old p : Task} {fsm : UdpLegFSM α} (hw : s.tasks w = old) (hold : old.plain = true := by rfl)
      (hp : p.plain = true := by rfl) : LegEffect free s ({ s with fsm }.goto w p) :=
    .quiet (hw ▸ hold) hp fsm s.ep
  unfold legStep at h
  split at h
  case h_3 hw => exact actStep_effect (by rw [hw]; rfl) h
  case h_4 hw =>
    cases h
    exact .shut hw
  case h_6 hw =>
    cases h
    exact hquiet hw rfl (by split <;> rfl)
  case h_7 hw =>
    cases h
    refine hquiet hw rfl ?_
    split
    · rfl
    · split <;> rfl
  case h_8 hw => exact spawnDial_effect (by rw [hw]; rfl) rfl h
  case h_9 hw =>
    split at h
    case h_1 =>
      cases h
      exact .failed hw
    case h_2 n =>
      split at h <;> cases h
      exact .dialled hw n
    case h_3 => cases h
  case h_10 hw =>
    cases h
    exact .register hw fun n hn => hfree n (hn ▸ hw)
  all_goals
    cases h
    try exact hquiet ‹_›

theorem legLabel_effect {lb : Label α} (hfree : ∀ w c, lb = .leg w c → ∀ n, s.tasks w = .dialled (some n) → free)
    (h : legLabel cfg s lb = some t) : LegEffect free s t := by
  unfold legLabel at h
  split at h
  case h_1 | h_2 =>
    obtain ⟨hidle, h⟩ := ite_none_right_eq_some.mp h
    exact Option.some.inj h ▸ .quiet (by rw [hidle]; rfl) rfl _ s.ep
  case h_3 =>
    obtain ⟨hidle, h⟩ := ite_none_right_eq_some.mp h
    exact Option.some.inj h ▸ .quiet (by rw [hidle.2]; rfl) rfl s.fsm s.ep
  case h_4 | h_5 =>
    cases h
    exact .machine _
  case h_6 w c => exact legStep_effect (hfree w c rfl) h
  case h_7 => cases h

/-- There is one dial at a time, and none while the leg has a connection. -/
structure Leg.Single (s : Leg α) : Prop where
  dialing : ∀ {w}, (s.tasks w).dialing = true → s.dialing = true
  dial : ∀ {w}, (s.tasks w).dialing = true → ∃ k, w = .dial k
  unique : ∀ {w w'}, (s.tasks w).dialing = true → (s.tasks w').dialing = true → w = w'
  pc : s.dialing = true → s.pc = none

theorem Task.dialing_of_plain (h : p.plain = true) : p.dialing = false := by
  cases p <;> first | rfl | simp [plain] at h

/-- A goroutine goes on that does not begin a dial. -/
theorem Leg.Single.update (h : s.Single) (htasks : t.tasks = update s.tasks w p)
    (hp : p.dialing = true → (s.tasks w).dialing = true) (hdialing : t.dialing = s.dialing)
    (hpc : t.pc = s.pc ∨ t.pc = none) : t.Single := by
  have hback {w' : Who} (hw' : (t.tasks w').dialing = true) : (s.tasks w').dialing = true := by
    rw [htasks] at hw'
    by_cases heq : w' = w
    · subst heq
      rw [update_self] at hw'
      exact hp hw'
    · rwa [update_of_ne heq] at hw'
  refine ⟨fun hw => hdialing.trans (h.dialing (hback hw)), fun hw => h.dial (hback hw),
    fun hw hw' => h.unique (hback hw) (hback hw'), fun hd => ?_⟩
  rcases hpc with hpc | hpc
  · exact hpc.trans (h.pc (hdialing ▸ hd))
  · exact hpc

theorem LegEffect.single (heffect : LegEffect free s t) (h : s.Single) : t.Single := by
  cases heffect with
  | machine => exact ⟨h.dialing, h.dial, h.unique, h.pc⟩
  | quiet hold hnew => exact h.update rfl (by simp [Task.dialing_of_plain hnew]) rfl (.inl rfl)
  | @spawn w p k hold hnew hdialing hpc hidle =>
    -- the new goroutine is the only one in a dial
    have honly {w' : Who}
        (hw' : (update (update s.tasks (.dial k) .dial) w p w').dialing = true) :
        w' = .dial k := by
      by_contra hne
      by_cases heq : w' = w
      · subst heq
        rw [update_self, Task.dialing_of_plain hnew] at hw'
        cases hw'
      · rw [update_of_ne heq, update_of_ne hne] at hw'
        exact absurd (h.dialing hw') (by simp [hdialing])
    exact ⟨fun _ => rfl, fun hw => ⟨k, honly hw⟩, fun hw hw' => (honly hw).trans (honly hw').symm, fun _ => hpc⟩
  | failed hold => exact h.update rfl (by simp [hold, Task.dialing]) rfl (.inl rfl)
  | dialled hold => exact h.update rfl (by simp [hold, Task.dialing]) rfl (.inl rfl)
  | @register w res hold =>
    -- no other goroutine is in a dial
    have hnone {w' : Who} : (update s.tasks w (.report res.isSome) w').dialing = false := by
      by_cases heq : w' = w
      · rw [heq, update_self]
        rfl
      · rw [update_of_ne heq, Bool.eq_false_iff]
        exact fun hw' => heq (h.unique hw' (by rw [hold]; rfl))
    exact ⟨fun hw => absurd hw (by simp [hnone]), fun hw => absurd hw (by simp [hnone]),
      fun hw => absurd hw (by simp [hnone]), fun hd => absurd hd (by simp)⟩
  | take hold => exact h.update rfl (by simp [Task.dialing]) rfl (.inr rfl)
  | shut hold => exact h.update rfl (by simp [Task.dialing]) rfl (.inl rfl)

end Leg

end Session
