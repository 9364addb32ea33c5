import Mathlib.Data.List.Nodup
import Phaethon.Reverse.Projection

/-!
# Where the connections are when all is quiet

Once nothing is left to do, each registered connection on which nothing failed is to be in one place: once in the
idle list, with one caller of `Match`, or closed. That holds if no call gives up after a connection was sent into
its channel, and nothing is put into an idle list that `Refresh` went through already (`conserved_of_careful`). A call
whose time is over does not look at its channel again, so that a connection may stay in it, open and lost.
-/

namespace Reverse

open Option ManagedConn Reverse.System Progress

/-! ## What is to hold -/

variable (s : System)

/-- `Register` has returned. -/
def Registered (c : ℕ) : Prop := (s.conns c).handler.early = false

/-- No goroutine has anything left to do: handlers are done, calls have returned or wait for a connection, no `Refresh`
is under way, read loops that are to end have ended, and so have the watchers of those. -/
structure Quiet (s : System) : Prop where
  refresh : s.refresh = none
  handlers : ∀ c, (s.conns c).handler = .absent ∨ (s.conns c).handler = .done
  calls : ∀ m, (s.calls m).progress = .absent ∨ (∃ result, (s.calls m).progress = .returned result) ∨
    ((s.calls m).progress = .waiting ∧ (s.calls m).channel = none)
  readLoops : ∀ c, (s.conns c).stopped = true ∨ (s.conns c).closed = true → (s.conns c).reading = false
  watchers : ∀ c, (s.conns c).reading = false → (s.conns c).watcher = .absent ∨ (s.conns c).watcher = .done

/-- Once in the idle list of the registry in use, and in no other one. -/
def Idle (c : ℕ) : Prop :=
  (s.registries s.current).bottoms.count c = 1 ∧ ∀ r ≠ s.current, c ∉ (s.registries r).bottoms

/-- In no idle list. -/
def Unlisted (c : ℕ) : Prop := ∀ r, c ∉ (s.registries r).bottoms

/-- Returned by a call. -/
def Owned (c m : ℕ) : Prop := (s.calls m).progress = .returned (some c)

/-- In exactly one place. -/
inductive Conserved (s : System) (c : ℕ) : Prop where
  | idle (h : Idle s c) (hfree : ∀ m, ¬ Owned s c m) (hopen : (s.conns c).closed = false)
  | owned (h : ∃! m, Owned s c m) (hunlisted : Unlisted s c) (hopen : (s.conns c).closed = false)
  | closed (h : (s.conns c).closed = true) (hunlisted : Unlisted s c) (hfree : ∀ m, ¬ Owned s c m)

/-- What a step has to meet: a call that removes its waiter to give up has nothing in its channel, and `Register`
puts nothing into an idle list that `Refresh` went through. -/
def Careful : Label → Prop
  | .handler c _ => (s.conns c).handler = .checked →
      (firstWaiter s.calls (s.registries (s.conns c).registry).waiters).1 = none → s.swept (s.conns c).registry = false
  | .caller m _ => (s.calls m).progress = .leaving → (s.calls m).channel = none
  | _ => True

instance (s : System) : ∀ l, Decidable (Careful s l)
  | .handler _ _ => inferInstanceAs (Decidable (_ → _ → _))
  | .caller _ _ => inferInstanceAs (Decidable (_ → _))
  | .arrive _ | .tick _ | .beat _ _ | .hush _ | .idle _ _ | .readEnd _ | .watcher _ | .call _ | .receive _ | .cancel _
  | .timeout _ | .refresh => .isTrue trivial

/-! ## The life of a connection on which nothing fails -/

/-- Nothing is lost or left behind. -/
def Allowed (x : ManagedConn) (p : Spot) (a : Act) : Prop :=
  a ≠ .lose ∧ a ≠ .list true ∧ (x.handler.early = true → p = .away)

/-- What holds of a connection and its place, as long as nothing failed. -/
structure Sound (x : ManagedConn) (p : Spot) : Prop where
  early : x.handler.early = true → p = .away ∧ x.matched = false ∧ x.watcher = .absent
  away : x.handler.early = false → p = .away → x.closed = true
  ended : x.stopped = true ∨ x.reading = false → x.matched = true ∨ x.closed = true
  watched : x.watcher = .unmatched ∨ x.watcher = .rechecking ∨ x.watcher = .closing → x.closed = true
  refused : x.handler = .unregistering ∨ x.handler = .stopping ∨ x.handler = .closing → x.closed = true
  stale : x.idler = .closing → x.closed = true
  handed : p = .held .stop ∨ p = .held .peng ∨ p = .owned → x.closed = false
  broken : p = .held .close ∨ p = .held .unregister → x.closed = true
  unclaimed : ∀ b, p = .idle b ∨ p = .channel b → x.matched = false
  withdrawn : x.handler = .stopping ∨ x.handler = .closing → ∀ b, p ≠ .idle b
  unwatched : x.handler = .done → x.watcher = .absent → ∀ b, p ≠ .idle b
  unlisted : x.watcher = .rechecking ∨ x.watcher = .closing ∨ x.watcher = .done → ∀ b, p ≠ .idle b
  swept : p = .idle true → x.closed = true
  kept : p ≠ .channel true

section Life

variable {x y : ManagedConn} {p q : Spot} {ok : Bool}

/-- A closed connection stays as it is when it is closed. -/
theorem close_of_closed (hclosed : x.closed = true) : x.close = x := by
  unfold close
  rw [← hclosed]

/-- An operation that fails on an open connection is a failure, and changes nothing on a closed one. -/
theorem failed_or_closed (x : ManagedConn) : x.fail.failed = true ∨ x.closed = true ∧ x.fail = x := by
  cases hclosed : x.closed with
  | false =>
    left
    simp [fail, hclosed]
  | true =>
    right
    refine ⟨rfl, ?_⟩
    have hsame : (x.failed || !x.closed) = x.failed := by simp [hclosed]
    unfold fail
    rw [hsame]

/-- A connection that has a place is registered. -/
theorem Sound.late (h : Sound x p) (hp : p ≠ .away) : x.handler.early = false := by
  by_contra hearly
  exact hp (h.early (by simpa using hearly)).1

/-- The handler of a registered connection goes on. -/
theorem Sound.handled (h : Sound x p) (hlate : x.handler.early = false) {handler : Handler}
    (hnext : handler.early = false)
    (hrefused : handler = .unregistering ∨ handler = .stopping ∨ handler = .closing → x.closed = true := by simp)
    (hwithdrawn : handler = .stopping ∨ handler = .closing → ∀ b, p ≠ .idle b := by simp)
    (hunwatched : handler = .done → x.watcher = .absent → ∀ b, p ≠ .idle b := by simp) :
    Sound { x with handler } p :=
  { h with
    early := fun he => absurd he (by simp [hnext])
    away := fun _ => h.away hlate
    refused := hrefused
    withdrawn := hwithdrawn
    unwatched := hunwatched }

/-- The watcher goes on. -/
theorem Sound.watching (h : Sound x p) (hwatching : x.watcher ≠ .absent) {watcher : Watcher}
    (hnext : watcher ≠ .absent)
    (hunlisted : watcher = .rechecking ∨ watcher = .closing ∨ watcher = .done → ∀ b, p ≠ .idle b)
    (hwatched : watcher = .unmatched ∨ watcher = .rechecking ∨ watcher = .closing → x.closed = true := by simp) :
    Sound { x with watcher } p :=
  { h with
    early := fun he => absurd (h.early he).2.2 hwatching
    watched := hwatched
    unwatched := fun _ hw => absurd hw hnext
    unlisted := hunlisted }

/-- A goroutine of the connection. -/
theorem Sound.goes {a : Act} (h : Sound x p) (hgoes : Goes x a y) : y.failed = true ∨ Sound y p := by
  cases hgoes with
  | greet hhandler =>
    have hon : Sound { x with handler := .adding } p := h.handled (by rw [hhandler]; rfl) rfl
    exact .inr { hon with }
  | add hhandler =>
    have hon : Sound { x with handler := .watching } p := h.handled (by rw [hhandler]; rfl) rfl
    exact .inr { hon with }
  | refuse hhandler =>
    obtain hfailed | ⟨hclosed, hsame⟩ := failed_or_closed x
    · exact .inl hfailed
    · rw [hsame]
      exact .inr (h.handled (by rw [hhandler]; rfl) rfl fun _ => hclosed)
  | start hhandler =>
    exact .inr { h with
      early := nofun
      away := fun _ => h.away (by rw [hhandler]; rfl)
      watched := by simp
      refused := by simp
      stale := nofun
      withdrawn := by simp
      unwatched := nofun
      unlisted := by simp }
  | stop hhandler =>
    have hclosed := h.refused (.inr (.inl hhandler))
    have hon : Sound { x with handler := .closing } p :=
      h.handled (by rw [hhandler]; rfl) rfl (fun _ => hclosed) fun _ => h.withdrawn (.inl hhandler)
    exact .inr { hon with ended := fun _ => .inr hclosed }
  | close hhandler =>
    rw [close_of_closed (h.refused (.inr (.inr hhandler)))]
    exact .inr (h.handled (by rw [hhandler]; rfl) rfl (by simp) (by simp)
      fun _ _ => h.withdrawn (.inr hhandler))
  | tick | beat | hush => exact .inr { h with }
  | mute =>
    obtain hfailed | ⟨hclosed, hsame⟩ := failed_or_closed x
    · exact .inl hfailed
    · rw [hsame, close_of_closed hclosed]
      exact .inr { h with }
  | retire => exact .inr { h with stale := nofun }
  | stale =>
    obtain hfailed | ⟨hclosed, hsame⟩ := failed_or_closed x
    · exact .inl hfailed
    · exact .inr { h with stale := fun _ => hclosed }
  | expire hidler =>
    rw [close_of_closed (h.stale hidler)]
    exact .inr { h with stale := nofun }
  | readStop hstopped => exact .inr { h with ended := fun _ => h.ended (.inl hstopped) }
  | readFail =>
    obtain hfailed | ⟨hclosed, hsame⟩ := failed_or_closed x
    · exact .inl hfailed
    · exact .inr { h with ended := fun _ => .inr hclosed }
  | matched hwatcher hmatched =>
    -- a matched connection is in no idle list any more
    have hidle (b : Bool) (hp : p = .idle b) : False := absurd hmatched (by simp [h.unclaimed b (.inl hp)])
    exact .inr (h.watching (by simp [hwatcher]) (by simp) fun _ => hidle)
  | unmatched hwatcher hreading hmatched =>
    have hclosed := (h.ended (.inr hreading)).resolve_left (by simp [hmatched])
    exact .inr (h.watching (by simp [hwatcher]) (by simp) (by simp) fun _ => hclosed)
  | rechecked hwatcher hnext =>
    exact .inr (h.watching (by simp [hwatcher]) (by rcases hnext with rfl | rfl <;> simp)
      (fun _ => h.unlisted (.inl hwatcher)) fun _ => h.watched (.inr (.inl hwatcher)))
  | shut hwatcher =>
    rw [close_of_closed (h.watched (.inr (.inr hwatcher)))]
    exact .inr (h.watching (by simp [hwatcher]) (by simp) fun _ => h.unlisted (.inr (.inl hwatcher)))

/-- `Register` puts the connection into an idle list or a channel. -/
theorem Sound.placed (h : Sound x p) (hhandler : x.handler = .checked) (hq : q = .idle false ∨ q = .channel false) :
    Sound { x with handler := .greeting } q := by
  obtain ⟨-, hmatched, hwatcher⟩ := h.early (by rw [hhandler]; rfl)
  exact { h with
    early := nofun
    away := fun _ hp => by rcases hq with rfl | rfl <;> cases hp
    refused := by simp
    handed := by rcases hq with rfl | rfl <;> simp
    broken := by rcases hq with rfl | rfl <;> simp
    unclaimed := fun _ _ => hmatched
    withdrawn := by simp
    unwatched := nofun
    unlisted := fun hw => absurd hw (by simp [hwatcher])
    swept := fun hp => by rcases hq with rfl | rfl <;> cases hp
    kept := by rcases hq with rfl | rfl <;> simp }

/-- The connection leaves its place, for one that is neither an idle list nor a channel. -/
theorem Sound.move (h : Sound x p) (hlate : x.handler.early = false)
    (hhanded : q = .held .stop ∨ q = .held .peng ∨ q = .owned → x.closed = false := by simp)
    (hbroken : q = .held .close ∨ q = .held .unregister → x.closed = true := by simp)
    (haway : q = .away → x.closed = true := by simp)
    (hq : ∀ b, q ≠ .idle b ∧ q ≠ .channel b := by simp) : Sound x q where
  early he := absurd he (by simp [hlate])
  away _ := haway
  ended := h.ended
  watched := h.watched
  refused := h.refused
  stale := h.stale
  handed := hhanded
  broken := hbroken
  unclaimed b hb := absurd hb (by simp [hq b])
  withdrawn _ b := (hq b).1
  unwatched _ _ b := (hq b).1
  unlisted _ b := (hq b).1
  swept hp := absurd hp (hq true).1
  kept := (hq true).2

theorem Sound.unlist (h : Sound x p) (hlate : x.handler.early = false) (hclosed : x.closed = true) :
    Sound x p.unlisted := by
  cases p with
  | idle b =>
    change Sound x .away
    exact h.move hlate (by simp) (by simp) fun _ => hclosed
  | away | channel | held | owned => exact h

theorem unlisted_ne (p : Spot) (b : Bool) : p.unlisted ≠ .idle b := by
  cases p <;> simp [Spot.unlisted]

attribute [local simp] Spot.after

/-- A stage of a call. -/
theorem Sound.shake {way : Way} {stage : Stage} {next : Option Stage} (h : Sound x (.held stage))
    (hshakes : Shakes x stage y next) : y.failed = true ∨ Sound y (.after way stage next) := by
  have hlate : x.handler.early = false := h.late (by simp)
  cases hshakes with
  | claim =>
    have hmoved : Sound x (.held .stopPing) := h.move hlate
    exact .inr { hmoved with
      early := fun he => absurd he (by simp [hlate])
      ended := fun _ => .inl rfl
      unclaimed := by simp }
  | stopPing =>
    have hmoved : Sound x (.held .wait) := h.move hlate
    exact .inr { hmoved with }
  | wait => exact .inr (h.move hlate)
  | pong hopen =>
    have hmoved : Sound x (.held .stop) := h.move hlate fun _ => hopen
    exact .inr { hmoved with }
  | stop =>
    have hmoved : Sound x (.held .peng) := h.move hlate fun _ => h.handed (.inl rfl)
    exact .inr { hmoved with
      early := fun he => absurd he (by simp [hlate])
      ended := fun _ => .inl rfl
      unclaimed := by simp }
  | peng => exact .inr (h.move hlate fun _ => h.handed (.inr (.inl rfl)))
  | fail =>
    obtain hfailed | ⟨hclosed, hsame⟩ := failed_or_closed x
    · exact .inl hfailed
    · rw [hsame]
      exact .inr (h.move hlate (by simp) fun _ => hclosed)
  | close =>
    have hclosed := h.broken (.inl rfl)
    rw [close_of_closed hclosed]
    right
    by_cases hway : way = .drained
    · exact h.move hlate (by simp [hway]) (fun _ => hclosed) (fun _ => hclosed) (by simp [hway])
    · exact h.move hlate (by simp [hway]) (fun _ => hclosed) (fun _ => hclosed) (by simp [hway])
  | unregister => exact .inr (h.move hlate (by simp) (by simp) fun _ => h.broken (.inr rfl))

theorem Sound.absent : Sound .absent .away := by
  constructor <;> simp [ManagedConn.absent, Handler.early]

theorem Sound.new (registry : ℕ) : Sound (.new registry) .away := by
  constructor <;> simp [ManagedConn.new, ManagedConn.absent, Handler.early]

/-- Nothing that is allowed makes a connection unsound, unless it fails. -/
theorem sound_step {a : Act} (h : Sound x p) (hallowed : Allowed x p a) (hlives : Lives x p a y q) :
    y.failed = true ∨ Sound y q := by
  obtain ⟨hlose, hlist, hearly⟩ := hallowed
  cases hlives with
  | arrive hhandler =>
    obtain rfl := hearly (by rw [hhandler]; rfl)
    exact .inr (Sound.new _)
  | goes hgoes => exact h.goes hgoes
  | cancelled hhandler =>
    obtain ⟨rfl, -, -⟩ := h.early (by rw [hhandler]; rfl)
    exact .inr { h with
      early := nofun
      away := fun _ _ => rfl
      ended := fun _ => .inr rfl
      watched := fun _ => rfl
      refused := fun _ => rfl
      stale := fun _ => rfl
      handed := by simp
      broken := fun _ => rfl
      withdrawn := by simp
      unwatched := nofun
      swept := fun _ => rfl }
  | check hhandler =>
    have hchecked := h.early (by rw [hhandler]; rfl)
    exact .inr { h with
      early := fun _ => hchecked
      away := nofun
      refused := by simp
      withdrawn := by simp
      unwatched := nofun }
  | @list _ swept hhandler =>
    obtain rfl : swept = false := by simpa using hlist
    exact .inr (h.placed hhandler (.inl rfl))
  | hand hhandler => exact .inr (h.placed hhandler (.inr rfl))
  | withdraw hhandler =>
    have hclosed := h.refused (.inl hhandler)
    have hlate : x.handler.early = false := by rw [hhandler]; rfl
    exact .inr ((h.unlist hlate hclosed).handled hlate rfl (fun _ => hclosed) fun _ => unlisted_ne p)
  | unlist hwatcher =>
    have hclosed := h.watched (.inl hwatcher)
    have hgone := h.unlist (h.late (by simp)) hclosed
    exact .inr (hgone.watching (by simp [hwatcher]) (by simp) (fun _ => unlisted_ne _) fun _ => hclosed)
  | recheck hwatcher hp =>
    exact .inr (h.watching (by simp [hwatcher]) (by simp) (fun _ => hp) fun _ => h.watched (.inl hwatcher))
  | take hp =>
    obtain ⟨b, rfl | rfl⟩ := hp
    · exact .inr (h.move (h.late (by simp)))
    · exact .inr (h.move (h.late (by simp)))
  | lose => exact absurd rfl hlose
  | shake hshakes => exact h.shake hshakes
  | sweep =>
    have hmatched := h.unclaimed false (.inl rfl)
    rw [if_neg (by simp [hmatched])]
    exact .inr { h with
      early := fun he => absurd he (by simp [close, h.late (by simp)])
      away := nofun
      ended := fun _ => .inr rfl
      watched := fun _ => rfl
      refused := fun _ => rfl
      stale := fun _ => rfl
      handed := by simp
      broken := fun _ => rfl
      unclaimed := fun _ _ => hmatched
      withdrawn := fun hw => absurd rfl (h.withdrawn hw false)
      unwatched := fun hd hw => absurd rfl (h.unwatched hd hw false)
      unlisted := fun hw => absurd rfl (h.unlisted hw false)
      swept := fun _ => rfl
      kept := by simp }

/-- A connection that failed has failed for good, until another one arrives in its place. -/
theorem failed_step {a : Act} (hfailed : x.failed = true) (ha : ∀ r, a ≠ .arrive r) (hlives : Lives x p a y q) :
    y.failed = true := by
  cases hlives with
  | arrive => exact absurd rfl (ha _)
  | goes hgoes => cases hgoes <;> simp [fail, close, hfailed]
  | shake hshakes => cases hshakes <;> simp [fail, close, hfailed]
  | sweep => split <;> exact hfailed
  | _ => exact hfailed

theorem life_step {a : Act} (h : x.failed = true ∨ Sound x p) (hallowed : Allowed x p a)
    (hstep : Life.step x p a = some (y, q)) : y.failed = true ∨ Sound y q := by
  have hlives := lives_of_step hstep
  rcases h with hfailed | hsound
  · by_cases harrive : ∃ r, a = .arrive r
    · obtain ⟨r, rfl⟩ := harrive
      obtain ⟨hhandler, hstep⟩ := ite_none_right_eq_some.mp hstep
      cases hstep
      obtain rfl := hallowed.2.2 (by rw [hhandler]; rfl)
      exact .inr (Sound.new r)
    · exact .inl (failed_step hfailed (fun r hr => harrive ⟨r, hr⟩) hlives)
  · exact sound_step hsound hallowed hlives

end Life

/-! ## All is quiet -/

section Quiet

variable {s : System} {place : ℕ → Option Place} {c : ℕ}

/-- A connection that is in an idle list when all is quiet is open. -/
theorem Quiet.open_of_idle (hquiet : Quiet s) {b : Bool} (h : Sound (s.conns c) (.idle b)) :
    (s.conns c).closed = false := by
  by_contra hopen
  have hclosed : (s.conns c).closed = true := by simpa using hopen
  rcases hquiet.watchers c (hquiet.readLoops c (.inr hclosed)) with hwatcher | hwatcher
  · rcases hquiet.handlers c with hhandler | hhandler
    · exact absurd (h.early (by rw [hhandler]; rfl)).1 (by simp)
    · exact h.unwatched hhandler hwatcher b rfl
  · exact h.unlisted (.inr (.inr hwatcher)) b rfl

theorem Books.not_mem (h : Books s place) (hplace : ∀ r, place c ≠ some (.idle r)) : Unlisted s c := fun r hmem =>
  hplace r ((h.placed.mem (.idle r) c).mp hmem)

theorem Books.not_owned (h : Books s place) (hplace : ∀ m, place c ≠ some (.caller m)) (m : ℕ) : ¬ Owned s c m :=
  fun howned => hplace m (h.held_iff.mp (by rw [howned]; rfl))

/-- Where a sound connection is when all is quiet. -/
theorem Books.conserved (h : Books s place) (hquiet : Quiet s) (hsound : Sound (s.conns c) (s.spot (place c)))
    (hregistered : Registered s c) : Conserved s c := by
  cases hplace : place c with
  | none =>
    rw [hplace] at hsound
    exact .closed (hsound.away hregistered rfl) (h.not_mem (by simp [hplace])) (h.not_owned (by simp [hplace]))
  | some p =>
    cases p with
    | idle r =>
      rw [hplace] at hsound
      have hopen := hquiet.open_of_idle hsound
      have hswept : s.swept r = false := by
        by_contra hs
        have hclosed := hsound.swept (congrArg Spot.idle (by simpa using hs))
        exact absurd hclosed (by simp [hopen])
      have hcurrent : r = s.current := by
        have hknown := h.known c
        rw [h.fits.own r c hplace] at hknown
        simp only [swept, hquiet.refresh, decide_eq_false_iff_not] at hswept
        simp only [ne_eq, reduceCtorEq, not_false_eq_true, and_true, not_or] at hswept
        omega
      subst hcurrent
      have hmem : c ∈ s.contents (.idle s.current) := (h.placed.mem _ c).mpr hplace
      refine .idle ⟨List.count_eq_one_of_mem (h.placed.nodup (.idle s.current)) hmem, fun q hq hother => hq ?_⟩
        (h.not_owned (by simp [hplace])) hopen
      exact Place.idle.inj (h.placed.eq_of_mem (k := .idle q) hother hmem)
    | channel m =>
      have hchannel := h.channel_iff.mpr hplace
      rw [hplace] at hsound
      rcases hquiet.calls m with habsent | ⟨result, hreturned⟩ | ⟨-, hempty⟩
      · exact absurd (h.channels m c hchannel) (by simp [habsent])
      · have hnone := h.channels m c hchannel
        simp only [hreturned, reduceCtorEq, returned.injEq, false_or] at hnone
        subst hnone
        refine absurd ?_ hsound.kept
        change Spot.channel (s.calls m).progress.gone = .channel true
        rw [hreturned]
        rfl
      · exact absurd (hempty.symm.trans hchannel) (by simp)
    | caller m =>
      have hheld := h.held_iff.mpr hplace
      rcases hquiet.calls m with habsent | ⟨result, hreturned⟩ | ⟨hwaiting, -⟩
      · exact absurd hheld (by simp [habsent, held])
      · have howned : Owned s c m := by
          rw [hreturned] at hheld
          exact hreturned.trans (congrArg returned hheld)
        have hspot : s.spot (place c) = .owned := by
          rw [hplace]
          change (s.calls m).progress.spot = .owned
          rw [hreturned]
          rfl
        refine .owned ⟨m, howned, fun n hn => ?_⟩ (h.not_mem (by simp [hplace]))
          (hsound.handed (.inr (.inr hspot)))
        have hn' := h.held_iff.mp (by rw [show (s.calls n).progress = _ from hn]; rfl : _ = some c)
        exact Place.caller.inj (Option.some.inj (hn'.symm.trans hplace))
      · exact absurd hheld (by simp [hwaiting, held])

end Quiet

/-! ## Runs -/

/-- A connection is lost by a call that leaves it in its channel. -/
theorem act_eq_lose {s : System} {l : Label} {c : ℕ} (h : s.act c l = some .lose) :
    ∃ m ok, l = .caller m ok ∧ (s.calls m).progress = .leaving ∧ (s.calls m).channel = some c := by
  unfold act at h
  split at h
  case h_10 m ok =>
    split at h
    case h_2 hleaving =>
      obtain ⟨hchannel, -⟩ := ite_none_right_eq_some.mp h
      exact ⟨m, ok, rfl, hleaving, hchannel⟩
    all_goals
      repeat' split at h
      all_goals cases h
  all_goals
    repeat' split at h
    all_goals cases h

/-- A connection is put into an idle list by its handler. -/
theorem act_eq_list {s : System} {l : Label} {c : ℕ} {b : Bool} (h : s.act c l = some (.list b)) :
    ∃ ok, l = .handler c ok ∧ (s.conns c).handler = .checked ∧
      (firstWaiter s.calls (s.registries (s.conns c).registry).waiters).1 = none ∧ s.swept
    (s.conns c).registry = b := by
  unfold act at h
  split at h
  case h_2 d ok =>
    obtain ⟨rfl, h⟩ := ite_none_right_eq_some.mp h
    split at h
    case h_2 hchecked =>
      split at h
      · cases h
      case h_2 hnone =>
        cases h
        exact ⟨ok, rfl, hchecked, hnone, rfl⟩
    all_goals cases h
  all_goals
    repeat' split at h
    all_goals cases h

/-- What a careful step does to a connection is allowed. -/
theorem allowed_of_careful {s : System} {place : ℕ → Option Place} {l : Label} {c : ℕ} {a : Act} (h : Books s place)
    (hcareful : Careful s l) (hact : s.act c l = some a) : Allowed (s.conns c) (s.spot (place c)) a := by
  refine ⟨?_, ?_, fun he => by rw [h.fits.early c he]; rfl⟩
  · rintro rfl
    obtain ⟨m, ok, rfl, hleaving, hchannel⟩ := act_eq_lose hact
    exact absurd (hcareful hleaving) (by simp [hchannel])
  · rintro rfl
    obtain ⟨ok, rfl, hchecked, hnone, hswept⟩ := act_eq_list hact
    exact absurd (hcareful hchecked hnone) (by simp [hswept])

/-- In every run of careful steps, once all is quiet, each registered connection on which nothing failed is in exactly
one place. -/
theorem conserved_of_careful (labels : List Label) (s : System)
    (hcareful : Lts.Always step Careful .init labels) (hrun : Lts.exec step .init labels = some s)
    (hquiet : Quiet s) (c : ℕ) (hregistered : Registered s c) (hfailed : (s.conns c).failed = false) :
    Conserved s c := by
  obtain ⟨place, hbooks, hlife⟩ := @invariant_of_life Careful Allowed (fun x p => x.failed = true ∨ Sound x p)
    (.inr Sound.absent) (fun s place l c a hbooks hl ha => allowed_of_careful hbooks hl ha)
    (fun x p a y q => life_step) labels s hcareful hrun
  exact hbooks.conserved hquiet ((hlife c).resolve_left (by simp [hfailed])) hregistered

/-- A connection is registered and taken by a call. -/
def handOff : List Label :=
  [.arrive 0, .handler 0 true, .handler 0 true, .handler 0 true, .handler 0 true, .handler 0 true, .call 0,
    .caller 0 true, .caller 0 true, .caller 0 true, .hush 0, .caller 0 true, .caller 0 true, .caller 0 true, .readEnd 0,
    .caller 0 true, .watcher 0]

/-- With one connection and one call, it is enough to look at those. -/
theorem quiet_of_one {s : System} (hrefresh : s.refresh = none) (hconns : ∀ c, s.conns (c + 1) = .absent)
    (hcalls : ∀ m, (s.calls (m + 1)).progress = .absent) (hhandler : (s.conns 0).handler = .done)
    (hcall : (s.calls 0).progress = .absent ∨ ∃ result, (s.calls 0).progress = .returned result)
    (hreadLoop : (s.conns 0).stopped = true ∨ (s.conns 0).closed = true → (s.conns 0).reading = false)
    (hwatcher : (s.conns 0).reading = false → (s.conns 0).watcher = .absent ∨ (s.conns 0).watcher = .done) :
    Quiet s where
  refresh := hrefresh
  handlers
    | 0 => .inr hhandler
    | c + 1 => .inl (by rw [hconns c]; rfl)
  calls
    | 0 => hcall.imp id .inl
    | m + 1 => .inl (hcalls m)
  readLoops
    | 0 => hreadLoop
    | c + 1 => fun h => absurd h (by rw [hconns c]; decide)
  watchers
    | 0 => hwatcher
    | c + 1 => fun _ => .inl (by rw [hconns c]; rfl)

theorem conserved_of_careful_handOff :
    ∃ s, Lts.exec step .init handOff = some s ∧ Quiet s ∧ Owned s 0 0 ∧ Conserved s 0 := by
  refine ⟨_, rfl, ?quiet, rfl, conserved_of_careful handOff _ (by decide +kernel) rfl ?quiet 0 rfl rfl⟩
  exact quiet_of_one rfl (fun _ => rfl) (fun _ => rfl) rfl (.inr ⟨some 0, rfl⟩) (fun _ => rfl) fun _ => .inr rfl

/-- A call waits, and its time is over while `Register` has the lock. The connection goes into the channel of the call
before that has removed its waiter. -/
def tooLate : List Label :=
  [.call 0, .caller 0 true, .arrive 0, .handler 0 true, .timeout 0, .handler 0 true, .caller 0 true, .handler 0 true,
    .handler 0 true, .handler 0 true]

/-- In every run, careful or not, a connection is in one place at most, once: an idle list, which is that of its
registry, the channel of a waiter, or with a caller. No waiter is listed twice, and what `Register` puts into its
channel replaces nothing. -/
theorem never_shared (labels : List Label) (s : System) (hrun : Lts.exec step .init labels = some s) :
    (∀ p, (s.contents p).Nodup) ∧ (∀ p q c, c ∈ s.contents p → c ∈ s.contents q → p = q) ∧
      (∀ r, ∀ c ∈ (s.registries r).bottoms, (s.conns c).registry = r) ∧
      ∀ r, (s.registries r).waiters.Nodup ∧ ∀ m ∈ (s.registries r).waiters, (s.calls m).channel = none := by
  have hstep : ∀ s l t, (∃ place, Books s place) → s.step l = some t → ∃ place, Books t place := by
    rintro s l t ⟨place, h⟩ ht
    exact (h.step ht).imp fun _ hfollows => hfollows.1
  obtain ⟨place, h⟩ := Lts.exec_preserves hstep ⟨fun _ => none, Books.init⟩ hrun
  refine ⟨h.placed.nodup, fun p q c hp hq => h.placed.eq_of_mem hp hq, fun r c hc => ?_, fun r => ⟨h.nodup r, ?_⟩⟩
  · exact h.fits.own r c ((h.placed.mem (.idle r) c).mp hc)
  · exact fun m hm => (h.waiters r m hm).2.1

/-- The connection that is lost is still only in the channel. -/
theorem never_shared_tooLate :
    ∃ s, Lts.exec step .init tooLate = some s ∧ ∀ p, 0 ∈ s.contents p → p = .channel 0 := by
  refine ⟨_, rfl, fun p hp => ?_⟩
  exact (never_shared tooLate _ rfl).2.1 p (.channel 0) 0 hp (by decide +kernel)

/-- A connection is registered after `Refresh` went through the registry, and before that is cancelled. -/
def between : List Label :=
  [.arrive 0, .refresh, .refresh, .handler 0 true, .handler 0 true, .refresh, .handler 0 true, .handler 0 true,
    .handler 0 true]

/-- A connection that did not fail is open, but in no idle list and not with any caller; or it is in the idle list of a
registry that is no longer in use. -/
theorem timeout_loses_connection :
    (∃ s, Lts.exec step .init tooLate = some s ∧ Quiet s ∧ Registered s 0 ∧ (s.conns 0).failed = false ∧
      (s.conns 0).closed = false ∧ Unlisted s 0 ∧ (∀ m, ¬ Owned s 0 m) ∧ ¬ Conserved s 0) ∧
    ∃ s, Lts.exec step .init between = some s ∧ Quiet s ∧ Registered s 0 ∧ (s.conns 0).failed = false ∧
      (s.conns 0).closed = false ∧ 0 ∈ (s.registries 0).bottoms ∧ s.current = 1 ∧ ¬ Conserved s 0 := by
  constructor
  · have hunlisted {s : System} (hs : Lts.exec step .init tooLate = some s) : Unlisted s 0 := by
      cases hs
      intro r
      cases r <;> exact List.not_mem_nil
    have hfree {s : System} (hs : Lts.exec step .init tooLate = some s) (m : ℕ) : ¬ Owned s 0 m := by
      cases hs
      cases m <;> exact nofun
    refine ⟨_, rfl, ?_, rfl, rfl, rfl, hunlisted rfl, hfree rfl, ?_⟩
    · exact quiet_of_one rfl (fun _ => rfl) (fun _ => rfl) rfl (.inr ⟨none, rfl⟩) (by decide +kernel) (by decide +kernel)
    · rintro (⟨⟨hcount, -⟩, -, -⟩ | ⟨⟨m, hm, -⟩, -, -⟩ | ⟨hclosed, -, -⟩)
      · exact absurd hcount (by decide +kernel)
      · exact hfree rfl m hm
      · exact absurd hclosed (by decide +kernel)
  · refine ⟨_, rfl, ?_, rfl, rfl, rfl, by decide +kernel, rfl, ?_⟩
    · exact quiet_of_one rfl (fun _ => rfl) (fun _ => rfl) rfl (.inl rfl) (by decide +kernel) (by decide +kernel)
    · rintro (⟨⟨hcount, -⟩, -, -⟩ | ⟨⟨m, hm, -⟩, -, -⟩ | ⟨hclosed, -, -⟩)
      · exact absurd hcount (by decide +kernel)
      · cases m <;> cases hm
      · exact absurd hclosed (by decide +kernel)

end Reverse
