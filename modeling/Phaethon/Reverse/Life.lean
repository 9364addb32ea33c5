import Phaethon.Common.Custody
import Phaethon.Reverse.Registry

/-!
# The life of one connection

A connection is in one place at a time: in the idle list of a registry, in the channel of a waiter, or with a call
of `Match`. `Life.step` is what can happen to a connection and its place, and `Projects` says that a step of the
system is a step in the life of each connection that it touches, and leaves the lives of all others alone. The steps
of the system do so while the books are in order (`Books`), so that what holds throughout each life holds in every
run of the system.
-/

namespace Reverse

open Custody Function Option ManagedConn

/-! ## One connection -/

/-- Where a connection is, as far as it matters to it: nowhere, in an idle list that `Refresh` went through or not, in
the channel of a call that has returned or not, with a call at some stage, or returned by a call. -/
inductive Spot where
  | away
  | idle (swept : Bool)
  | channel (lost : Bool)
  | held (stage : Stage)
  | owned
  deriving DecidableEq

/-- A connection that is unregistered is in no idle list. -/
def Spot.unlisted : Spot → Spot
  | .idle _ => .away
  | p => p

/-- What happens to a connection. -/
inductive Act where
  | arrive (registry : ℕ)
  | handle (ok : Bool)
  | tick
  | beat (ok : Bool)
  | hush
  | idle (stale : Bool)
  | readEnd
  | watch
  | check (cancelled : Bool)
  | list (swept : Bool)
  | hand
  | withdraw
  | unlist
  | take
  | lose
  | shake (ok : Bool) (way : Way)
  | sweep
  deriving DecidableEq

/-- Where a connection is after a stage of a call. -/
def Spot.after (way : Way) (stage : Stage) : Option Stage → Spot
  | some .unregister => if way = .drained then .away else .held .unregister
  | some next => .held next
  | none => if stage = .unregister then .away else .owned

/-- The life of one connection. -/
def Life.step (x : ManagedConn) (p : Spot) : Act → Option (ManagedConn × Spot)
  | .arrive registry => if x.handler = .absent then some (.new registry, p) else none
  | .handle ok => (x.handle ok).map (·, p)
  | .tick => x.tick.map (·, p)
  | .beat ok => (x.beat ok).map (·, p)
  | .hush => x.hush.map (·, p)
  | .idle stale => (x.idle stale).map (·, p)
  | .readEnd => x.readEnd.map (·, p)
  | .watch => x.watch.map (·, p)
  | .check cancelled =>
      if x.handler = .registering then
        some (if cancelled then { x.close with handler := .greeting } else { x with handler := .checked }, p)
      else none
  | .list swept => if x.handler = .checked then some ({ x with handler := .greeting }, .idle swept) else none
  | .hand => if x.handler = .checked then some ({ x with handler := .greeting }, .channel false) else none
  | .withdraw => if x.handler = .unregistering then some ({ x with handler := .stopping }, p.unlisted) else none
  | .unlist =>
      if x.watcher = .unmatched then
        match p with
        | .idle _ => some ({ x with watcher := .closing }, .away)
        | p => some ({ x with watcher := .rechecking }, p)
      else none
  | .take =>
      match p with
      | .idle _ | .channel _ => some (x, .held .claim)
      | _ => none
  | .lose =>
      match p with
      | .channel false => some (x, .channel true)
      | _ => none
  | .shake ok way =>
      match p with
      | .held stage => (x.shake ok stage).map fun y => (y.1, .after way stage y.2)
      | _ => none
  | .sweep =>
      match p with
      | .idle false => some (if x.matched then x else x.close, .idle true)
      | _ => none

open Life

/-! ## What can happen -/

/-- What the goroutines of a connection do to it. -/
inductive Goes (x : ManagedConn) : Act → ManagedConn → Prop where
  | greet {ok} (h : x.handler = .greeting) :
      Goes x (.handle ok) { x with written := x.written ++ [.peng], handler := .adding }
  | refuse {ok} (h : x.handler = .greeting) : Goes x (.handle ok) { x.fail with handler := .unregistering }
  | add {ok} (h : x.handler = .adding) :
      Goes x (.handle ok) { x with senderWg := x.senderWg + 1, sender := .waiting, handler := .watching }
  | start {ok} (h : x.handler = .watching) :
      Goes x (.handle ok) { x with idler := .waiting, watcher := .waiting, handler := .done }
  | stop {ok} (h : x.handler = .stopping) : Goes x (.handle ok) { x with stopped := true, handler := .closing }
  | close {ok} (h : x.handler = .closing) : Goes x (.handle ok) { x.close with handler := .done }
  | tick (h : x.sender = .waiting) : Goes x .tick { x with sender := .ticked }
  | beat {ok} (h : x.sender = .ticked) :
      Goes x (.beat ok) { x with written := x.written ++ [.heartbeat], sender := .waiting }
  | mute {ok} (h : x.sender = .ticked) :
      Goes x (.beat ok) { x.fail.close with senderWg := x.senderWg - 1, sender := .done }
  | hush (h : x.sender = .waiting) : Goes x .hush { x with senderWg := x.senderWg - 1, sender := .done }
  | retire {stale} : Goes x (.idle stale) { x with idler := .done }
  | stale {stale} : Goes x (.idle stale) { x.fail with idler := .closing }
  | expire {stale} (h : x.idler = .closing) : Goes x (.idle stale) { x.close with idler := .done }
  | readStop (h : x.stopped = true) : Goes x .readEnd { x with reading := false }
  | readFail : Goes x .readEnd { x.fail with reading := false }
  | matched (h : x.watcher = .waiting) (hmatched : x.matched = true) : Goes x .watch { x with watcher := .done }
  | unmatched (h : x.watcher = .waiting) (hreading : x.reading = false) (hmatched : x.matched = false) :
      Goes x .watch { x with watcher := .unmatched }
  | rechecked (h : x.watcher = .rechecking) {watcher} (hwatcher : watcher = .done ∨ watcher = .closing) :
      Goes x .watch { x with watcher }
  | shut (h : x.watcher = .closing) : Goes x .watch { x.close with watcher := .done }

/-- What the stages of a call do to its connection. -/
inductive Shakes (x : ManagedConn) : Stage → ManagedConn → Option Stage → Prop where
  | claim : Shakes x .claim { x with matched := true } (some .stopPing)
  | stopPing : Shakes x .stopPing { x with stopPing := true } (some .wait)
  | wait (h : x.senderWg = 0) : Shakes x .wait x (some .pong)
  | pong (hopen : x.closed = false) : Shakes x .pong { x with written := x.written ++ [.pong] } (some .stop)
  | stop : Shakes x .stop { x with matched := true, stopped := true } (some .peng)
  | peng : Shakes x .peng x none
  | fail {stage} (h : stage = .pong ∨ stage = .peng) : Shakes x stage x.fail (some .close)
  | close : Shakes x .close x.close (some .unregister)
  | unregister : Shakes x .unregister x none

/-- What happens to a connection and its place. -/
inductive Lives (x : ManagedConn) : Spot → Act → ManagedConn → Spot → Prop where
  | arrive {p r} (h : x.handler = .absent) : Lives x p (.arrive r) (.new r) p
  | goes {p a y} (h : Goes x a y) : Lives x p a y p
  | cancelled {p} (h : x.handler = .registering) : Lives x p (.check true) { x.close with handler := .greeting } p
  | check {p} (h : x.handler = .registering) : Lives x p (.check false) { x with handler := .checked } p
  | list {p b} (h : x.handler = .checked) : Lives x p (.list b) { x with handler := .greeting } (.idle b)
  | hand {p} (h : x.handler = .checked) : Lives x p .hand { x with handler := .greeting } (.channel false)
  | withdraw {p} (h : x.handler = .unregistering) :
      Lives x p .withdraw { x with handler := .stopping } p.unlisted
  | unlist {b} (h : x.watcher = .unmatched) : Lives x (.idle b) .unlist { x with watcher := .closing } .away
  | recheck {p} (h : x.watcher = .unmatched) (hp : ∀ b, p ≠ .idle b) :
      Lives x p .unlist { x with watcher := .rechecking } p
  | take {p} (hp : ∃ b, p = .idle b ∨ p = .channel b) : Lives x p .take x (.held .claim)
  | lose : Lives x (.channel false) .lose x (.channel true)
  | shake {stage y next ok way} (h : Shakes x stage y next) :
      Lives x (.held stage) (.shake ok way) y (.after way stage next)
  | sweep : Lives x (.idle false) .sweep (if x.matched then x else x.close) (.idle true)

section Inversion

variable {x y : ManagedConn} {p q : Spot} {ok : Bool}

theorem goes_handle (h : x.handle ok = some y) : Goes x (.handle ok) y := by
  unfold handle at h
  split at h
  case h_1 hhandler =>
    split at h <;> cases h
    · exact .greet hhandler
    · exact .refuse hhandler
  case h_2 hhandler =>
    cases h
    exact .add hhandler
  case h_3 hhandler =>
    cases h
    exact .start hhandler
  case h_4 hhandler =>
    cases h
    exact .stop hhandler
  case h_5 hhandler =>
    split at h <;> cases h
    exact .close hhandler
  all_goals cases h

theorem goes_idle (h : x.idle ok = some y) : Goes x (.idle ok) y := by
  unfold idle at h
  split at h
  case h_1 =>
    repeat' split at h
    all_goals cases h
    · exact .retire
    · exact .stale
    · exact .retire
  case h_2 hidler =>
    cases h
    exact .expire hidler
  all_goals cases h

theorem goes_watch (h : x.watch = some y) : Goes x .watch y := by
  unfold watch at h
  split at h
  case h_1 hwatcher =>
    split at h
    · cases h
    case isFalse hreading =>
      split at h <;> cases h
      case isTrue hmatched => exact .matched hwatcher hmatched
      case isFalse hmatched => exact .unmatched hwatcher (by simpa using hreading) (by simpa using hmatched)
  case h_2 hwatcher =>
    split at h <;> cases h
    · exact .rechecked hwatcher (.inl rfl)
    · exact .rechecked hwatcher (.inr rfl)
  case h_3 hwatcher =>
    cases h
    exact .shut hwatcher
  all_goals cases h

theorem shakes_of_shake {stage : Stage} {next : Option Stage} (h : x.shake ok stage = some (y, next)) :
    Shakes x stage y next := by
  cases stage with
  | claim | stopPing | stop | close | unregister =>
    cases h
    constructor
  | wait =>
    obtain ⟨hnone, h⟩ := ite_none_right_eq_some.mp h
    cases h
    exact .wait hnone
  | pong =>
    simp only [shake] at h
    split at h
    case isTrue hok =>
      cases h
      simp only [Bool.and_eq_true, Bool.not_eq_true'] at hok
      exact .pong hok.2
    case isFalse =>
      cases h
      exact .fail (.inl rfl)
  | peng =>
    simp only [shake] at h
    repeat' split at h
    all_goals cases h
    · exact .peng
    · exact .fail (.inr rfl)

theorem lives_of_step {a : Act} (h : step x p a = some (y, q)) : Lives x p a y q := by
  have hgoes {o : Option ManagedConn} (hs : o.map (·, p) = some (y, q)) (hy : o = some y → Goes x a y) :
      Lives x p a y q := by
    obtain ⟨z, hz, heq⟩ := map_eq_some_iff.mp hs
    cases heq
    exact .goes (hy hz)
  cases a with
  | handle ok => exact hgoes h goes_handle
  | idle stale => exact hgoes h goes_idle
  | watch => exact hgoes h goes_watch
  | tick =>
    refine hgoes h fun hy => ?_
    obtain ⟨hsender, hy⟩ := ite_none_right_eq_some.mp hy
    cases hy
    exact .tick hsender
  | beat ok =>
    refine hgoes h fun hy => ?_
    obtain ⟨hsender, hy⟩ := ite_none_right_eq_some.mp hy
    split at hy <;> cases hy
    · exact .beat hsender
    · exact .mute hsender
  | hush =>
    refine hgoes h fun hy => ?_
    obtain ⟨⟨hsender, -⟩, hy⟩ := ite_none_right_eq_some.mp hy
    cases hy
    exact .hush hsender
  | readEnd =>
    refine hgoes h fun hy => ?_
    obtain ⟨-, hy⟩ := ite_none_right_eq_some.mp hy
    cases hy
    split
    case isTrue hstopped => exact .readStop hstopped
    case isFalse => exact .readFail
  | arrive | list | hand | withdraw =>
    obtain ⟨hx, h⟩ := ite_none_right_eq_some.mp h
    cases h
    constructor
    exact hx
  | check cancelled =>
    obtain ⟨hx, h⟩ := ite_none_right_eq_some.mp h
    cases h
    cases cancelled
    · exact .check hx
    · exact .cancelled hx
  | unlist =>
    obtain ⟨hx, h⟩ := ite_none_right_eq_some.mp h
    split at h <;> cases h
    case h_1 => exact .unlist hx
    case h_2 hp => exact .recheck hx hp
  | take =>
    simp only [step] at h
    split at h <;> cases h
    · exact .take ⟨_, .inl rfl⟩
    · exact .take ⟨_, .inr rfl⟩
  | lose =>
    simp only [step] at h
    split at h <;> cases h
    exact .lose
  | shake ok way =>
    simp only [step] at h
    split at h
    case h_1 stage =>
      obtain ⟨⟨z, next⟩, hz, heq⟩ := map_eq_some_iff.mp h
      cases heq
      exact .shake (shakes_of_shake hz)
    case h_2 => cases h
  | sweep =>
    simp only [step] at h
    split at h <;> cases h
    exact .sweep

end Inversion

/-! ## The places of a system -/

/-- A place that has connections. -/
inductive Place where
  | idle (r : ℕ)
  | channel (m : ℕ)
  | caller (m : ℕ)
  deriving DecidableEq

/-- The connection that a call has. -/
def Progress.held : Progress → Option ℕ
  | .removing c => some c
  | .handshake _ _ c => some c
  | .returned result => result
  | _ => none

/-- Where a connection is that a call has. -/
def Progress.spot : Progress → Spot
  | .removing _ => .held .claim
  | .handshake _ stage _ => .held stage
  | .returned _ => .owned
  | _ => .away

/-- The call has returned without looking at its channel any more. -/
def Progress.gone : Progress → Bool
  | .returned none => true
  | _ => false

namespace System

variable (s : System)

/-- What is in a place. -/
def contents : Place → List ℕ
  | .idle r => (s.registries r).bottoms
  | .channel m => (s.calls m).channel.toList
  | .caller m => (s.calls m).progress.held.toList

/-- `Refresh` went through the registry. -/
def swept (r : ℕ) : Bool := r + 1 < s.current ∨ (r + 1 = s.current ∧ s.refresh ≠ some false)

/-- Where a connection is, from its place. -/
def spot : Option Place → Spot
  | none => .away
  | some (.idle r) => .idle (s.swept r)
  | some (.channel m) => .channel (s.calls m).progress.gone
  | some (.caller m) => (s.calls m).progress.spot

/-- What a step does to a connection. -/
def act (c : ℕ) : Label → Option Act
  | .arrive d => if d = c then some (.arrive s.current) else none
  | .handler d ok =>
      if d = c then
        match (s.conns c).handler with
        | .registering => some (.check (s.registries (s.conns c).registry).cancelled)
        | .checked =>
            match (firstWaiter s.calls (s.registries (s.conns c).registry).waiters).1 with
            | some _ => some .hand
            | none => some (.list (s.swept (s.conns c).registry))
        | .unregistering => some .withdraw
        | _ => some (.handle ok)
      else none
  | .tick d => if d = c then some .tick else none
  | .beat d ok => if d = c then some (.beat ok) else none
  | .hush d => if d = c then some .hush else none
  | .idle d stale => if d = c then some (.idle stale) else none
  | .readEnd d => if d = c then some .readEnd else none
  | .watcher d => if d = c then if (s.conns c).watcher = .unmatched then some .unlist else some .watch else none
  | .call _ => none
  | .caller m ok =>
      match (s.calls m).progress with
      | .looking => if (s.registries (s.calls m).registry).bottoms.head? = some c then some .take else none
      | .leaving => if (s.calls m).channel = some c then some .lose else none
      | .handshake way _ d => if d = c then some (.shake ok way) else none
      | _ => none
  | .receive m => if (s.calls m).channel = some c then some .take else none
  | .cancel m => if (s.calls m).channel = some c then some .take else none
  | .timeout _ => none
  | .refresh =>
      if s.refresh = some false ∧ c ∈ (s.registries (s.current - 1)).bottoms then some .sweep else none

end System

/-! ## Frames -/

namespace System

variable (s : System)

@[simp]
theorem contents_setConn (c : ℕ) (x : ManagedConn) : (s.setConn c x).contents = s.contents := by
  funext p
  cases p <;> rfl

theorem contents_setRegistry (r : ℕ) (g : Registry) :
    (s.setRegistry r g).contents = update s.contents (.idle r) g.bottoms := by
  funext p
  cases p with
  | idle q =>
    by_cases hq : q = r
    · subst hq
      simp [contents, setRegistry]
    · simp [contents, setRegistry, hq]
  | channel m => simp [contents, setRegistry]
  | caller m => simp [contents, setRegistry]

theorem contents_setCall (m : ℕ) (k : Call) :
    (s.setCall m k).contents =
      update (update s.contents (.channel m) k.channel.toList) (.caller m)
        k.progress.held.toList := by
  funext p
  cases p with
  | idle r => simp [contents, setCall]
  | channel n =>
    by_cases hn : n = m
    · subst hn
      simp [contents, setCall]
    · simp [contents, setCall, hn]
  | caller n =>
    by_cases hn : n = m
    · subst hn
      simp [contents, setCall]
    · simp [contents, setCall, hn]

@[simp]
theorem spot_setConn (c : ℕ) (x : ManagedConn) : (s.setConn c x).spot = s.spot := rfl

@[simp]
theorem spot_setRegistry (r : ℕ) (g : Registry) : (s.setRegistry r g).spot = s.spot := rfl

variable {s} in
theorem spot_congr {t : System} (hswept : ∀ r, t.swept r = s.swept r) (hcalls : t.calls = s.calls) (p : Option Place) :
    t.spot p = s.spot p := by
  cases p with
  | none => rfl
  | some p =>
    cases p with
    | idle r => exact congrArg Spot.idle (hswept r)
    | channel m =>
      change Spot.channel (t.calls m).progress.gone = .channel (s.calls m).progress.gone
      rw [hcalls]
    | caller m =>
      change (t.calls m).progress.spot = (s.calls m).progress.spot
      rw [hcalls]

theorem spot_caller_setCall (m : ℕ) (k : Call) : (s.setCall m k).spot (some (.caller m)) = k.progress.spot := by
  change ((s.setCall m k).calls m).progress.spot = _
  rw [calls_setCall]

theorem spot_channel_setCall (m : ℕ) (k : Call) :
    (s.setCall m k).spot (some (.channel m)) = .channel k.progress.gone := by
  change Spot.channel ((s.setCall m k).calls m).progress.gone = _
  rw [calls_setCall]

theorem spot_eq_idle {p : Option Place} {b : Bool} (h : s.spot p = .idle b) :
    ∃ r, p = some (.idle r) ∧ s.swept r = b := by
  cases p with
  | none => cases h
  | some p =>
    cases p with
    | idle r => exact ⟨r, rfl, Spot.idle.inj h⟩
    | channel n => cases h
    | caller n =>
      change (s.calls n).progress.spot = .idle b at h
      cases hprogress : (s.calls n).progress <;> rw [hprogress] at h <;> cases h

/-- A call that goes on is a change only for the connection that it has, or that is in its channel. -/
theorem spot_setCall {m : ℕ} {k : Call} {p : Option Place}
    (hcaller : p = some (.caller m) → k.progress.spot = (s.calls m).progress.spot)
    (hchannel : p = some (.channel m) → k.progress.gone = (s.calls m).progress.gone) :
    (s.setCall m k).spot p = s.spot p := by
  cases p with
  | none => rfl
  | some p =>
    cases p with
    | idle r => rfl
    | channel n =>
      by_cases hn : n = m
      · subst hn
        rw [spot_channel_setCall, hchannel rfl]
        rfl
      · change Spot.channel ((s.setCall m k).calls n).progress.gone = _
        rw [s.calls_setCall_of_ne _ _ _ hn]
        rfl
    | caller n =>
      by_cases hn : n = m
      · subst hn
        rw [spot_caller_setCall]
        exact hcaller rfl
      · change ((s.setCall m k).calls n).progress.spot = _
        rw [s.calls_setCall_of_ne _ _ _ hn]
        rfl

end System

/-! ## Places stay right -/

/-- Before `Register` has put the connection somewhere. -/
def Handler.early : Handler → Bool
  | .absent | .registering | .checked => true
  | _ => false

/-- A connection is in no place before it is registered, and in no idle list but that of its own registry. -/
structure Fits (conns : ℕ → ManagedConn) (place : ℕ → Option Place) : Prop where
  own : ∀ r c, place c = some (.idle r) → (conns c).registry = r
  early : ∀ c, (conns c).handler.early = true → place c = none

/-- Each connection is in one place. A waiter belongs to a call that waits or leaves and has nothing in its
channel. -/
structure Books (s : System) (place : ℕ → Option Place) : Prop where
  placed : Placed s.contents place
  fits : Fits s.conns place
  waiters : ∀ r m, m ∈ (s.registries r).waiters → (s.calls m).registry = r ∧ (s.calls m).channel = none ∧
    ((s.calls m).progress = .waiting ∨ (s.calls m).progress = .leaving)
  nodup : ∀ r, (s.registries r).waiters.Nodup
  channels : ∀ m c, (s.calls m).channel = some c → (s.calls m).progress = .waiting ∨
    (s.calls m).progress = .leaving ∨ (s.calls m).progress = .returned none
  refreshed : s.refresh ≠ none → 0 < s.current
  known : ∀ c, (s.conns c).registry ≤ s.current

/-- A step of the system is a step in the life of each connection that it touches. -/
def Projects (s : System) (place : ℕ → Option Place) (l : Label) (t : System) (place' : ℕ → Option Place) : Prop :=
  ∀ c,
    match s.act c l with
    | none => t.conns c = s.conns c ∧ t.spot (place' c) = s.spot (place c)
    | some a => step (s.conns c) (s.spot (place c)) a = some (t.conns c, t.spot (place' c))

/-- A step of the system keeps the books, with the connections in their new places, and is one in their lives. -/
def Follows (s : System) (place : ℕ → Option Place) (l : Label) (t : System) : Prop :=
  ∃ place', Books t place' ∧ Projects s place l t place'

section Steps

variable {s t : System} {place place' : ℕ → Option Place} {c : ℕ} {x : ManagedConn} {l : Label} {a : Act}

/-- A connection gets another place. -/
theorem Fits.update (h : Fits s.conns place) {p : Option Place} (hearly : (s.conns c).handler.early = false)
    (hown : ∀ r, p = some (.idle r) → (s.conns c).registry = r) : Fits s.conns (update place c p) where
  own r := (forall_update_iff place (p := fun d q => q = some (.idle r) → (s.conns d).registry = r)).mpr
    ⟨hown r, fun d _ => h.own r d⟩
  early := (forall_update_iff place (p := fun d q => (s.conns d).handler.early = true → q = none)).mpr
    ⟨fun he => absurd he (by simp [hearly]), fun d _ => h.early d⟩

/-- A connection that has a place is registered. -/
theorem Fits.late (h : Fits s.conns place) {p : Place} (hp : place c = some p) : (s.conns c).handler.early = false := by
  by_contra hearly
  have hnone := h.early c (by simpa using hearly)
  exact absurd (hp.symm.trans hnone) (by simp)

namespace Books

theorem setConn (h : Books s place)
    (hregistry : x.registry = (s.conns c).registry ∨ place c = none ∧ x.registry = s.current)
    (hearly : x.handler.early = true → place c = none) : Books (s.setConn c x) place := by
  refine ⟨by rw [System.contents_setConn]; exact h.placed, ⟨fun r => ?_, ?_⟩, h.waiters, h.nodup, h.channels,
    h.refreshed, ?_⟩
  · exact (forall_update_iff s.conns (p := fun d y => place d = some (.idle r) → y.registry = r)).mpr
      ⟨fun hc => (hregistry.resolve_right (by simp [hc])).trans (h.fits.own r c hc), fun d _ => h.fits.own r d⟩
  · exact (forall_update_iff s.conns (p := fun d y => y.handler.early = true → place d = none)).mpr
      ⟨hearly, fun d _ => h.fits.early d⟩
  · refine (forall_update_iff s.conns (p := fun _ y => y.registry ≤ s.current)).mpr
      ⟨?_, fun d _ => h.known d⟩
    rcases hregistry with hsame | ⟨-, hcurrent⟩
    · exact hsame ▸ h.known c
    · exact Nat.le_of_eq hcurrent

theorem setRegistry (h : Books s place) {r : ℕ} {g : Registry}
    (hplaced : Placed (update s.contents (.idle r) g.bottoms) place') (hfits : Fits s.conns place')
    (hwaiters : ∀ m ∈ g.waiters, m ∈ (s.registries r).waiters ∨ ((s.calls m).registry = r ∧
      (s.calls m).channel = none ∧ (s.calls m).progress = .waiting))
    (hnodup : g.waiters.Nodup) : Books (s.setRegistry r g) place' := by
  refine ⟨by rw [System.contents_setRegistry]; exact hplaced, hfits, ?_, ?_, h.channels, h.refreshed, h.known⟩
  · refine (forall_update_iff s.registries (p := fun q g => ∀ m ∈ g.waiters, (s.calls m).registry = q ∧
      (s.calls m).channel = none ∧ ((s.calls m).progress = .waiting ∨ (s.calls m).progress = .leaving))).mpr
      ⟨fun m hm => ?_, fun q _ => h.waiters q⟩
    rcases hwaiters m hm with hold | ⟨hregistry, hchannel, hwaiting⟩
    · exact h.waiters r m hold
    · exact ⟨hregistry, hchannel, .inl hwaiting⟩
  · exact (forall_update_iff s.registries (p := fun _ g => g.waiters.Nodup)).mpr
      ⟨hnodup, fun q _ => h.nodup q⟩

theorem setCall (h : Books s place) {m : ℕ} {k : Call} (hplaced : Placed (s.setCall m k).contents place')
    (hfits : Fits s.conns place') (hwaiter : ∀ r, m ∈ (s.registries r).waiters → k.registry = r ∧ k.channel = none ∧
      (k.progress = .waiting ∨ k.progress = .leaving))
    (hchannel : ∀ c, k.channel = some c → k.progress = .waiting ∨ k.progress = .leaving ∨
      k.progress = .returned none) : Books (s.setCall m k) place' := by
  refine ⟨hplaced, hfits, fun r => ?_, h.nodup, ?_, h.refreshed, h.known⟩
  · exact (forall_update_iff s.calls (p := fun n k => n ∈ (s.registries r).waiters → k.registry = r ∧
      k.channel = none ∧ (k.progress = .waiting ∨ k.progress = .leaving))).mpr ⟨hwaiter r, fun n _ => h.waiters r n⟩
  · exact (forall_update_iff s.calls (p := fun _ k => ∀ c, k.channel = some c → k.progress = .waiting ∨
      k.progress = .leaving ∨ k.progress = .returned none)).mpr ⟨hchannel, fun n _ => h.channels n⟩

end Books

/-- A step that touches one connection. -/
theorem projects_one (hself : s.act c l = some a) (hother : ∀ d, c ≠ d → s.act d l = none)
    (hlife : step (s.conns c) (s.spot (place c)) a = some (t.conns c, t.spot (place' c)))
    (hrest : ∀ d, c ≠ d → t.conns d = s.conns d ∧ t.spot (place' d) = s.spot (place d)) :
    Projects s place l t place' := by
  intro d
  by_cases hd : c = d
  · subst hd
    rw [hself]
    exact hlife
  · rw [hother d hd]
    exact hrest d hd

/-- A step that touches no connection. -/
theorem projects_none (hother : ∀ d, s.act d l = none)
    (hrest : ∀ d, t.conns d = s.conns d ∧ t.spot (place' d) = s.spot (place d)) : Projects s place l t place' := by
  intro d
  rw [hother d]
  exact hrest d

/-- A step that changes a connection, but not its place. -/
theorem projects_setConn (hself : s.act c l = some a) (hother : ∀ d, c ≠ d → s.act d l = none)
    (hlife : step (s.conns c) (s.spot (place c)) a = some (x, s.spot (place c))) :
    Projects s place l (s.setConn c x) place := by
  refine projects_one hself hother ?_ fun d hd => ⟨s.conns_setConn_of_ne _ _ _ hd.symm, rfl⟩
  rw [hlife, System.conns_setConn]
  rfl

/-! ## Goroutines of a connection -/

/-- A connection keeps its registry, and is not registered twice. -/
theorem Lives.kept {y : ManagedConn} {p q : Spot} (h : Lives x p a y q) (ha : ∀ r, a ≠ .arrive r) :
    y.registry = x.registry ∧ (y.handler.early = true → x.handler.early = true) := by
  cases h with
  | arrive => exact absurd rfl (ha _)
  | goes h => cases h <;> exact ⟨rfl, by first | exact id | exact nofun⟩
  | shake h => cases h <;> exact ⟨rfl, id⟩
  | check h => exact ⟨rfl, fun _ => by rw [h]; rfl⟩
  | cancelled | list | hand | withdraw => exact ⟨rfl, nofun⟩
  | unlist | recheck | take | lose => exact ⟨rfl, id⟩
  | sweep => split <;> exact ⟨rfl, id⟩

/-- A goroutine of the connection that does not look at the registry. -/
theorem Books.goroutine (h : Books s place) {f : ManagedConn → Option ManagedConn}
    (hstep : (f (s.conns c)).map (s.setConn c) = some t) (hself : s.act c l = some a)
    (hother : ∀ d, c ≠ d → s.act d l = none) (hlife : ∀ x p, step x p a = (f x).map (·, p))
    (ha : ∀ r, a ≠ .arrive r) : Follows s place l t := by
  obtain ⟨x, hx, rfl⟩ := map_eq_some_iff.mp hstep
  have hstep : step (s.conns c) (s.spot (place c)) a = some (x, s.spot (place c)) := by
    rw [hlife, hx]
    rfl
  obtain ⟨hregistry, hearly⟩ := (lives_of_step hstep).kept ha
  exact ⟨place, h.setConn (.inl hregistry) fun he => h.fits.early c (hearly he), projects_setConn hself hother hstep⟩

end Steps

end Reverse
