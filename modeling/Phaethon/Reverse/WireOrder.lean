import Phaethon.Reverse.Projection

/-!
# The order of the frames to the client

What the server writes to a reverse connection is to be PENG, then heartbeats, then one PONG, and nothing more up to
the hand-off. That holds if a call that waits for the sender of heartbeats does so only after the sender was started
(`wireOrder_of_started`). But a connection can be taken as soon as it is registered, which is before PENG is written
and before the sender is counted, so that the call may find no sender to wait for.
-/

namespace Reverse

open List Reverse.System

open Reverse.Frame (peng heartbeat pong)

/-! ## What is to hold -/

/-- PENG, then so many heartbeats, then PONG if the call got that far. -/
def InOrder (frames : List Frame) : Prop :=
  frames = [] ∨ (∃ k, frames = peng :: List.replicate k heartbeat) ∨
    ∃ k, frames = peng :: (List.replicate k heartbeat ++ [pong])

/-- The frames of a connection are in order, and complete once a call has returned it. -/
structure WireOrder (s : System) (c : ℕ) : Prop where
  order : InOrder (s.conns c).written
  complete : ∀ m, (s.calls m).progress = .returned (some c) →
    ∃ k, (s.conns c).written = peng :: (List.replicate k heartbeat ++ [pong])

/-- What a step has to meet: a call gets over `senderWg.Wait` only after the sender was counted. -/
def Started (s : System) : Label → Prop
  | .caller m _ => ∀ c ∈ (s.calls m).progress.held,
      (s.calls m).progress.spot = .held .wait → (s.conns c).sender ≠ .absent
  | _ => True

instance (s : System) : ∀ l, Decidable (Started s l)
  | .caller _ _ => inferInstanceAs (Decidable (∀ c ∈ (_ : Option ℕ), _))
  | .arrive _ | .handler _ _ | .tick _ | .beat _ _ | .hush _ | .idle _ _ | .readEnd _ | .watcher _ | .call _
  | .receive _ | .cancel _ | .timeout _ | .refresh => .isTrue trivial

/-! ## The life of one connection -/

/-- The sender is started before the call gets over its wait. -/
def Allows (x : ManagedConn) (p : Spot) (a : Act) : Prop :=
  (x.handler.early = true → p = .away) ∧ ∀ ok way, a = .shake ok way → p = .held .wait → x.sender ≠ .absent

/-- PENG was not written yet, or its writing failed. -/
def Handler.silent : Handler → Bool
  | .adding | .watching | .done => false
  | _ => true

/-- PONG was not written yet. -/
def Spot.unanswered : Spot → Bool
  | .idle _ | .channel _ | .held .claim | .held .stopPing | .held .wait | .held .pong => true
  | _ => false

/-- What holds of a connection and its place. -/
structure Ordered (x : ManagedConn) (p : Spot) : Prop where
  order : InOrder x.written
  silent : x.handler.silent = true → x.written = [] ∧ x.sender = .absent
  adding : x.handler = .adding → x.written = [peng] ∧ x.sender = .absent
  watching : x.handler = .watching → x.sender ≠ .absent
  unsent : x.sender = .absent → x.handler = .done → x.written = []
  greeted : x.sender ≠ .absent → x.written ≠ []
  counted : x.senderWg = if x.sender = .waiting ∨ x.sender = .ticked then 1 else 0
  answered : pong ∈ x.written → x.sender = .done ∧ p.unanswered = false
  hushed : p = .held .pong → x.sender = .done
  shaken : p = .held .stop ∨ p = .held .peng ∨ p = .owned → pong ∈ x.written

variable {frames : List Frame} {a : Act}

section Life

variable {x y : ManagedConn} {p q : Spot} {ok : Bool}

section

variable (h : InOrder frames)

include h

theorem InOrder.beat (hpeng : frames ≠ []) (hpong : pong ∉ frames) :
    InOrder (frames ++ [heartbeat]) := by
  rcases h with rfl | ⟨k, rfl⟩ | ⟨k, rfl⟩
  · exact absurd rfl hpeng
  · refine .inr (.inl ⟨k + 1, ?_⟩)
    rw [cons_append, replicate_succ']
  · simp at hpong

theorem InOrder.answer (hpeng : frames ≠ []) (hpong : pong ∉ frames) :
    InOrder (frames ++ [pong]) := by
  rcases h with rfl | ⟨k, rfl⟩ | ⟨k, rfl⟩
  · exact absurd rfl hpeng
  · exact .inr (.inr ⟨k, rfl⟩)
  · simp at hpong

theorem InOrder.complete (hpong : pong ∈ frames) :
    ∃ k, frames = peng :: (List.replicate k heartbeat ++ [pong]) := by
  rcases h with rfl | ⟨k, rfl⟩ | hcomplete
  · cases hpong
  · simp at hpong
  · exact hcomplete

/-- PONG is the last frame. -/
theorem InOrder.getLast? (hpong : pong ∈ frames) : frames.getLast? = some pong := by
  obtain ⟨k, rfl⟩ := h.complete hpong
  rw [← cons_append, getLast?_concat]

end

theorem Ordered.absent : Ordered .absent .away := by
  constructor <;> simp [ManagedConn.absent, Handler.silent, InOrder]

theorem Ordered.new (registry : ℕ) : Ordered (.new registry) .away := by
  constructor <;> simp [ManagedConn.new, ManagedConn.absent, Handler.silent, InOrder]

section

variable (h : Ordered x p)

include h

/-- Nothing was answered as long as the sender may still write. -/
theorem Ordered.not_answered (hsender : x.sender ≠ .done) : pong ∉ x.written := fun hpong =>
  hsender (h.answered hpong).1

/-- What writes nothing. -/
theorem Ordered.congr (hhandler : y.handler = x.handler := by rfl)
    (hsender : y.sender = x.sender := by rfl) (hcount : y.senderWg = x.senderWg := by rfl)
    (hwritten : y.written = x.written := by rfl) : Ordered y p := by
  constructor
  · rw [hwritten]
    exact h.order
  · rw [hhandler, hwritten, hsender]
    exact h.silent
  · rw [hhandler, hwritten, hsender]
    exact h.adding
  · rw [hhandler, hsender]
    exact h.watching
  · rw [hhandler, hwritten, hsender]
    exact h.unsent
  · rw [hwritten, hsender]
    exact h.greeted
  · rw [hcount, hsender]
    exact h.counted
  · rw [hwritten, hsender]
    exact h.answered
  · rw [hsender]
    exact h.hushed
  · rw [hwritten]
    exact h.shaken

/-- The handler goes on without having written PENG. -/
theorem Ordered.stillSilent (hbefore : x.handler.silent = true) {handler : Handler}
    (hafter : handler.silent = true) : Ordered { x with handler } p :=
  { h with
    silent := fun _ => h.silent hbefore
    adding := by rintro rfl; cases hafter
    watching := by rintro rfl; cases hafter
    unsent := fun _ _ => (h.silent hbefore).1 }

/-- The sender goes on or ends, and may write a heartbeat. -/
theorem Ordered.sends (hrunning : x.sender = .waiting ∨ x.sender = .ticked) {sender : Sender}
    {senderWg : ℕ} {written : List Frame} (hsender : sender ≠ .absent)
    (hcount : senderWg = if sender = .waiting ∨ sender = .ticked then 1 else 0)
    (hwritten : written = x.written ∨ written = x.written ++ [heartbeat]) :
    Ordered { x with sender, senderWg, written } p := by
  have hstarted : x.sender ≠ .absent := by rcases hrunning with hs | hs <;> simp [hs]
  have hnotdone : x.sender ≠ .done := by rcases hrunning with hs | hs <;> simp [hs]
  have hpong := h.not_answered hnotdone
  have hgreeted := h.greeted hstarted
  have hpong' : pong ∉ written := by rcases hwritten with rfl | rfl <;> simp [hpong]
  have horder : InOrder written := by
    rcases hwritten with rfl | rfl
    · exact h.order
    · exact h.order.beat hgreeted hpong
  exact { h with
    order := horder
    silent := fun hs => absurd (h.silent hs).2 hstarted
    adding := fun ha => absurd (h.adding ha).2 hstarted
    watching := fun _ => hsender
    unsent := fun hs => absurd hs hsender
    greeted := fun _ => by rcases hwritten with rfl | rfl <;> simp [hgreeted]
    counted := hcount
    answered := fun hmem => absurd hmem hpong'
    hushed := fun hp => absurd (h.hushed hp) hnotdone
    shaken := fun hp => absurd (h.shaken hp) hpong }

/-- A goroutine of the connection. -/
theorem Ordered.goes (hgoes : Goes x a y) : Ordered y p := by
  cases hgoes with
  | greet hhandler =>
    obtain ⟨hwritten, hsender⟩ := h.silent (by rw [hhandler]; rfl)
    have hpong := h.not_answered (by simp [hsender])
    rw [hwritten]
    exact { h with
      order := .inr (.inl ⟨0, rfl⟩)
      silent := nofun
      adding := fun _ => ⟨rfl, hsender⟩
      watching := nofun
      unsent := fun _ => nofun
      greeted := by simp
      answered := by simp
      shaken := fun hp => absurd (h.shaken hp) hpong }
  | refuse hhandler =>
    have hsilent : Ordered { x with handler := .unregistering } p := h.stillSilent (by rw [hhandler]; rfl) rfl
    exact hsilent.congr
  | add hhandler =>
    obtain ⟨hwritten, hsender⟩ := h.adding hhandler
    have hpong := h.not_answered (by simp [hsender])
    exact { h with
      silent := nofun
      adding := nofun
      watching := by simp
      unsent := nofun
      greeted := by simp [hwritten]
      counted := by simp [h.counted, hsender]
      answered := fun hmem => absurd hmem hpong
      hushed := fun hp => absurd (h.hushed hp) (by simp [hsender]) }
  | start hhandler =>
    exact { h with
      silent := nofun
      adding := nofun
      watching := nofun
      unsent := fun hsender => absurd hsender (h.watching hhandler) }
  | stop hhandler =>
    have hsilent : Ordered { x with handler := .closing } p := h.stillSilent (by rw [hhandler]; rfl) rfl
    exact hsilent.congr
  | close hhandler =>
    exact { h with
      silent := nofun
      adding := nofun
      watching := nofun
      unsent := fun _ _ => (h.silent (by rw [hhandler]; rfl)).1 }
  | tick hsender => exact h.sends (.inl hsender) (by simp) (by simp [h.counted, hsender]) (.inl rfl)
  | beat hsender => exact h.sends (.inr hsender) (by simp) (by simp [h.counted, hsender]) (.inr rfl)
  | mute hsender =>
    have hdone : Ordered { x with sender := .done, senderWg := x.senderWg - 1 } p :=
      h.sends (.inr hsender) (by simp) (by simp [h.counted, hsender]) (.inl rfl)
    exact hdone.congr
  | hush hsender => exact h.sends (.inl hsender) (by simp) (by simp [h.counted, hsender]) (.inl rfl)
  -- the detector of idle readers, the read loop and the watcher write nothing
  | _ => exact h.congr

/-- The connection gets to another place. -/
theorem Ordered.move (hq : q.unanswered = true → p.unanswered = true ∨ x.written = [] := by simp)
    (hhushed : q = .held .pong → x.sender = .done := by simp)
    (hshaken : q = .held .stop ∨ q = .held .peng ∨ q = .owned → pong ∈ x.written := by simp) : Ordered x q :=
  { h with
    answered := fun hpong => by
      obtain ⟨hsender, hp⟩ := h.answered hpong
      refine ⟨hsender, ?_⟩
      by_contra hq'
      rcases hq (by simpa using hq') with hun | hnil
      · exact absurd hun (by simp [hp])
      · exact absurd hpong (by simp [hnil])
    hushed := hhushed
    shaken := hshaken }

end

attribute [local simp] Spot.after Spot.unanswered Spot.unlisted

theorem Ordered.unlist (h : Ordered x p) : Ordered x p.unlisted := by
  cases p with
  | idle b => exact h.move
  | away | channel | held | owned => exact h

/-- A stage of a call. -/
theorem Ordered.shake {way : Way} {stage : Stage} {next : Option Stage} (h : Ordered x (.held stage))
    (hstarted : stage = .wait → x.sender ≠ .absent) (hshakes : Shakes x stage y next) :
    Ordered y (.after way stage next) := by
  cases hshakes with
  | claim | stopPing | fail => exact h.move.congr
  | wait hnone =>
    -- nobody is counted, and the sender was started, so that it has ended
    have hdone : x.sender = .done := by
      have hcounted := h.counted
      rw [hnone] at hcounted
      cases hsender : x.sender with
      | absent => exact absurd hsender (hstarted rfl)
      | waiting | ticked => simp [hsender] at hcounted
      | done => rfl
    exact h.move (by simp) fun _ => hdone
  | pong =>
    have hdone := h.hushed rfl
    have hpong : pong ∉ x.written := fun hmem => absurd (h.answered hmem).2 (by simp)
    have hstarted : x.sender ≠ .absent := by simp [hdone]
    exact { h with
      order := h.order.answer (h.greeted hstarted) hpong
      silent := fun hs => absurd (h.silent hs).2 hstarted
      adding := fun ha => absurd (h.adding ha).2 hstarted
      unsent := fun hs => absurd hs hstarted
      greeted := by simp
      answered := fun _ => ⟨hdone, rfl⟩
      hushed := by simp
      shaken := by simp }
  | stop => exact (h.move (by simp) (by simp) fun _ => h.shaken (.inl rfl)).congr
  | peng => exact h.move (by simp) (by simp) fun _ => h.shaken (.inr (.inl rfl))
  | close =>
    by_cases hway : way = .drained
    · exact (h.move (by simp [hway]) (by simp [hway]) (by simp [hway])).congr
    · exact (h.move (by simp [hway]) (by simp [hway]) (by simp [hway])).congr
  | unregister => exact h.move

/-- What happens to a connection keeps its frames in order. -/
theorem ordered_step (h : Ordered x p) (hallows : Allows x p a) (hlives : Lives x p a y q) : Ordered y q := by
  obtain ⟨hearly, hstarted⟩ := hallows
  cases hlives with
  | arrive hhandler =>
    obtain rfl := hearly (by rw [hhandler]; rfl)
    exact Ordered.new _
  | goes hgoes => exact h.goes hgoes
  | cancelled hhandler =>
    have hgreeting : Ordered { x with handler := .greeting } p := h.stillSilent (by rw [hhandler]; rfl) rfl
    exact hgreeting.congr
  | check hhandler => exact h.stillSilent (by rw [hhandler]; rfl) rfl
  | list hhandler | hand hhandler =>
    have hsilent : x.handler.silent = true := by rw [hhandler]; rfl
    exact (h.stillSilent hsilent rfl).move fun _ => .inr (h.silent hsilent).1
  | withdraw hhandler => exact h.unlist.stillSilent (by rw [hhandler]; rfl) rfl
  | unlist => exact h.unlist.congr
  | recheck => exact h.congr
  | take hp =>
    obtain ⟨b, rfl | rfl⟩ := hp
    · exact h.move
    · exact h.move
  | lose => exact h.move
  | shake hshakes => exact h.shake (fun hs => hstarted _ _ rfl (congrArg Spot.held hs)) hshakes
  | sweep =>
    have hmoved : Ordered x (.idle true) := h.move
    split
    · exact hmoved
    · exact hmoved.congr

end Life

/-! ## Runs -/

/-- A call at a stage has its connection. -/
theorem act_eq_shake {s : System} {l : Label} {c : ℕ} {ok : Bool} {way : Way} (h : s.act c l = some (.shake ok way)) :
    ∃ m stage, l = .caller m ok ∧ (s.calls m).progress = .handshake way stage c := by
  unfold act at h
  split at h
  case h_10 m ok' =>
    split at h
    case h_3 way' stage d hprogress =>
      obtain ⟨hd, hs⟩ := Option.ite_none_right_eq_some.mp h
      subst hd
      cases hs
      exact ⟨m, stage, rfl, hprogress⟩
    all_goals
      repeat' split at h
      all_goals cases h
  all_goals
    repeat' split at h
    all_goals cases h

theorem allows_of_started {s : System} {place : ℕ → Option Place} {l : Label} {c : ℕ} (h : Books s place)
    (hstarted : Started s l) (hact : s.act c l = some a) : Allows (s.conns c) (s.spot (place c)) a := by
  refine ⟨fun he => by rw [h.fits.early c he]; rfl, ?_⟩
  rintro ok way rfl hspot
  obtain ⟨m, stage, rfl, hprogress⟩ := act_eq_shake hact
  have hheld : (s.calls m).progress.held = some c := by rw [hprogress]; rfl
  rw [h.held_iff.mp hheld] at hspot
  exact hstarted c hheld hspot

/-- In every run in which calls wait only for a sender that was started, the frames of each connection are in order,
and complete once it is handed over. -/
theorem wireOrder_of_started (labels : List Label) (s : System)
    (hstarted : Lts.Always step Started .init labels) (hrun : Lts.exec step .init labels = some s)
    (c : ℕ) : WireOrder s c := by
  obtain ⟨place, hbooks, hlife⟩ := @invariant_of_life Started Allows Ordered Ordered.absent
    (fun s place l c a hbooks hl ha => allows_of_started hbooks hl ha)
    (fun x p a y q h hallows hstep => ordered_step h hallows (lives_of_step hstep)) labels s hstarted hrun
  refine ⟨(hlife c).order, fun m hm => (hlife c).order.complete ((hlife c).shaken (.inr (.inr ?_)))⟩
  rw [hbooks.held_iff.mp (by rw [hm]; rfl : (s.calls m).progress.held = some c)]
  change (s.calls m).progress.spot = .owned
  rw [hm]
  rfl

/-- A connection is greeted, hears one heartbeat, and is taken by a call. -/
def politely : List Label :=
  [.arrive 0, .handler 0 true, .handler 0 true, .handler 0 true, .handler 0 true, .handler 0 true, .tick 0, .beat 0 true,
    .call 0, .caller 0 true, .caller 0 true, .caller 0 true, .hush 0, .caller 0 true, .caller 0 true, .caller 0 true,
    .readEnd 0, .caller 0 true]

theorem wireOrder_of_started_politely :
    ∃ s, Lts.exec step .init politely = some s ∧ (s.calls 0).progress = .returned (some 0) ∧
      (s.conns 0).written = [peng, heartbeat, pong] ∧ WireOrder s 0 :=
  ⟨_, rfl, rfl, rfl, wireOrder_of_started politely _ (by decide +kernel) rfl 0⟩

/-- The call is over its wait before PENG is written. -/
def tooEarly : List Label :=
  [.arrive 0, .handler 0 true, .handler 0 true, .call 0, .caller 0 true, .caller 0 true, .caller 0 true, .caller 0 true,
    .caller 0 true, .handler 0 true]

/-- The call is over its wait after PENG is written and before the sender is counted, which then finds a tick. -/
def uncounted : List Label :=
  [.arrive 0, .handler 0 true, .handler 0 true, .handler 0 true, .call 0, .caller 0 true, .caller 0 true,
    .caller 0 true, .caller 0 true, .caller 0 true, .handler 0 true, .tick 0, .beat 0 true]

/-- PONG may come before PENG, and a heartbeat after PONG. -/
theorem pong_before_peng :
    (∃ s, Lts.exec step .init tooEarly = some s ∧ (s.conns 0).written = [pong, peng] ∧ ¬ WireOrder s 0) ∧
    ∃ s, Lts.exec step .init uncounted = some s ∧ (s.conns 0).written = [peng, pong, heartbeat] ∧
      ¬ WireOrder s 0 := by
  have hnot {s : System} {frames : List Frame} (hwritten : (s.conns 0).written = frames) (hpong : pong ∈ frames)
      (hlast : frames.getLast? ≠ some pong) : ¬ WireOrder s 0 := by
    rintro ⟨horder, -⟩
    rw [hwritten] at horder
    exact hlast (horder.getLast? hpong)
  exact ⟨⟨_, rfl, rfl, hnot rfl (by decide) (by decide)⟩, ⟨_, rfl, rfl, hnot rfl (by decide) (by decide)⟩⟩

end Reverse
