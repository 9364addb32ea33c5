import Phaethon.Reverse.Life

/-!
# A step of the system in the lives of the connections

Each step of the system keeps the books, and is a step in the life of each connection that it touches
(`Books.step`). Connections move when one is registered, taken by a call, received from a channel, unregistered or
given up; all other steps leave every connection where it is.
-/

namespace Reverse

open Custody Function List Option Reverse.System

section Moves

variable {s t : System} {place : ℕ → Option Place} {c m : ℕ} {ok : Bool}

/-! ## Handlers and watchers -/

theorem firstWaiter_sublist (calls : ℕ → Call) (waiters : List ℕ) :
    (firstWaiter calls waiters).2.Sublist waiters := by
  induction waiters with
  | nil => exact Sublist.refl _
  | cons m waiters ih =>
    rw [firstWaiter]
    split
    · exact sublist_cons_self _ _
    · exact ih.cons _

/-- The waiter that is found is in the list, has nothing in its channel and is not behind itself. -/
theorem firstWaiter_some {calls : ℕ → Call} {waiters : List ℕ} (hnodup : waiters.Nodup)
    (h : (firstWaiter calls waiters).1 = some m) :
    m ∈ waiters ∧ (calls m).channel = none ∧ m ∉ (firstWaiter calls waiters).2 := by
  induction waiters with
  | nil => cases h
  | cons n waiters ih =>
    obtain ⟨hn, hnodup⟩ := nodup_cons.mp hnodup
    rw [firstWaiter] at h ⊢
    split at h
    case isTrue hroom =>
      cases h
      rw [if_pos hroom]
      exact ⟨mem_cons_self, hroom, hn⟩
    case isFalse hfull =>
      rw [if_neg hfull]
      obtain ⟨hmem, hrest⟩ := ih hnodup h
      exact ⟨mem_cons_of_mem _ hmem, hrest⟩

/-- A registry changes, but for its idle list, and may lose waiters. -/
theorem Books.change (h : Books s place) {r : ℕ} {g : Registry}
    (hbottoms : g.bottoms.Perm (s.registries r).bottoms) (hsub : g.waiters.Sublist (s.registries r).waiters) :
    Books (s.setRegistry r g) place :=
  h.setRegistry (h.placed.perm hbottoms) h.fits (fun _ hm => .inl (hsub.subset hm)) ((h.nodup r).sublist hsub)

/-- `Unregister` takes the connection out of the idle list, if it is there. -/
theorem Books.unregister (h : Books s place) (c : ℕ) :
    ∃ place', Books (s.unregister (s.conns c).registry c) place' ∧ (∀ d, c ≠ d → place' d = place d) ∧
      s.spot (place' c) = (s.spot (place c)).unlisted := by
  by_cases hidle : place c = some (.idle (s.conns c).registry)
  · refine ⟨update place c none, h.setRegistry (h.placed.take hidle (Perm.refl _))
      (h.fits.update (h.fits.late hidle) (by simp)) (fun _ hm => .inl hm) (h.nodup _),
      fun d hd => update_of_ne hd.symm _ _, ?_⟩
    rw [update_self, hidle]
    rfl
  · have hnot : c ∉ (s.registries (s.conns c).registry).bottoms := fun hmem =>
      hidle ((h.placed.mem (.idle _) c).mp hmem)
    refine ⟨place, h.change (.of_eq (erase_of_not_mem hnot)) (.refl _), fun d _ => rfl, ?_⟩
    · cases hplace : place c with
      | none => rfl
      | some p =>
        cases p with
        | idle r =>
          have hown := h.fits.own r c hplace
          rw [hplace, hown] at hidle
          exact absurd rfl hidle
        | channel n => rfl
        | caller n =>
          change (s.calls n).progress.spot = (s.calls n).progress.spot.unlisted
          cases (s.calls n).progress <;> rfl

/-- `Register` hands the connection to the first waiter, or puts it into the idle list. -/
theorem Books.deliver (h : Books s place) (hchecked : (s.conns c).handler = .checked) :
    Follows s place (.handler c ok) (s.deliver c) := by
  have hplace : place c = none := h.fits.early c (by rw [hchecked]; rfl)
  have hbooks := h.setConn (c := c) (x := { s.conns c with handler := .greeting }) (.inl rfl) (by simp [Handler.early])
  have hlate : ((s.setConn c { s.conns c with handler := .greeting }).conns c).handler.early = false := by
    rw [conns_setConn]
    rfl
  have hother : ∀ d, c ≠ d → s.act d (.handler c ok) = none := fun d hd => if_neg hd
  have hsub := firstWaiter_sublist s.calls (s.registries (s.conns c).registry).waiters
  unfold System.deliver
  dsimp only
  rw [calls_setConn]
  cases hfirst : firstWaiter s.calls (s.registries (s.conns c).registry).waiters with
  | mk found waiters =>
  rw [hfirst] at hsub
  cases found with
  | none =>
    have hself : s.act c (.handler c ok) = some (.list (s.swept (s.conns c).registry)) := by
      simp [System.act, hchecked, hfirst]
    refine ⟨update place c (some (.idle (s.conns c).registry)),
      hbooks.setRegistry (hbooks.placed.put hplace (perm_append_singleton _ _))
        (hbooks.fits.update hlate ?_) (fun _ hm => .inl (hsub.subset hm)) ((h.nodup _).sublist hsub),
      projects_one hself hother ?_ fun d hd => ⟨s.conns_setConn_of_ne _ _ _ hd.symm, ?_⟩⟩
    · rintro r hr
      simpa using hr
    · rw [update_self, conns_setRegistry, conns_setConn]
      exact if_pos hchecked
    · rw [update_of_ne hd.symm]
      rfl
  | some m =>
    have hself : s.act c (.handler c ok) = some .hand := by
      simp [System.act, hchecked, hfirst]
    obtain ⟨hmem, hroom, hbehind⟩ := firstWaiter_some (h.nodup (s.conns c).registry)
      (by rw [hfirst] : (firstWaiter s.calls (s.registries (s.conns c).registry).waiters).1 = some m)
    rw [hfirst] at hbehind
    obtain ⟨hregistry, -, hprogress⟩ := h.waiters _ m hmem
    have hbooks' : Books _ place := hbooks.change (r := (s.conns c).registry)
      (g := { s.registries (s.conns c).registry with waiters, holder := none }) (.refl _) hsub
    refine ⟨update place c (some (.channel m)), hbooks'.setCall ?_ (hbooks'.fits.update hlate (by simp))
      (fun r hr => ?_) (fun _ _ => hprogress.imp id .inl), projects_one hself hother ?_
      fun d hd => ⟨s.conns_setConn_of_ne _ _ _ hd.symm, ?_⟩⟩
    · rw [contents_setCall]
      refine (hbooks'.placed.put hplace ?_).perm ?_
      · change [c].Perm (c :: (s.calls m).channel.toList)
        rw [hroom]
        exact Perm.refl _
      · exact Perm.refl _
    · by_cases hsame : r = (s.conns c).registry
      · subst hsame
        rw [registries_setRegistry] at hr
        exact absurd hr hbehind
      · rw [registries_setRegistry_of_ne _ _ _ _ hsame] at hr
        exact absurd ((h.waiters r m hr).1.symm.trans hregistry) hsame
    · have hgone : (s.calls m).progress.gone = false := by
        rcases hprogress with hprogress | hprogress <;> rw [hprogress] <;> rfl
      rw [update_self, spot_channel_setCall, conns_setCall, conns_setRegistry,
        conns_setConn]
      exact (if_pos hchecked).trans (by rw [← hgone])
    · rw [update_of_ne hd.symm]
      exact spot_setCall _ (fun _ => rfl) fun _ => rfl

/-- `Register` looks at `cancelCh`. -/
theorem Books.check (h : Books s place) (hregistering : (s.conns c).handler = .registering) :
    Follows s place (.handler c ok) (s.check c) := by
  have hplace : place c = none := h.fits.early c (by rw [hregistering]; rfl)
  have hself : s.act c (.handler c ok) = some (.check (s.registries (s.conns c).registry).cancelled) := by
    simp [System.act, hregistering]
  have hother : ∀ d, c ≠ d → s.act d (.handler c ok) = none := fun d hd => if_neg hd
  unfold System.check
  by_cases hcancelled : (s.registries (s.conns c).registry).cancelled = true
  · rw [if_pos hcancelled]
    refine ⟨place, h.setConn (.inl rfl) fun _ => hplace, projects_setConn hself hother ?_⟩
    exact (if_pos hregistering).trans (by rw [if_pos hcancelled])
  · rw [if_neg hcancelled]
    refine ⟨place, (h.change (g := { s.registries (s.conns c).registry with holder := some c }) (.refl _)
        (.refl _)).setConn (.inl rfl) fun _ => hplace,
      projects_one hself hother ?_ fun d hd => ⟨s.conns_setConn_of_ne _ _ _ hd.symm, rfl⟩⟩
    rw [conns_setConn]
    exact (if_pos hregistering).trans (by rw [if_neg hcancelled]; rfl)

theorem Books.handler (h : Books s place) (hstep : s.handler c ok = some t) : Follows s place (.handler c ok) t := by
  have hother : ∀ d, c ≠ d → s.act d (.handler c ok) = none := fun d hd => if_neg hd
  have hlocal (hself : s.act c (.handler c ok) = some (.handle ok))
      (hstep : ((s.conns c).handle ok).map (s.setConn c) = some t) :
      Follows s place (.handler c ok) t :=
    h.goroutine (f := fun x => x.handle ok) hstep hself hother (fun _ _ => rfl) nofun
  unfold System.handler at hstep
  dsimp only at hstep
  cases hhandler : (s.conns c).handler with
  | registering =>
    rw [hhandler] at hstep
    obtain ⟨-, ht⟩ := ite_none_right_eq_some.mp hstep
    cases ht
    exact h.check hhandler
  | checked =>
    rw [hhandler] at hstep
    cases hstep
    exact h.deliver hhandler
  | unregistering =>
    rw [hhandler] at hstep
    obtain ⟨-, ht⟩ := ite_none_right_eq_some.mp hstep
    cases ht
    obtain ⟨place', hbooks, hsame, hspot⟩ := h.unregister c
    have hself : s.act c (.handler c ok) = some .withdraw := by
      simp [System.act, hhandler]
    refine ⟨place', hbooks.setConn (.inl rfl) (by simp [Handler.early]), projects_one hself hother ?_ fun d hd =>
      ⟨s.conns_setConn_of_ne _ _ _ hd.symm, congrArg s.spot (hsame d hd)⟩⟩
    rw [conns_setConn]
    change _ = some (_, s.spot (place' c))
    rw [hspot]
    exact if_pos hhandler
  | absent | greeting | adding | watching | stopping | closing | done =>
    rw [hhandler] at hstep
    exact hlocal (by simp [System.act, hhandler]) hstep

theorem Books.watcher (h : Books s place) (hstep : s.watcher c = some t) : Follows s place (.watcher c) t := by
  have hother : ∀ d, c ≠ d → s.act d (.watcher c) = none := fun d hd => if_neg hd
  unfold System.watcher at hstep
  dsimp only at hstep
  by_cases hwatcher : (s.conns c).watcher = .unmatched
  · have hself : s.act c (.watcher c) = some .unlist := by
      simp [System.act, hwatcher]
    rw [hwatcher] at hstep
    obtain ⟨-, hstep⟩ := ite_none_right_eq_some.mp hstep
    have hlate : (s.conns c).handler.early = true → place c = none := h.fits.early c
    split at hstep
    case isTrue hmem =>
      cases hstep
      have hplace := (h.placed.mem (.idle _) c).mp hmem
      obtain ⟨place', hbooks, hsame, hspot⟩ := h.unregister c
      refine ⟨place', hbooks.setConn (.inl rfl) fun he => ?_, projects_one hself hother ?_ fun d hd =>
        ⟨s.conns_setConn_of_ne _ _ _ hd.symm, congrArg s.spot (hsame d hd)⟩⟩
      · exact absurd (hlate he) (by simp [hplace])
      · rw [conns_setConn]
        change _ = some (_, s.spot (place' c))
        rw [hspot, hplace]
        exact if_pos hwatcher
    case isFalse hmem =>
      cases hstep
      refine ⟨place, h.setConn (.inl rfl) hlate, projects_setConn hself hother ?_⟩
      have hspot : ∀ b, s.spot (place c) ≠ .idle b := by
        intro b hb
        obtain ⟨r, hr, -⟩ := s.spot_eq_idle hb
        have hown := h.fits.own r c hr
        exact hmem ((h.placed.mem (.idle _) c).mpr (hown ▸ hr))
      refine (if_pos hwatcher).trans ?_
      split
      case h_1 b hb => exact absurd hb (hspot b)
      case h_2 => rfl
  · have hself : s.act c (.watcher c) = some .watch := by
      simp [System.act, hwatcher]
    have hlocal : (s.conns c).watch.map (s.setConn c) = some t := by
      revert hstep hwatcher
      cases (s.conns c).watcher <;> simp
    exact h.goroutine hlocal hself hother (fun _ _ => rfl) nofun

/-! ## Calls -/

variable {k : Call} {d : ℕ} {l : Label}

section

variable (h : Books s place)

include h

theorem Books.held_iff : (s.calls m).progress.held = some d ↔ place d = some (.caller m) := by
  rw [← h.placed.mem]
  simp [contents]

theorem Books.channel_iff : (s.calls m).channel = some d ↔ place d = some (.channel m) := by
  rw [← h.placed.mem]
  simp [contents]

/-- A call that neither waits nor leaves has no waiter, and nothing in its channel if it did not return without a
connection. -/
theorem Books.unqueued {progress : Progress} (hprogress : (s.calls m).progress = progress)
    (hwaiting : progress ≠ .waiting) (hleaving : progress ≠ .leaving) (hreturned : progress ≠ .returned none) :
    (∀ r, m ∉ (s.registries r).waiters) ∧ (s.calls m).channel = none := by
  subst hprogress
  constructor
  · intro r hm
    rcases (h.waiters r m hm).2.2 with hprogress | hprogress
    · exact hwaiting hprogress
    · exact hleaving hprogress
  · refine eq_none_iff_forall_ne_some.mpr fun c hc => ?_
    rcases h.channels m c hc with hprogress | hprogress | hprogress
    · exact hwaiting hprogress
    · exact hleaving hprogress
    · exact hreturned hprogress

section

variable (hchannel : k.channel = (s.calls m).channel)

include hchannel

/-- A call goes on with the connection that it has, or without one. -/
theorem Books.placed_same
    (hheld : k.progress.held = (s.calls m).progress.held) : Placed (s.setCall m k).contents place := by
  rw [contents_setCall, hchannel, hheld]
  refine (h.placed.perm (Perm.refl _)).perm ?_
  exact Perm.refl _

/-- A call comes by a connection that was nowhere else. -/
theorem Books.placed_put
    (hfree : (s.calls m).progress.held = none) (hheld : k.progress.held = some c) (hplace : place c = none) :
    Placed (s.setCall m k).contents (update place c (some (.caller m))) := by
  rw [contents_setCall, hchannel, hheld]
  refine (h.placed.perm (Perm.refl _)).put hplace ?_
  change [c].Perm (c :: (s.calls m).progress.held.toList)
  rw [hfree]
  exact Perm.refl _

/-- A call gives its connection up. -/
theorem Books.placed_take (hhad : (s.calls m).progress.held = some c) (hheld : k.progress.held = none) :
    Placed (s.setCall m k).contents (update place c none) := by
  rw [contents_setCall, hchannel, hheld]
  refine (h.placed.perm (Perm.refl _)).take (h.held_iff.mp hhad) ?_
  change [].Perm ((s.calls m).progress.held.toList.erase c)
  rw [hhad]
  simp

end

/-- A call takes what is in its channel. -/
theorem Books.placed_receive (hchannel : (s.calls m).channel = some c)
    (hfree : (s.calls m).progress.held = none) (hempty : k.channel = none) (hheld : k.progress.held = some c) :
    Placed (s.setCall m k).contents (update place c (some (.caller m))) := by
  rw [contents_setCall, hempty, hheld]
  have htaken := h.placed.take (l := []) (h.channel_iff.mp hchannel) (by simp [contents, hchannel])
  have hput := htaken.put (k := .caller m) (l := [c]) (update_self _ _ _) (by
    simp [contents, hfree])
  rwa [update_idem] at hput

/-- The spot of a connection that the call does not have, nor in its channel. -/
theorem Books.spot_other (hheld : (s.calls m).progress.held ≠ some d)
    (hchannel : (s.calls m).channel ≠ some d) : (s.setCall m k).spot (place d) = s.spot (place d) :=
  s.spot_setCall (fun hplace => absurd (h.held_iff.mpr hplace) hheld)
    fun hplace => absurd (h.channel_iff.mpr hplace) hchannel

/-- A waiter is removed, and the call has no other one. -/
theorem Books.removeWaiter (m : ℕ) :
    Books (s.removeWaiter m) place ∧ ∀ r, m ∉ ((s.removeWaiter m).registries r).waiters := by
  have hsub := erase_sublist (a := m) (l := (s.registries (s.calls m).registry).waiters)
  refine ⟨h.change (.refl _) hsub, fun r hr => ?_⟩
  unfold System.removeWaiter at hr
  by_cases hsame : r = (s.calls m).registry
  · subst hsame
    rw [registries_setRegistry] at hr
    exact (h.nodup _).not_mem_erase hr
  · rw [s.registries_setRegistry_of_ne _ _ _ hsame] at hr
    exact hsame (h.waiters r m hr).1.symm

/-- `Match` takes the first connection of the idle list, or adds a waiter. -/
theorem Books.look (hlooking : (s.calls m).progress = .looking) :
    Follows s place (.caller m ok) (s.look m) := by
  have hheld : (s.calls m).progress.held = none := by rw [hlooking]; rfl
  obtain ⟨hwaiter, hempty⟩ := h.unqueued hlooking nofun nofun nofun
  unfold System.look
  dsimp only
  cases hbottoms : (s.registries (s.calls m).registry).bottoms with
  | nil =>
    have hact (d : ℕ) : s.act d (.caller m ok) = none := by
      simp [System.act, hlooking, hbottoms]
    have hcall : Books (s.setCall m { s.calls m with progress := .waiting, channel := none }) place :=
      h.setCall (h.placed_same hempty.symm hheld.symm) h.fits (fun r hr => absurd hr (hwaiter r)) (by simp)
    refine ⟨place, hcall.setRegistry (r := (s.calls m).registry) (hcall.placed.perm ?_) h.fits (fun n hn => ?_) ?_,
      projects_none hact fun d => ⟨rfl, h.spot_other (by simp [hheld]) (by simp [hempty])⟩⟩
    · change Perm _ (s.registries (s.calls m).registry).bottoms
      rw [hbottoms]
    · rcases mem_append.mp hn with hold | hnew
      · exact .inl hold
      · obtain rfl := mem_singleton.mp hnew
        rw [calls_setCall]
        exact .inr ⟨rfl, rfl, rfl⟩
    · refine nodup_append.mpr ⟨h.nodup _, by simp, fun n hn p hp => ?_⟩
      rintro rfl
      exact hwaiter _ (mem_singleton.mp hp ▸ hn)
  | cons c bottoms =>
    have hplace : place c = some (.idle (s.calls m).registry) :=
      (h.placed.mem _ c).mp (by simp [contents, hbottoms])
    have hself : s.act c (.caller m ok) = some .take := by
      simp [System.act, hlooking, hbottoms]
    have hother : ∀ d, c ≠ d → s.act d (.caller m ok) = none := fun d hd => by
      simp [System.act, hlooking, hbottoms, hd]
    dsimp only
    have hbooks : Books _ (update place c none) := h.setRegistry (r := (s.calls m).registry)
      (g := { s.registries (s.calls m).registry with bottoms })
      (h.placed.take hplace (by simp [contents, hbottoms])) (h.fits.update (h.fits.late hplace) (by simp))
      (fun _ hm => .inl hm) (h.nodup _)
    have hput := hbooks.placed_put (m := m) (c := c)
      (k := { s.calls m with progress := .handshake .listed .claim c }) rfl hheld rfl (update_self _ _ _)
    rw [update_idem] at hput
    refine ⟨update place c (some (.caller m)), hbooks.setCall hput
      (h.fits.update (h.fits.late hplace) (by simp)) (fun r hr => ?_) (by simp [hempty]),
      projects_one hself hother ?_ fun d hd => ⟨rfl, ?_⟩⟩
    · exact absurd hr ((hbooks.unqueued hlooking nofun nofun nofun).1 r)
    · rw [hplace, update_self, goOn, spot_caller_setCall]
      rfl
    · rw [update_of_ne hd.symm]
      exact h.spot_other (by simp [hheld]) (by simp [hempty])

/-- A call that gives up removes its waiter; what is in its channel by then stays there. -/
theorem Books.leave (hleaving : (s.calls m).progress = .leaving) :
    Follows s place (.caller m ok) ((s.removeWaiter m).goOn m (.returned none)) := by
  obtain ⟨hbooks, hwaiter⟩ := h.removeWaiter m
  have hheld : (s.calls m).progress.held = none := by rw [hleaving]; rfl
  refine ⟨place, hbooks.setCall (hbooks.placed_same rfl hheld.symm) h.fits (fun r hr => absurd hr (hwaiter r))
    (by simp), fun d => ?_⟩
  by_cases hchannel : (s.calls m).channel = some d
  · have hact : s.act d (.caller m ok) = some .lose := by
      simp [System.act, hleaving, hchannel]
    rw [hact, h.channel_iff.mp hchannel]
    rw [goOn, spot_channel_setCall]
    change Life.step _ (.channel (s.calls m).progress.gone) _ = _
    rw [hleaving]
    rfl
  · have hact : s.act d (.caller m ok) = none := by
      simp [System.act, hleaving, hchannel]
    rw [hact]
    exact ⟨rfl, h.spot_other (by simp [hheld]) hchannel⟩

/-- A call that found a connection in its channel when it was to give up removes its waiter. -/
theorem Books.removed (hremoving : (s.calls m).progress = .removing c) :
    Follows s place (.caller m ok) ((s.removeWaiter m).goOn m (.handshake .drained .claim c)) := by
  obtain ⟨hbooks, hwaiter⟩ := h.removeWaiter m
  have hheld : (s.calls m).progress.held = some c := by rw [hremoving]; rfl
  have hempty := (h.unqueued hremoving nofun nofun nofun).2
  refine ⟨place, hbooks.setCall (hbooks.placed_same rfl hheld.symm) h.fits (fun r hr => absurd hr (hwaiter r))
    (fun d hd => absurd (hempty.symm.trans hd) (by simp)),
    projects_none (fun d => by simp [System.act, hremoving]) fun d => ⟨rfl, ?_⟩⟩
  exact s.spot_setCall (fun _ => by rw [hremoving]; rfl) fun _ => by rw [hremoving]; rfl

/-- A call that waits takes what is in its channel. -/
theorem Books.taken {progress : Progress} (hwaiting : (s.calls m).progress = .waiting)
    (hchannel : (s.calls m).channel = some c) (hheld : progress.held = some c) (hspot : progress.spot = .held .claim)
    (hself : s.act c l = some .take) (hother : ∀ d, c ≠ d → s.act d l = none) :
    Follows s place l (s.setCall m { s.calls m with progress, channel := none }) := by
  have hfree : (s.calls m).progress.held = none := by rw [hwaiting]; rfl
  have hplace := h.channel_iff.mp hchannel
  refine ⟨update place c (some (.caller m)),
    h.setCall (h.placed_receive hchannel hfree rfl hheld) (h.fits.update (h.fits.late hplace) (by simp))
      (fun r hr => absurd ((h.waiters r m hr).2.1.symm.trans hchannel) (by simp)) (by simp),
    projects_one hself hother ?_ fun d hd => ⟨rfl, ?_⟩⟩
  · rw [hplace, update_self, spot_caller_setCall, hspot]
    rfl
  · rw [update_of_ne hd.symm]
    exact h.spot_other (by simp [hfree]) (by simpa [hchannel] using hd)

theorem Books.receive (hstep : s.receive m = some t) : Follows s place (.receive m) t := by
  unfold System.receive at hstep
  split at hstep
  case h_1 c hwaiting hchannel =>
    cases hstep
    exact h.taken hwaiting hchannel rfl rfl (by simp [System.act, hchannel])
      fun d hd => by simp [System.act, hchannel, hd]
  case h_2 => cases hstep

/-- A call that waits without a connection is told to give up. -/
theorem Books.goLeave (hwaiting : (s.calls m).progress = .waiting)
    (hact : ∀ d, s.act d l = none) : Follows s place l (s.goOn m .leaving) := by
  have hheld : (s.calls m).progress.held = none := by rw [hwaiting]; rfl
  have hspot (d : ℕ) : (s.goOn m .leaving).spot (place d) = s.spot (place d) :=
    s.spot_setCall (fun hplace => absurd (h.held_iff.mpr hplace) (by simp [hheld])) fun _ => by rw [hwaiting]; rfl
  refine ⟨place, h.setCall (h.placed_same rfl hheld.symm) h.fits (fun r hr => ?_) (fun _ _ => .inr (.inl rfl)),
    projects_none hact fun d => ⟨rfl, hspot d⟩⟩
  obtain ⟨hregistry, hchannel, -⟩ := h.waiters r m hr
  exact ⟨hregistry, hchannel, .inr rfl⟩

theorem Books.cancel (hstep : s.cancel m = some t) : Follows s place (.cancel m) t := by
  obtain ⟨⟨hwaiting, -⟩, hstep⟩ := ite_none_right_eq_some.mp hstep
  cases hchannel : (s.calls m).channel with
  | some c =>
    rw [hchannel] at hstep
    cases hstep
    exact h.taken hwaiting hchannel rfl rfl (by simp [System.act, hchannel])
      fun d hd => by simp [System.act, hchannel, hd]
  | none =>
    rw [hchannel] at hstep
    cases hstep
    exact h.goLeave hwaiting fun d => by simp [System.act, hchannel]

theorem Books.timeout (hstep : s.timeout m = some t) : Follows s place (.timeout m) t := by
  obtain ⟨hwaiting, hstep⟩ := ite_none_right_eq_some.mp hstep
  cases hstep
  exact h.goLeave hwaiting fun _ => rfl

/-- A new call. -/
theorem Books.call (habsent : (s.calls m).progress = .absent) :
    Follows s place (.call m) (s.setCall m ⟨s.current, .looking, none⟩) := by
  have hheld : (s.calls m).progress.held = none := by rw [habsent]; rfl
  obtain ⟨hwaiter, hempty⟩ := h.unqueued habsent nofun nofun nofun
  exact ⟨place, h.setCall (h.placed_same hempty.symm hheld.symm) h.fits (fun r hr => absurd hr (hwaiter r)) (by simp),
    projects_none (fun _ => rfl) fun d => ⟨rfl, h.spot_other (by simp [hheld]) (by simp [hempty])⟩⟩

/-- A call goes on with its connection, which it may give up. -/
theorem Books.goShake {way : Way} {stage : Stage} {progress : Progress} {x : ManagedConn}
    (hprogress : (s.calls m).progress = .handshake way stage c)
    (hlife : Life.step (s.conns c) (.held stage) (.shake ok way) =
      some (x, if progress.held = some c then progress.spot else .away))
    (hheld : progress.held = some c ∨ progress.held = none) :
    Follows s place (.caller m ok) ((s.setConn c x).goOn m progress) := by
  have hhad : (s.calls m).progress.held = some c := by rw [hprogress]; rfl
  have hplace := h.held_iff.mp hhad
  obtain ⟨hwaiter, hempty⟩ := h.unqueued hprogress nofun nofun nofun
  have hself : s.act c (.caller m ok) = some (.shake ok way) := by
    simp [System.act, hprogress]
  have hother : ∀ d, c ≠ d → s.act d (.caller m ok) = none := fun d hd => by
    simp [System.act, hprogress, hd]
  obtain ⟨hregistry, hearly⟩ := (lives_of_step hlife).kept nofun
  have hbooks : Books (s.setConn c x) place := h.setConn (.inl hregistry) fun he => h.fits.early c (hearly he)
  have hlate := hbooks.fits.late hplace
  have hspot : s.spot (place c) = .held stage := by
    rw [hplace]
    change (s.calls m).progress.spot = _
    rw [hprogress]
    rfl
  rcases hheld with hkept | hgone
  · refine ⟨place, hbooks.setCall (hbooks.placed_same rfl (hkept.trans hhad.symm)) hbooks.fits
      (fun r hr => absurd hr (hwaiter r)) (fun d hd => absurd (hempty.symm.trans hd) (by simp)),
      projects_one hself hother ?_ fun d hd => ⟨s.conns_setConn_of_ne _ _ _ hd.symm, ?_⟩⟩
    · rw [hspot, hlife, if_pos hkept, hplace, goOn, spot_caller_setCall, conns_setCall,
        conns_setConn]
    · exact h.spot_other (by simpa [hhad] using hd) (by simp [hempty])
  · refine ⟨update place c none, hbooks.setCall (hbooks.placed_take rfl hhad hgone)
      (hbooks.fits.update hlate (by simp)) (fun r hr => absurd hr (hwaiter r))
      (fun d hd => absurd (hempty.symm.trans hd) (by simp)),
      projects_one hself hother ?_ fun d hd => ⟨s.conns_setConn_of_ne _ _ _ hd.symm, ?_⟩⟩
    · rw [hspot, hlife, if_neg (by simp [hgone]), update_self, goOn, conns_setCall,
        conns_setConn]
      rfl
    · rw [update_of_ne hd.symm]
      exact h.spot_other (by simpa [hhad] using hd) (by simp [hempty])

/-- A stage of a call, and what follows on it. -/
theorem Books.shake {way : Way} {stage : Stage} {x : ManagedConn} {next : Option Stage}
    (hprogress : (s.calls m).progress = .handshake way stage c) (hshake : (s.conns c).shake ok stage = some (x, next))
    (hstep : (s.setConn c x).follow m way stage c next = some t) : Follows s place (.caller m ok) t := by
  have hlife : Life.step (s.conns c) (.held stage) (.shake ok way) = some (x, .after way stage next) := by
    simp only [Life.step, hshake, map_some]
  have hgo {progress : Progress} (hheld : progress.held = some c ∨ progress.held = none)
      (hspot : (if progress.held = some c then progress.spot else .away) = Spot.after way stage next) :
      Follows s place (.caller m ok) ((s.setConn c x).goOn m progress) :=
    h.goShake hprogress (by rw [hlife, hspot]) hheld
  unfold follow at hstep
  split at hstep
  case h_1 =>
    split at hstep
    case h_1 =>
      cases hstep
      exact hgo (.inr rfl) (by simp [Progress.held, Spot.after])
    case h_2 hway =>
      cases hstep
      have hway : way ≠ .drained := hway
      exact hgo (.inl rfl) (by simp [Progress.held, Progress.spot, Spot.after, hway])
  case h_2 =>
    cases hstep
    exact hgo (.inl rfl) (by simp [Progress.held, Progress.spot, Spot.after])
  case h_3 =>
    split at hstep
    case h_1 =>
      obtain ⟨-, hstep⟩ := ite_none_right_eq_some.mp hstep
      cases hstep
      -- the connection is with the call, so that there is nothing to unregister
      have hnot : c ∉ (s.registries (s.calls m).registry).bottoms := fun hmem => by
        have hidle := (h.placed.mem (.idle _) c).mp hmem
        rw [h.held_iff.mp (by rw [hprogress]; rfl)] at hidle
        cases hidle
      have hbooks : Books (s.unregister (s.calls m).registry c) place :=
        h.change (.of_eq (erase_of_not_mem hnot)) (.refl _)
      have hheld : (if way = .listed then Progress.looking else .returned none).held = none := by
        split <;> rfl
      have hleft : Life.step (s.conns c) (.held .unregister) (.shake ok way) = some (x, if
          (if way = .listed then Progress.looking else .returned none).held = some c then
            (if way = .listed then Progress.looking else .returned none).spot else .away) := by
        rw [hlife, hheld]
        rfl
      obtain ⟨place', hbooks', hprojects⟩ := hbooks.goShake hprogress hleft (.inr hheld)
      refine ⟨place', hbooks', fun d => ?_⟩
      have hact : (s.unregister (s.calls m).registry c).act d (.caller m ok) = s.act d (.caller m ok) := by
        simp [System.act, System.unregister, hprogress]
      have hd := hprojects d
      rw [hact] at hd
      exact hd
    case h_2 hstage =>
      cases hstep
      have hstage : stage ≠ .unregister := hstage
      exact hgo (.inl rfl) (by simp [Progress.held, Progress.spot, Spot.after, hstage])

theorem Books.caller (hstep : s.caller m ok = some t) : Follows s place (.caller m ok) t := by
  unfold System.caller at hstep
  dsimp only at hstep
  split at hstep
  case h_1 hprogress =>
    obtain ⟨-, hstep⟩ := ite_none_right_eq_some.mp hstep
    cases hstep
    exact h.look hprogress
  case h_2 hprogress =>
    obtain ⟨-, hstep⟩ := ite_none_right_eq_some.mp hstep
    cases hstep
    exact h.leave hprogress
  case h_3 c hprogress =>
    obtain ⟨-, hstep⟩ := ite_none_right_eq_some.mp hstep
    cases hstep
    exact h.removed hprogress
  case h_4 hprogress =>
    split at hstep
    case h_1 x next hshake => exact h.shake hprogress hshake hstep
    case h_2 => cases hstep
  all_goals cases hstep

/-! ## `Refresh` -/

/-- The unmatched connections of the old registry are closed. -/
theorem Books.sweep (hrefresh : s.refresh = some false) (ht : t = { s with
      refresh := some true
      conns := fun c =>
        if c ∈ (s.registries (s.current - 1)).bottoms ∧ (s.conns c).matched = false then (s.conns c).close
        else s.conns c }) : Follows s place .refresh t := by
  have hcurrent := h.refreshed (by simp [hrefresh])
  have hconn (d : ℕ) : (t.conns d).registry = (s.conns d).registry ∧ (t.conns d).handler = (s.conns d).handler := by
    rw [ht]
    dsimp only
    split <;> exact ⟨rfl, rfl⟩
  refine ⟨place, ?_, fun d => ?_⟩
  · have hfits : Fits t.conns place :=
      ⟨fun r d hd => (hconn d).1.trans (h.fits.own r d hd), fun d hd => h.fits.early d ((hconn d).2 ▸ hd)⟩
    subst ht
    exact ⟨h.placed, hfits, h.waiters, h.nodup, h.channels, fun _ => hcurrent, fun d => (hconn d).1 ▸ h.known d⟩
  · by_cases hd : d ∈ (s.registries (s.current - 1)).bottoms
    · have hplace : place d = some (.idle (s.current - 1)) := (h.placed.mem (.idle _) d).mp hd
      have hact : s.act d .refresh = some .sweep := if_pos ⟨hrefresh, hd⟩
      have hbefore : s.spot (place d) = .idle false := by
        rw [hplace]
        simp [spot, System.swept, hrefresh]
        omega
      have hafter : t.spot (place d) = .idle true := by
        rw [hplace, ht]
        simp [spot, System.swept]
        omega
      rw [hact]
      rw [hbefore, hafter, ht]
      cases hmatched : (s.conns d).matched <;> simp [Life.step, hd, hmatched]
    · have hact : s.act d .refresh = none := if_neg fun hboth => hd hboth.2
      rw [hact]
      refine ⟨by rw [ht]; exact if_neg fun hboth => hd hboth.1, ?_⟩
      cases hplace : place d with
      | none => rfl
      | some p =>
        cases p with
        | idle r =>
          have hne : r ≠ s.current - 1 := by
            rintro rfl
            exact hd ((h.placed.mem (.idle _) d).mpr hplace)
          have hnot : r + 1 ≠ s.current := by omega
          simp [spot, System.swept, ht, hnot]
        | channel n => rw [ht]; rfl
        | caller n => rw [ht]; rfl

theorem Books.refresh (hstep : s.refreshStep = some t) : Follows s place .refresh t := by
  unfold refreshStep at hstep
  cases hrefresh : s.refresh with
  | none =>
    rw [hrefresh] at hstep
    cases hstep
    have hswept (r : ℕ) : System.swept { s with current := s.current + 1, refresh := some false } r = s.swept r := by
      simp only [System.swept, hrefresh, decide_eq_decide]
      simp
      omega
    refine ⟨place, ⟨h.placed, h.fits, h.waiters, h.nodup, h.channels, fun _ => Nat.succ_pos _,
        fun c => Nat.le_succ_of_le (h.known c)⟩,
      projects_none (fun d => if_neg (by simp [hrefresh])) fun d => ⟨rfl, ?_⟩⟩
    exact spot_congr hswept rfl _
  | some gone =>
    cases gone with
    | false =>
      rw [hrefresh] at hstep
      obtain ⟨-, hstep⟩ := ite_none_right_eq_some.mp hstep
      exact h.sweep hrefresh (Option.some.inj hstep).symm
    | true =>
      rw [hrefresh] at hstep
      cases hstep
      have hcancelled : Books (s.setRegistry (s.current - 1)
          { s.registries (s.current - 1) with cancelled := true }) place := h.change (.refl _) (.refl _)
      refine ⟨place, ⟨hcancelled.placed, h.fits, hcancelled.waiters, hcancelled.nodup, h.channels, by simp,
        h.known⟩,
        projects_none (fun d => if_neg (by simp [hrefresh])) fun d => ⟨rfl, ?_⟩⟩
      apply spot_congr
      · intro r
        simp [System.swept, System.setRegistry, hrefresh]
      · rfl

end

end Moves

/-- A step of the system keeps the books, and is a step in the life of each connection that it touches. -/
theorem Books.step {s t : System} {place : ℕ → Option Place} {l : Label} (h : Books s place)
    (hstep : s.step l = some t) : Follows s place l t := by
  cases l with
  | arrive c =>
    obtain ⟨⟨habsent, -⟩, hstep⟩ := ite_none_right_eq_some.mp hstep
    cases hstep
    have hplace : place c = none := h.fits.early c (by rw [habsent]; rfl)
    exact ⟨place, h.setConn (.inr ⟨hplace, rfl⟩) fun _ => hplace,
      projects_setConn (if_pos rfl) (fun d hd => if_neg hd) (if_pos habsent)⟩
  | handler c ok => exact h.handler hstep
  | tick c => exact h.goroutine hstep (if_pos rfl) (fun d hd => if_neg hd) (fun _ _ => rfl) nofun
  | beat c ok =>
    exact h.goroutine (f := fun x => x.beat ok) hstep (if_pos rfl) (fun d hd => if_neg hd) (fun _ _ => rfl) nofun
  | hush c => exact h.goroutine hstep (if_pos rfl) (fun d hd => if_neg hd) (fun _ _ => rfl) nofun
  | idle c stale =>
    exact h.goroutine (f := fun x => x.idle stale) hstep (if_pos rfl) (fun d hd => if_neg hd) (fun _ _ => rfl) nofun
  | readEnd c => exact h.goroutine hstep (if_pos rfl) (fun d hd => if_neg hd) (fun _ _ => rfl) nofun
  | watcher c => exact h.watcher hstep
  | call m =>
    obtain ⟨⟨habsent, -⟩, hstep⟩ := ite_none_right_eq_some.mp hstep
    cases hstep
    exact h.call habsent
  | caller m ok => exact h.caller hstep
  | receive m => exact h.receive hstep
  | cancel m => exact h.cancel hstep
  | timeout m => exact h.timeout hstep
  | refresh => exact h.refresh hstep

theorem Books.init : Books System.init fun _ => none where
  placed := by
    have hempty : System.init.contents = fun _ => [] := by
      funext p
      cases p <;> rfl
    rw [hempty]
    exact Placed.empty
  fits := ⟨fun _ _ h => (nomatch h), fun _ _ => rfl⟩
  waiters _ _ h := nomatch h
  nodup _ := nodup_nil
  channels _ _ h := nomatch h
  refreshed h := absurd rfl h
  known _ := Nat.le_refl _

/-- What holds throughout the life of each connection holds in every run. -/
theorem invariant_of_life {ok : System → Label → Prop} {allowed : ManagedConn → Spot → Act → Prop}
    {inv : ManagedConn → Spot → Prop} (hinit : inv .absent .away)
    (hok : ∀ s place l c a, Books s place → ok s l → s.act c l = some a →
      allowed (s.conns c) (s.spot (place c)) a)
    (hstep : ∀ x p a y q, inv x p → allowed x p a → Life.step x p a = some (y, q) → inv y q)
    {labels : List Label} {s : System} (hcareful : Lts.Always step ok .init labels)
    (hrun : Lts.exec step .init labels = some s) :
    ∃ place, Books s place ∧ ∀ c, inv (s.conns c) (s.spot (place c)) := by
  have hsystem : ∀ s l t, (∃ place, Books s place ∧ ∀ c, inv (s.conns c) (s.spot (place c))) → ok s l →
      s.step l = some t → ∃ place, Books t place ∧ ∀ c, inv (t.conns c) (t.spot (place c)) := by
    rintro s l t ⟨place, hbooks, hinv⟩ hl ht
    obtain ⟨place', hbooks', hprojects⟩ := hbooks.step ht
    refine ⟨place', hbooks', fun c => ?_⟩
    have hc := hprojects c
    cases hact : s.act c l with
    | none =>
      rw [hact] at hc
      rw [hc.1, hc.2]
      exact hinv c
    | some a =>
      rw [hact] at hc
      exact hstep _ _ a _ _ (hinv c) (hok s place l c a hbooks hl hact) hc
  exact Lts.exec_invariant hsystem ⟨fun _ => none, Books.init, fun _ => hinit⟩ hcareful hrun

end Reverse
