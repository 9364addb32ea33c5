import Phaethon.Common.Custody
import Phaethon.P2P.Stripe

/-!
# Stripe lanes: where frames go

While the session is open every frame is with its call, in a queue that is still read, with a writer or with a
transport, once (`Kept`), as long as no frame is left behind: in a write that fails, or in the queue of a lane whose
writer has stopped (`Spares`). Such a frame is not sent again.
-/

namespace Stripe

open Custody Function List Option Batch Prod Writer
open P2P (flowHash32)

attribute [local simp] State.contents

variable {salt : UInt32} {s t : State} {u l : ℕ}

/-! ## Frames of a call -/

/-- The frames of a call that may go to a lane. -/
def Call.onLanes : Call → List Frame
  | .split _ _ parts => parts.perLane.flatMap snd
  | .resolve _ f _ parts => f :: parts.perLane.flatMap snd
  | .primary _ perLane => perLane.flatMap snd
  | .lanes perLane _ => perLane.flatMap snd
  | .offer _ batch perLane _ => batch ++ perLane.flatMap snd
  | .wait _ batch perLane _ => batch ++ perLane.flatMap snd
  | .repin _ perLane _ => perLane.flatMap snd
  | .fallback _ perLane _ => perLane.flatMap snd
  | .idle | .snapshot _ | .returned _ => []

/-- The lane and the batch that a call offers it. -/
def Call.offered : Call → Option (ℕ × List Frame)
  | .offer l batch _ _ => some (l, batch)
  | .wait l batch _ _ => some (l, batch)
  | _ => .none

theorem appendTo_perm (l : ℕ) (f : Frame) (perLane : List (ℕ × List Frame)) :
    ((appendTo l f perLane).flatMap snd).Perm (f :: perLane.flatMap snd) := by
  induction perLane with
  | nil => simp [appendTo]
  | cons e rest ih =>
    obtain ⟨k, frames⟩ := e
    rw [appendTo]
    split
    · simp
    · simpa using (ih.append_left frames).trans perm_middle

theorem Parts.add_perm (p : Parts) (f : Frame) (l : Option ℕ) : (p.add f l).frames.Perm (f :: p.frames) := by
  cases l with
  | none => simp [add, frames]
  | some l => exact ((appendTo_perm l f p.perLane).append_left p.primary).trans perm_middle

variable {f : Frame}

theorem Parts.add_lanes {p : Parts} {g : Frame} {l : Option ℕ}
    (hg : g ∈ (p.add f l).perLane.flatMap snd) : g ∈ p.perLane.flatMap snd ∨ g = f ∧ l.isSome := by
  cases l with
  | none => exact .inl hg
  | some l =>
    rcases mem_cons.mp ((appendTo_perm l f p.perLane).mem_iff.mp hg) with rfl | hg
    · exact .inr ⟨rfl, rfl⟩
    · exact .inl hg

/-! ## Steps of a call -/

/-- What holds of the next point of a call. -/
structure Next (s : State) (u : ℕ) (pc : Call) : Prop where
  begun : pc ≠ .idle
  lanes : ∀ f ∈ pc.onLanes, f ∈ (s.calls u).onLanes ∨ splittable f = true

/-- What a step of a call does to the frames: it keeps them, hands some to the primary transport or to a lane, or
gives up because the session is closed. -/
inductive CallEffect (s : State) (u : ℕ) (c : Choice) : State → Prop where
  | keep {pc : Call} (hnext : Next s u pc) (hheld : (s.calls u).held.Perm pc.held)
      (hpush : c ≠ .push) (affinity : AList fun _ : UInt32 => Option ℕ) :
      CallEffect s u c { s with calls := update s.calls u pc, affinity }
  | base {pc : Call} {batch : List Frame} (hnext : Next s u pc)
      (hheld : (s.calls u).held.Perm (batch ++ pc.held)) (hpush : c ≠ .push) :
      CallEffect s u c { s with calls := update s.calls u pc, base := s.base ++ batch }
  | push {pc : Call} {l : ℕ} {batch : List Frame} (hnext : Next s u pc)
      (hheld : (s.calls u).held.Perm (batch ++ pc.held)) (hpush : c = .push)
      (hoffer : (s.calls u).offered = some (l, batch)) (hlanes : ∀ f ∈ batch, f ∈ (s.calls u).onLanes) :
      CallEffect s u c
        { s with
          calls := update s.calls u pc
          queue := update s.queue l (s.queue l ++ [.data batch]) }
  | closed {t : State} (hclosed : s.closed = true) (hclosed' : t.closed = true) : CallEffect s u c t

theorem pin_eq (s : State) (key : UInt32) (l : Option ℕ) : ∃ affinity, s.pin key l = { s with affinity } := by
  unfold State.pin
  split
  · exact ⟨_, rfl⟩
  · split
    · exact ⟨_, rfl⟩
    · exact ⟨_, rfl⟩

theorem repinPrimary_eq (salt : UInt32) (s : State) (batch : List Frame) :
    ∃ affinity, repinPrimary salt s batch = { s with affinity } := by
  unfold repinPrimary
  induction batch generalizing s with
  | nil => exact ⟨_, rfl⟩
  | cons f batch ih =>
    rw [foldl_cons]
    split
    · exact ih s
    · obtain ⟨affinity, heq⟩ := ih { s with affinity := s.affinity.insert (flowHash32 salt f.payload) .none }
      exact ⟨affinity, heq⟩

variable {c : Choice}

/-- A frame finds its transport. -/
theorem CallEffect.place {lanes : List ℕ} {todo : List Frame} {parts : Parts} {o : Option ℕ}
    (affinity : AList fun _ : UInt32 => Option ℕ) (hheld : (s.calls u).held = f :: todo ++ parts.frames)
    (hlanes : ∀ g ∈ parts.perLane.flatMap snd, g ∈ (s.calls u).onLanes)
    (hf : o.isSome → f ∈ (s.calls u).onLanes ∨ splittable f = true) (hpush : c ≠ .push) :
    CallEffect s u c { s with calls := update s.calls u (.split lanes todo (parts.add f o)), affinity } := by
  refine .keep ⟨by simp, fun g hg => ?_⟩ ?_ hpush affinity
  · rcases Parts.add_lanes hg with hg | ⟨rfl, ho⟩
    · exact .inl (hlanes g hg)
    · exact hf ho
  · rw [hheld, Call.held]
    exact perm_middle.symm.trans ((parts.add_perm f o).symm.append_left todo)

variable {pc : Call}

/-- The call keeps its frames, and no more of them than before may go to a lane. -/
theorem CallEffect.goto {old : Call} {affinity : AList fun _ : UInt32 => Option ℕ}
    (hpc : s.calls u = old) (hlanes : ∀ f ∈ pc.onLanes, f ∈ old.onLanes) (hheld : old.held.Perm pc.held := by rfl)
    (hbegun : pc ≠ .idle := by simp) (hpush : c ≠ .push := by simp) :
    CallEffect s u c { s with calls := update s.calls u pc, affinity } := by
  subst hpc
  exact .keep ⟨hbegun, fun f hf => .inl (hlanes f hf)⟩ hheld hpush affinity

/-- A batch goes into the queue of its lane. -/
theorem CallEffect.pushed {old : Call} {batch : List Frame} {perLane : List (ℕ × List Frame)} {err : Bool}
    (hpc : s.calls u = old) (hlanes : old.onLanes = batch ++ perLane.flatMap snd)
    (hheld : old.held = batch ++ perLane.flatMap snd) (hoffer : old.offered = some (l, batch)) :
    CallEffect s u .push
      { s with
        calls := update s.calls u (.lanes perLane err)
        queue := update s.queue l (s.queue l ++ [.data batch]) } := by
  subst hpc
  refine .push ⟨by simp, fun f hf => .inl ?_⟩ (by rw [hheld]; rfl) rfl hoffer fun f hf => ?_
  · rw [hlanes]
    exact mem_append_right _ hf
  · rw [hlanes]
    exact mem_append_left _ hf

theorem callStep_effect (h : callStep salt s u c = some t) : CallEffect s u c t := by
  unfold callStep at h
  split at h
  case h_1 frames hpc =>
    split at h <;> cases h
    · exact .goto hpc (by simp [Call.onLanes]) (by simp [Call.held])
    · exact .goto hpc (by simp [Call.onLanes]) (by simp [Call.held, Parts.frames])
  case h_2 lanes parts hpc =>
    cases h
    refine .goto hpc (fun f hf => ?_) ?_ (by split <;> simp)
    · split at hf <;> exact hf
    · split
      case isTrue hnone => simp [Call.held, Parts.frames, hnone]
      case isFalse => exact .rfl
  case h_3 lanes f todo parts hpc =>
    have hheld : (s.calls u).held = f :: todo ++ parts.frames := by rw [hpc]; rfl
    have hlanes : ∀ g ∈ parts.perLane.flatMap snd, g ∈ (s.calls u).onLanes := by rw [hpc]; exact fun g hg => hg
    split at h
    case isTrue hsplit =>
      -- The frame stays with the call while `pickLane` runs.
      have hresolve : Next s u (.resolve lanes f todo parts) := by
        refine ⟨by simp, fun g hg => ?_⟩
        rcases mem_cons.mp hg with rfl | hg
        · exact .inr hsplit
        · exact .inl (hlanes g hg)
      split at h
      · exact Option.some.inj h ▸ .place _ hheld hlanes (by simp) (by simp)
      · split at h <;> cases h
        · exact .place _ hheld hlanes (fun _ => .inr hsplit) (by simp)
        · exact .keep hresolve (by rw [hheld]; rfl) (by simp) _
      · exact Option.some.inj h ▸ .keep hresolve (by rw [hheld]; rfl) (by simp) _
    case isFalse => exact Option.some.inj h ▸ .place _ hheld hlanes (by simp) (by simp)
  case h_4 lanes f todo parts o hpc =>
    split at h
    · obtain ⟨affinity, heq⟩ := pin_eq s (flowHash32 salt f.payload) o
      rw [heq] at h
      refine Option.some.inj h ▸ .place affinity (by rw [hpc]; rfl) (fun g hg => ?_) (fun _ => .inl ?_) (by simp)
      · rw [hpc]; exact mem_cons_of_mem f hg
      · rw [hpc]; exact mem_cons_self
    · cases h
  case h_5 frames perLane err hpc =>
    refine Option.some.inj h ▸ .base ⟨by simp, fun f hf => .inl ?_⟩ ?_ (by simp)
    · rw [hpc]; exact hf
    · rw [hpc]; exact .rfl
  case h_6 perLane err l hpc =>
    split at h <;> cases h
    case h_1 e hfind =>
      have hperm := (perm_cons_erase (mem_of_find?_eq_some hfind)).flatMap_right snd
      exact .goto hpc (fun f hf => hperm.mem_iff.mpr hf) hperm
  case h_7 err hpc =>
    cases h
    exact .goto hpc (by simp [Call.onLanes])
  case h_8 l batch perLane err hpc =>
    split at h <;> cases h
    exact .pushed hpc rfl rfl rfl
  case h_9 l batch perLane err hpc =>
    split at h <;> cases h
    exact .goto hpc fun f => mem_append_right _
  case h_10 hpc =>
    split at h <;> cases h
    case isTrue hclosed => exact .closed hclosed hclosed
  case h_11 l batch perLane err hpc =>
    split at h <;> cases h
    exact .goto hpc fun _ => id
  case h_12 l batch perLane err hpc =>
    split at h <;> cases h
    exact .pushed hpc rfl rfl rfl
  case h_13 l batch perLane err hpc =>
    split at h <;> cases h
    exact .goto hpc fun f => mem_append_right _
  case h_14 l batch perLane err hpc =>
    cases h
    exact .goto hpc fun f => mem_append_right _
  case h_15 hpc =>
    split at h <;> cases h
    case isTrue hclosed => exact .closed hclosed hclosed
  case h_16 batch perLane err hpc =>
    obtain ⟨affinity, heq⟩ := repinPrimary_eq salt s batch
    rw [heq] at h
    cases h
    exact .goto hpc fun _ => id
  case h_17 batch perLane err err' hpc =>
    cases h
    refine .base ⟨by simp, fun f hf => .inl ?_⟩ (by rw [hpc]; exact .rfl) (by simp)
    rw [hpc]; exact hf
  case h_18 => cases h

/-! ## Steps -/

/-- What a step does to the frames. -/
inductive Effect (s : State) : Label → State → Prop where
  | send {u : ℕ} {frames : List (UInt8 × List UInt8)} (hidle : s.calls u = .idle) :
      Effect s (.send u frames)
        { s with
          calls := update s.calls u (.snapshot (numbered u frames))
          given := s.given ++ numbered u frames }
  | call {u : ℕ} {c : Choice} {t : State} (heffect : CallEffect s u c t) : Effect s (.call u c) t
  | take {l : ℕ} {batch : Batch} {rest : List Batch} (hwriter : s.writer l = .select)
      (hqueue : s.queue l = batch :: rest) :
      Effect s (.writer l .next)
        { s with
          queue := update s.queue l rest
          writer := update s.writer l (.sending batch) }
  | wrote {l : ℕ} {batch : Batch} (hwriter : s.writer l = .sending batch) :
      Effect s (.writer l (.result false))
        { s with
          written := update s.written l (s.written l ++ batch.frames)
          writer := update s.writer l .select }
  | fail {l : ℕ} {batch : Batch} (hwriter : s.writer l = .sending batch) :
      Effect s (.writer l (.result true)) { s with writer := update s.writer l (.failed .detach) }
  | leave {l : ℕ} (hwriter : s.writer l = .select) :
      Effect s (.writer l .done) { s with writer := update s.writer l .stopped }
  | other {lb : Label} {t : State} (hcalls : t.calls = s.calls) (hgiven : t.given = s.given)
      (hqueue : ∀ l, (t.queue l).flatMap frames = (s.queue l).flatMap frames)
      (hheld : ∀ l, (t.writer l).held = (s.writer l).held) (hgone : ∀ l, (t.writer l).gone = (s.writer l).gone)
      (hbase : t.base = s.base) (hwritten : t.written = s.written)
      (hclosed : t.closed = s.closed) (hlabel : ∀ l, lb ≠ .writer l (.result true) ∧ lb ≠ .writer l .done)
      (hcall : ∀ u c, lb ≠ .call u c) : Effect s lb t
  | close : Effect s .close { s with closed := true }
  | closed {lb : Label} {t : State} (hclosed : s.closed = true) (hclosed' : t.closed = true) : Effect s lb t

variable {w : Writer}

/-- A writer goes on without a frame. -/
theorem update_writer (hheld : w.held = (s.writer l).held) (hgone : w.gone = (s.writer l).gone) (m : ℕ) :
    (update s.writer l w m).held = (s.writer m).held ∧
      (update s.writer l w m).gone = (s.writer m).gone := by
  by_cases hm : m = l
  · subst hm
    rw [update_self]
    exact ⟨hheld, hgone⟩
  · rw [update_of_ne hm]
    exact ⟨rfl, rfl⟩

theorem removalStep_eq (s : State) (l : ℕ) (next : Removal) :
    ∃ lanes affinity done, (removalStep s l next).1 = { s with lanes, affinity, done } := by
  cases next <;> exact ⟨_, _, _, rfl⟩

variable {lb : Label}

/-- A step that touches no frame. -/
theorem Effect.quiet {lanes : List ℕ} {affinity : AList fun _ : UInt32 => Option ℕ} {done : ℕ → Bool}
    {writer : ℕ → Writer} {removals : ℕ → Option (ℕ × Removal)}
    (hwriter : ∀ m, (writer m).held = (s.writer m).held ∧ (writer m).gone = (s.writer m).gone := by
      exact fun _ => ⟨rfl, rfl⟩)
    (hlabel : ∀ l, lb ≠ .writer l (.result true) ∧ lb ≠ .writer l .done := by simp)
    (hcall : ∀ u c, lb ≠ .call u c := by simp) :
    Effect s lb { s with lanes, affinity, done, writer, removals } :=
  .other rfl rfl (fun _ => rfl) (fun m => (hwriter m).1) (fun m => (hwriter m).2) rfl rfl rfl hlabel hcall

theorem writerStep_effect (h : writerStep s l c = some t) : Effect s (.writer l c) t := by
  unfold writerStep at h
  dsimp only at h
  split at h
  case h_1 hwriter =>
    split at h <;> cases h
    exact .leave hwriter
  case h_2 hwriter =>
    split at h <;> cases h
    case isTrue hclosed => exact .closed hclosed hclosed
  case h_3 hwriter =>
    split at h <;> cases h
    case h_2 batch rest hqueue => exact .take hwriter hqueue
  case h_4 batch hwriter =>
    cases h
    exact .wrote hwriter
  case h_5 batch hwriter =>
    cases h
    exact .fail hwriter
  case h_6 next hwriter =>
    obtain ⟨lanes, affinity, done, heq⟩ := removalStep_eq s l next
    rw [heq] at h
    cases h
    refine .quiet (update_writer ?_ ?_)
    all_goals
      rw [hwriter]
      split <;> rfl
  case h_7 => cases h

theorem step_effect (h : step salt s lb = some t) : Effect s lb t := by
  cases lb with
  | send u frames =>
    obtain ⟨hidle, h⟩ := ite_none_right_eq_some.mp h
    cases h
    exact .send hidle
  | call u c => exact .call (callStep_effect h)
  | attach l | start l =>
    obtain ⟨hwriter, h⟩ := ite_none_right_eq_some.mp h
    cases h
    exact .quiet (update_writer (by rw [hwriter]; rfl) (by rw [hwriter]; rfl))
  | writer l c => exact writerStep_effect h
  | remove g l =>
    obtain ⟨-, h⟩ := ite_none_right_eq_some.mp h
    cases h
    exact .quiet
  | removal g =>
    simp only [step] at h
    split at h
    case h_1 l next _ =>
      obtain ⟨lanes, affinity, done, heq⟩ := removalStep_eq s l next
      rw [heq] at h
      cases h
      exact .quiet
    case h_2 => cases h
  | probe l =>
    obtain ⟨-, h⟩ := ite_none_right_eq_some.mp h
    cases h
    refine .other rfl rfl (fun m => ?_) (fun _ => rfl) (fun _ => rfl) rfl rfl rfl (by simp) (by simp)
    by_cases hm : m = l
    · subst hm; simp [frames]
    · simp [hm]
  | close =>
    cases h
    exact .close

/-- A closed session stays closed. -/
theorem Effect.closed_eq (h : Effect s lb t) : t.closed = s.closed ∨ lb = .close ∧ t.closed = true := by
  cases h with
  | call heffect =>
    cases heffect with
    | closed hclosed hclosed' => exact .inl (hclosed'.trans hclosed.symm)
    | keep | base | push => exact .inl rfl
  | other _ _ _ _ _ _ _ hclosed => exact .inl hclosed
  | close => exact .inr ⟨rfl, rfl⟩
  | closed hclosed hclosed' => exact .inl (hclosed'.trans hclosed.symm)
  | send | take | wrote | fail | leave => exact .inl rfl

/-! ## The invariant -/

/-- Frames that may go to a lane are splittable, and so are those that are there. -/
structure Sorted (s : State) : Prop where
  calls : ∀ u, ∀ f ∈ (s.calls u).onLanes, splittable f = true
  queue : ∀ l, ∀ f ∈ (s.queue l).flatMap frames, splittable f = true
  writer : ∀ l, ∀ f ∈ (s.writer l).held, splittable f = true
  written : ∀ l, ∀ f ∈ s.written l, splittable f = true

/-- No frame is lost or sent twice, and no control or DNS frame goes to a lane. -/
structure Kept (s : State) : Prop where
  accounted : Accounted s.contents s.given
  lanes : ∀ l, ∀ f ∈ (s.queue l).flatMap frames ++ (s.writer l).held ++ s.written l, splittable f = true

/-- No frame is left behind: a write fails, or a writer leaves, with no frame, and no batch goes to a lane whose
writer has left. -/
def Spares (s : State) : Label → Prop
  | .call u .push => ∀ e ∈ (s.calls u).offered, (s.writer e.1).gone = true → e.2 = []
  | .writer l (.result true) => (s.writer l).held = [] ∧ (s.queue l).flatMap frames = []
  | .writer l .done => (s.queue l).flatMap frames = []
  | _ => True

/-- The condition on a step while the session is open. -/
def Careful (s : State) (lb : Label) : Prop := s.closed = false → Spares s lb

/-- The frames of calls are accounted for and sorted. -/
structure Sound (s : State) : Prop where
  accounted : Accounted s.contents s.given
  begun : ∀ f ∈ s.given, s.calls f.origin.1 ≠ .idle
  sorted : Sorted s

theorem nodup_numbered (u : ℕ) (frames : List (UInt8 × List UInt8)) : (numbered u frames).Nodup := by
  refine Nodup.of_map (fun f => f.origin.2) ?_
  have hindex : (numbered u frames).map (fun f => f.origin.2) = frames.zipIdx.map snd := map_map ..
  rw [hindex, zipIdx_map_snd]
  exact nodup_range'

theorem origin_numbered {frames : List (UInt8 × List UInt8)} (hf : f ∈ numbered u frames) : f.origin.1 = u := by
  obtain ⟨x, -, rfl⟩ := mem_map.mp hf
  rfl

/-- The point of a call changes. -/
theorem begun_update (hpc : pc ≠ .idle) (v : ℕ) (hv : s.calls v ≠ .idle) :
    update s.calls u pc v ≠ .idle := by
  by_cases huv : v = u
  · subst huv; rwa [update_self]
  · rwa [update_of_ne huv]

/-- A family changes at one index. -/
theorem splittable_update {β : Type} {g : ℕ → β} {b : β} (frames : β → List Frame)
    (h : ∀ m, ∀ f ∈ frames (g m), splittable f = true) (hb : ∀ f ∈ frames b, splittable f = true) (m : ℕ) :
    ∀ f ∈ frames (update g l b m), splittable f = true := by
  by_cases hm : m = l
  · subst hm; rwa [update_self]
  · rw [update_of_ne hm]; exact h m

theorem Sorted.next (h : Sorted s) (hnext : Next s u pc) : Sorted { s with calls := update s.calls u pc } :=
  { h with calls := splittable_update Call.onLanes h.calls fun f hf => (hnext.lanes f hf).elim (h.calls u f) id }

theorem Sorted.setQueue (h : Sorted s) {q : List Batch} (hq : ∀ f ∈ q.flatMap frames, splittable f = true) :
    Sorted { s with queue := update s.queue l q } :=
  { h with queue := splittable_update (flatMap frames) h.queue hq }

theorem Sorted.setWriter (h : Sorted s) (hw : ∀ f ∈ w.held, splittable f = true) :
    Sorted { s with writer := update s.writer l w } :=
  { h with writer := splittable_update held h.writer hw }

theorem Sorted.setWritten (h : Sorted s) {frames : List Frame} (hframes : ∀ f ∈ frames, splittable f = true) :
    Sorted { s with written := update s.written l frames } :=
  { h with written := splittable_update id h.written hframes }

section

variable (h : Sound s)

include h

theorem Sound.send {frames : List (UInt8 × List UInt8)} (hidle : s.calls u = .idle) :
    Sound
      { s with
        calls := update s.calls u (.snapshot (numbered u frames))
        given := s.given ++ numbered u frames } := by
  have hnew : ∀ f ∈ numbered u frames, f ∉ s.given := fun f hf hgiven =>
    h.begun f hgiven (by rw [origin_numbered hf, hidle])
  have hsorted : Sorted { s with calls := update s.calls u (.snapshot (numbered u frames)) } :=
    h.sorted.next ⟨by simp, by simp [Call.onLanes]⟩
  refine ⟨?_, fun f hf => ?_, { hsorted with }⟩
  · refine h.accounted.deposit (.call u) hnew (nodup_numbered u frames) ?_ fun k _ => ?_
    · simp [hidle, Call.held]
    · cases k <;> simp_all
  · rcases mem_append.mp hf with hf | hf
    · exact begun_update (by simp) _ (h.begun f hf)
    · rw [origin_numbered hf]; simp

theorem Sound.call (hspares : Spares s (.call u c)) (hopen : s.closed = false)
    (heffect : CallEffect s u c t) : Sound t := by
  cases heffect with
  | @keep pc hnext hheld affinity =>
    refine ⟨?_, fun f hf => begun_update hnext.begun _ (h.begun f hf), { h.sorted.next hnext with }⟩
    refine h.accounted.perm fun k => ?_
    by_cases hk : k = .call u
    · subst hk
      simpa using hheld.symm
    · cases k <;> simp_all
  | @base pc batch hnext hheld =>
    refine ⟨?_, fun f hf => begun_update hnext.begun _ (h.begun f hf), { h.sorted.next hnext with }⟩
    refine h.accounted.transfer (.call u) .base batch (by simp) ?_ perm_append_comm fun k _ _ => ?_
    · simpa using hheld
    · cases k <;> simp_all
  | @push pc l batch hnext hheld hpush hoffer hlanes =>
    refine ⟨?_, fun f hf => begun_update hnext.begun _ (h.begun f hf),
      (h.sorted.next hnext).setQueue fun f hf => ?_⟩
    · refine h.accounted.transfer (.call u) (.queue l) batch (by simp) ?_ ?_ fun k _ _ => ?_
      · simpa using hheld
      · cases hgone : (s.writer l).gone with
        | true =>
          subst hpush
          obtain rfl : batch = [] := hspares (l, batch) hoffer hgone
          simp [hgone]
        | false => simpa [hgone, frames] using perm_append_comm
      · cases k <;> simp_all
    · rw [flatMap_append, mem_append] at hf
      rcases hf with hf | hf
      · exact h.sorted.queue l f hf
      · exact h.sorted.calls u f (hlanes f (by simpa [frames] using hf))
  | closed hclosed => simp [hopen] at hclosed

/-- A writer takes a batch from its queue. -/
theorem Sound.take {batch : Batch} {rest : List Batch} (hwriter : s.writer l = .select)
    (hqueue : s.queue l = batch :: rest) :
    Sound
      { s with
        queue := update s.queue l rest
        writer := update s.writer l (.sending batch) } := by
  have hfrom (f : Frame) (hf : f ∈ batch.frames ∨ f ∈ rest.flatMap frames) : splittable f = true :=
    h.sorted.queue l f (by rw [hqueue, flatMap_cons]; exact mem_append.mpr hf)
  refine ⟨?_, h.begun,
    (h.sorted.setQueue fun f hf => hfrom f (.inr hf)).setWriter fun f hf => hfrom f (.inl hf)⟩
  refine h.accounted.transfer (.queue l) (.writer l) batch.frames (by simp) ?_ ?_ fun k _ _ => ?_
  · simp [hwriter, hqueue, gone]
  · simp [hwriter, held]
  · cases k <;> simp_all

/-- A lane's transport has written a batch. -/
theorem Sound.wrote {batch : Batch} (hwriter : s.writer l = .sending batch) :
    Sound
      { s with
        written := update s.written l (s.written l ++ batch.frames)
        writer := update s.writer l .select } := by
  refine ⟨?_, h.begun, (h.sorted.setWriter (by simp [held])).setWritten fun f hf => ?_⟩
  · refine h.accounted.transfer (.writer l) (.lane l) batch.frames (by simp) ?_ ?_ fun k _ _ => ?_
    · simp [hwriter, held]
    · simpa using perm_append_comm
    · by_cases hk : k = .queue l
      · simp [hk, hwriter, gone]
      · cases k <;> simp_all
  · rcases mem_append.mp hf with hf | hf
    · exact h.sorted.written l f hf
    · exact h.sorted.writer l f (by rw [hwriter]; exact hf)

/-- A writer stops and leaves no frame behind. -/
theorem Sound.stop (hgone : w.gone = true) (hheld : w.held = [])
    (hwriter : s.contents (.writer l) = []) (hqueue : s.contents (.queue l) = []) :
    Sound { s with writer := update s.writer l w } := by
  refine ⟨?_, h.begun, h.sorted.setWriter (by simp [hheld])⟩
  refine h.accounted.perm fun k => .of_eq ?_
  by_cases hk : k = .writer l ∨ k = .queue l
  · rcases hk with rfl | rfl <;> simp_all
  · cases k <;> simp_all

theorem Sound.other (hcalls : t.calls = s.calls) (hgiven : t.given = s.given)
    (hqueue : ∀ l, (t.queue l).flatMap frames = (s.queue l).flatMap frames)
    (hheld : ∀ l, (t.writer l).held = (s.writer l).held) (hgone : ∀ l, (t.writer l).gone = (s.writer l).gone)
    (hbase : t.base = s.base) (hwritten : t.written = s.written) : Sound t := by
  have hcontents : t.contents = s.contents := by
    funext k
    cases k <;> simp [hcalls, hqueue, hheld, hgone, hbase, hwritten]
  refine ⟨by rw [hcontents, hgiven]; exact h.accounted, by rw [hcalls, hgiven]; exact h.begun, ?_⟩
  exact ⟨by rw [hcalls]; exact h.sorted.calls, fun l => by rw [hqueue]; exact h.sorted.queue l,
    fun l => by rw [hheld]; exact h.sorted.writer l, by rw [hwritten]; exact h.sorted.written⟩

theorem Sound.step (hopen : s.closed = false) (hspares : Spares s lb)
    (heffect : Effect s lb t) (hopen' : t.closed = false) : Sound t := by
  cases heffect with
  | send hidle => exact h.send hidle
  | call heffect => exact h.call hspares hopen heffect
  | take hwriter hqueue => exact h.take hwriter hqueue
  | wrote hwriter => exact h.wrote hwriter
  | fail hwriter => exact h.stop rfl rfl hspares.1 (by simp [hspares.2])
  | @leave l hwriter =>
    have hqueue : (s.queue l).flatMap frames = [] := hspares
    exact h.stop rfl rfl (by simp [hwriter, held]) (by simp [hqueue])
  | other hcalls hgiven hqueue hheld hgone hbase hwritten =>
    exact h.other hcalls hgiven hqueue hheld hgone hbase hwritten
  | close => cases hopen'
  | closed hclosed => simp [hopen] at hclosed

/-! ## Lost frames -/

/-- A writer stops and leaves a frame behind. -/
theorem lost_of_stop (hgone : w.gone = true) (hheld : w.held = [])
    (hleft : s.contents (.writer l) ≠ [] ∨ s.contents (.queue l) ≠ []) :
    ¬ Kept { s with writer := update s.writer l w } := by
  intro hkept
  have hless (k : Holder) (f : Frame)
      (hf : f ∈ State.contents { s with writer := update s.writer l w } k) : f ∈ s.contents k := by
    by_cases hk : k = .writer l ∨ k = .queue l
    · rcases hk with rfl | rfl <;> simp [hgone, hheld] at hf
    · cases k <;> simp_all
  rcases hleft with hleft | hleft
  · obtain ⟨f, hf⟩ := exists_mem_of_ne_nil _ hleft
    exact h.accounted.not_of_lost hf (by simp [hheld]) hless hkept.accounted
  · obtain ⟨f, hf⟩ := exists_mem_of_ne_nil _ hleft
    exact h.accounted.not_of_lost hf (by simp [hgone]) hless hkept.accounted

/-- A batch goes to a lane whose writer has left. -/
theorem lost_of_push {batch : List Frame}
    (hheld : (s.calls u).held.Perm (batch ++ pc.held)) (hgone : (s.writer l).gone = true) (hbatch : batch ≠ []) :
    ¬ Kept
      { s with
        calls := update s.calls u pc
        queue := update s.queue l (s.queue l ++ [.data batch]) } := by
  intro hkept
  obtain ⟨f, hf⟩ := exists_mem_of_ne_nil _ hbatch
  have hnodup := (nodup_append.mp (hheld.nodup_iff.mp (h.accounted.nodup (.call u)))).2.2
  refine h.accounted.not_of_lost (k := .call u) (hheld.mem_iff.mpr (mem_append_left _ hf)) ?_ ?_ hkept.accounted
  · simpa using fun hrest => hnodup f hf f hrest rfl
  · intro k g hg
    by_cases hk : k = .queue l ∨ k = .call u
    · rcases hk with rfl | rfl
      · simp [hgone] at hg
      · exact hheld.mem_iff.mpr (mem_append_right _ (by simpa using hg))
    · cases k <;> simp_all

end

theorem spares_of_other (hlabel : ∀ l, lb ≠ .writer l (.result true) ∧ lb ≠ .writer l .done)
    (hcall : ∀ u, lb ≠ .call u .push) : Spares s lb := by
  unfold Spares
  split
  case h_1 u => exact absurd rfl (hcall u)
  case h_2 l => exact absurd rfl (hlabel l).1
  case h_3 l => exact absurd rfl (hlabel l).2
  case h_4 => trivial

theorem lost_of_not_spares (h : Sound s) (hopen : s.closed = false) (hspares : ¬ Spares s lb)
    (heffect : Effect s lb t) : ¬ Kept t := by
  cases heffect with
  | send | take | wrote | close => exact absurd trivial hspares
  | @call u c _ heffect =>
    cases heffect with
    | keep _ _ hpush | base _ _ hpush => exact absurd (spares_of_other (by simp) (by simpa using hpush)) hspares
    | push hnext hheld hpush hoffer =>
      subst hpush
      simp only [Spares, hoffer, mem_some_iff, forall_eq', not_forall] at hspares
      obtain ⟨hgone, hbatch⟩ := hspares
      exact lost_of_push h hheld hgone hbatch
    | closed hclosed => simp [hopen] at hclosed
  | @fail l batch hwriter =>
    refine lost_of_stop h rfl rfl ((not_and_or.mp hspares).imp id fun hqueue => ?_)
    simpa [hwriter, gone] using hqueue
  | @leave l hwriter =>
    refine lost_of_stop h rfl rfl (.inr ?_)
    simpa [hwriter, gone, Spares] using hspares
  | other _ _ _ _ _ _ _ _ hlabel hcall => exact absurd (spares_of_other hlabel fun u => hcall u .push) hspares
  | closed hclosed => simp [hopen] at hclosed

/-! ## Runs -/

theorem Sound.kept (h : Sound s) : Kept s := by
  refine ⟨h.accounted, fun l f hf => ?_⟩
  rcases mem_append.mp hf with hf | hf
  · rcases mem_append.mp hf with hf | hf
    · exact h.sorted.queue l f hf
    · exact h.sorted.writer l f hf
  · exact h.sorted.written l f hf

theorem Sound.init : Sound {} := by
  have hempty : ({} : State).contents = fun _ => [] := by
    funext k
    cases k <;> rfl
  refine ⟨by rw [hempty]; exact .empty, by simp, ?_, ?_, ?_, ?_⟩
  · simp [Call.onLanes]
  · simp
  · simp [held]
  · simp

instance (s : State) : ∀ lb, Decidable (Spares s lb)
  | .call _ .push => inferInstanceAs (Decidable (∀ e ∈ _, _ → _))
  | .writer _ (.result true) => inferInstanceAs (Decidable (_ ∧ _))
  | .writer _ .done => inferInstanceAs (Decidable (_ = _))
  | .call _ .next | .call _ (.lane _) | .call _ .done | .call _ .closed | .call _ .full | .call _ .timer
  | .call _ (.result _) | .writer _ .next | .writer _ (.lane _) | .writer _ .push | .writer _ .closed
  | .writer _ .full | .writer _ .timer | .writer _ (.result false) | .send .. | .attach _ | .start _ | .remove ..
  | .removal _ | .probe _ | .close => .isTrue trivial

instance (s : State) (lb : Label) : Decidable (Careful s lb) := inferInstanceAs (Decidable (_ → _))

/-- A run stays careful exactly if, while the session is open, no frame is lost or sent twice and no control or DNS
frame goes to a lane. -/
theorem kept_iff_careful (salt : UInt32) (labels : List Label) (s : State)
    (hrun : Lts.exec (step salt) {} labels = some s) :
    Lts.Always (step salt) Careful {} labels ↔
      ∀ ls, ls <+: labels → ∀ t, Lts.exec (step salt) {} ls = some t → t.closed = false → Kept t := by
  have hkeep (s : State) (lb : Label) (t : State) (h : s.closed = false → Sound s) (hcareful : Careful s lb)
      (hstep : step salt s lb = some t) (hopen' : t.closed = false) : Sound t := by
    have heffect := step_effect hstep
    have hopen : s.closed = false := by
      rcases heffect.closed_eq with hsame | ⟨-, hclosed⟩
      · rw [← hsame, hopen']
      · simp [hclosed] at hopen'
    exact (h hopen).step hopen (hcareful hopen) heffect hopen'
  have hlose (s : State) (lb : Label) (t : State) (h : s.closed = false → Sound s) (hcareful : ¬ Careful s lb)
      (hstep : step salt s lb = some t) : ¬ (t.closed = false → Kept t) := by
    intro hgood
    simp only [Careful, not_forall] at hcareful
    obtain ⟨hopen, hspares⟩ := hcareful
    have heffect := step_effect hstep
    have hopen' : t.closed = false := by
      rcases heffect.closed_eq with hsame | ⟨rfl, -⟩
      · rw [hsame, hopen]
      · exact absurd trivial hspares
    exact lost_of_not_spares (h hopen) hopen hspares heffect (hgood hopen')
  exact Lts.always_iff_exec hkeep (fun s h hopen => (h hopen).kept) hlose (fun _ => Sound.init) hrun

/-- A packet goes to a lane, which writes it, and a control frame to the primary transport. -/
def oneEach : List Label :=
  [.attach 0, .start 0, .send 0 [(0x20, [1]), (0x01, [])], .call 0 .next, .call 0 .next, .call 0 (.lane (some 0)),
    .call 0 .next, .call 0 .next, .call 0 (.result false), .call 0 (.lane (some 0)), .call 0 .push, .call 0 .next,
    .writer 0 .next, .writer 0 (.result false)]

theorem kept_iff_careful_oneEach :
    ∃ s, Lts.exec (step 7) {} oneEach = some s ∧ s.base = [⟨(0, 1), 0x01, []⟩] ∧
      s.written 0 = [⟨(0, 0), 0x20, [1]⟩] ∧ Kept s :=
  ⟨_, rfl, rfl, rfl, (kept_iff_careful 7 oneEach _ rfl).mp (by decide +kernel) oneEach (prefix_refl _) _ rfl rfl⟩

/-- A packet is in the queue of a lane when the lane's reader ends and the lane is removed. -/
def laneDies : List Label :=
  [.attach 0, .start 0, .send 0 [(0x20, [1])], .call 0 .next, .call 0 .next, .call 0 (.lane (some 0)), .call 0 .next,
    .call 0 (.lane (some 0)), .call 0 .push, .call 0 .next, .remove 0 0, .removal 0, .removal 0, .removal 0,
    .writer 0 .done]

/-- The call has returned without an error, and no transport was handed the packet. -/
theorem laneDies_loses :
    ∃ s, Lts.exec (step 7) {} laneDies = some s ∧ s.closed = false ∧ s.calls 0 = .returned false ∧
      s.given = [⟨(0, 0), 0x20, [1]⟩] ∧ s.base = [] ∧ (∀ l, s.written l = []) ∧ ¬ Kept s := by
  refine ⟨_, rfl, rfl, rfl, rfl, rfl, fun _ => rfl, fun hkept => ?_⟩
  obtain ⟨k, hk⟩ := hkept.accounted.somewhere ⟨(0, 0), 0x20, [1]⟩ mem_cons_self
  cases k with
  | call u => cases u <;> exact absurd hk not_mem_nil
  | queue l => cases l <;> exact absurd hk not_mem_nil
  | writer l => cases l <;> exact absurd hk not_mem_nil
  | base | lane l => exact absurd hk not_mem_nil

end Stripe
