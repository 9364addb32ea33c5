import Phaethon.P2P.Stripe

/-!
# Stripe lanes: sticky flows

`pickLanePinned` looks a flow up in the affinity table and writes the table in a second critical section, after
`pickLane` has compared weights that may have changed since. With one sender nothing comes between the two, so the
first lane that is written for a flow is where all its frames go, as long as the table is not dropped.
-/

namespace Stripe

open Function List

open P2P (flowHash32)

/-! ## Runs without changes of the lanes -/

/-- The call is not under way. -/
def Call.atRest : Call → Bool
  | .idle | .returned _ => true
  | _ => false

/-- The step is one of a single sender, and neither changes the lanes nor meets a full or dead lane nor a full table. -/
def Settled (s : State) : Label → Prop
  | .send _ _ => ∀ v, (s.calls v).atRest = true
  | .call u _ =>
      match s.calls u with
      | .offer l _ _ _ => (s.queue l).length < stripeLaneQueueDepth ∧ s.done l = false
      | .resolve _ _ _ _ => s.affinity.entries.length < stripeAffinityCap
      | _ => True
  | .writer l _ => ∀ next, s.writer l ≠ .failed next
  | .probe _ | .close => True
  | .attach _ | .start _ | .remove _ _ | .removal _ => False

/-- The frames that a step of a call hands over, each with the lane it goes to, or none for the primary. -/
def Call.hands : Call → Choice → List (Frame × Option ℕ)
  | .primary frames _, .result _ | .fallback frames _ _, .result _ => frames.map (·, none)
  | .offer l batch _ _, .push | .wait l batch _ _, .push => batch.map (·, some l)
  | _, _ => []

/-- The transport, with the frames handed over so far and where each went. -/
def routed (salt : UInt32) : State × List (Frame × Option ℕ) → Label → Option (State × List (Frame × Option ℕ)) :=
  Lts.recorded (step salt) fun s label _ sent =>
    match label with
    | .call u c => sent ++ (s.calls u).hands c
    | _ => sent

/-- Splittable frames of one flow, with a key other than zero, went to one place. -/
def Sticky (salt : UInt32) (sent : List (Frame × Option ℕ)) : Prop :=
  ∀ e ∈ sent, ∀ d ∈ sent, splittable e.1 → splittable d.1 → flowHash32 salt e.1.payload ≠ 0 →
    flowHash32 salt d.1.payload = flowHash32 salt e.1.payload → d.2 = e.2

/-! ## What the table says -/

variable (salt : UInt32) (lanes : List ℕ) (table : AList fun _ : UInt32 => Option ℕ)

/-- Where a frame goes is what the table says of its flow. -/
def Pinned (e : Frame × Option ℕ) : Prop :=
  splittable e.1 → flowHash32 salt e.1.payload ≠ 0 →
    lanes = [] ∧ e.2 = none ∨
      lanes ≠ [] ∧ table.lookup (flowHash32 salt e.1.payload) = some e.2 ∧ ∀ l ∈ e.2, l ∈ lanes

def Parts.assigned (p : Parts) : List (Frame × Option ℕ) :=
  p.primary.map (·, none) ++ p.perLane.flatMap fun e => e.2.map (·, some e.1)

/-- The frames of a call that have a lane. -/
def Call.assigned : Call → List (Frame × Option ℕ)
  | .split _ _ parts | .resolve _ _ _ parts => parts.assigned
  | .primary frames perLane => Parts.assigned ⟨frames, perLane⟩
  | .lanes perLane _ => Parts.assigned ⟨[], perLane⟩
  | .offer l batch perLane _ => batch.map (·, some l) ++ Parts.assigned ⟨[], perLane⟩
  | _ => []

/-- What a call knows while it runs: its lanes are the lanes, and the flow it resolves is not in the table. -/
def Call.Sound : Call → Prop
  | .split known _ _ => known = lanes ∧ lanes ≠ []
  | .resolve known f _ _ => known = lanes ∧ lanes ≠ [] ∧ splittable f ∧ table.lookup (flowHash32 salt f.payload) = none
  | .wait .. | .repin .. | .fallback .. => False
  | _ => True

/-- One call is under way at most, and all that was handed over or has a lane went by the table. -/
structure Bound (calls : ℕ → Call) (sent : List (Frame × Option ℕ)) : Prop where
  sole : ∀ u v, (calls u).atRest = false → (calls v).atRest = false → u = v
  sent : ∀ e ∈ sent, Pinned salt lanes table e
  calls : ∀ u, (calls u).Sound salt lanes table ∧ ∀ e ∈ (calls u).assigned, Pinned salt lanes table e

variable {salt lanes table} {calls : ℕ → Call} {sent : List (Frame × Option ℕ)} {u : ℕ} {pc : Call}

theorem Bound.sticky (h : Bound salt lanes table calls sent) : Sticky salt sent := by
  intro e he d hd hse hsd hkey heq
  rcases h.sent e he hse hkey with ⟨hnone, he⟩ | ⟨hsome, he, -⟩
  · rcases h.sent d hd hsd (heq ▸ hkey) with ⟨-, hd⟩ | ⟨hsome, -⟩
    · rw [hd, he]
    · exact absurd hnone hsome
  · rcases h.sent d hd hsd (heq ▸ hkey) with ⟨hnone, -⟩ | ⟨-, hd, -⟩
    · exact absurd hnone hsome
    · exact Option.some.inj (hd.symm.trans (heq ▸ he))

variable {e : Frame × Option ℕ}

/-- A write for a flow that is in the table with no lane of the set, or not at all, changes nothing for other frames. -/
theorem Pinned.of_other {key : UInt32} {table' : AList fun _ : UInt32 => Option ℕ}
    (h : Pinned salt lanes table e) (hother : ∀ k ≠ key, table'.lookup k = table.lookup k)
    (hstale : ∀ d, table.lookup key = some d → ∃ l ∈ d, l ∉ lanes) : Pinned salt lanes table' e := by
  intro hsplit hkey
  rcases h hsplit hkey with hnone | ⟨hsome, hfound, hmem⟩
  · exact .inl hnone
  · refine .inr ⟨hsome, ?_, hmem⟩
    rw [hother _ ?_, hfound]
    rintro rfl
    obtain ⟨l, hl, hnot⟩ := hstale _ hfound
    exact hnot (hmem l hl)

variable {f : Frame}

theorem mem_appendTo {l : ℕ} {perLane : List (ℕ × List Frame)} :
    e ∈ (appendTo l f perLane).flatMap (fun e => e.2.map (·, some e.1)) ↔
      e = (f, some l) ∨ e ∈ perLane.flatMap fun e => e.2.map (·, some e.1) := by
  induction perLane with
  | nil => simp [appendTo]
  | cons p rest ih =>
    rw [appendTo]
    split
    case isTrue hl =>
      simp only [hl, flatMap_cons, map_append, map_cons, map_nil, mem_append, mem_singleton]
      tauto
    case isFalse =>
      rw [flatMap_cons, flatMap_cons, mem_append, mem_append, ih]
      tauto

theorem Parts.mem_assigned_add {p : Parts} {o : Option ℕ} :
    e ∈ (p.add f o).assigned ↔ e = (f, o) ∨ e ∈ p.assigned := by
  cases o with
  | none =>
    simp only [add, assigned, map_append, mem_append, map_cons, map_nil, mem_singleton]
    tauto
  | some l =>
    simp only [add, assigned, mem_append, mem_appendTo]
    tauto

/-! ## Steps -/

theorem Call.sound_of_atRest (h : pc.atRest = true) :
    pc.Sound salt lanes table ∧ ∀ e ∈ pc.assigned, Pinned salt lanes table e := by
  cases pc with
  | idle => exact ⟨trivial, nofun⟩
  | returned err => exact ⟨trivial, nofun⟩
  | _ => cases h

/-- A call goes on while the others rest: what is pinned stays so, and the next point is sound. -/
theorem Bound.goto {table' : AList fun _ : UInt32 => Option ℕ} {more : List (Frame × Option ℕ)}
    (h : Bound salt lanes table calls sent) (hother : ∀ v ≠ u, (calls v).atRest = true)
    (hpin : ∀ {e}, Pinned salt lanes table e → Pinned salt lanes table' e) (hsound : pc.Sound salt lanes table')
    (hassigned : ∀ e ∈ pc.assigned, Pinned salt lanes table' e) (hmore : ∀ e ∈ more, Pinned salt lanes table' e) :
    Bound salt lanes table' (update calls u pc) (sent ++ more) := by
  refine ⟨fun v w hv hw => ?_, fun e he => ?_, fun v => ?_⟩
  · have hself {v : ℕ} (hv : (update calls u pc v).atRest = false) : v = u := by
      by_contra hne
      rw [update_of_ne hne, hother v hne] at hv
      cases hv
    rw [hself hv, hself hw]
  · rcases mem_append.mp he with he | he
    · exact hpin (h.sent e he)
    · exact hmore e he
  · by_cases hv : v = u
    · subst hv
      rw [update_self]
      exact ⟨hsound, hassigned⟩
    · rw [update_of_ne hv]
      exact Call.sound_of_atRest (hother v hv)

/-- A step that neither hands over frames nor writes the table. -/
theorem Bound.next (h : Bound salt lanes table calls sent) (hother : ∀ v ≠ u, (calls v).atRest = true)
    (hsound : pc.Sound salt lanes table) (hassigned : ∀ e ∈ pc.assigned, Pinned salt lanes table e) :
    Bound salt lanes table (update calls u pc) (sent ++ []) :=
  h.goto hother id hsound hassigned nofun

variable {s t : State}

/-- The next frame goes where the table says. -/
theorem forall_mem_add {parts : Parts} {o : Option ℕ} (hf : Pinned salt lanes table (f, o))
    (hparts : ∀ e ∈ parts.assigned, Pinned salt lanes table e) :
    ∀ e ∈
    (parts.add f o).assigned, Pinned salt lanes table e := by
  intro e he
  rcases Parts.mem_assigned_add.mp he with rfl | he
  · exact hf
  · exact hparts e he

variable {c : Choice}

theorem atRest_of_callStep (h : callStep salt s u c = some t) : (s.calls u).atRest = false := by
  cases hpc : s.calls u with
  | idle => simp [callStep, hpc] at h
  | returned err => simp [callStep, hpc] at h
  | _ => rfl

theorem callStep_bound (h : Bound salt s.lanes s.affinity s.calls sent) (hok : Settled s (.call u c))
    (hstep : callStep salt s u c = some t) : Bound salt t.lanes t.affinity t.calls (sent ++ (s.calls u).hands c) := by
  obtain ⟨hsound, hassigned⟩ := h.calls u
  have hu : ∀ v ≠ u, (s.calls v).atRest = true := by
    intro v hv
    by_contra hactive
    exact hv (h.sole v u (by simpa using hactive) (atRest_of_callStep hstep))
  unfold callStep at hstep
  simp only [Settled] at hok
  split at hstep
  case h_1 frames hpc =>
    rw [hpc]
    split at hstep <;> cases hstep
    case isTrue hnone =>
      refine h.next hu trivial fun e he => ?_
      obtain ⟨f, -, rfl⟩ := mem_map.mp (mem_append.mp he |>.resolve_right nofun)
      exact fun _ _ => .inl ⟨hnone, rfl⟩
    case isFalse hsome => exact h.next hu ⟨rfl, hsome⟩ nofun
  case h_2 known parts hpc =>
    rw [hpc] at hassigned ⊢
    refine Option.some.inj hstep ▸ h.next hu (by split <;> trivial) fun e he => hassigned e ?_
    split at he
    case isTrue hnone => exact mem_append_right _ (mem_append.mp he |>.resolve_left nofun)
    case isFalse => exact he
  case h_3 known f todo parts hpc =>
    rw [hpc] at hsound hassigned ⊢
    obtain ⟨rfl, hsome⟩ := hsound
    split at hstep
    case isTrue hsplit =>
      split at hstep
      case h_1 hfound =>
        exact Option.some.inj hstep ▸
          h.next hu ⟨rfl, hsome⟩ (forall_mem_add (fun _ _ => .inr ⟨hsome, hfound, nofun⟩) hassigned)
      case h_2 l hfound =>
        split at hstep
        case isTrue hmem =>
          refine Option.some.inj hstep ▸ h.next hu ⟨rfl, hsome⟩ (forall_mem_add (fun _ _ => .inr ⟨hsome, hfound, ?_⟩) hassigned)
          intro k hk
          exact Option.some.inj hk ▸ hmem
        case isFalse hgone =>
          have hpin {e} (he : Pinned salt s.lanes s.affinity e) :
              Pinned salt s.lanes (s.affinity.erase (flowHash32 salt f.payload)) e :=
            he.of_other (fun k hk => AList.lookup_erase_ne hk) fun d hd =>
              ⟨l, Option.some.inj (hfound.symm.trans hd) ▸ rfl, hgone⟩
          exact Option.some.inj hstep ▸
            h.goto hu hpin ⟨rfl, hsome, hsplit, AList.lookup_erase _ _⟩ (fun e he => hpin (hassigned e he)) nofun
      case h_3 hfound =>
        exact Option.some.inj hstep ▸ h.next hu ⟨rfl, hsome, hsplit, hfound⟩ hassigned
    case isFalse hsplit =>
      exact Option.some.inj hstep ▸ h.next hu ⟨rfl, hsome⟩ (forall_mem_add (fun hf => absurd hf hsplit) hassigned)
  case h_4 known f todo parts o hpc =>
    rw [hpc] at hsound hassigned hok ⊢
    obtain ⟨rfl, hsome, hsplit, hfound⟩ := hsound
    split at hstep
    case isTrue hmem =>
      unfold State.pin at hstep
      split at hstep
      case isTrue hzero =>
        exact Option.some.inj hstep ▸ h.next hu ⟨rfl, hsome⟩ (forall_mem_add (fun _ hne => absurd hzero hne) hassigned)
      case isFalse hne =>
        rw [if_neg (by simpa using hok)] at hstep
        have hpin {e} (he : Pinned salt s.lanes s.affinity e) :
            Pinned salt s.lanes (s.affinity.insert (flowHash32 salt f.payload) o) e :=
          he.of_other (fun k hk => AList.lookup_insert_ne hk) fun d hd => absurd (hfound.symm.trans hd) nofun
        exact Option.some.inj hstep ▸ h.goto hu hpin ⟨rfl, hsome⟩
          (forall_mem_add (fun _ _ => .inr ⟨hsome, AList.lookup_insert _, hmem⟩) fun e he => hpin (hassigned e he)) nofun
    case isFalse => cases hstep
  case h_5 frames perLane err hpc =>
    rw [hpc] at hassigned ⊢
    exact Option.some.inj hstep ▸ h.goto hu id trivial (fun e he => hassigned e (mem_append_right _ he))
      fun e he => hassigned e (mem_append_left _ he)
  case h_6 perLane err l hpc =>
    rw [hpc] at hassigned ⊢
    split at hstep <;> cases hstep
    case h_1 e hfind =>
      have hperm := (perm_cons_erase (mem_of_find?_eq_some hfind)).flatMap_right
        fun e : ℕ × List Frame => e.2.map (·, some e.1)
      exact h.next hu trivial fun d hd => hassigned d (hperm.mem_iff.mpr hd)
  case h_7 err hpc =>
    rw [hpc]
    exact Option.some.inj hstep ▸ h.next hu trivial nofun
  case h_8 l batch perLane err hpc =>
    rw [hpc] at hassigned ⊢
    split at hstep <;> cases hstep
    exact h.goto hu id trivial (fun e he => hassigned e (mem_append_right _ he))
      fun e he => hassigned e (mem_append_left _ he)
  case h_9 l batch perLane err hpc =>
    rw [hpc] at hok
    simp [hok.2] at hstep
  case h_10 hpc =>
    rw [hpc]
    split at hstep <;> cases hstep
    exact h.next hu trivial nofun
  case h_11 l batch perLane err hpc =>
    rw [hpc] at hok
    simp [hok.1.not_ge] at hstep
  case h_18 => cases hstep
  all_goals
    rename_i hpc
    rw [hpc] at hsound
    exact hsound.elim

/-- A writer that has not failed touches neither the lanes nor the table. -/
theorem writerStep_frame {l : ℕ} (hok : ∀ next, s.writer l ≠ .failed next) (h : writerStep s l c = some t) :
    t.lanes = s.lanes ∧ t.affinity = s.affinity ∧ t.calls = s.calls := by
  unfold writerStep at h
  split at h
  case h_6 next hpc => exact absurd hpc (hok next)
  all_goals
    (try split at h) <;> first | exact Option.some.inj h ▸ ⟨rfl, rfl, rfl⟩ | cases h

theorem step_bound {r r' : State × List (Frame × Option ℕ)} {label : Label}
    (h : Bound salt r.1.lanes r.1.affinity r.1.calls r.2) (hok : Settled r.1 label)
    (hstep : routed salt r label = some r') : Bound salt r'.1.lanes r'.1.affinity r'.1.calls r'.2 := by
  obtain ⟨s, sent⟩ := r
  obtain ⟨t, sent'⟩ := r'
  obtain ⟨hstep, rfl⟩ := Lts.recorded_eq_some.mp hstep
  cases label with
  | send u frames =>
    obtain ⟨-, heq⟩ := Option.ite_none_right_eq_some.mp hstep
    exact Option.some.inj heq ▸ append_nil sent ▸ h.next (fun v _ => hok v) trivial nofun
  | call u c => exact callStep_bound h hok hstep
  | writer l c =>
    obtain ⟨hlanes, haffinity, hcalls⟩ := writerStep_frame hok hstep
    exact hlanes ▸ haffinity ▸ hcalls ▸ h
  | probe l =>
    obtain ⟨-, heq⟩ := Option.ite_none_right_eq_some.mp hstep
    exact Option.some.inj heq ▸ h
  | close => exact Option.some.inj hstep ▸ h
  | attach l => exact hok.elim
  | start l => exact hok.elim
  | remove g l => exact hok.elim
  | removal g => exact hok.elim

/-- With one sender and lanes that stay, the splittable frames of a flow all go to one lane or all to the primary. -/
theorem flows_sticky (salt : UInt32) (s t : State) (hrest : ∀ u, (s.calls u).atRest = true) (labels : List Label)
    (sent : List (Frame × Option ℕ)) (hok : Lts.Always (routed salt) (fun s => Settled s.1) (s, []) labels)
    (hrun : Lts.exec (routed salt) (s, []) labels = some (t, sent)) : Sticky salt sent := by
  have hstart : Bound salt s.lanes s.affinity s.calls [] :=
    ⟨fun u v hu => absurd hu (by simp [hrest u]), nofun, fun u => Call.sound_of_atRest (hrest u)⟩
  have hstep (r : State × List (Frame × Option ℕ)) (label : Label) (r' : State × List (Frame × Option ℕ))
      (h : (fun r => Bound salt r.1.lanes r.1.affinity r.1.calls r.2) r) (hok : Settled r.1 label)
      (hstep : routed salt r label = some r') : (fun r => Bound salt r.1.lanes r.1.affinity r.1.calls r.2) r' :=
    step_bound h hok hstep
  exact (Lts.exec_invariant hstep hstart hok hrun).sticky

/-- Two packets of one flow in one call, with one lane. -/
def twoPackets : List Label :=
  [.send 0 (List.replicate 2 (0x20, 0x45 :: List.replicate 19 1)), .call 0 .next, .call 0 .next, .call 0 (.lane (some 1)),
    .call 0 .next, .call 0 .next, .call 0 (.lane (some 1)), .call 0 .push, .call 0 .next]

theorem flows_sticky_twoPackets :
    ∃ t sent, Lts.exec (routed 7) ({ lanes := [1] }, []) twoPackets = some (t, sent) ∧
      sent.map Prod.snd = [some 1, some 1] ∧ flowHash32 7 (0x45 :: List.replicate 19 1) ≠ 0 ∧ Sticky 7 sent :=
  ⟨_, _, rfl, rfl, by decide, flows_sticky 7 { lanes := [1] } _ (fun _ => rfl) twoPackets _
    ⟨fun _ => rfl, trivial, trivial, (by decide : 0 < stripeAffinityCap), trivial, trivial, trivial,
      ⟨(by decide : 0 < stripeLaneQueueDepth), rfl⟩, trivial, trivial⟩ rfl⟩

end Stripe
