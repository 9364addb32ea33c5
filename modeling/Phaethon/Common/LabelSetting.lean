import Mathlib.Algebra.Order.Monoid.Defs

/-!
# Label setting

The argument behind the algorithm of Dijkstra, for whatever it keeps besides distances. Weights are not negative,
and in every step a nearest vertex that is not done becomes done after its edges were relaxed (`Settled.step`). If
what is not done in the end is out of reach, no path is shorter than the distance to its end (`Settled.le_total`).
-/

namespace LabelSetting

open List Option

variable {V K : Type*} [AddCommMonoid K]

/-- The length of a path from a vertex over those in the list, if all its edges are there. -/
def total (w : V → V → Option K) : V → List V → Option K
  | _, [] => some 0
  | v, x :: p => (w v x).bind fun c => (total w x p).map (c + ·)

/-- The end of a path. -/
def endOf (v : V) (p : List V) : V := p.getLast?.getD v

theorem endOf_cons (v x : V) (p : List V) : endOf v (x :: p) = endOf x p := by
  rw [endOf, endOf, getLast?_cons]
  rfl

theorem endOf_append_singleton (v x : V) (p : List V) : endOf v (p ++ [x]) = x := by
  simp [endOf]

variable {a : K} {p : List V} {x v : V}

theorem total_append_singleton {w : V → V → Option K} {c : K}
    (hp : total w v p = some a) (hx : w (endOf v p) x = some c) : total w v (p ++ [x]) = some (a + c) := by
  induction p generalizing v a with
  | nil =>
    cases hp
    rw [show endOf v [] = v from rfl] at hx
    simp [total, hx]
  | cons y p ih =>
    rw [endOf_cons] at hx
    obtain ⟨b, hb, hrest⟩ := bind_eq_some_iff.mp hp
    obtain ⟨d, hd, rfl⟩ := map_eq_some_iff.mp hrest
    rw [cons_append, total, hb, bind_some, ih hd hx, map_some, add_assoc]

theorem total_append_singleton_iff {w : V → V → Option K} {b : K} :
    total w v (p ++ [x]) = some b ↔
      ∃ a c, total w v p = some a ∧ w (endOf v p) x = some c ∧ b = a + c := by
  constructor
  · intro h
    induction p generalizing v b with
    | nil =>
      obtain ⟨c, hc, hrest⟩ := bind_eq_some_iff.mp h
      exact ⟨0, c, rfl, hc, by simpa [total, add_comm] using hrest.symm⟩
    | cons y p ih =>
      obtain ⟨d, hd, hrest⟩ := bind_eq_some_iff.mp h
      obtain ⟨e, he, rfl⟩ := map_eq_some_iff.mp hrest
      obtain ⟨a, c, ha, hc, rfl⟩ := ih he
      exact ⟨d + a, c, by rw [total, hd, bind_some, ha, map_some],
        by rwa [endOf_cons], (add_assoc d a c).symm⟩
  · rintro ⟨a, c, ha, hc, rfl⟩
    exact total_append_singleton ha hc

/-- From any vertex of a path its rest leads to the same end. -/
theorem exists_rest {w : V → V → Option K} (hp : (total w v p).isSome) (hx : x ∈ v :: p) :
    ∃ q, (total w x q).isSome ∧ endOf x q = endOf v p ∧ (x :: q) <:+ (v :: p) := by
  induction p generalizing v with
  | nil =>
    obtain rfl := mem_singleton.mp hx
    exact ⟨[], hp, rfl, suffix_refl _⟩
  | cons y p ih =>
    rcases mem_cons.mp hx with rfl | hx
    · exact ⟨y :: p, hp, rfl, suffix_refl _⟩
    · have hrest : (total w y p).isSome := by
        obtain ⟨a, ha⟩ := isSome_iff_exists.mp hp
        obtain ⟨c, _, hrest⟩ := bind_eq_some_iff.mp ha
        obtain ⟨d, hd, _⟩ := map_eq_some_iff.mp hrest
        exact isSome_of_eq_some hd
      obtain ⟨q, hq, hend, hsuffix⟩ := ih hrest hx
      exact ⟨q, hq, hend.trans (endOf_cons v y p).symm, hsuffix.trans (suffix_cons v _)⟩

/-- What a path leads to, one leads to that visits no vertex twice. -/
theorem exists_simple {w : V → V → Option K} (hp : (total w v p).isSome) :
    ∃ q, (total w v q).isSome ∧ endOf v q = endOf v p ∧ (v :: q).Nodup := by
  induction p generalizing v with
  | nil => exact ⟨[], rfl, rfl, by simp⟩
  | cons x p ih =>
    obtain ⟨a, ha⟩ := isSome_iff_exists.mp hp
    obtain ⟨c, hc, hrest⟩ := bind_eq_some_iff.mp ha
    obtain ⟨d, hd, _⟩ := map_eq_some_iff.mp hrest
    obtain ⟨q, hq, hend, hnodup⟩ := ih (isSome_of_eq_some hd)
    by_cases hv : v ∈ x :: q
    · -- The path comes back to where it starts: its rest from there is enough.
      obtain ⟨q', hq', hend', hsuffix⟩ := exists_rest hq hv
      refine ⟨q', hq', ?_, hnodup.sublist hsuffix.sublist⟩
      rw [hend', hend, endOf_cons]
    · obtain ⟨e, he⟩ := isSome_iff_exists.mp hq
      refine ⟨x :: q, ?_, ?_, nodup_cons.mpr ⟨hv, hnodup⟩⟩
      · rw [total, hc, bind_some, he]
        rfl
      · rw [endOf_cons, endOf_cons, hend]

variable [LinearOrder K] {w : V → V → Option K} {source : V} {dist dist' : V → K}
  {done : V → Prop}

theorem total_nonneg [IsOrderedAddMonoid K] (hw : ∀ u v c, w u v = some c → 0 ≤ c)
    (hp : total w v p = some a) : 0 ≤ a := by
  induction p generalizing v a with
  | nil => exact (Option.some.inj hp).le
  | cons x p ih =>
    obtain ⟨b, hb, hrest⟩ := bind_eq_some_iff.mp hp
    obtain ⟨d, hd, rfl⟩ := map_eq_some_iff.mp hrest
    exact add_nonneg (hw v x b hb) (ih hd)

/-- A path is not longer than its number of edges times the longest of them. -/
theorem total_le [IsOrderedAddMonoid K] {d : K} (hw : ∀ u v c, w u v = some c → c ≤ d)
    (hp : total w v p = some a) : a ≤ p.length • d := by
  induction p generalizing v a with
  | nil =>
    cases hp
    rw [length_nil, zero_nsmul]
  | cons x p ih =>
    obtain ⟨b, hb, hrest⟩ := bind_eq_some_iff.mp hp
    obtain ⟨e, he, rfl⟩ := map_eq_some_iff.mp hrest
    rw [length_cons, succ_nsmul']
    exact add_le_add (hw v x b hb) (ih he)

/-- The edges of what is done are relaxed, and it is nearer than the rest. -/
structure Settled (w : V → V → Option K) (dist : V → K) (done : V → Prop) : Prop where
  relaxed : ∀ {u v c}, done u → w u v = some c → dist v ≤ dist u + c
  ordered : ∀ {u v}, done u → ¬ done v → dist u ≤ dist v

theorem settled_of_not_done (h : ∀ v, ¬ done v) : Settled w dist done :=
  ⟨fun hu => absurd hu (h _), fun hu => absurd hu (h _)⟩

/-- What a step may do to the distances: those of the rest become smaller, but not than that of `m`. -/
structure Relaxes (w : V → V → Option K) (dist : V → K) (done : V → Prop) (m : V) (dist' : V → K) :
    Prop where
  le : ∀ v, dist' v ≤ dist v
  kept : ∀ v, done v ∨ v = m → dist' v = dist v
  ge : ∀ v, dist' v = dist v ∨ dist m ≤ dist' v
  edge : ∀ {v c}, w m v = some c → ¬ done v → v ≠ m → dist' v ≤ dist m + c

theorem Settled.step [IsOrderedAddMonoid K] (h : Settled w dist done) (hw : ∀ u v c, w u v = some c → 0 ≤ c) {m : V}
    (hm : ¬ done m) (hmin : ∀ v, ¬ done v → dist m ≤ dist v) (hrelaxes : Relaxes w dist done m dist') :
    Settled w dist' fun v => done v ∨ v = m := by
  have hm' : dist' m = dist m := hrelaxes.kept m (.inr rfl)
  constructor
  · rintro u v c (hu | rfl) hc
    · rw [hrelaxes.kept u (.inl hu)]
      exact (hrelaxes.le v).trans (h.relaxed hu hc)
    · rw [hm']
      by_cases hv : done v ∨ v = u
      · rw [hrelaxes.kept v hv]
        refine le_add_of_le_of_nonneg ?_ (hw u v c hc)
        rcases hv with hv | rfl
        · exact h.ordered hv hm
        · exact le_rfl
      · exact hrelaxes.edge hc (fun hd => hv (.inl hd)) fun he => hv (.inr he)
  · rintro u v hu hv
    have hv' : ¬ done v := fun hd => hv (.inl hd)
    have hle : dist' u ≤ dist m := by
      rcases hu with hu | rfl
      · exact (hrelaxes.kept u (.inl hu)).trans_le (h.ordered hu hm)
      · exact hm'.le
    rcases hrelaxes.ge v with hsame | hge
    · rw [hsame]
      exact hle.trans (hmin v hv')
    · exact hle.trans hge

/-- In the end no path within reach is shorter than the distance to its end. -/
theorem Settled.le_total [IsOrderedAddMonoid K] (h : Settled w dist done) (hw : ∀ u v c, w u v = some c → 0 ≤ c)
    {inf : K}
    (hstop : ∀ v, ¬ done v → inf ≤ dist v) {u : V} {c : K} (hu : done u) (ha : dist u ≤ a)
    (hp : total w u p = some c) (hreach : a + c < inf) : dist (endOf u p) ≤ a + c := by
  induction p generalizing u a c with
  | nil =>
    cases hp
    rwa [add_zero]
  | cons x p ih =>
    obtain ⟨b, hb, hrest⟩ := bind_eq_some_iff.mp hp
    obtain ⟨d, hd, rfl⟩ := map_eq_some_iff.mp hrest
    rw [← add_assoc] at hreach ⊢
    have hx : dist x ≤ a + b := (h.relaxed hu hb).trans (add_le_add_left ha b)
    have hdone : done x := by
      by_contra hnot
      have hfar := (hstop x hnot).trans hx
      exact absurd hreach (not_lt.mpr (hfar.trans (le_add_of_nonneg_right (total_nonneg hw hd))))
    rw [endOf_cons]
    exact ih hdone hx hd hreach

end LabelSetting
