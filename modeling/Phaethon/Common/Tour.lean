import Mathlib.Combinatorics.SimpleGraph.Acyclic

/-!
# Going round in a graph

A tour goes round a cycle of a graph without ever turning back. In a finite graph that is not a forest there is
one that keeps away from every vertex somewhere: each vertex is on the tour, or not adjacent to one of its stops.
A longest cycle will do, since a vertex adjacent to two stops in a row could be put between them.
-/

open SimpleGraph

variable {V : Type*} {G : SimpleGraph V}

/-- A closed walk around the graph that never turns back, with a stop that is not adjacent to it for each vertex
that it does not visit. -/
structure Tour (G : SimpleGraph V) where
  len : ℕ
  stop : ℕ → V
  len_pos : 0 < len
  periodic : ∀ i, stop (i + len) = stop i
  adj : ∀ i, G.Adj (stop i) (stop (i + 1))
  no_return : ∀ i, stop (i + 2) ≠ stop i
  meets : ∀ x, ∃ i < len, x = stop i ∨ ¬ G.Adj x (stop i)

namespace Tour

open Walk

/-- The next stop is not the one before. -/
theorem stop_succ_ne (t : Tour G) (i : ℕ) : t.stop (i + 1) ≠ t.stop (i + t.len - 1) := by
  have hlen := t.len_pos
  have hreturn := t.no_return (i + t.len - 1)
  rwa [show i + t.len - 1 + 2 = i + 1 + t.len by omega, t.periodic] at hreturn

theorem stop_previous_succ (t : Tour G) (i : ℕ) : t.stop (i + 1 + t.len - 1) = t.stop i := by
  rw [show i + 1 + t.len - 1 = i + t.len by omega, t.periodic]

theorem exists_longest_cycle [Finite V] (h : ¬ G.IsAcyclic) :
    ∃ (v : V) (c : G.Walk v v), c.IsCycle ∧
      ∀ (w : V) (d : G.Walk w w), d.IsCycle → d.length ≤ c.length := by
  classical
  have := Fintype.ofFinite V
  let IsLength (k : ℕ) : Prop := ∃ (w : V) (d : G.Walk w w), d.IsCycle ∧ d.length = k
  have hbound (k : ℕ) (hk : IsLength k) : k ≤ Fintype.card V := by
    obtain ⟨w, d, hd, rfl⟩ := hk
    have hlength := hd.isPath_tail.length_lt
    have htail := d.length_tail_add_one hd.not_nil
    omega
  simp only [IsAcyclic, not_forall, not_not] at h
  obtain ⟨v, c, hc⟩ := h
  have hlength : IsLength c.length := ⟨v, c, hc, rfl⟩
  obtain ⟨w, d, hd, hgreatest⟩ := Nat.findGreatest_spec (hbound _ hlength) hlength
  refine ⟨w, d, hd, fun x e he => ?_⟩
  have he' : IsLength e.length := ⟨x, e, he, rfl⟩
  rw [hgreatest]
  exact Nat.le_findGreatest (hbound _ he') he'

/-- A vertex off a cycle that is adjacent to both ends of its first edge makes a longer one. -/
theorem isCycle_detour {v w x : V} {h : G.Adj v w} {p : G.Walk w v} (hc : (cons h p).IsCycle)
    (hx : x ∉ p.support) (hv : G.Adj v x) (hw : G.Adj x w) :
    (cons hv (cons hw p)).IsCycle := by
  obtain ⟨hp, _⟩ := (cons_isCycle_iff p h).mp hc
  refine (cons_isCycle_iff _ _).mpr ⟨hp.cons hx, ?_⟩
  rw [edges_cons, List.mem_cons, not_or]
  constructor
  · rw [Sym2.eq_iff]
    rintro (⟨rfl, _⟩ | ⟨rfl, _⟩)
    · exact hv.ne rfl
    · exact h.ne rfl
  · intro hmem
    exact hx (p.snd_mem_support_of_mem_edges hmem)

theorem getVert_mod_adj {v : V} (c : G.Walk v v) (hpos : 0 < c.length) (i : ℕ) :
    G.Adj (c.getVert (i % c.length)) (c.getVert ((i + 1) % c.length)) := by
  have hlt : i % c.length < c.length := Nat.mod_lt i hpos
  have hadj := c.adj_getVert_succ hlt
  rw [← Nat.mod_add_mod]
  by_cases hlast : i % c.length + 1 = c.length
  · rw [hlast, c.getVert_length] at hadj
    rwa [hlast, Nat.mod_self, c.getVert_zero]
  · rwa [Nat.mod_eq_of_lt (show i % c.length + 1 < c.length by omega)]

theorem getVert_mod_ne {v : V} {c : G.Walk v v} (hc : c.IsCycle) (i : ℕ) :
    c.getVert ((i + 2) % c.length) ≠ c.getVert (i % c.length) := by
  intro heq
  have hlen := hc.three_le_length
  have hlt (j : ℕ) : j % c.length ≤ c.length - 1 := by
    have := Nat.mod_lt j (show 0 < c.length by omega)
    omega
  have hmod : i + 2 ≡ i + 0 [MOD c.length] := hc.getVert_injOn' (hlt _) (hlt _) heq
  have hzero : 2 % c.length = 0 % c.length := hmod.add_left_cancel'
  rw [Nat.mod_eq_of_lt (by omega), Nat.zero_mod] at hzero
  omega

/-- A vertex off a longest cycle is not adjacent to one of its first two vertices. -/
theorem not_adj_of_longest {v x : V} {c : G.Walk v v} (hc : c.IsCycle)
    (hmax : ∀ (w : V) (d : G.Walk w w), d.IsCycle → d.length ≤ c.length) (hx : x ∉ c.support) :
    ¬ G.Adj x (c.getVert 0) ∨ ¬ G.Adj x (c.getVert 1) := by
  by_contra hboth
  push Not at hboth
  obtain ⟨hfirst, hsecond⟩ := hboth
  cases c with
  | nil => exact hc.ne_nil rfl
  | cons h p =>
    rw [getVert_zero] at hfirst
    rw [getVert_cons_succ, getVert_zero] at hsecond
    rw [support_cons, List.mem_cons, not_or] at hx
    have hlonger := hmax _ _ (isCycle_detour hc hx.2 hfirst.symm hsecond)
    simp only [length_cons] at hlonger
    omega

/-- A finite graph that is not a forest has a tour. -/
theorem exists_of_not_isAcyclic [Finite V] (h : ¬ G.IsAcyclic) : Nonempty (Tour G) := by
  obtain ⟨v, c, hc, hmax⟩ := exists_longest_cycle h
  have hlen := hc.three_le_length
  have hmod {i : ℕ} (hi : i < c.length) : c.getVert (i % c.length) = c.getVert i := by
    rw [Nat.mod_eq_of_lt hi]
  have hmeets (x : V) :
      ∃ i < c.length, x = c.getVert (i % c.length) ∨ ¬ G.Adj x (c.getVert (i % c.length)) := by
    by_cases hx : x ∈ c.support
    · obtain ⟨i, rfl, hle⟩ := mem_support_iff_exists_getVert.mp hx
      by_cases hlast : i = c.length
      · refine ⟨0, by omega, .inl ?_⟩
        rw [hmod (by omega), hlast, c.getVert_length, c.getVert_zero]
      · exact ⟨i, by omega, .inl (hmod (by omega)).symm⟩
    · rcases not_adj_of_longest hc hmax hx with hfirst | hsecond
      · exact ⟨0, by omega, .inr (hmod (show 0 < c.length by omega) ▸ hfirst)⟩
      · exact ⟨1, by omega, .inr (hmod (show 1 < c.length by omega) ▸ hsecond)⟩
  exact ⟨{
    len := c.length
    stop i := c.getVert (i % c.length)
    len_pos := by omega
    periodic i := by rw [Nat.add_mod_right]
    adj := getVert_mod_adj c (by omega)
    no_return := getVert_mod_ne hc
    meets := hmeets }⟩

end Tour
