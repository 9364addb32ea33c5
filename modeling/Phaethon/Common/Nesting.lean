import Mathlib.Algebra.Group.Nat.Defs
import Mathlib.Tactic.Common

/-!
# How deep calls nest

`calls l c` are the calls that the call `c` makes in turn when it is itself nested `l` deep. `depth`
counts the levels below a call; it is computed by making the calls, so it exists only if they come to an
end. `exists_depth_le_iff` bounds it without counting: `Within b` says that no call is made from `b`
levels further down.
-/

namespace Nesting

open List

variable {κ : Type*} {calls : ℕ → κ → List κ}

/-- One level more than the deepest of some calls, or `0` if there are none. -/
def deepest (depth : κ → Option ℕ) : List κ → Option ℕ
  | [] => some 0
  | c :: cs => (depth c).bind fun d => (deepest depth cs).map fun m => max (d + 1) m

/-- The levels below a call, or `none` if they do not fit into `fuel`. -/
def depth (calls : ℕ → κ → List κ) : ℕ → ℕ → κ → Option ℕ
  | 0, _, _ => none
  | fuel + 1, l, c => deepest (depth calls fuel (l + 1)) (calls l c)

/-- No call is made from `b` levels below this one. -/
def Within (calls : ℕ → κ → List κ) : ℕ → ℕ → κ → Prop
  | 0, l, c => calls l c = []
  | b + 1, l, c => ∀ d ∈ calls l c, Within calls b (l + 1) d

theorem Within.of_no_calls {b l : ℕ} {c : κ} (h : calls l c = []) : Within calls b l c := by
  cases b with
  | zero => exact h
  | succ b =>
    intro d hd
    rw [h] at hd
    cases hd

/-- A call that only makes one. -/
theorem within_succ_iff {b l : ℕ} {c d : κ} (h : calls l c = [d]) :
    Within calls (b + 1) l c ↔ Within calls b (l + 1) d := by
  rw [Within, h, forall_mem_singleton]

theorem exists_deepest_le_iff {depth : κ → Option ℕ} {cs : List κ} {b : ℕ} :
    (∃ n ≤ b, deepest depth cs = some n) ↔ ∀ c ∈ cs, ∃ n < b, depth c = some n := by
  induction cs with
  | nil => simp [deepest]
  | cons c cs ih =>
    rw [forall_mem_cons, ← ih]
    constructor
    · rintro ⟨n, hn, h⟩
      obtain ⟨d, hd, h⟩ := Option.bind_eq_some_iff.mp h
      obtain ⟨m, hm, rfl⟩ := Option.map_eq_some_iff.mp h
      exact ⟨⟨d, by omega, hd⟩, m, by omega, hm⟩
    · rintro ⟨⟨d, hlt, hd⟩, m, hle, hm⟩
      refine ⟨max (d + 1) m, by omega, ?_⟩
      rw [deepest, hd, hm]
      rfl

/-- What is computed with any fuel is right. -/
theorem within_of_depth {fuel b l : ℕ} {c : κ} (h : ∃ n ≤ b, depth calls fuel l c = some n) : Within calls b l c := by
  induction fuel generalizing b l c with
  | zero =>
    obtain ⟨_, _, h⟩ := h
    cases h
  | succ fuel ih =>
    have hcalls := exists_deepest_le_iff.mp h
    cases b with
    | zero =>
      refine eq_nil_iff_forall_not_mem.mpr fun d hd => ?_
      obtain ⟨n, hn, _⟩ := hcalls d hd
      omega
    | succ b =>
      intro d hd
      obtain ⟨n, hn, hdepth⟩ := hcalls d hd
      exact ih ⟨n, by omega, hdepth⟩

/-- Calls that come to an end within `b` levels need no more fuel than that. -/
theorem depth_of_within {fuel b l : ℕ} {c : κ} (hfuel : b < fuel) (h : Within calls b l c) :
    ∃ n ≤ b, depth calls fuel l c = some n := by
  induction fuel generalizing b l c with
  | zero => omega
  | succ fuel ih =>
    refine exists_deepest_le_iff.mpr fun d hd => ?_
    cases b with
    | zero =>
      rw [h] at hd
      cases hd
    | succ b =>
      obtain ⟨n, hn, hdepth⟩ := ih (by omega) (h d hd)
      exact ⟨n, by omega, hdepth⟩

theorem exists_depth_le_iff {b l : ℕ} {c : κ} :
    (∃ fuel, ∃ n ≤ b, depth calls fuel l c = some n) ↔ Within calls b l c :=
  ⟨fun ⟨_, h⟩ => within_of_depth h, fun h => ⟨b + 1, depth_of_within (Nat.lt_succ_self b) h⟩⟩

end Nesting
