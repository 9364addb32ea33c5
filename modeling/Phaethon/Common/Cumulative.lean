import Mathlib.Data.Set.Insert
import Mathlib.Order.MinMax

/-!
# Cumulative acknowledgements

One side sends units and counts them, some time after it sent them. The other side receives them, and
reports the total it received when that has changed since its last report. A report acknowledges at most
what the sender has counted, and acknowledgements never go back. `Covered` says that the last total is not
forgotten: unless more units are coming, it is yet to be reported, on its way, or acknowledged.
-/

namespace Cumulative

/-- The numbers of both sides. -/
structure Account where
  /-- Units sent and counted by the sender. -/
  tx : ℕ
  /-- Units sent, to be counted. -/
  uncounted : ℕ
  /-- The sender's acknowledged total. -/
  acked : ℕ
  /-- Units received. -/
  rx : ℕ
  /-- The total of the last report. -/
  reported : ℕ
  /-- Units sent, to be received. -/
  coming : ℕ

/-- The receiver is going to report again. -/
def Account.MoreToReport (a : Account) : Prop := a.rx ≠ a.reported ∨ a.coming ≠ 0

instance (a : Account) : Decidable a.MoreToReport := inferInstanceAs (Decidable (_ ∨ _))

/-- The totals `onWay` are reported and to be processed by the sender. -/
structure Covered (a : Account) (onWay : Set ℕ) : Prop where
  units : a.tx + a.uncounted = a.rx + a.coming
  reported_le : a.reported ≤ a.rx
  acked_le : a.acked ≤ a.rx
  onWay_le : ∀ r ∈ onWay, r ≤ a.rx
  told : a.MoreToReport ∨ a.rx ∈ onWay ∨ a.acked = a.rx

namespace Covered

variable {a : Account} {onWay rest : Set ℕ}

section

variable (h : Covered a onWay)

include h

theorem send (n : ℕ) :
    Covered { a with uncounted := a.uncounted + n, coming := a.coming + n } onWay where
  units := by have := h.units; dsimp only; omega
  reported_le := h.reported_le
  acked_le := h.acked_le
  onWay_le := h.onWay_le
  told := by
    rcases h.told with hmore | htold
    · refine .inl (hmore.imp_right fun hcoming => ?_)
      dsimp only
      omega
    · exact .inr htold

theorem count {n left : ℕ} (hn : a.uncounted = n + left) :
    Covered { a with tx := a.tx + n, uncounted := left } onWay :=
  { h with units := by have := h.units; dsimp only; omega }

/-- New units make a new total. -/
theorem receive {n left : ℕ} (hn : a.coming = n + left) :
    Covered { a with rx := a.rx + n, coming := left } onWay where
  units := by have := h.units; dsimp only; omega
  reported_le := h.reported_le.trans (Nat.le_add_right ..)
  acked_le := h.acked_le.trans (Nat.le_add_right ..)
  onWay_le r hr := (h.onWay_le r hr).trans (Nat.le_add_right ..)
  told := by
    have hreported := h.reported_le
    rcases Nat.eq_zero_or_pos n with rfl | hpos
    · rw [Nat.zero_add] at hn
      exact hn ▸ h.told
    · refine .inl (.inl ?_)
      dsimp only
      omega

/-- A report of a total that has changed puts it on its way, or may leave it out while more units come. -/
theorem report (hsub : onWay ⊆ rest) (honly : ∀ r ∈ rest, r ∈ onWay ∨ r = a.rx)
    (hnew : a.rx ≠ a.reported → a.rx ∈ rest ∨ a.coming ≠ 0) : Covered { a with reported := a.rx } rest where
  units := h.units
  reported_le := le_rfl
  acked_le := h.acked_le
  onWay_le r hr := (honly r hr).elim (h.onWay_le r) le_of_eq
  told := by
    rcases h.told with (hchanged | hcoming) | honWay | hacked
    · rcases hnew hchanged with honWay | hcoming
      · exact .inr (.inl honWay)
      · exact .inl (.inr hcoming)
    · exact .inl (.inr hcoming)
    · exact .inr (.inl (hsub honWay))
    · exact .inr (.inr hacked)

/-- Reports may be lost while there is more to report. -/
theorem lose (hsub : rest ⊆ onWay) (hmore : a.MoreToReport) : Covered a rest :=
  { h with onWay_le := fun r hr => h.onWay_le r (hsub hr), told := .inl hmore }

/-- A report is processed. It must not be ahead of the sender's own count, unless there is more to
report. -/
theorem acknowledge {r : ℕ} (hr : r ∈ onWay) (hsub : rest ⊆ onWay)
    (honly : ∀ q ∈ onWay, q = r ∨ q ∈ rest) (hcount : r ≤ a.tx ∨ a.MoreToReport) :
    Covered { a with acked := max a.acked (min a.tx r) } rest where
  units := h.units
  reported_le := h.reported_le
  acked_le := max_le h.acked_le ((min_le_right ..).trans (h.onWay_le r hr))
  onWay_le q hq := h.onWay_le q (hsub hq)
  told := by
    have hle := h.onWay_le r hr
    have hacked := h.acked_le
    rcases hcount with hcounted | hmore
    · rcases h.told with hmore | honWay | hdone
      · exact .inl hmore
      · rcases honly _ honWay with rfl | hrest
        · refine .inr (.inr ?_)
          dsimp only
          omega
        · exact .inr (.inl hrest)
      · refine .inr (.inr ?_)
        dsimp only
        omega
    · exact .inl hmore

/-- With nothing more to count, receive, report or process, all is acknowledged. -/
theorem settled (hcounted : a.uncounted = 0) (hmore : ¬ a.MoreToReport)
    (hdone : a.rx ∉ onWay) : a.acked = a.tx := by
  have hacked : a.acked = a.rx := (h.told.resolve_left hmore).resolve_left hdone
  have hunits := h.units
  have hcoming : a.coming = 0 := not_not.mp fun hne => hmore (.inr hne)
  omega

end

end Covered

end Cumulative
