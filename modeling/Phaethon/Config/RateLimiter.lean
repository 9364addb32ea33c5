import Mathlib.Algebra.BigOperators.Intervals
import Mathlib.Tactic.IntervalCases
import Mathlib.Tactic.Linarith

/-!
# The rate limiter

`RateLimiter` of `src/config/config.go`: a call reserves the time its bytes take at the limiter's rate, behind
what earlier calls reserved, and returns how long to wait. The calls of all goroutines go one after the other
through the mutex, so a sequence of calls is what there is. Times are `int64` nanoseconds, and sums, products
and differences wrap.
-/

namespace Limiter

open Finset

/-- `RateLimiter`. -/
structure RateLimiter where
  bytesPerSecond : ℤ
  nextSendTimeNs : ℤ

open RateLimiter

/-- A number as `int64` keeps it. -/
def int64 (n : ℤ) : ℤ := Int.bmod n (2 ^ 64)

/-- The number is one of `int64`. -/
abbrev FitsInt64 (n : ℤ) : Prop := -2 ^ 63 ≤ n ∧ n < 2 ^ 63

theorem int64_of_fits {n : ℤ} (h : FitsInt64 n) : int64 n = n :=
  Int.bmod_eq_of_le (by have := h.1; omega) (by have := h.2; omega)

/-- A call of `Schedule`: the clock it reads and the bytes it is about. -/
structure ScheduleCall where
  now : ℤ
  bytes : ℕ

namespace RateLimiter

variable (r : RateLimiter) (c : ScheduleCall)

/-- `sendTime`: the clock, or the end of what is reserved. -/
def sendTime : ℤ := if c.now < r.nextSendTimeNs then r.nextSendTimeNs else c.now

/-- `(*RateLimiter).Schedule`: the delay, and the limiter after the call. -/
def schedule : ℤ × RateLimiter :=
  if r.bytesPerSecond ≤ 0 then (0, r)
  else
    let duration := (int64 (c.bytes * 10 ^ 9)).tdiv r.bytesPerSecond
    let delay := int64 (r.sendTime c - c.now)
    (if delay < 0 then 0 else delay, { r with nextSendTimeNs := int64 (r.sendTime c + duration) })

/-- No operation of the call overflows. -/
structure Fits : Prop where
  product : FitsInt64 (c.bytes * 10 ^ 9)
  sum : FitsInt64 (r.sendTime c + (c.bytes * 10 ^ 9 : ℤ).tdiv r.bytesPerSecond)
  delay : FitsInt64 (r.sendTime c - c.now)

variable (calls : ℕ → ScheduleCall)

/-- The limiter after the first calls. -/
def after : ℕ → RateLimiter
  | 0 => r
  | k + 1 => ((after k).schedule (calls k)).2

/-- The time at which a call's bytes go out: the clock it read and the delay it returned. -/
def scheduled (k : ℕ) : ℤ := (calls k).now + ((r.after calls k).schedule (calls k)).1

variable {r c calls}

/-- What one call does: the bytes go out at `sendTime`, and the time they take is reserved behind it. -/
theorem schedule_eq (hrate : 0 < r.bytesPerSecond) (h : r.Fits c) :
    r.schedule c = (r.sendTime c - c.now,
      { r with nextSendTimeNs := r.sendTime c + (c.bytes * 10 ^ 9 : ℤ) / r.bytesPerSecond }) := by
  have hge : c.now ≤ r.sendTime c := by
    unfold sendTime
    split_ifs <;> omega
  have hdiv : (c.bytes * 10 ^ 9 : ℤ).tdiv r.bytesPerSecond = c.bytes * 10 ^ 9 / r.bytesPerSecond :=
    Int.tdiv_eq_ediv_of_nonneg (by positivity)
  have hsum := hdiv ▸ h.sum
  simp only [schedule, if_neg hrate.not_ge, int64_of_fits h.product, int64_of_fits h.delay, hdiv, int64_of_fits hsum,
    if_neg (show ¬ r.sendTime c - c.now < 0 by omega)]

theorem rate_after (k : ℕ) : (r.after calls k).bytesPerSecond = r.bytesPerSecond := by
  induction k with
  | zero => rfl
  | succ k ih =>
    rw [after, schedule]
    split_ifs
    · exact ih
    · exact ih

/-- A call's bytes go out behind the time that those of the call before it take. -/
theorem scheduled_succ (hrate : 0 < r.bytesPerSecond) {k : ℕ} (h : ∀ i ≤ k + 1, (r.after calls i).Fits (calls i)) :
    r.scheduled calls k + ((calls k).bytes * 10 ^ 9 : ℤ) / r.bytesPerSecond ≤ r.scheduled calls (k + 1) := by
  have hrate' (i : ℕ) : 0 < (r.after calls i).bytesPerSecond := (rate_after i).symm ▸ hrate
  rw [scheduled, scheduled, schedule_eq (hrate' k) (h k (Nat.le_succ k)), schedule_eq (hrate' _) (h _ le_rfl)]
  have hnext : (r.after calls (k + 1)).nextSendTimeNs =
      (r.after calls k).sendTime (calls k) + ((calls k).bytes * 10 ^ 9 : ℤ) / r.bytesPerSecond := by
    rw [after, schedule_eq (hrate' k) (h k (Nat.le_succ k)), rate_after]
  have hge : (r.after calls (k + 1)).nextSendTimeNs ≤ (r.after calls (k + 1)).sendTime (calls (k + 1)) := by
    unfold sendTime
    split_ifs <;> omega
  omega

/-- Over any calls in a row, the bytes before the last one take no more than the time between the first and the
last, but for the rounding of one nanosecond a call. -/
theorem sum_bytes_le (hrate : 0 < r.bytesPerSecond) {i j : ℕ} (hij : i ≤ j)
    (h : ∀ k ≤ j, (r.after calls k).Fits (calls k)) :
    (∑ k ∈ Ico i j, ((calls k).bytes : ℤ)) * 10 ^ 9 ≤
      r.bytesPerSecond * (r.scheduled calls j - r.scheduled calls i + (j - i)) := by
  induction j, hij using Nat.le_induction with
  | base => simp
  | succ j hij ih =>
    have hstep := scheduled_succ hrate h
    have hround := Int.lt_ediv_add_one_mul_self ((calls j).bytes * 10 ^ 9 : ℤ) hrate
    rw [sum_Ico_succ_top hij]
    push_cast
    nlinarith [ih fun k hk => h k (hk.trans (Nat.le_succ j))]

end RateLimiter

/-- A limiter keeps its rate: the bytes of any calls in a row but the last take the time between the first and the
last, up to rounding. So in any window of time the bytes that go out exceed the rate by the last chunk and the
rounding at most, since the times do not go back. -/
theorem schedule_rate_bound (r : RateLimiter) (hrate : 0 < r.bytesPerSecond) (calls : ℕ → ScheduleCall) (j : ℕ)
    (h : ∀ k ≤ j, (r.after calls k).Fits (calls k)) :
    (∀ i < j, (∑ k ∈ Ico i j, ((calls k).bytes : ℤ)) * 10 ^ 9 ≤
      r.bytesPerSecond * (r.scheduled calls j - r.scheduled calls i + (j - i))) ∧
      (∀ i ≤ j, r.scheduled calls i ≤ r.scheduled calls j) ∧
      ∀ i ≤ j, ∀ start finish, start ≤ r.scheduled calls i → r.scheduled calls j ≤ finish →
        (∑ k ∈ Icc i j, ((calls k).bytes : ℤ)) * 10 ^ 9 ≤
          r.bytesPerSecond * (finish - start + (j - i)) + (calls j).bytes * 10 ^ 9 := by
  refine ⟨fun i hi => sum_bytes_le hrate hi.le h, fun i hi => ?_, fun i hi start finish hstart hfinish => ?_⟩
  · induction j, hi using Nat.le_induction with
    | base => exact le_rfl
    | succ j hij ih =>
      have hstep := scheduled_succ hrate h
      have hnonneg : 0 ≤ ((calls j).bytes * 10 ^ 9 : ℤ) / r.bytesPerSecond :=
        Int.ediv_nonneg (by positivity) hrate.le
      have := ih fun k hk => h k (hk.trans (Nat.le_succ j))
      omega
  · have hsum := sum_bytes_le hrate hi h
    rw [← sum_Ico_add_eq_sum_Icc hi]
    nlinarith

/-- Two chunks of 1000 bytes at once, at 3000 bytes a second: the second goes out 333333333 ns later. -/
theorem schedule_rate_bound_twoChunks :
    (∀ k ≤ 1, (after ⟨3000, 0⟩ (fun _ => ⟨0, 1000⟩) k).Fits ⟨0, 1000⟩) ∧
      scheduled ⟨3000, 0⟩ (fun _ => ⟨0, 1000⟩) 1 = 333333333 ∧
      (∑ _ ∈ Ico 0 1, (1000 : ℤ)) * 10 ^ 9 ≤
        3000 * (scheduled ⟨3000, 0⟩ (fun _ => ⟨0, 1000⟩) 1 -
          scheduled ⟨3000, 0⟩ (fun _ => ⟨0, 1000⟩) 0 + ((1 : ℕ) - (0 : ℕ))) := by
  have hfits : ∀ k ≤ 1, (after ⟨3000, 0⟩ (fun _ => ⟨0, 1000⟩) k).Fits ⟨0, 1000⟩ := by
    intro k hk
    interval_cases k
    · exact ⟨by decide, by decide, by decide⟩
    · exact ⟨by decide, by decide, by decide⟩
  exact ⟨hfits, by decide, (schedule_rate_bound ⟨3000, 0⟩ (by decide) (fun _ => ⟨0, 1000⟩) 1 hfits).1 0 one_pos⟩

/-- No call waits without need. Its bytes go out when it asks, or as soon as those of the calls before it are out,
from some call on that did not wait, or behind what was reserved before all of them. -/
theorem schedule_busy (r : RateLimiter) (hrate : 0 < r.bytesPerSecond) (calls : ℕ → ScheduleCall) (j : ℕ)
    (h : ∀ k ≤ j, (r.after calls k).Fits (calls k)) :
    (∃ i ≤ j, r.scheduled calls j = (calls i).now + ∑ k ∈ Ico i j, ((calls k).bytes * 10 ^ 9 : ℤ) / r.bytesPerSecond) ∨
      r.scheduled calls j = r.nextSendTimeNs + ∑ k ∈ range j, ((calls k).bytes * 10 ^ 9 : ℤ) / r.bytesPerSecond := by
  have hcall (k : ℕ) (hk : k ≤ j) := schedule_eq ((rate_after k).symm ▸ hrate) (h k hk)
  have hsend (k : ℕ) (hk : k ≤ j) : r.scheduled calls k = (r.after calls k).sendTime (calls k) := by
    rw [scheduled, hcall k hk]
    omega
  induction j with
  | zero =>
    rw [hsend 0 le_rfl, sendTime]
    split
    · exact .inr (by simp [after])
    · exact .inl ⟨0, le_rfl, by simp⟩
  | succ j ih =>
    have hj := hsend j (Nat.le_succ j)
    rw [hsend (j + 1) le_rfl, sendTime]
    split
    · rw [after, hcall j (Nat.le_succ j), ← hj, rate_after]
      dsimp only
      rcases ih (fun k hk => h k (by omega)) (fun k hk => hcall k (by omega)) (fun k hk => hsend k (by omega)) with
        ⟨i, hi, heq⟩ | heq
      · exact .inl ⟨i, by omega, by rw [sum_Ico_succ_top hi]; omega⟩
      · exact .inr (by rw [sum_range_succ]; omega)
    · exact .inl ⟨j + 1, le_rfl, by simp⟩

/-- The limiter was idle when the chunk came. -/
theorem schedule_busy_idle :
    ∃ i ≤ 0, scheduled ⟨3000, 0⟩ (fun _ => ⟨7, 1000⟩) 0 = 7 + ∑ _ ∈ Ico i 0, (1000 * 10 ^ 9 : ℤ) / 3000 := by
  refine (schedule_busy ⟨3000, 0⟩ (by decide) (fun _ => ⟨7, 1000⟩) 0 fun k hk => ?_).resolve_right (by decide)
  obtain rfl := Nat.le_zero.mp hk
  exact ⟨by decide, by decide, by decide⟩

end Limiter
