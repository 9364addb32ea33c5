import Mathlib.Data.List.Basic
import Mathlib.Data.Nat.ModEq

/-!
# Places taken in turn

The entries of a log take `n` places in turn: the first `n` entries take one each, and every later one takes
the place of the entry `n` before it. The log is kept with its newest entry first, so that the entries which
still have their places are the first `n` (`Turns.mem_take_pred_iff`).
-/

namespace Ring

open List

variable {α β : Type*} {n : ℕ} {place : ℕ → β} {pos : α → β}

/-- The entries took the places in turn. -/
def Turns (n : ℕ) (place : ℕ → β) (pos : α → β) : List α → Prop
  | [] => True
  | e :: older => pos e = place (older.length % n) ∧ Turns n place pos older

theorem Turns.getElem? {log : List α} (h : Turns n place pos log) {i : ℕ} {e : α} (he : log[i]? = some e) :
    pos e = place ((log.length - 1 - i) % n) := by
  induction log generalizing i with
  | nil => simp at he
  | cons e' older ih =>
    cases i with
    | zero =>
      obtain rfl : e' = e := by simpa using he
      simpa using h.1
    | succ i =>
      have hi := ih h.2 (by simpa using he)
      rw [hi, length_cons, show older.length + 1 - 1 - (i + 1) = older.length - 1 - i by omega]

/-- Of the last `n` entries, the one whose place is next in turn is the oldest. -/
theorem Turns.mem_take_pred_iff (hinj : ∀ i < n, ∀ j < n, place i = place j → i = j) (hn : 0 < n)
    {log : List α} (h : Turns n place pos log) {e : α} :
    e ∈ log.take (n - 1) ↔ e ∈ log.take n ∧ pos e ≠ place (log.length % n) := by
  have hlt : ∀ m, m % n < n := fun m => Nat.mod_lt m hn
  constructor
  · intro he
    obtain ⟨i, hi, hget⟩ := mem_take_iff_getElem.mp he
    have hlen : i < n - 1 ∧ i < log.length := lt_min_iff.mp hi
    refine ⟨mem_take_iff_getElem.mpr ⟨i, by omega, hget⟩, fun hpos => ?_⟩
    rw [h.getElem? (List.getElem?_eq_some_iff.mpr ⟨hlen.2, hget⟩)] at hpos
    -- it is less than `n` entries old, so its place differs from the next one
    have hmod : log.length - 1 - i ≡ log.length [MOD n] := hinj _ (hlt _) _ (hlt _) hpos
    have hdvd := (Nat.modEq_iff_dvd' (by omega)).mp hmod
    have := Nat.le_of_dvd (by omega) hdvd
    omega
  · rintro ⟨he, hpos⟩
    obtain ⟨i, hi, hget⟩ := mem_take_iff_getElem.mp he
    have hlen : i < n ∧ i < log.length := lt_min_iff.mp hi
    by_cases hlast : i < n - 1
    · exact mem_take_iff_getElem.mpr ⟨i, by omega, hget⟩
    · refine absurd ?_ hpos
      rw [h.getElem? (List.getElem?_eq_some_iff.mpr ⟨hlen.2, hget⟩)]
      have hold : log.length = log.length - 1 - i + n := by omega
      conv_rhs => rw [hold, Nat.add_mod_right]

/-- A counter that is advanced `n` times comes by every index below `n`. -/
theorem exists_add_mod_eq {n j : ℕ} (idx : ℕ) (h : j < n) : ∃ i < n, (idx + i) % n = j := by
  refine ⟨(j + (n - idx % n)) % n, Nat.mod_lt _ (by omega), ?_⟩
  have hr : idx % n < n := Nat.mod_lt _ (by omega)
  have hsum : idx + (j + (n - idx % n)) = n * (idx / n + 1) + j := by
    have hdiv := Nat.div_add_mod idx n
    rw [Nat.mul_add, Nat.mul_one]
    omega
  rw [Nat.add_mod_mod, hsum, Nat.mul_add_mod, Nat.mod_eq_of_lt h]

end Ring
