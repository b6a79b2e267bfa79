import Backtest.Proofs.Indicator.Smoothing
import Backtest.Proofs.Indicator.Window

/-!
# The range of the indicators

On exact numbers, with closes that are rational or missing, an average lies between the least and
the greatest of the closes that it averages, and the relative strength between 0 and 100.
-/

namespace Backtest

open Scalar
open Extended (finite)

namespace SimpleAverage

theorem MeanOver.between {period : ℕ} {xs : List Extended} {x : Extended} (hperiod : 0 < period)
    (h : MeanOver period xs x) (hx : isNaN x = false) : Between xs x := by
  cases h with
  | mean hlength =>
    have hne := List.length_pos_iff.1 (hlength.symm ▸ hperiod)
    exact Extended.between_finite hne (fun _ => Rational.le_mean hne)
      fun _ => Rational.mean_le hne
  | short | missing => cases hx

theorem series_between (period : ℕ) {bars : List (Bar Extended)}
    (hbars : ∀ b ∈ bars, isFinite b.close = true ∨ isNaN b.close = true) {i : ℕ} {x : Extended}
    (hx : ((indicator period).series bars)[i]? = some x) (hnumber : isNaN x = false) :
    Between (window (max period 1) bars i) x := by
  have hi : i < bars.length := by
    rw [← length_series period bars]
    exact (List.getElem?_eq_some_iff.1 hx).1
  rw [getElem?_series period hbars hi] at hx
  obtain rfl := Option.some.inj hx
  have hperiod : 0 < max period 1 := by omega
  exact (meanOver_ofWindow hperiod (window_missing hbars _ i)
    (length_window_le _ bars i)).between hperiod hnumber

end SimpleAverage

namespace ExponentialAverage

theorem series_between (period : ℕ) {bars : List (Bar Extended)}
    (hbars : ∀ b ∈ bars, isFinite b.close = true ∨ isNaN b.close = true) {i : ℕ} {x : Extended}
    (hx : ((indicator period).series bars)[i]? = some x) (hnumber : isNaN x = false) :
    Between (closes (quoted (bars.take (i + 1)))) x := by
  have hperiod : 0 < max period 1 := by omega
  obtain ⟨xs, hcloses, rfl⟩ := (scans period).exists_rational hbars hx
  rw [current_foldl_finite hperiod] at hnumber ⊢
  have hready := Indicator.isNaN_pending.1 hnumber
  have hne : xs ≠ [] := List.length_pos_iff.1 (hperiod.trans_le hready)
  rw [← hcloses, if_neg hready.not_gt]
  exact Extended.between_finite hne (fun _ => le_average hperiod hne)
    fun _ => average_le hperiod hne

end ExponentialAverage

namespace RelativeStrength

variable {period : ℕ} {s : State ℚ}

theorem ofAverages_mem {gain loss : ℚ} (hgain : 0 ≤ gain) (hloss : 0 ≤ loss) :
    0 ≤ ofAverages gain loss ∧ ofAverages gain loss ≤ 100 := by
  by_cases hl : loss = 0
  · by_cases hg : gain = 0 <;> norm_num [ofAverages, hl, hg]
  · by_cases hg : gain = 0
    · norm_num [ofAverages, hl, hg]
    · have hratio : 0 ≤ gain / loss := div_nonneg hgain hloss
      have hpart : 100 / (1 + gain / loss) ≤ 100 := div_le_self (by norm_num) (by linarith)
      have hpos : 0 ≤ 100 / (1 + gain / loss) := by positivity
      simpa [ofAverages, hl, hg] using ⟨hpart, hpos⟩

structure State.Ranged (s : State ℚ) : Prop where
  nonneg : s.Nonneg
  le_current : 0 ≤ s.current
  current_le : s.current ≤ 100

theorem State.Ranged.start : (RelativeStrength.start : State ℚ).Ranged where
  nonneg := ⟨le_rfl, le_rfl⟩
  le_current := le_rfl
  current_le := by norm_num [RelativeStrength.start, nan]

/-- A change leaves the strength as it was or works it out from the new averages. -/
theorem current_takeChange (period : ℕ) (s : State ℚ) (change : ℚ) :
    (takeChange period s change).current = s.current ∨
      (takeChange period s change).current =
        ofAverages (takeChange period s change).gain (takeChange period s change).loss := by
  simp only [takeChange]
  split
  · split
    · exact .inr rfl
    · exact .inl rfl
  · exact .inr rfl

theorem State.Ranged.takeChange (hperiod : 0 < period) (h : s.Ranged) (change : ℚ) :
    (takeChange period s change).Ranged := by
  have hnonneg := h.nonneg.takeChange hperiod change
  rcases current_takeChange period s change with hkept | hnew
  · exact ⟨hnonneg, hkept.symm ▸ h.le_current, hkept.symm ▸ h.current_le⟩
  · obtain ⟨hlow, hhigh⟩ := ofAverages_mem hnonneg.1 hnonneg.2
    exact ⟨hnonneg, hnew.symm ▸ hlow, hnew.symm ▸ hhigh⟩

theorem State.Ranged.step (hperiod : 0 < period) (h : s.Ranged) (x : ℚ) :
    (step period s x).Ranged := by
  simp only [RelativeStrength.step, Rational.isNaN_eq, Bool.false_eq_true, if_false]
  cases s.lastClose with
  | none => exact ⟨h.nonneg, h.le_current, h.current_le⟩
  | some previous =>
    have hnext := h.takeChange hperiod (x - previous)
    exact ⟨hnext.nonneg, hnext.le_current, hnext.current_le⟩

theorem State.Ranged.foldl (hperiod : 0 < period) (h : s.Ranged) (xs : List ℚ) :
    (xs.foldl (RelativeStrength.step period) s).Ranged := by
  induction xs generalizing s with
  | nil => exact h
  | cons x xs ih => exact ih (h.step hperiod x)

theorem series_mem (period : ℕ) {bars : List (Bar Extended)}
    (hbars : ∀ b ∈ bars, isFinite b.close = true ∨ isNaN b.close = true) {i : ℕ} {x : Extended}
    (hx : ((indicator period).series bars)[i]? = some x) (hnumber : isNaN x = false) :
    nat 0 ≤ x ∧ x ≤ nat 100 := by
  have hperiod : 0 < max period 1 := by omega
  obtain ⟨xs, -, rfl⟩ := (scans period).exists_rational hbars hx
  have hranged := State.Ranged.start.foldl hperiod xs
  rw [start_exact hperiod, foldl_step_exact hperiod xs State.Ranged.start.nonneg, State.exact]
    at hnumber ⊢
  have hready := Indicator.isNaN_pending.1 hnumber
  rw [if_neg hready.not_gt]
  exact ⟨Extended.finite_le.2 hranged.le_current, Extended.finite_le.2 hranged.current_le⟩

end RelativeStrength

namespace Indicator

/-- On exact numbers, where closes are rational or missing, every number of a simple average lies
between the least and the greatest close of its window, every number of an exponential average
between the least and the greatest close so far, and every relative strength between 0 and 100. -/
theorem numbers_in_range (period : ℕ) (bars : List (Bar Extended))
    (hbars : ∀ b ∈ bars, isFinite b.close = true ∨ isNaN b.close = true) (i : ℕ) (x : Extended)
    (hnumber : isNaN x = false) :
    (((SimpleAverage.indicator period).series bars)[i]? = some x →
        Between (SimpleAverage.window (max period 1) bars i) x) ∧
      (((ExponentialAverage.indicator period).series bars)[i]? = some x →
        Between (closes (quoted (bars.take (i + 1)))) x) ∧
      (((RelativeStrength.indicator period).series bars)[i]? = some x →
        nat 0 ≤ x ∧ x ≤ nat 100) :=
  ⟨fun hx => SimpleAverage.series_between period hbars hx hnumber,
    fun hx => ExponentialAverage.series_between period hbars hx hnumber,
    fun hx => RelativeStrength.series_mem period hbars hx hnumber⟩

def uneven : List (Bar Extended) :=
  [.still 2 (finite 100), .still 3 .nan, .still 4 (finite 104), .still 5 (finite 101),
    .still 8 (finite 107), .still 9 .nan, .still 10 (finite 95)]

/-- Over two days each of the three has a number at the fifth bar. -/
theorem numbers_in_range_uneven :
    (∀ b ∈ uneven, isFinite b.close = true ∨ isNaN b.close = true) ∧
      (∃ x, ((SimpleAverage.indicator 2).series uneven)[4]? = some x ∧ isNaN x = false ∧
        Between [finite 101, finite 107] x) ∧
      (∃ x, ((ExponentialAverage.indicator 2).series uneven)[4]? = some x ∧ isNaN x = false ∧
        Between [finite 100, finite 104, finite 101, finite 107] x) ∧
      ∃ x, ((RelativeStrength.indicator 2).series uneven)[4]? = some x ∧ isNaN x = false ∧
        nat 0 ≤ x ∧ x ≤ nat 100 := by
  have hbars : ∀ b ∈ uneven, isFinite b.close = true ∨ isNaN b.close = true := by decide
  have hsimple : ((SimpleAverage.indicator 2).series uneven)[4]? = some (finite 104) := by
    decide +kernel
  have haverage : ((ExponentialAverage.indicator 2).series uneven)[4]? =
      some (finite (946 / 9)) := by
    decide +kernel
  have hstrength : ((RelativeStrength.indicator 2).series uneven)[4]? =
      some (finite (1600 / 19)) := by
    decide +kernel
  exact ⟨hbars, ⟨_, hsimple, rfl, (numbers_in_range 2 uneven hbars 4 _ rfl).1 hsimple⟩,
    ⟨_, haverage, rfl, (numbers_in_range 2 uneven hbars 4 _ rfl).2.1 haverage⟩,
    _, hstrength, rfl, (numbers_in_range 2 uneven hbars 4 _ rfl).2.2 hstrength⟩

end Indicator

end Backtest
