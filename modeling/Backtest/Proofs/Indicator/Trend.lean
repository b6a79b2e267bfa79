import Backtest.Proofs.Indicator.Smoothing
import Backtest.Proofs.Indicator.Window
import Backtest.Strategy.Crossover

/-!
# Averages of closes in a trend

While rational closes rise, the average over a longer period is below the one over a shorter period,
be both of them simple or exponential: the longer one gives more of its weight to closes that are
further back. While they fall it is above it.
-/

namespace Backtest

open Scalar
open Extended (finite)

variable {period fast slow : ℕ} {xs : List ℚ}

namespace SimpleAverage

def average (period : ℕ) (xs : List ℚ) : ℚ := (xs.rtake period).sum / period

theorem average_neg (period : ℕ) (xs : List ℚ) :
    average period (xs.map (-·)) = -average period xs := by
  have hsum : ((xs.rtake period).map (-·)).sum = -(xs.rtake period).sum :=
    (map_list_sum (negAddMonoidHom : ℚ →+ ℚ) _).symm
  rw [average, map_rtake, hsum, neg_div, average]

theorem ofWindow_finite (hperiod : 0 < period) (xs : List ℚ) :
    ofWindow period ((xs.map finite).rtake period) =
      if xs.length < period then .nan else finite (average period xs) := by
  have hne : (period : ℚ) ≠ 0 := Nat.cast_ne_zero.2 hperiod.ne'
  have hlength : (xs.rtake period).length < period ↔ xs.length < period := by
    rw [length_rtake]
    omega
  rw [map_rtake, ofWindow, List.length_map, Extended.total_finite, Extended.nat_eq_finite,
    Rational.nat_eq, Extended.finite_div hne]
  simp only [hlength]
  rfl

/-- On rising closes the longer window has smaller closes in front of the shorter one. -/
theorem average_lt_average (hfast : 0 < fast) (h : fast < slow) (hrising : xs.Pairwise (· < ·))
    (hlength : slow ≤ xs.length) : average slow xs < average fast xs := by
  have hwindow : xs.rtake slow = (xs.rtake slow).take (slow - fast) ++ xs.rtake fast := by
    have hrest : (xs.rtake slow).drop (slow - fast) = xs.rtake fast := by
      rw [List.rtake, List.rtake, List.drop_drop]
      congr 1
      omega
    rw [← hrest, List.take_append_drop]
  have hslow : (xs.rtake slow).length = slow := by
    rw [length_rtake, Nat.min_eq_left hlength]
  have hfull : (xs.rtake fast).length = fast := by
    rw [length_rtake, Nat.min_eq_left (h.le.trans hlength)]
  have holder : (xs.rtake slow).take (slow - fast) ≠ [] := by
    rw [← List.length_pos_iff, List.length_take, hslow]
    omega
  have hnewer : xs.rtake fast ≠ [] := by
    rw [← List.length_pos_iff, hfull]
    exact hfast
  have hpairwise : (xs.rtake slow).Pairwise (· < ·) := hrising.sublist (List.drop_sublist _ _)
  rw [hwindow, List.pairwise_append] at hpairwise
  have hmean := Rational.mean_append_lt holder hnewer hpairwise.2.2
  rwa [← hwindow, hslow, hfull] at hmean

end SimpleAverage

namespace Crossover.AverageKind

variable (kind : AverageKind)

def average : AverageKind → ℕ → List ℚ → ℚ
  | .simple => SimpleAverage.average
  | .exponential => ExponentialAverage.average

theorem average_neg (hperiod : 0 < period) (xs : List ℚ) :
    kind.average period (xs.map (-·)) = -kind.average period xs := by
  cases kind with
  | simple => exact SimpleAverage.average_neg period xs
  | exponential => exact ExponentialAverage.average_neg hperiod xs

theorem average_lt_of_rising (hfast : 0 < fast) (h : fast < slow) (hrising : xs.Pairwise (· < ·))
    (hlength : slow ≤ xs.length) : kind.average slow xs < kind.average fast xs := by
  cases kind with
  | simple => exact SimpleAverage.average_lt_average hfast h hrising hlength
  | exponential =>
    exact ExponentialAverage.average_lt_average hfast h hrising (h.trans_le hlength)

/-- Falling closes rise when their signs are changed. -/
theorem average_lt_of_falling (hfast : 0 < fast) (h : fast < slow)
    (hfalling : xs.Pairwise (· > ·)) (hlength : slow ≤ xs.length) :
    kind.average fast xs < kind.average slow xs := by
  have hrising : (xs.map (-·)).Pairwise (· < ·) :=
    List.pairwise_map.2 (hfalling.imp fun hlt => neg_lt_neg hlt)
  have hneg := kind.average_lt_of_rising hfast h hrising (by rwa [List.length_map])
  rwa [average_neg _ hfast, average_neg _ (hfast.trans h), neg_lt_neg_iff] at hneg

/-- What the series of an average holds at the last of some bars with rational closes. -/
theorem getElem?_series_last (hperiod : 0 < period) {bars : List (Bar Extended)}
    (hcloses : closes bars = xs.map finite) (hbars : bars ≠ []) :
    ((kind.indicator period).series bars)[bars.length - 1]? =
      some (if xs.length < period then .nan else finite (kind.average period xs)) := by
  have hpos := List.length_pos_iff.2 hbars
  have hlast : bars.length - 1 + 1 = bars.length := Nat.succ_pred_eq_of_pos hpos
  have hmax : max period 1 = period := by omega
  cases kind with
  | simple =>
    have hrational : ∀ b ∈ bars, isFinite b.close = true ∨ isNaN b.close = true := by
      have hall : ∀ x ∈ closes bars, isFinite x = true ∨ isNaN x = true := by
        rw [hcloses]
        exact List.forall_mem_map.2 fun _ _ => .inl rfl
      exact List.forall_mem_map.1 hall
    have hwindow : SimpleAverage.window period bars (bars.length - 1) =
        (xs.map finite).rtake period := by
      rw [SimpleAverage.window, hlast, hcloses, ← hcloses, ← length_closes, List.take_length]
    rw [indicator, SimpleAverage.getElem?_series period hrational (by omega), hmax, hwindow,
      SimpleAverage.ofWindow_finite hperiod]
    rfl
  | exponential =>
    rw [indicator, (ExponentialAverage.scans period).number bars _ (by omega), hlast, hmax,
      List.take_length, hcloses, ExponentialAverage.current_foldl_finite hperiod]
    rfl

end Crossover.AverageKind

end Backtest
