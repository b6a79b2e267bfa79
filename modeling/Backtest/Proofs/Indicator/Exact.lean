import Backtest.Indicator.Strength
import Backtest.Proofs.Scalar.Rational

/-!
# Indicators of rational closes

Rational closes lead the exponential average and the relative strength through rational states:
nothing that they divide by is zero. Only what they have not yet filled is no number. So what holds
of rational arithmetic holds of exact numbers.
-/

namespace Backtest

open Scalar
open Extended (finite)

namespace ExponentialAverage

def State.exact (period : Nat) (s : State ℚ) : State Extended where
  seedSum := finite s.seedSum
  seen := s.seen
  current := if s.seen < period then .nan else finite s.current

variable {period : Nat}

theorem weight_exact (period : Nat) : (weight period : Extended) = finite (weight period) := by
  have hne : (period : ℚ) + 1 ≠ 0 := by positivity
  simp [weight, hne]

theorem step_exact (hperiod : 0 < period) (s : State ℚ) (x : ℚ) :
    step period (s.exact period) (finite x) = (step period s x).exact period := by
  have hne : (period : ℚ) ≠ 0 := Nat.cast_ne_zero.2 hperiod.ne'
  by_cases hseed : s.seen < period
  · by_cases hfull : s.seen + 1 = period
    · simp [step, State.exact, hseed, hfull, hne]
    · have hseed' : s.seen + 1 < period := by omega
      simp [step, State.exact, hseed, hseed', hfull]
  · simp [step, State.exact, hseed, weight_exact]

theorem start_exact (hperiod : 0 < period) : (start : State Extended) = start.exact period := by
  have hpending : (start : State ℚ).seen < period := hperiod
  rw [State.exact, if_pos hpending]
  rfl

theorem foldl_step_exact (hperiod : 0 < period) (xs : List ℚ) (s : State ℚ) :
    (xs.map finite).foldl (step period) (s.exact period) =
      (xs.foldl (step period) s).exact period := by
  rw [List.foldl_map]
  exact List.foldl_hom (State.exact period) fun s x => step_exact hperiod s x

end ExponentialAverage

namespace RelativeStrength

def State.exact (period : Nat) (s : State ℚ) : State Extended where
  lastClose := s.lastClose.map finite
  changes := s.changes
  gain := finite s.gain
  loss := finite s.loss
  current := if s.changes < period then .nan else finite s.current

def State.Nonneg (s : State ℚ) : Prop := 0 ≤ s.gain ∧ 0 ≤ s.loss

variable {period : Nat} {s : State ℚ}

theorem ofAverages_exact {gain loss : ℚ} (hgain : 0 ≤ gain) (hloss : 0 ≤ loss) :
    ofAverages (finite gain) (finite loss) = finite (ofAverages gain loss) := by
  have hratio : (1 : ℚ) + gain / loss ≠ 0 := by positivity
  by_cases hg : gain = 0 <;> by_cases hl : loss = 0 <;> simp [ofAverages, hg, hl, hratio]

theorem weight_exact (hperiod : 0 < period) :
    (weight period : Extended) = finite (weight period) := by
  have hne : (period : ℚ) ≠ 0 := Nat.cast_ne_zero.2 hperiod.ne'
  simp [weight, hne]

theorem State.Nonneg.takeChange (hperiod : 0 < period) (h : s.Nonneg) (change : ℚ) :
    (takeChange period s change).Nonneg := by
  have hone : (1 : ℚ) ≤ period := Nat.one_le_cast.2 hperiod
  have hweight : 0 ≤ (weight period : ℚ) ∧ (weight period : ℚ) ≤ 1 := by
    simp only [weight, Rational.nat_eq, Nat.cast_one]
    exact ⟨by positivity, div_le_one_of_le₀ hone (by positivity)⟩
  have hmove (x : ℚ) : 0 ≤ larger x (nat 0) := by
    rw [Rational.larger_eq_max]
    exact le_max_right x 0
  have hsmooth (x y : ℚ) (hy : 0 ≤ y) :
      0 ≤ weight period * larger x (nat 0) + (nat 1 - weight period) * y :=
    add_nonneg (mul_nonneg hweight.1 (hmove x))
      (mul_nonneg (by simpa using hweight.2) hy)
  have hmean (x y : ℚ) (hy : 0 ≤ y) : 0 ≤ y + larger x (nat 0) / nat period :=
    add_nonneg hy (div_nonneg (hmove x) (by simp))
  simp only [RelativeStrength.takeChange]
  split
  · exact ⟨hmean _ _ h.1, hmean _ _ h.2⟩
  · exact ⟨hsmooth _ _ h.1, hsmooth _ _ h.2⟩

theorem takeChange_exact (hperiod : 0 < period) (h : s.Nonneg) (change : ℚ) :
    takeChange period (s.exact period) (finite change) =
      (takeChange period s change).exact period := by
  have hne : (period : ℚ) ≠ 0 := Nat.cast_ne_zero.2 hperiod.ne'
  obtain ⟨hgain, hloss⟩ := h.takeChange hperiod change
  have hstrength := ofAverages_exact hgain hloss
  by_cases hseed : s.changes + 1 ≤ period
  · simp only [takeChange, if_pos hseed] at hstrength
    by_cases hfull : s.changes + 1 = period
    · simpa [takeChange, State.exact, hfull, hne] using hstrength
    · have hnext : s.changes + 1 < period := by omega
      have hbefore : s.changes < period := by omega
      simp [takeChange, State.exact, hseed, hnext, hbefore, hfull, hne]
  · have hafter : ¬s.changes + 1 < period := by omega
    simp only [takeChange, if_neg hseed] at hstrength
    simpa [takeChange, State.exact, hseed, hafter, weight_exact hperiod] using hstrength

theorem State.Nonneg.step (hperiod : 0 < period) (h : s.Nonneg) (x : ℚ) :
    (step period s x).Nonneg := by
  simp only [RelativeStrength.step, Rational.isNaN_eq, Bool.false_eq_true, if_false]
  cases s.lastClose with
  | none => exact h
  | some previous => exact h.takeChange hperiod (x - previous)

theorem step_exact (hperiod : 0 < period) (h : s.Nonneg) (x : ℚ) :
    step period (s.exact period) (finite x) = (step period s x).exact period := by
  cases hlast : s.lastClose with
  | none => simp [step, State.exact, hlast]
  | some previous =>
    have hchange := takeChange_exact hperiod h (x - previous)
    have hlast' : (s.exact period).lastClose = some (finite previous) := by
      rw [State.exact, hlast, Option.map_some]
    simp only [step, Extended.isNaN_finite, Rational.isNaN_eq, hlast, hlast',
      Extended.finite_sub, hchange, Bool.false_eq_true, if_false]
    rfl

theorem start_exact (hperiod : 0 < period) : (start : State Extended) = start.exact period := by
  have hpending : (start : State ℚ).changes < period := hperiod
  rw [State.exact, if_pos hpending]
  rfl

theorem foldl_step_exact (hperiod : 0 < period) (xs : List ℚ) {s : State ℚ} (h : s.Nonneg) :
    (xs.map finite).foldl (step period) (s.exact period) =
      (xs.foldl (step period) s).exact period := by
  induction xs generalizing s with
  | nil => rfl
  | cons x xs ih =>
    rw [List.map_cons, List.foldl_cons, step_exact hperiod h, ih (h.step hperiod x),
      List.foldl_cons]

end RelativeStrength

end Backtest
