import Mathlib.Tactic.FieldSimp
import Mathlib.Tactic.Linarith
import Mathlib.Tactic.LinearCombination
import Backtest.Proofs.Indicator.Voids

/-!
# How the exponential average moves

Over rational closes the exponential average is the mean of the closes as long as these seed it, and
is smoothed from then on. In both phases a new close moves it by a share of their distance, and a
longer period never has the larger share. So the average stays within all bounds of the closes, and
the average over a longer period lags behind rising closes.
-/

namespace Backtest.ExponentialAverage

open Scalar
open Extended (finite)

variable {period fast slow n : ℕ} {s : State ℚ} {xs : List ℚ} {x b : ℚ}

def State.average (period : ℕ) (s : State ℚ) : ℚ :=
  if s.seen < period then s.seedSum / s.seen else s.current

def average (period : ℕ) (xs : List ℚ) : ℚ := (xs.foldl (step period) start).average period

/-- By which share of their distance the close after `n` others moves the average. -/
def share (period n : ℕ) : ℚ := if n < period then 1 / (n + 1) else weight period

theorem weight_eq (period : ℕ) : (weight period : ℚ) = 2 / (period + 1) := by
  simp [weight]

theorem State.average_step (hstart : s.seen = 0 → s.seedSum = 0) :
    (step period s x).average period =
      s.average period + share period s.seen * (x - s.average period) := by
  by_cases hseed : s.seen < period
  · have hnext : (step period s x).average period = (s.seedSum + x) / (s.seen + 1) := by
      by_cases hfull : s.seen + 1 = period
      · subst hfull
        simp [step, State.average]
      · have hmore : s.seen + 1 < period := by omega
        simp [step, State.average, hseed, hmore]
    rw [hnext, State.average, share, if_pos hseed, if_pos hseed]
    rcases Nat.eq_zero_or_pos s.seen with hnone | hsome
    · simp [hnone, hstart hnone]
    · have hseen : (s.seen : ℚ) ≠ 0 := Nat.cast_ne_zero.2 hsome.ne'
      field_simp
      ring
  · simp only [step, State.average, share, Rational.isNaN_eq, Bool.false_eq_true, if_false,
      if_neg hseed, Rational.nat_eq, Nat.cast_one]
    ring

/-- The average moves towards each new close. -/
theorem average_concat (hperiod : 0 < period) (xs : List ℚ) (x : ℚ) :
    average period (xs ++ [x]) =
      average period xs + share period xs.length * (x - average period xs) := by
  have hseen : (xs.foldl (step period) start).seen = min xs.length period := by
    simpa [start] using seen_foldl_step xs start (Nat.zero_le period)
  have hshare : share period (min xs.length period) = share period xs.length := by
    unfold share
    by_cases hseed : xs.length < period
    · rw [Nat.min_eq_left hseed.le]
    · rw [if_neg hseed, if_neg (by omega)]
  rw [average, List.foldl_append, List.foldl_cons, List.foldl_nil, State.average_step, hseen,
    hshare]
  · rfl
  · intro hnone
    have hempty : xs = [] := List.length_eq_zero_iff.1 (by omega)
    rw [hempty]
    rfl

theorem average_singleton (hperiod : 0 < period) (x : ℚ) : average period [x] = x := by
  have hmove := average_concat hperiod [] x
  rw [share, List.length_nil, if_pos hperiod] at hmove
  simpa using hmove

/-- On exact numbers there is an average as soon as the closes fill the period. -/
theorem current_foldl_finite (hperiod : 0 < period) (xs : List ℚ) :
    ((xs.map finite).foldl (step period) start).current =
      if xs.length < period then .nan else finite (average period xs) := by
  have hseen : (xs.foldl (step period) start).seen = min xs.length period := by
    simpa [start] using seen_foldl_step xs start (Nat.zero_le period)
  rw [start_exact hperiod, foldl_step_exact hperiod, State.exact, average, State.average, hseen]
  by_cases hpending : xs.length < period
  · rw [if_pos hpending, if_pos (by omega)]
  · rw [if_neg hpending, if_neg (by omega), if_neg (by omega)]

theorem weight_pos (period : ℕ) : 0 < (weight period : ℚ) := by
  rw [weight_eq]
  positivity

theorem share_pos (period n : ℕ) : 0 < share period n := by
  unfold share
  split
  · positivity
  · exact weight_pos period

theorem weight_le_one (hperiod : 0 < period) : (weight period : ℚ) ≤ 1 := by
  have hone : (1 : ℚ) ≤ period := Nat.one_le_cast.2 hperiod
  rw [weight_eq, div_le_one (by positivity)]
  linarith

theorem share_le_one (hperiod : 0 < period) (n : ℕ) : share period n ≤ 1 := by
  unfold share
  split
  · rw [div_le_one (by positivity)]
    linarith [Nat.cast_nonneg (α := ℚ) n]
  · exact weight_le_one hperiod

/-! ## Bounds -/

theorem le_average (hperiod : 0 < period) (hne : xs ≠ []) (h : ∀ y ∈ xs, b ≤ y) :
    b ≤ average period xs := by
  induction xs using List.reverseRecOn with
  | nil => exact absurd rfl hne
  | append_singleton xs x ih =>
    obtain ⟨hbefore, hlast⟩ := List.forall_mem_append.1 h
    have hx : b ≤ x := hlast x List.mem_cons_self
    rcases eq_or_ne xs [] with rfl | hsome
    · rwa [List.nil_append, average_singleton hperiod]
    · have haverage := ih hsome hbefore
      have hpos := (share_pos period xs.length).le
      have hone := sub_nonneg.2 (share_le_one hperiod xs.length)
      -- a mean of the close and the average before, neither of them below the bound
      calc b = (1 - share period xs.length) * b + share period xs.length * b := by ring
        _ ≤ (1 - share period xs.length) * average period xs + share period xs.length * x := by
          gcongr
        _ = average period (xs ++ [x]) := by
          rw [average_concat hperiod]
          ring

/-- Changing the sign of the closes changes the sign of the average. -/
theorem average_neg (hperiod : 0 < period) (xs : List ℚ) :
    average period (xs.map (-·)) = -average period xs := by
  induction xs using List.reverseRecOn with
  | nil => simp [average, State.average, start, hperiod]
  | append_singleton xs x ih =>
    rw [List.map_append, List.map_singleton, average_concat hperiod, average_concat hperiod, ih,
      List.length_map]
    ring

theorem average_le (hperiod : 0 < period) (hne : xs ≠ []) (h : ∀ y ∈ xs, y ≤ b) :
    average period xs ≤ b := by
  have hneg : -b ≤ average period (xs.map (-·)) :=
    le_average hperiod (by simpa using hne) (List.forall_mem_map.2 fun y hy => neg_le_neg (h y hy))
  rwa [average_neg hperiod, neg_le_neg_iff] at hneg

/-! ## Rising closes -/

/-- Once the shorter period is full, the average over it takes the larger share of a close. -/
theorem share_lt_share (h : fast < slow) (hn : fast ≤ n) : share slow n < share fast n := by
  have hfast : (0 : ℚ) < fast + 1 := by positivity
  have hslow : (fast : ℚ) < slow := Nat.cast_lt.2 h
  have hcount : (fast : ℚ) ≤ n := Nat.cast_le.2 hn
  rw [share, share, if_neg hn.not_gt]
  split
  · rw [weight_eq fast, lt_div_iff₀ hfast, div_mul_eq_mul_div, div_lt_iff₀ (by positivity)]
    linarith
  · rw [weight_eq fast, weight_eq slow]
    exact div_lt_div_of_pos_left two_pos hfast (by linarith)

theorem share_eq_share (h : fast < slow) (hn : n < fast) : share slow n = share fast n := by
  rw [share, share, if_pos hn, if_pos (hn.trans h)]

/-- How far the faster average is ahead after one more close. -/
theorem average_sub_average (hfast : 0 < fast) (h : fast < slow) (xs : List ℚ) (x : ℚ) :
    average fast (xs ++ [x]) - average slow (xs ++ [x]) =
      (1 - share slow xs.length) * (average fast xs - average slow xs) +
        (share fast xs.length - share slow xs.length) * (x - average fast xs) := by
  rw [average_concat hfast, average_concat (hfast.trans h)]
  ring

/-- A close above all before it is above their average. -/
theorem average_lt_of_forall_lt (hperiod : 0 < period) (hne : xs ≠ []) (h : ∀ y ∈ xs, y < x) :
    average period xs < x := by
  have hpos := List.length_pos_iff.2 hne
  have hgreatest := average_le hperiod hne fun y hy => List.le_maximum_of_length_pos_of_mem hy hpos
  exact hgreatest.trans_lt (h _ (List.maximum_of_length_pos_mem hpos))

/-- What a close above all before it adds to the lead of the faster average. -/
theorem lead_pos (hfast : 0 < fast) (h : fast < slow) (hn : fast ≤ xs.length)
    (hlast : ∀ y ∈ xs, y < x) :
    0 < (share fast xs.length - share slow xs.length) * (x - average fast xs) := by
  have hne : xs ≠ [] := List.length_pos_iff.1 (hfast.trans_le hn)
  exact mul_pos (sub_pos.2 (share_lt_share h hn))
    (sub_pos.2 (average_lt_of_forall_lt hfast hne hlast))

theorem average_le_average (hfast : 0 < fast) (h : fast < slow) (hrising : xs.Pairwise (· < ·)) :
    average slow xs ≤ average fast xs := by
  induction xs using List.reverseRecOn with
  | nil => simp [average, State.average, start, hfast, hfast.trans h]
  | append_singleton xs x ih =>
    obtain ⟨hbefore, -, hlast⟩ := List.pairwise_append.1 hrising
    rw [← sub_nonneg, average_sub_average hfast h]
    have hkept := mul_nonneg (sub_nonneg.2 (share_le_one (hfast.trans h) xs.length))
      (sub_nonneg.2 (ih hbefore))
    rcases lt_or_ge xs.length fast with hseed | hsmooth
    · -- both averages are still the mean of all closes
      rw [share_eq_share h hseed, sub_self, zero_mul, add_zero, ← share_eq_share h hseed]
      exact hkept
    · have hlead := lead_pos hfast h hsmooth fun y hy => hlast y hy x List.mem_cons_self
      exact add_nonneg hkept hlead.le

/-- Once the shorter period is more than full, the average over it is ahead on rising closes. -/
theorem average_lt_average (hfast : 0 < fast) (h : fast < slow) (hrising : xs.Pairwise (· < ·))
    (hlength : fast < xs.length) : average slow xs < average fast xs := by
  obtain rfl | ⟨ys, x, rfl⟩ := List.eq_nil_or_concat' xs
  · cases hlength
  rw [List.length_append, List.length_singleton] at hlength
  obtain ⟨hbefore, -, hlast⟩ := List.pairwise_append.1 hrising
  have hkept := mul_nonneg (sub_nonneg.2 (share_le_one (hfast.trans h) ys.length))
    (sub_nonneg.2 (average_le_average hfast h hbefore))
  have hlead := lead_pos hfast h (Nat.le_of_lt_succ hlength)
    fun y hy => hlast y hy x List.mem_cons_self
  rw [← sub_pos, average_sub_average hfast h]
  exact add_pos_of_nonneg_of_pos hkept hlead

end Backtest.ExponentialAverage
