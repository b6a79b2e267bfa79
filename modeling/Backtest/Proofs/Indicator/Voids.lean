import Backtest.Proofs.Indicator.Causality
import Backtest.Proofs.Indicator.Exact
import Backtest.Proofs.Scalar.Total

/-!
# Bars without a close

The exponential average and the relative strength pass a bar without a close over: they give there
the number before it, and at the other bars what they give on a series without such bars. On exact
numbers they give the first number once there are enough closes, and from then on always.
-/

namespace Backtest

open Scalar
open Extended (finite)

variable {α : Type} [Scalar α]

/-! ## Bars with a close -/

def quoted (bars : List (Bar α)) : List (Bar α) := bars.filter fun b => !isNaN b.close

def quotes (bars : List (Bar α)) (i : Nat) : Nat := (quoted (bars.take (i + 1))).length

theorem closes_quoted (bars : List (Bar α)) :
    closes (quoted bars) = (closes bars).filter fun x => !isNaN x := by
  rw [closes, closes, quoted, List.filter_map]
  rfl

/-- The closes up to an index are the first ones of all of them. -/
theorem quoted_take (bars : List (Bar α)) (i : Nat) :
    (quoted bars).take (quotes bars i) = quoted (bars.take (i + 1)) := by
  have hsplit : quoted bars = quoted (bars.take (i + 1)) ++ quoted (bars.drop (i + 1)) := by
    rw [quoted, quoted, quoted, ← List.filter_append, List.take_append_drop]
  rw [hsplit, quotes, List.take_left]

theorem quotes_le (bars : List (Bar α)) (i : Nat) : quotes bars i ≤ (quoted bars).length := by
  rw [quotes, ← quoted_take]
  exact List.length_take_le' _ _

namespace Indicator

/-! ## Numbers read off a state -/

variable {σ : Type} {step : σ → α → σ} {out : σ → α} {start : σ} {ind : Indicator α}

/-- The numbers are read off a state that takes in one close after the other, and that a missing
close leaves as it is. -/
structure Scans (ind : Indicator α) (step : σ → α → σ) (out : σ → α) (start : σ) : Prop where
  length : ∀ bars, (ind.series bars).length = bars.length
  number : ∀ bars i, i < bars.length →
    (ind.series bars)[i]? = some (out ((closes (bars.take (i + 1))).foldl step start))
  missing : ∀ s x, isNaN x = true → step s x = s

/-- A bar without a close is passed over: every bar has the number of the last close so far in the
series without such bars, and none before the first close. -/
def PassesOver (ind : Indicator α) : Prop :=
  ∀ bars i, i < bars.length → ∃ x, (ind.series bars)[i]? = some x ∧
    (quotes bars i = 0 → x = nan) ∧
    (0 < quotes bars i → (ind.series (quoted bars))[quotes bars i - 1]? = some x)

theorem Scans.foldl_quoted (h : ind.Scans step out start) (bars : List (Bar α)) :
    (closes bars).foldl step start = (closes (quoted bars)).foldl step start := by
  rw [closes_quoted, List.foldl_filter]
  congr 1
  funext s x
  cases hx : isNaN x with
  | true => exact h.missing s x hx
  | false => rfl

theorem Scans.passesOver (h : ind.Scans step out start) (hstart : out start = nan) :
    ind.PassesOver := by
  intro bars i hi
  refine ⟨_, h.number bars i hi, fun hnone => ?_, fun hsome => ?_⟩
  · rw [h.foldl_quoted, List.length_eq_zero_iff.1 hnone]
    exact hstart
  · have hlt : quotes bars i - 1 < (quoted bars).length := by
      have hle := quotes_le bars i
      omega
    rw [h.number _ _ hlt, Nat.sub_add_cancel hsome, quoted_take, ← h.foldl_quoted]

/-- On exact numbers, where closes are rational or missing, a bar has a number exactly if there are
`n` closes up to it. -/
def ReadyAt (ind : Indicator Extended) (n : Nat) : Prop :=
  ∀ bars : List (Bar Extended), (∀ b ∈ bars, isFinite b.close = true ∨ isNaN b.close = true) →
    ∀ i x, (ind.series bars)[i]? = some x → (isNaN x = false ↔ n ≤ quotes bars i)

/-- Where every close is rational or missing, the closes there are are rational. -/
theorem exists_rational_closes {bars : List (Bar Extended)}
    (hbars : ∀ b ∈ bars, isFinite b.close = true ∨ isNaN b.close = true) :
    ∃ xs : List ℚ, xs.map finite = closes (quoted bars) := by
  refine Extended.exists_map_finite (List.forall_mem_map.2 fun b hb => ?_)
  obtain ⟨hmem, hquoted⟩ := List.mem_filter.1 hb
  exact (hbars b hmem).resolve_right (by simpa using hquoted)

/-- Where every close is rational or missing, the state is the one that rational closes lead to. -/
theorem Scans.exists_rational {step : σ → Extended → σ} {out : σ → Extended}
    {ind : Indicator Extended} (h : ind.Scans step out start) {bars : List (Bar Extended)}
    (hbars : ∀ b ∈ bars, isFinite b.close = true ∨ isNaN b.close = true) {i : Nat} {x : Extended}
    (hx : (ind.series bars)[i]? = some x) :
    ∃ xs : List ℚ, xs.map finite = closes (quoted (bars.take (i + 1))) ∧
      x = out ((xs.map finite).foldl step start) := by
  have hi : i < bars.length := by
    rw [← h.length bars]
    exact (List.getElem?_eq_some_iff.1 hx).1
  obtain ⟨xs, hxs⟩ := exists_rational_closes fun b hb => hbars b (List.mem_of_mem_take hb)
  refine ⟨xs, hxs, Option.some.inj (hx.symm.trans ?_)⟩
  rw [hxs, ← h.foldl_quoted, h.number bars i hi]

/-- It is enough to know after how many rational closes there is a number. -/
theorem Scans.readyAt {step : σ → Extended → σ} {out : σ → Extended} {ind : Indicator Extended}
    (h : ind.Scans step out start) {n : ℕ}
    (hout : ∀ xs : List ℚ,
      isNaN (out ((xs.map finite).foldl step start)) = false ↔ n ≤ xs.length) :
    ind.ReadyAt n := by
  intro bars hbars i x hx
  obtain ⟨xs, hcloses, rfl⟩ := h.exists_rational hbars hx
  rw [hout, quotes, ← length_closes, ← hcloses, List.length_map]

theorem isNaN_pending {n period : ℕ} {a : ℚ} :
    isNaN (if n < period then Extended.nan else finite a) = false ↔ period ≤ n := by
  split
  · rename_i hpending
    exact iff_of_false (by simp) hpending.not_ge
  · rename_i hready
    exact iff_of_true rfl (Nat.le_of_not_lt hready)

end Indicator

/-! ## The exponential average -/

namespace ExponentialAverage

theorem scans (period : Nat) :
    (indicator (α := α) period).Scans (step (max period 1)) (·.current) start where
  length := length_series period
  number bars i hi := by
    simp only [indicator, Indicator.ofSeries, ofValues]
    rw [if_neg (by omega), closes_take]
    exact getElem?_of_emits (step _) (·.current) (fun _ _ _ => rfl) start (by simpa using hi)
  missing s x hx := by rw [step, if_pos hx]

variable {period : Nat}

theorem seen_foldl_step (xs : List ℚ) (s : State ℚ) (hseen : s.seen ≤ period) :
    (xs.foldl (step period) s).seen = min (s.seen + xs.length) period := by
  induction xs generalizing s with
  | nil => exact (Nat.min_eq_left hseen).symm
  | cons x xs ih =>
    have hstep : (step period s x).seen = min (s.seen + 1) period := by
      by_cases hseed : s.seen < period
      · rw [Nat.min_eq_left hseed]
        simp [step, hseed]
      · simp only [step, Rational.isNaN_eq, Bool.false_eq_true, if_false, if_neg hseed]
        omega
    rw [List.foldl_cons, ih _ (by omega), hstep, List.length_cons]
    omega

theorem readyAt (period : Nat) : (indicator (α := Extended) period).ReadyAt (max period 1) := by
  have hperiod : 0 < max period 1 := by omega
  refine (scans period).readyAt fun xs => ?_
  rw [start_exact hperiod, foldl_step_exact hperiod, State.exact, Indicator.isNaN_pending,
    seen_foldl_step xs start (Nat.zero_le _)]
  simp only [start]
  omega

end ExponentialAverage

/-! ## The relative strength -/

namespace RelativeStrength

theorem scans (period : Nat) :
    (indicator (α := α) period).Scans (step (max period 1)) (·.current) start where
  length := length_series period
  number bars i hi := by
    simp only [indicator, Indicator.ofSeries, ofCloses, closes_take]
    exact getElem?_of_emits (step _) (·.current) (fun _ _ _ => rfl) start (by simpa using hi)
  missing s x hx := by rw [step, if_pos hx]

variable {period : Nat}

theorem changes_takeChange (s : State ℚ) (change : ℚ) :
    (takeChange period s change).changes = s.changes + 1 := by
  simp only [takeChange]
  split <;> rfl

/-- Every close but the first makes a change. -/
theorem changes_foldl_step (xs : List ℚ) {s : State ℚ} {previous : ℚ}
    (hlast : s.lastClose = some previous) :
    (xs.foldl (step period) s).changes = s.changes + xs.length := by
  induction xs generalizing s previous with
  | nil => rfl
  | cons x xs ih =>
    have hstep : (step period s x).changes = s.changes + 1 := by
      simp [step, hlast, changes_takeChange]
    have hnext : (step period s x).lastClose = some x := by simp [step]
    rw [List.foldl_cons, ih hnext, hstep, List.length_cons]
    omega

theorem changes_foldl_start (xs : List ℚ) :
    (xs.foldl (step period) start).changes = xs.length - 1 := by
  cases xs with
  | nil => rfl
  | cons x xs =>
    rw [List.foldl_cons, changes_foldl_step xs (s := step period start x) rfl, List.length_cons]
    simp [step, start]

theorem readyAt (period : Nat) :
    (indicator (α := Extended) period).ReadyAt (max period 1 + 1) := by
  have hperiod : 0 < max period 1 := by omega
  refine (scans period).readyAt fun xs => ?_
  rw [start_exact hperiod, foldl_step_exact hperiod xs ⟨le_rfl, le_rfl⟩, State.exact,
    Indicator.isNaN_pending, changes_foldl_start]
  omega

end RelativeStrength

namespace Indicator

/-- The exponential average and the relative strength give at each bar what they give without the
bars that have no close, at the last close so far, and no number before the first close. On exact
numbers the average has a number from the close on that fills its period, and the strength from the
next one on. -/
theorem voids_invisible (period : Nat) :
    (∀ (α : Type) [Scalar α],
      (ExponentialAverage.indicator period : Indicator α).PassesOver ∧
        (RelativeStrength.indicator period : Indicator α).PassesOver) ∧
    (ExponentialAverage.indicator period).ReadyAt (max period 1) ∧
    (RelativeStrength.indicator period).ReadyAt (max period 1 + 1) :=
  ⟨fun _ _ => ⟨(ExponentialAverage.scans period).passesOver rfl,
    (RelativeStrength.scans period).passesOver rfl⟩,
    ExponentialAverage.readyAt period, RelativeStrength.readyAt period⟩

def gaps : List (Bar Extended) :=
  [.still 2 .nan, .still 3 (finite 100), .still 4 .nan, .still 5 (finite 102),
    .still 8 (finite 105), .still 9 .nan, .still 10 (finite 103)]

/-- Over two days the average is there at the second close and the strength at the third, and both
are repeated on the day without a close that follows. -/
theorem voids_invisible_gaps :
    (∀ b ∈ gaps, isFinite b.close = true ∨ isNaN b.close = true) ∧
      (List.range 7).map (quotes gaps) = [0, 1, 1, 2, 3, 3, 4] ∧
      (∃ x, ((ExponentialAverage.indicator 2).series gaps)[5]? = some x ∧
        ((ExponentialAverage.indicator 2).series (quoted gaps))[2]? = some x ∧ isNaN x = false) ∧
      (∃ x, ((RelativeStrength.indicator 2).series gaps)[5]? = some x ∧
        ((RelativeStrength.indicator 2).series (quoted gaps))[2]? = some x ∧ isNaN x = false) ∧
      ∃ x, ((RelativeStrength.indicator 2).series gaps)[3]? = some x ∧ isNaN x = true := by
  have hgaps : ∀ b ∈ gaps, isFinite b.close = true ∨ isNaN b.close = true := by decide
  have hquotes : quotes gaps 5 = 3 := by decide
  obtain ⟨hover, haverage, hstrength⟩ := voids_invisible 2
  obtain ⟨haverageOver, hstrengthOver⟩ := hover Extended
  obtain ⟨x, hx, -, hlast⟩ := haverageOver gaps 5 (by decide)
  obtain ⟨y, hy, -, hlast'⟩ := hstrengthOver gaps 5 (by decide)
  obtain ⟨z, hz, -, -⟩ := hstrengthOver gaps 3 (by decide)
  rw [hquotes] at hlast hlast'
  refine ⟨hgaps, by decide, ⟨x, hx, hlast (by decide), ?_⟩, ⟨y, hy, hlast' (by decide), ?_⟩,
    z, hz, ?_⟩
  · exact (haverage gaps hgaps 5 x hx).2 (by decide)
  · exact (hstrength gaps hgaps 5 y hy).2 (by decide)
  · rw [← Bool.not_eq_false, hstrength gaps hgaps 3 z hz]
    decide

end Indicator

end Backtest
