import Backtest.Indicator.Change
import Backtest.Proofs.Indicator.Exact
import Backtest.Proofs.Scalar.Scaling

/-!
# Indicators in another unit

On exact numbers the average of closes in another unit is the average of the closes in that unit,
whatever infinities and NaN there are among them. Relative strength and the rate of change have no
unit: where closes enter them they do so in quotients of two, and in comparisons with zero.
-/

namespace Backtest

open Scalar
open Extended (finite)

/-- The second bars have the closes of the first, in another unit; the rest of a bar may differ. -/
def Rescaled (k : ℚ) (bars bars' : List (Bar Extended)) : Prop :=
  closes bars' = (closes bars).map (finite k * ·)

theorem Rescaled.length_eq {k : ℚ} {bars bars' : List (Bar Extended)}
    (h : Rescaled k bars bars') : bars'.length = bars.length := by
  simpa [closes] using congrArg List.length h

/-- Machines whose steps correspond give corresponding numbers. -/
theorem map_of_emits {α σ β : Type} (step : σ → α → σ) (out : σ → β)
    {emit : σ → List α → List β} (hnil : ∀ s, emit s [] = [])
    (hcons : ∀ s x xs, emit s (x :: xs) = out (step s x) :: emit (step s x) xs)
    {input : α → α} {state : σ → σ} {output : β → β}
    (hstep : ∀ s x, step (state s) (input x) = state (step s x))
    (hout : ∀ s, out (state s) = output (out s)) (s : σ) (xs : List α) :
    emit (state s) (xs.map input) = (emit s xs).map output := by
  induction xs generalizing s with
  | nil => rw [List.map_nil, hnil, hnil, List.map_nil]
  | cons x xs ih => rw [List.map_cons, hcons, hcons, hstep, hout, ih, List.map_cons]

namespace Indicator

/-- The numbers are in the unit of the closes. -/
def Homogeneous (i : Indicator Extended) : Prop :=
  ∀ {k : ℚ} {bars bars' : List (Bar Extended)}, 0 < k → Rescaled k bars bars' →
    i.series bars' = (i.series bars).map (finite k * ·)

def Unitless (i : Indicator Extended) : Prop :=
  ∀ {k : ℚ} {bars bars' : List (Bar Extended)}, 0 < k → Rescaled k bars bars' →
    i.series bars' = i.series bars

end Indicator

variable {k : ℚ} {period : ℕ}

theorem scale_div_nat (hk : 0 < k) (hperiod : 0 < period) (x : Extended) :
    finite k * x / nat period = finite k * (x / nat period) :=
  Extended.scale_div hk (Nat.cast_ne_zero.2 hperiod.ne') x

namespace SimpleAverage

theorem slide_scale (hk : 0 < k) (hperiod : 0 < period) (sum : Extended)
    (trail rest : List Extended) :
    slide period (finite k * sum) (trail.map (finite k * ·)) (rest.map (finite k * ·)) =
      (slide period sum trail rest).map (finite k * ·) := by
  induction trail generalizing sum rest with
  | nil => rfl
  | cons leaving trail ih =>
    cases rest with
    | nil => rfl
    | cons entering rest =>
      simp only [List.map_cons, slide, Extended.isNaN_scale hk, ← List.map_take,
        Extended.total_scale hk, Extended.scale_sub hk, Extended.scale_add hk, ← apply_ite, ih,
        scale_div_nat hk hperiod]

theorem ofCloses_scale (hk : 0 < k) (hperiod : 0 < period) (xs : List Extended) :
    ofCloses period (xs.map (finite k * ·)) = (ofCloses period xs).map (finite k * ·) := by
  unfold ofCloses
  rw [List.length_map]
  split
  · simp only [List.map_map, Function.comp_def, Extended.scale_nan]
  · simp only [← List.map_take, ← List.map_drop, Extended.total_scale hk,
      slide_scale hk hperiod, scale_div_nat hk hperiod, List.map_append, List.map_replicate,
      List.map_cons, Extended.scale_nan]

theorem homogeneous (period : ℕ) : (indicator period).Homogeneous := by
  intro k bars bars' hk hbars
  simp only [indicator]
  rw [hbars, ofCloses_scale hk (by omega)]

end SimpleAverage

namespace ExponentialAverage

def State.scale (k : ℚ) (s : State Extended) : State Extended where
  seedSum := finite k * s.seedSum
  seen := s.seen
  current := finite k * s.current

theorem step_scale (hk : 0 < k) (hperiod : 0 < period) (s : State Extended) (x : Extended) :
    step period (s.scale k) (finite k * x) = (step period s x).scale k := by
  unfold step
  rw [Extended.isNaN_scale hk]
  split
  · rfl
  · by_cases hseed : s.seen < period
    · simp only [State.scale, if_pos hseed, Extended.scale_add hk, scale_div_nat hk hperiod,
        ← apply_ite (finite k * ·)]
    · simp only [State.scale, if_neg hseed, Extended.scale_mean hk (weight_exact period)]

theorem homogeneous (period : ℕ) : (indicator period).Homogeneous := by
  intro k bars bars' hk hbars
  have hstart : (start : State Extended) = start.scale k := by
    simp [start, State.scale, Extended.scale_nan]
  simp only [indicator, Indicator.ofSeries, ofValues]
  rw [if_neg (by omega), if_neg (by omega), hbars]
  conv_lhs => rw [hstart]
  exact map_of_emits (step _) (·.current) (fun _ => rfl) (fun _ _ _ => rfl)
    (step_scale hk (by omega)) (fun _ => rfl) start (closes bars)

end ExponentialAverage

namespace RelativeStrength

def State.scale (k : ℚ) (s : State Extended) : State Extended where
  lastClose := s.lastClose.map (finite k * ·)
  changes := s.changes
  gain := finite k * s.gain
  loss := finite k * s.loss
  current := s.current

theorem ofAverages_scale (hk : 0 < k) (gain loss : Extended) :
    ofAverages (finite k * gain) (finite k * loss) = ofAverages gain loss := by
  simp only [ofAverages, Extended.scale_beq_zero hk, Extended.scale_div_scale hk]

theorem takeChange_scale (hk : 0 < k) (hperiod : 0 < period) (s : State Extended)
    (change : Extended) :
    takeChange period (s.scale k) (finite k * change) = (takeChange period s change).scale k := by
  simp only [takeChange, State.scale, Extended.scale_neg hk, Extended.larger_scale_zero hk]
  split
  · simp only [scale_div_nat hk hperiod, Extended.scale_add hk, ofAverages_scale hk]
  · simp only [Extended.scale_mean hk (weight_exact hperiod), ofAverages_scale hk]

theorem step_scale (hk : 0 < k) (hperiod : 0 < period) (s : State Extended) (x : Extended) :
    step period (s.scale k) (finite k * x) = (step period s x).scale k := by
  unfold step
  rw [Extended.isNaN_scale hk]
  split
  · rfl
  · cases hlast : s.lastClose with
    | none => simp [State.scale, hlast]
    | some previous =>
      have hlast' : (s.scale k).lastClose = some (finite k * previous) := by
        rw [State.scale, hlast, Option.map_some]
      simp only [hlast', Extended.scale_sub hk, takeChange_scale hk hperiod]
      rfl

theorem unitless (period : ℕ) : (indicator period).Unitless := by
  intro k bars bars' hk hbars
  have hstart : (start : State Extended) = start.scale k := by
    simp [start, State.scale]
  simp only [indicator, Indicator.ofSeries, ofCloses]
  rw [hbars, ← List.map_id (scan _ start (closes bars))]
  conv_lhs => rw [hstart]
  exact map_of_emits (step _) (·.current) (fun _ => rfl) (fun _ _ _ => rfl)
    (step_scale hk (by omega)) (fun _ => rfl) start (closes bars)

end RelativeStrength

namespace RateOfChange

theorem between_scale (hk : 0 < k) (earlier later : Extended) :
    between (finite k * earlier) (finite k * later) = between earlier later := by
  simp only [between, Extended.isNaN_scale hk, Extended.scale_beq_zero hk,
    Extended.scale_div_scale hk]

/-- The newest rate of change is read off the closes. -/
theorem newest_ofSeries {α : Type} [Scalar α] (period : ℕ) (bars : List (Bar α)) :
    newest period (.ofSeries bars) =
      (closes bars).reverse[0]?.bind fun later =>
        (closes bars).reverse[period]?.bind fun earlier => present (between earlier later) := by
  simp only [newest, History.back?, History.ofSeries, closes, ← List.map_reverse,
    List.getElem?_map, Option.bind_map]
  cases bars.reverse[0]? <;> cases bars.reverse[period]? <;> rfl

theorem latest_rescaled (period : ℕ) {bars bars' : List (Bar Extended)} (hk : 0 < k)
    (hbars : Rescaled k bars bars') :
    (indicator period).latest (.ofSeries bars') = (indicator period).latest (.ofSeries bars) := by
  simp only [indicator]
  rw [newest_ofSeries, newest_ofSeries, hbars]
  simp only [← List.map_reverse, List.getElem?_map, Option.bind_map, Function.comp_def,
    between_scale hk]

end RateOfChange

end Backtest
