import Backtest.Indicator.Change
import Backtest.Indicator.Strength
import Backtest.Proofs.Market.Order
import Backtest.Scalar.Extended

/-!
# Indicators do not see the future

Cutting a series of bars cuts the numbers of each indicator and changes none of them. No property
of the arithmetic is used: the same operations are performed on the same closes.
-/

namespace Backtest

variable {α : Type}

@[simp] theorem closes_take (bars : List (Bar α)) (k : Nat) :
    closes (bars.take k) = (closes bars).take k := List.map_take

@[simp] theorem length_closes (bars : List (Bar α)) : (closes bars).length = bars.length :=
  List.length_map _

/-- A machine that gives one number after each input has given the first numbers after the first
inputs. -/
theorem take_of_emits {σ β : Type} (step : σ → α → σ) (out : σ → β)
    {emit : σ → List α → List β} (hnil : ∀ s, emit s [] = [])
    (hcons : ∀ s x xs, emit s (x :: xs) = out (step s x) :: emit (step s x) xs)
    (k : Nat) (s : σ) (xs : List α) : emit s (xs.take k) = (emit s xs).take k := by
  induction xs generalizing s k with
  | nil => simp [hnil]
  | cons x xs ih =>
    cases k with
    | zero => simp [hnil]
    | succ k => simp [hcons, ih]

theorem length_of_emits {σ β : Type} (step : σ → α → σ) (out : σ → β)
    {emit : σ → List α → List β} (hnil : ∀ s, emit s [] = [])
    (hcons : ∀ s x xs, emit s (x :: xs) = out (step s x) :: emit (step s x) xs)
    (s : σ) (xs : List α) : (emit s xs).length = xs.length := by
  induction xs generalizing s with
  | nil => rw [hnil, List.length_nil, List.length_nil]
  | cons x xs ih => rw [hcons, List.length_cons, List.length_cons, ih]

/-- The number after an input is read off the state that the inputs so far lead to. -/
theorem getElem?_of_emits {σ β : Type} (step : σ → α → σ) (out : σ → β)
    {emit : σ → List α → List β}
    (hcons : ∀ s x xs, emit s (x :: xs) = out (step s x) :: emit (step s x) xs)
    (s : σ) {xs : List α} {i : Nat} (hi : i < xs.length) :
    (emit s xs)[i]? = some (out ((xs.take (i + 1)).foldl step s)) := by
  induction xs generalizing s i with
  | nil => cases hi
  | cons x xs ih =>
    rw [hcons, List.take_succ_cons, List.foldl_cons]
    cases i with
    | zero => simp
    | succ i => exact ih (step s x) (Nat.lt_of_succ_lt_succ hi)

variable [Scalar α]

namespace SimpleAverage

/-- A cut that leaves `m` closes to enter leaves those closes and the window before them. -/
theorem slide_take (period m : Nat) (sum : α) (trail rest : List α) :
    slide period sum (trail.take (m + period)) (rest.take m) =
      (slide period sum trail rest).take m := by
  induction m generalizing sum trail rest with
  | zero => simp [slide]
  | succ m ih =>
    cases trail with
    | nil => simp [slide]
    | cons leaving trail =>
      cases rest with
      | nil => simp [slide]
      | cons entering rest =>
        have hwindow : (trail.take (m + period)).take period = trail.take period := by
          rw [List.take_take, Nat.min_eq_left (Nat.le_add_left period m)]
        rw [show m + 1 + period = m + period + 1 by omega]
        simp only [List.take_succ_cons, slide, hwindow, ih]

theorem ofCloses_take (period k : Nat) (hperiod : 0 < period) (xs : List α) :
    ofCloses period (xs.take k) = (ofCloses period xs).take k := by
  unfold ofCloses
  by_cases hshort : xs.length < period
  · have hcut : (xs.take k).length < period := by
      rw [List.length_take]
      omega
    rw [if_pos hshort, if_pos hcut, List.map_take]
  · rw [if_neg hshort]
    by_cases hk : k < period
    · -- The cut ends inside the first window, where every number is NaN.
      have hcut : (xs.take k).length < period := by
        rw [List.length_take]
        omega
      rw [if_pos hcut, List.take_append_of_le_length (by simp; omega), List.take_replicate,
        List.map_const', List.length_take]
      congr 1
      omega
    · have hcut : ¬(xs.take k).length < period := by
        rw [List.length_take]
        omega
      obtain ⟨m, rfl⟩ : ∃ m, k = m + period := ⟨k - period, by omega⟩
      have hwindow : (xs.take (m + period)).take period = xs.take period := by
        rw [List.take_take, Nat.min_eq_left (Nat.le_add_left period m)]
      have hentering : (xs.take (m + period)).drop period = (xs.drop period).take m := by
        rw [List.drop_take, Nat.add_sub_cancel]
      simp only [if_neg hcut, hwindow, hentering, slide_take]
      rw [List.take_append, List.length_replicate, List.take_replicate,
        show m + period - (period - 1) = m + 1 by omega,
        List.take_succ_cons, Nat.min_eq_right (by omega)]

theorem causal (period : Nat) : (indicator (α := α) period).Causal := by
  intro bars k
  simp only [indicator, closes_take]
  exact ofCloses_take (max period 1) k (by omega) (closes bars)

theorem length_slide (period : Nat) (sum : α) (trail rest : List α) :
    (slide period sum trail rest).length = min trail.length rest.length := by
  induction trail generalizing sum rest with
  | nil => simp [slide]
  | cons leaving trail ih =>
    cases rest with
    | nil => simp [slide]
    | cons entering rest =>
      simp only [slide, List.length_cons, ih]
      omega

theorem length_series (period : Nat) (bars : List (Bar α)) :
    ((indicator period).series bars).length = bars.length := by
  simp only [indicator, ofCloses]
  split
  · rw [List.length_map, length_closes]
  · rw [List.length_append, List.length_replicate, List.length_cons, length_slide,
      List.length_drop, length_closes]
    rw [length_closes] at *
    omega

end SimpleAverage

namespace ExponentialAverage

theorem scan_take (period k : Nat) (s : State α) (xs : List α) :
    scan period s (xs.take k) = (scan period s xs).take k :=
  take_of_emits (step period) (·.current) (fun _ => rfl) (fun _ _ _ => rfl) k s xs

theorem causal (period : Nat) : (indicator (α := α) period).Causal := by
  intro bars k
  simp only [indicator, Indicator.ofSeries, closes_take, ofValues]
  rw [if_neg (by omega), if_neg (by omega), scan_take]

theorem length_series (period : Nat) (bars : List (Bar α)) :
    ((indicator period).series bars).length = bars.length := by
  simp only [indicator, Indicator.ofSeries, ofValues]
  rw [if_neg (by omega), ← length_closes bars]
  exact length_of_emits (step _) (·.current) (fun _ => rfl) (fun _ _ _ => rfl) start (closes bars)

end ExponentialAverage

namespace RelativeStrength

theorem scan_take (period k : Nat) (s : State α) (xs : List α) :
    scan period s (xs.take k) = (scan period s xs).take k :=
  take_of_emits (step period) (·.current) (fun _ => rfl) (fun _ _ _ => rfl) k s xs

theorem causal (period : Nat) : (indicator (α := α) period).Causal := by
  intro bars k
  simp only [indicator, Indicator.ofSeries, closes_take, ofCloses]
  rw [scan_take]

theorem length_series (period : Nat) (bars : List (Bar α)) :
    ((indicator period).series bars).length = bars.length := by
  rw [← length_closes bars]
  exact length_of_emits (step _) (·.current) (fun _ => rfl) (fun _ _ _ => rfl) start (closes bars)

end RelativeStrength

namespace RateOfChange

theorem ofCloses_take (period k : Nat) (xs : List α) :
    ofCloses period (xs.take k) = (ofCloses period xs).take k := by
  unfold ofCloses
  apply List.ext_getElem?
  intro i
  simp only [List.getElem?_append, List.getElem?_map, List.getElem?_take, List.length_map,
    List.length_take, List.getElem?_zipWith, List.getElem?_drop]
  grind

theorem causal (period : Nat) : (indicator (α := α) period).Causal := by
  intro bars k
  simp only [indicator, closes_take]
  exact ofCloses_take (max period 1) k (closes bars)

theorem length_series (period : Nat) (bars : List (Bar α)) :
    ((indicator period).series bars).length = bars.length := by
  simp only [indicator, ofCloses, List.length_append, List.length_map, List.length_take,
    List.length_zipWith, List.length_drop, length_closes]
  omega

end RateOfChange

/-! ## The indicators on offer -/

namespace Indicator

def offered (period : Nat) : List (Indicator α) :=
  [SimpleAverage.indicator period, ExponentialAverage.indicator period,
    RelativeStrength.indicator period, RateOfChange.indicator period]

/-- Each indicator on offer gives one number for each bar, and over the first bars the first of the
numbers that it gives over all of them, whatever the closes are. -/
theorem offered_series_take (period k : Nat) (bars : List (Bar α)) (hk : k ≤ bars.length) :
    ∀ i ∈ offered period, (i.series bars).length = bars.length ∧
      (i.series (bars.take k)).length = k ∧ i.series (bars.take k) = (i.series bars).take k := by
  have hcausal : ∀ i ∈ offered (α := α) period, i.Causal := by
    simp only [offered, List.forall_mem_cons]
    exact ⟨SimpleAverage.causal period, ExponentialAverage.causal period,
      RelativeStrength.causal period, RateOfChange.causal period, nofun⟩
  have hlength : ∀ i ∈ offered (α := α) period, ∀ bars, (i.series bars).length = bars.length := by
    simp only [offered, List.forall_mem_cons]
    exact ⟨SimpleAverage.length_series period, ExponentialAverage.length_series period,
      RelativeStrength.length_series period, RateOfChange.length_series period, nofun⟩
  intro i hi
  exact ⟨hlength i hi bars, (hlength i hi _).trans (List.length_take_of_le hk), hcausal i hi bars k⟩

def spike : List (Bar Extended) :=
  [.still 2 (.finite 100), .still 3 .nan, .still 4 (.infinite false), .still 5 (.finite 0),
    .still 8 (.finite 103), .still 9 (.finite 104)]

/-- The infinite close poisons the sum behind it; a cut before that changes no number. -/
theorem offered_series_take_spike :
    4 ≤ spike.length ∧ SimpleAverage.indicator 2 ∈ offered (α := Extended) 2 ∧
      (SimpleAverage.indicator 2).series spike =
        [.nan, .nan, .nan, .infinite false, .nan, .finite (207 / 2)] ∧
      (SimpleAverage.indicator 2).series (spike.take 4) =
        [.nan, .nan, .nan, .infinite false] := by
  have hlength : 4 ≤ spike.length := by decide
  have hoffered : SimpleAverage.indicator 2 ∈ offered (α := Extended) 2 := List.mem_cons_self
  have hseries : (SimpleAverage.indicator 2).series spike =
      [.nan, .nan, .nan, .infinite false, .nan, .finite (207 / 2)] := by decide +kernel
  refine ⟨hlength, hoffered, hseries, ?_⟩
  rw [(offered_series_take 2 4 spike hlength _ hoffered).2.2, hseries]
  rfl

end Indicator

end Backtest
