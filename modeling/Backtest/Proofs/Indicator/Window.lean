import Mathlib.Data.List.DropRight
import Backtest.Proofs.Indicator.Causality
import Backtest.Proofs.Indicator.Voids
import Backtest.Proofs.Scalar.Total

/-!
# The mean of a window

The simple average slides a running sum along the closes, and adds the window up anew where a NaN is
involved. On exact numbers a bar has the average of its window, whatever the closes are, with one
exception: where an infinite close has left a window that had a number, the bar has none.

With closes that are rational or missing that never happens. So a bar has the mean of the newest
closes, or no number where there are too few of them or one is missing; and it has what the history
up to it has.
-/

namespace Backtest.SimpleAverage

open Scalar
open Extended (finite infinite)

variable {α : Type} {period i : ℕ}

/-! ## The running sum -/

/-- The newest `period` closes at a bar, as far as there are that many. -/
def window [Scalar α] (period : ℕ) (bars : List (Bar α)) (i : ℕ) : List α :=
  ((closes bars).take (i + 1)).rtake period

def ofWindow [Scalar α] (period : ℕ) (xs : List α) : α :=
  if xs.length < period then nan else total xs / nat period

def means [Scalar α] (period : ℕ) (sum : α) (trail : List α) : List α :=
  sum / nat period :: slide period sum trail (trail.drop period)

/-- The close that has just left the window is infinite, and the bar before has a number. -/
def lost [Scalar α] (period : ℕ) (bars : List (Bar α)) (i : ℕ) : Bool :=
  max period 1 ≤ i && (closes bars)[i - max period 1]?.any isInfinite &&
    ((indicator period).series bars)[i - 1]?.any fun y => !isNaN y

theorem length_rtake {β : Type} (n : ℕ) (xs : List β) : (xs.rtake n).length = min n xs.length := by
  rw [List.rtake, List.length_drop]
  omega

/-- An average is NaN where its sum is. -/
theorem isNaN_div_period (hperiod : 0 < period) (x : Extended) :
    isNaN (x / nat period) = isNaN x := by
  have hne : (period : ℚ) ≠ 0 := Nat.cast_ne_zero.2 hperiod.ne'
  cases x with
  | finite a => simp [hne]
  | _ => rfl

/-- Moving a window on by one close moves its sum on, by the difference of the two closes or, where
a NaN is involved, by adding up anew. The difference with an infinite close is of no use. -/
theorem total_slide {sum leaving : Extended} {inner : List Extended} (entering : Extended)
    (hsum : sum = .nan ∨ sum = total (leaving :: inner)) :
    (if isNaN leaving || isNaN entering || isNaN sum then total (inner ++ [entering])
      else sum + (entering - leaving)) =
        if isInfinite leaving && !isNaN sum then .nan else total (inner ++ [entering]) := by
  cases hnan : isNaN sum with
  | true => simp
  | false =>
    have hsum : sum = leaving + total inner := by
      rw [← Extended.total_cons]
      exact hsum.resolve_left fun h => by rw [h] at hnan; cases hnan
    subst hsum
    rw [Extended.total_concat]
    cases leaving with
    | finite a =>
      rw [Extended.finite_add_add_sub]
      simp [isInfinite]
    | infinite s =>
      rw [Extended.infinite_add_add_sub]
      cases entering with
      | nan => exact Extended.add_nan _
      | _ => rfl
    | nan => cases hnan

/-- From one window to the next the average is kept, unless an infinite close takes it away. -/
theorem getElem?_means (hperiod : 0 < period) {sum : Extended} {trail : List Extended}
    (hsum : sum = .nan ∨ sum = total (trail.take period)) (hi : i + period < trail.length) :
    (means period sum trail)[i + 1]? =
      some (if trail[i]?.any isInfinite && (means period sum trail)[i]?.any fun y => !isNaN y
        then .nan else total ((trail.drop (i + 1)).take period) / nat period) := by
  obtain ⟨inner, rfl⟩ : ∃ inner, period = inner + 1 := ⟨period - 1, by omega⟩
  induction trail generalizing sum i with
  | nil => cases hi
  | cons leaving trail ih =>
    rw [List.length_cons] at hi
    have hlt : inner < trail.length := by omega
    have hdrop : trail.drop inner = trail[inner] :: trail.drop (inner + 1) :=
      List.drop_eq_getElem_cons hlt
    have htake : trail.take (inner + 1) = trail.take inner ++ [trail[inner]] :=
      (List.take_append_getElem hlt).symm
    have hnext := total_slide trail[inner] hsum
    rw [← htake] at hnext
    have hmeans : means (inner + 1) sum (leaving :: trail) = sum / nat (inner + 1) ::
        means (inner + 1) (if isInfinite leaving && !isNaN sum then .nan
          else total (trail.take (inner + 1))) trail := by
      rw [means, List.drop_succ_cons, hdrop, slide, hnext]
      rfl
    rw [hmeans, List.getElem?_cons_succ]
    cases i with
    | zero =>
      rw [List.getElem?_cons_zero, List.getElem?_cons_zero, Option.any_some, Option.any_some,
        isNaN_div_period hperiod, means, List.getElem?_cons_zero]
      split <;> rfl
    | succ i =>
      rw [List.getElem?_cons_succ, List.getElem?_cons_succ, List.drop_succ_cons]
      refine ih ?_ (by omega)
      split
      · exact .inl rfl
      · exact .inr rfl

/-- The window at a bar begins where the closes that have left it end. -/
theorem window_eq_take [Scalar α] (hfull : period ≤ i + 1) {bars : List (Bar α)}
    (hi : i < bars.length) :
    window period bars i = ((closes bars).drop (i + 1 - period)).take period := by
  have hlength : ((closes bars).take (i + 1)).length = i + 1 :=
    List.length_take_of_le (by rwa [length_closes])
  rw [window, List.rtake, hlength, List.drop_take]
  congr 1
  omega

theorem length_window [Scalar α] (period : ℕ) {bars : List (Bar α)} (hi : i < bars.length) :
    (window period bars i).length = min period (i + 1) := by
  rw [window, length_rtake, List.length_take_of_le (by rwa [length_closes])]

theorem getElem?_ofCloses_short [Scalar α] {xs : List α} (hi : i < xs.length)
    (hshort : i + 1 < period) : (ofCloses period xs)[i]? = some nan := by
  unfold ofCloses
  split
  · simp [hi]
  · rw [List.getElem?_append_left (by simp; omega), List.getElem?_replicate, if_pos (by omega)]

theorem getElem?_ofCloses_full [Scalar α] {xs : List α} (hlength : period ≤ xs.length) (j : ℕ) :
    (ofCloses period xs)[period - 1 + j]? = (means period (total (xs.take period)) xs)[j]? := by
  rw [ofCloses, if_neg (by omega), List.getElem?_append_right (by simp), List.length_replicate,
    Nat.add_sub_cancel_left]
  rfl

/-- On exact numbers a bar has the average of its window, unless the average is lost. -/
theorem getElem?_series_eq_ite (period : ℕ) {bars : List (Bar Extended)} (hi : i < bars.length) :
    ((indicator period).series bars)[i]? =
      some (if lost period bars i then .nan
        else ofWindow (max period 1) (window (max period 1) bars i)) := by
  have hcloses : i < (closes bars).length := by rwa [length_closes]
  have hseries : (indicator period).series bars = ofCloses (max period 1) (closes bars) := rfl
  have hperiod : 0 < max period 1 := by omega
  rw [lost, hseries]
  generalize max period 1 = n at *
  rcases Nat.lt_or_ge (i + 1) n with hshort | hfull
  · have hearly : ¬n ≤ i := by omega
    have hwindow : (window n bars i).length < n := by
      rw [length_window n hi]
      omega
    rw [getElem?_ofCloses_short hcloses hshort, decide_eq_false hearly, ofWindow, if_pos hwindow]
    rfl
  · have hwindow : ¬(window n bars i).length < n := by
      rw [length_window n hi]
      omega
    have hlength : n ≤ (closes bars).length := by omega
    rw [ofWindow, if_neg hwindow, window_eq_take hfull hi]
    rcases Nat.eq_or_lt_of_le hfull with hfirst | hlater
    · have hearly : ¬n ≤ i := by omega
      have hmeans := getElem?_ofCloses_full hlength 0
      rw [show n - 1 + 0 = i by omega] at hmeans
      rw [decide_eq_false hearly, hmeans, show i + 1 - n = 0 by omega]
      rfl
    · obtain ⟨j, rfl⟩ : ∃ j, i = j + n := ⟨i - n, by omega⟩
      have hmeans := getElem?_means hperiod (.inr rfl) hcloses
      rw [← getElem?_ofCloses_full hlength, ← getElem?_ofCloses_full hlength,
        show n - 1 + (j + 1) = j + n by omega, show n - 1 + j = j + n - 1 by omega] at hmeans
      rw [decide_eq_true (Nat.le_add_left n j), Nat.add_sub_cancel,
        show j + n + 1 - n = j + 1 by omega, hmeans, Bool.true_and]

/-! ## Closes that are rational or missing -/

theorem map_rtake {β γ : Type} (f : β → γ) (n : ℕ) (xs : List β) :
    (xs.map f).rtake n = (xs.rtake n).map f := by
  rw [List.rtake, List.rtake, List.length_map, List.map_drop]

/-- The average over `period` numbers: their mean, and none of fewer or of missing ones. -/
inductive MeanOver (period : ℕ) : List Extended → Extended → Prop
  | mean {qs : List ℚ} (hlength : qs.length = period) :
      MeanOver period (qs.map finite) (finite (qs.sum / qs.length))
  | short {xs : List Extended} (hlength : xs.length < period) : MeanOver period xs .nan
  | missing {xs : List Extended} (hmissing : .nan ∈ xs) : MeanOver period xs .nan

theorem meanOver_ofWindow (hperiod : 0 < period) {xs : List Extended}
    (hxs : ∀ x ∈ xs, isFinite x = true ∨ isNaN x = true) (hlength : xs.length ≤ period) :
    MeanOver period xs (ofWindow period xs) := by
  unfold ofWindow
  split
  · exact .short ‹_›
  · rcases Extended.forall_isFinite_or_nan_mem hxs with hrational | hmissing
    · obtain ⟨qs, rfl⟩ := Extended.exists_map_finite hrational
      have hfull : qs.length = period := by
        rw [List.length_map] at *
        omega
      have hne : (period : ℚ) ≠ 0 := Nat.cast_ne_zero.2 hperiod.ne'
      have hmean := MeanOver.mean hfull
      rw [hfull] at hmean
      simpa [hne] using hmean
    · rw [Extended.total_of_nan_mem hmissing]
      exact .missing hmissing

/-! ## The whole series and a single history -/

theorem closes_missing {bars : List (Bar Extended)}
    (hbars : ∀ b ∈ bars, isFinite b.close = true ∨ isNaN b.close = true) :
    ∀ x ∈ closes bars, isFinite x = true ∨ isNaN x = true :=
  List.forall_mem_map.2 hbars

theorem window_missing {bars : List (Bar Extended)}
    (hbars : ∀ b ∈ bars, isFinite b.close = true ∨ isNaN b.close = true) (period i : ℕ) :
    ∀ x ∈ window period bars i, isFinite x = true ∨ isNaN x = true :=
  fun x hx => closes_missing hbars x (List.mem_of_mem_take (List.mem_of_mem_drop hx))

theorem length_window_le {α : Type} [Scalar α] (period : ℕ) (bars : List (Bar α)) (i : ℕ) :
    (window period bars i).length ≤ period := by
  rw [window, length_rtake]
  exact Nat.min_le_left _ _

theorem lost_eq_false (period : ℕ) {bars : List (Bar Extended)}
    (hbars : ∀ b ∈ bars, isFinite b.close = true ∨ isNaN b.close = true) (i : ℕ) :
    lost period bars i = false := by
  have hnone : ∀ x ∈ closes bars, isInfinite x = false := fun x hx => by
    rcases closes_missing hbars x hx with hfinite | hmissing
    · simp [isInfinite, hfinite]
    · simp [isInfinite, hmissing]
  have hleaves : (closes bars)[i - max period 1]?.any isInfinite = false := by
    cases h : (closes bars)[i - max period 1]? with
    | none => rfl
    | some x => exact hnone x (List.mem_of_getElem? h)
  rw [lost, hleaves, Bool.and_false, Bool.false_and]

theorem getElem?_series (period : ℕ) {bars : List (Bar Extended)}
    (hbars : ∀ b ∈ bars, isFinite b.close = true ∨ isNaN b.close = true) {i : ℕ}
    (hi : i < bars.length) :
    ((indicator period).series bars)[i]? =
      some (ofWindow (max period 1) (window (max period 1) bars i)) := by
  rw [getElem?_series_eq_ite period hi, lost_eq_false period hbars i, if_neg Bool.false_ne_true]

theorem latest_ofSeries (period : ℕ) (bars : List (Bar Extended)) (i : ℕ) :
    (indicator period).latest (.ofSeries (bars.take (i + 1))) =
      present (ofWindow (max period 1) (window (max period 1) bars i)) := by
  have hwindow : closes ((bars.take (i + 1)).reverse.take (max period 1)).reverse =
      window (max period 1) bars i := by
    rw [window, ← closes_take, closes, closes, List.rtake_eq_reverse_take_reverse,
      List.map_reverse, List.map_take, List.map_reverse]
  have hlength : (window (max period 1) bars i).length =
      min (max period 1) (bars.take (i + 1)).length := by
    rw [window, ← closes_take, length_rtake, length_closes]
  simp only [indicator, newest, ofWindow, History.ofSeries, History.length, hwindow, hlength,
    List.length_reverse]
  by_cases hshort : (bars.take (i + 1)).length < max period 1
  · rw [if_pos hshort, if_pos (by omega)]
    rfl
  · rw [if_neg hshort, if_neg (by omega)]

/-- On exact numbers, where closes are rational or missing, a bar of a series has an average exactly
if the history up to it has one, and then the same. It is the mean of the newest closes, and there
is none where there are fewer than the period or one of them is missing. -/
theorem number_is_window_mean (period : ℕ) (bars : List (Bar Extended))
    (hbars : ∀ b ∈ bars, isFinite b.close = true ∨ isNaN b.close = true) (i : ℕ)
    (hi : i < bars.length) :
    ∃ x, ((indicator period).series bars)[i]? = some x ∧
      (∀ v, isNaN v = false →
        (x = v ↔ (indicator period).latest (.ofSeries (bars.take (i + 1))) = some v)) ∧
      (isNaN x = true ↔ (indicator period).latest (.ofSeries (bars.take (i + 1))) = none) ∧
      MeanOver (max period 1) (window (max period 1) bars i) x := by
  refine ⟨_, getElem?_series period hbars hi, fun v hv => ?_, ?_,
    meanOver_ofWindow (by omega) (window_missing hbars _ i) (length_window_le _ bars i)⟩
  · rw [latest_ofSeries, present_eq_some_iff, and_iff_left hv]
  · rw [latest_ofSeries, present_eq_none_iff]

def interrupted : List (Bar Extended) :=
  [.still 2 (finite 10), .still 3 (finite 11), .still 4 .nan, .still 5 (finite 13),
    .still 8 (finite 14), .still 9 .nan, .still 10 (finite 16), .still 11 (finite 17)]

/-- Over two days there is an average again after each gap, once it has left the window. -/
theorem number_is_window_mean_interrupted :
    (∀ b ∈ interrupted, isFinite b.close = true ∨ isNaN b.close = true) ∧
      6 < interrupted.length ∧ 7 < interrupted.length ∧
      (∃ x, ((indicator 2).series interrupted)[6]? = some x ∧ isNaN x = true ∧
        (indicator 2).latest (.ofSeries (interrupted.take 7)) = none) ∧
      ∃ x, ((indicator 2).series interrupted)[7]? = some x ∧ x = finite (33 / 2) ∧
        (indicator 2).latest (.ofSeries (interrupted.take 8)) = some (finite (33 / 2)) ∧
        MeanOver 2 [finite 16, finite 17] x := by
  have hbars : ∀ b ∈ interrupted, isFinite b.close = true ∨ isNaN b.close = true := by decide
  obtain ⟨x, hx, -, hnone, -⟩ := number_is_window_mean 2 interrupted hbars 6 (by decide)
  obtain ⟨y, hy, hsome, -, hmean⟩ := number_is_window_mean 2 interrupted hbars 7 (by decide)
  have hgap : (indicator 2).latest (.ofSeries (interrupted.take 7)) = none := by decide +kernel
  have hafter : (indicator 2).latest (.ofSeries (interrupted.take 8)) = some (finite (33 / 2)) := by
    decide +kernel
  exact ⟨hbars, by decide, by decide, ⟨x, hx, hnone.2 hgap, hgap⟩, y, hy, (hsome _ rfl).2 hafter,
    hafter, hmean⟩

end Backtest.SimpleAverage
