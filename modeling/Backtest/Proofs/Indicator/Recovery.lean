import Backtest.Proofs.Indicator.Window

/-!
# Averages after an infinite close

Once the newest closes are finite, the history up to a bar has their mean, whatever came before. So
has the series, except at a bar where an infinite close has just left a window that had a number:
the running sum cannot give up an infinity that it took in. The bar has no number then, and the next
bar has one again.
-/

namespace Backtest.SimpleAverage

open Scalar
open Extended (finite infinite)

variable {period i j : ℕ} {bars : List (Bar Extended)}

/-- An infinite close that follows no other. -/
def LoneInfinity {α : Type} [Scalar α] (xs : List α) (j : ℕ) : Prop :=
  xs[j]?.any isInfinite = true ∧ (j = 0 ∨ xs[j - 1]?.any isInfinite = false)

theorem meanOver_of_finite {xs : List Extended} (hlength : xs.length = period)
    (hxs : ∀ x ∈ xs, isFinite x = true) (hperiod : 0 < period) :
    MeanOver period xs (ofWindow period xs) ∧ isNaN (ofWindow period xs) = false := by
  have hmean := meanOver_ofWindow hperiod (fun x hx => .inl (hxs x hx)) hlength.le
  obtain ⟨qs, rfl⟩ := Extended.exists_map_finite hxs
  refine ⟨hmean, ?_⟩
  rw [ofWindow, if_neg hlength.not_lt, isNaN_div_period hperiod, Extended.total_finite]
  rfl

/-- A window of one infinite close and finite ones has an infinite average. -/
theorem isNaN_ofWindow_infinite {leaving : Extended} {inner : List Extended}
    (hleaving : isInfinite leaving = true) (hinner : ∀ x ∈ inner, isFinite x = true) :
    isNaN (ofWindow (inner.length + 1) (leaving :: inner)) = false := by
  obtain ⟨qs, rfl⟩ := Extended.exists_map_finite hinner
  rw [ofWindow, List.length_cons, if_neg (lt_irrefl _), isNaN_div_period (Nat.succ_pos _),
    Extended.total_cons, Extended.total_finite]
  cases leaving with
  | infinite s => rfl
  | finite a => cases hleaving
  | nan => cases hleaving

/-- A close that is not infinite takes no number away when it leaves. -/
theorem lost_eq_false_of_leaving (h : (closes bars)[i - max period 1]?.any isInfinite = false) :
    lost period bars i = false := by
  rw [lost, h, Bool.and_false, Bool.false_and]

/-- The close that leaves next is the oldest one of the window. -/
theorem mem_window {x : Extended} (hfull : period ≤ i + 1) (hi : i < bars.length)
    (hperiod : 0 < period) (hx : (closes bars)[i + 1 - period]? = some x) :
    x ∈ window period bars i := by
  rw [window_eq_take hfull hi]
  refine List.mem_of_getElem? (i := 0) ?_
  rw [List.getElem?_take_of_lt hperiod, List.getElem?_drop, add_zero, hx]

/-- Before an infinite close that follows no other leaves, the window has an infinite average. -/
theorem number_before_loneInfinity (hperiod : 0 < period) (hi : j + period < bars.length)
    (hfinite : ∀ x ∈ window period bars (j + period), isFinite x = true)
    (hinfinite : (closes bars)[j]?.any isInfinite = true) :
    isNaN (ofWindow period (window period bars (j + period - 1))) = false := by
  obtain ⟨inner, rfl⟩ : ∃ inner, period = inner + 1 := ⟨period - 1, by omega⟩
  obtain ⟨leaving, hleaving, hinfinite⟩ := (Option.any_eq_true _ _).1 hinfinite
  obtain ⟨hlt, hget⟩ := List.getElem?_eq_some_iff.1 hleaving
  have hwindow : window (inner + 1) bars (j + (inner + 1) - 1) =
      leaving :: ((closes bars).drop (j + 1)).take inner := by
    rw [window_eq_take (by omega) (by omega),
      show j + (inner + 1) - 1 + 1 - (inner + 1) = j by omega, List.drop_eq_getElem_cons hlt, hget,
      List.take_succ_cons]
  have hnext : window (inner + 1) bars (j + (inner + 1)) =
      ((closes bars).drop (j + 1)).take (inner + 1) := by
    rw [window_eq_take (by omega) hi]
    congr 2
    omega
  have hlength : (((closes bars).drop (j + 1)).take inner).length = inner := by
    rw [List.length_take, List.length_drop, length_closes]
    omega
  have hinner : ∀ x ∈ ((closes bars).drop (j + 1)).take inner, isFinite x = true := fun x hx => by
    refine hfinite x ?_
    rw [hnext]
    exact (List.take_sublist_take_left (Nat.le_succ inner)).mem hx
  have hnumber := isNaN_ofWindow_infinite hinfinite hinner
  rwa [hlength, ← hwindow] at hnumber

/-- An infinite close that follows no other takes a number away when it leaves. -/
theorem lost_of_loneInfinity (hi : j + max period 1 < bars.length)
    (hfinite : ∀ x ∈ window (max period 1) bars (j + max period 1), isFinite x = true)
    (hlone : LoneInfinity (closes bars) j) : lost period bars (j + max period 1) = true := by
  have hperiod : 0 < max period 1 := by omega
  have hkept : lost period bars (j + max period 1 - 1) = false := by
    rcases hlone.2 with rfl | hprevious
    · rw [lost, decide_eq_false (by omega), Bool.false_and, Bool.false_and]
    · refine lost_eq_false_of_leaving ?_
      rwa [show j + max period 1 - 1 - max period 1 = j - 1 by omega]
  have hbefore : ((indicator period).series bars)[j + max period 1 - 1]? =
      some (ofWindow (max period 1) (window (max period 1) bars (j + max period 1 - 1))) := by
    rw [getElem?_series_eq_ite period (by omega), hkept, if_neg Bool.false_ne_true]
  rw [lost, hbefore, Option.any_some, number_before_loneInfinity hperiod hi hfinite hlone.1,
    Nat.add_sub_cancel, hlone.1, decide_eq_true (Nat.le_add_left _ _)]
  rfl

/-- On exact numbers, whatever the closes are: once the newest closes are finite, the history up to
a bar has their mean. The series has it too, unless an infinite close has just left a window that
had a number, and an infinite close that follows no other always does so. The next bar loses no
number. -/
theorem recovers_unless_lost (period : ℕ) (bars : List (Bar Extended)) (i : ℕ)
    (hi : i < bars.length) (hfull : max period 1 ≤ i + 1)
    (hfinite : ∀ x ∈ window (max period 1) bars i, isFinite x = true) :
    ∃ m, MeanOver (max period 1) (window (max period 1) bars i) m ∧ isNaN m = false ∧
      (indicator period).latest (.ofSeries (bars.take (i + 1))) = some m ∧
      ((indicator period).series bars)[i]? = some (if lost period bars i then nan else m) ∧
      lost period bars (i + 1) = false ∧
      ∀ j, j + max period 1 = i → LoneInfinity (closes bars) j → lost period bars i = true := by
  have hperiod : 0 < max period 1 := by omega
  have hlength : (window (max period 1) bars i).length = max period 1 := by
    rw [length_window _ hi, Nat.min_eq_left hfull]
  obtain ⟨hmean, hnumber⟩ := meanOver_of_finite hlength hfinite hperiod
  have hlatest := latest_ofSeries period bars i
  rw [present_eq_some_iff.2 ⟨rfl, hnumber⟩] at hlatest
  have hnext : lost period bars (i + 1) = false := by
    refine lost_eq_false_of_leaving ((Option.any_eq_false _ _).2 fun x hx => ?_)
    have hleaves := hfinite x (mem_window hfull hi hperiod hx)
    simp [isInfinite, hleaves]
  refine ⟨_, hmean, hnumber, hlatest, getElem?_series_eq_ite period hi, hnext, ?_⟩
  rintro j rfl hlone
  exact lost_of_loneInfinity hi hfinite hlone

def unbounded : List (Bar Extended) :=
  [.still 2 (infinite false), .still 3 (finite 1), .still 4 (finite 2), .still 5 (finite 4)]

/-- Over two days the mean of the second and third day is lost, and that of the next two is not. -/
theorem recovers_unless_lost_unbounded :
    ((∀ x ∈ window 2 unbounded 2, isFinite x = true) ∧
      (indicator 2).latest (.ofSeries (unbounded.take 3)) = some (finite (3 / 2)) ∧
      ((indicator 2).series unbounded)[2]? = some nan) ∧
    (∀ x ∈ window 2 unbounded 3, isFinite x = true) ∧
      (indicator 2).latest (.ofSeries (unbounded.take 4)) = some (finite 3) ∧
      ((indicator 2).series unbounded)[3]? = some (finite 3) := by
  have hthird : ∀ x ∈ window 2 unbounded 2, isFinite x = true := by decide +kernel
  have hfourth : ∀ x ∈ window 2 unbounded 3, isFinite x = true := by decide +kernel
  obtain ⟨m, -, -, -, hseries, hnext, hlost⟩ :=
    recovers_unless_lost 2 unbounded 2 (by decide) (by decide) hthird
  obtain ⟨n, -, -, hlatest, hseries', -⟩ :=
    recovers_unless_lost 2 unbounded 3 (by decide) (by decide) hfourth
  have hmean : (indicator 2).latest (.ofSeries (unbounded.take 3)) = some (finite (3 / 2)) := by
    decide +kernel
  have hmean' : (indicator 2).latest (.ofSeries (unbounded.take 4)) = some (finite 3) := by
    decide +kernel
  obtain rfl : finite 3 = n := Option.some.inj (hmean'.symm.trans hlatest)
  rw [hlost 0 rfl ⟨rfl, .inl rfl⟩] at hseries
  rw [hnext] at hseries'
  exact ⟨⟨hthird, hmean, hseries⟩, hfourth, hmean', hseries'⟩

end Backtest.SimpleAverage
