import Mathlib.Algebra.Order.Field.Basic
import Mathlib.Data.Rat.Floor
import Mathlib.Tactic.Linarith
import Backtest.Proofs.Parameter.Draws
import Backtest.Proofs.Scalar.Rational

/-!
# Grids of numbers

Without rounding, the grid of a range of numbers is a ladder: its rungs lie one step apart, from the
lower bound on. Those of an integer range end with the last one inside the range. A number range
takes one more step where this passes the upper bound by no more than a tiny part of it, and puts
that rung on the bound.
-/

namespace Backtest

/-- Steps from `low` towards `high`, which they may pass by a part of a step. -/
structure Ladder where
  low : ℚ
  high : ℚ
  step : ℚ
  slack : ℚ
  ordered : low ≤ high
  rising : 0 < step
  slack_nonneg : 0 ≤ slack
  slack_lt_one : slack < 1

namespace Ladder

def top (l : Ladder) : ℕ := ⌊(l.high - l.low) / l.step + l.slack⌋₊

def rung (l : Ladder) (i : ℕ) : ℚ := min (l.low + l.step * i) l.high

variable {l : Ladder} {i j : ℕ}

theorem le_top_iff : i ≤ l.top ↔ l.low + l.step * i ≤ l.high + l.slack * l.step := by
  have hsteps : 0 ≤ (l.high - l.low) / l.step :=
    div_nonneg (sub_nonneg.2 l.ordered) l.rising.le
  rw [top, Nat.le_floor_iff (add_nonneg hsteps l.slack_nonneg), ← sub_le_iff_le_add,
    le_div_iff₀ l.rising]
  constructor <;> intro h <;> linarith

/-- What is still inside is a rung. -/
theorem le_top_of_le_high (h : l.low + l.step * i ≤ l.high) : i ≤ l.top := by
  have hslack := mul_nonneg l.slack_nonneg l.rising.le
  exact le_top_iff.2 (by linarith)

/-- Only the last step can pass the upper bound. -/
theorem lt_high_of_lt_top (h : i < l.top) : l.low + l.step * i < l.high := by
  have hnext := le_top_iff.1 (Nat.succ_le_of_lt h)
  have hslack := mul_lt_of_lt_one_left l.rising l.slack_lt_one
  push_cast at hnext
  linarith

theorem rung_of_le_high (h : l.low + l.step * i ≤ l.high) : l.rung i = l.low + l.step * i :=
  min_eq_left h

theorem rung_of_high_lt (h : l.high < l.low + l.step * i) : l.rung i = l.high :=
  min_eq_right h.le

theorem rung_zero : l.rung 0 = l.low := by
  simp [rung, l.ordered]

theorem low_le_rung : l.low ≤ l.rung i :=
  le_min (le_add_of_nonneg_right (mul_nonneg l.rising.le i.cast_nonneg)) l.ordered

theorem rung_le_high : l.rung i ≤ l.high :=
  min_le_right _ _

theorem rung_lt_rung (hij : i < j) (hj : j ≤ l.top) : l.rung i < l.rung j := by
  have hbelow := lt_high_of_lt_top (hij.trans_le hj)
  have hgrows : l.step * i < l.step * j :=
    mul_lt_mul_of_pos_left (Nat.cast_lt.2 hij) l.rising
  rw [rung_of_le_high hbelow.le]
  exact lt_min (by linarith) hbelow

theorem pos_of_high_lt (h : l.high < l.low + l.step * i) : 0 < i := by
  by_contra hzero
  rw [Nat.eq_zero_of_not_pos hzero, Nat.cast_zero, mul_zero, add_zero] at h
  exact h.not_ge l.ordered

/-- A rung lies where its steps lead, or it is the last one, which was put back on the bound. -/
theorem rung_cases (h : i ≤ l.top) :
    l.rung i = l.low + l.step * i ∨
      l.rung i = l.high ∧ i = l.top ∧ ∃ j : ℕ, l.low + l.step * j < l.high ∧
        l.high < l.low + l.step * (j + 1 : ℕ) ∧
          l.low + l.step * (j + 1 : ℕ) ≤ l.high + l.slack * l.step := by
  rcases le_or_gt (l.low + l.step * i) l.high with hinside | hpassed
  · exact .inl (rung_of_le_high hinside)
  · have hlast : i = l.top := by
      refine h.antisymm (not_lt.1 fun hlt => ?_)
      exact hpassed.not_gt (lt_high_of_lt_top hlt)
    obtain ⟨j, rfl⟩ := Nat.exists_eq_add_one.2 (pos_of_high_lt hpassed)
    exact .inr ⟨rung_of_high_lt hpassed, hlast, j, lt_high_of_lt_top h, hpassed, le_top_iff.1 h⟩

end Ladder

namespace Parameter

namespace Domain

open Extended

def bounds? {α : Type} [Scalar α] : Domain α → Option (α × α × α)
  | .int low high step _ =>
    some (Scalar.int low.toInt, Scalar.int high.toInt, Scalar.int step.toInt)
  | .float low high step _ => some (low, high, step)
  | .choice .. => none

def gridNumbers {α : Type} [Scalar α] (d : Domain α) : List α :=
  d.gridValues.filterMap Value.number?

/-- The distance of integer bounds and the count of number steps are integers of 64 bits. -/
def Fits : Domain Extended → Prop
  | .int low high _ _ => high.toInt - low.toInt ≤ Int64.maxValue.toInt
  | .float low high step _ => (high - low) / step + gridTolerance < Scalar.nat maxCount
  | .choice .. => True

theorem Fits.spans {d : Domain Extended} (h : d.Fits) : d.Spans := by
  cases d with
  | int low high step value => exact h
  | float low high step value => trivial
  | choice options value => trivial

/-- The grid of a range is a ladder. -/
structure Climbs (d : Domain Extended) (l : Ladder) : Prop where
  bounds : d.bounds? = some (finite l.low, finite l.high, finite l.step)
  length : d.gridLength = l.top + 1
  number : ∀ i ≤ l.top, (d.gridValue i).number? = some (finite (l.rung i))
  slack : d.kind = .int ∧ l.slack = 0 ∨ d.kind = .float ∧ gridTolerance = finite l.slack

def intLadder (low high step : Int64) (hordered : low.toInt ≤ high.toInt) (hstep : 0 < step.toInt) :
    Ladder where
  low := low.toInt
  high := high.toInt
  step := step.toInt
  slack := 0
  ordered := Int.cast_le.2 hordered
  rising := Int.cast_pos.2 hstep
  slack_nonneg := le_rfl
  slack_lt_one := one_pos

theorem climbs_int {low high step value : Int64} (hordered : low.toInt ≤ high.toInt)
    (hstep : 0 < step.toInt) (hspans : (int low high step value : Domain Extended).Spans) :
    (int low high step value : Domain Extended).Climbs
      (intLadder low high step hordered hstep) := by
  have hcount := Int.ediv_nonneg (Int.sub_nonneg_of_le hordered) hstep.le
  have htop : ((high.toInt - low.toInt) / step.toInt).toNat =
      (intLadder low high step hordered hstep).top := by
    refine eq_of_forall_le_iff fun i => ?_
    rw [Ladder.le_top_iff, Int.le_toNat hcount, Int.le_ediv_iff_mul_le hstep]
    simp only [intLadder, zero_mul, add_zero]
    norm_cast
    rw [mul_comm, le_sub_iff_add_le']
  have hlength : (int low high step value : Domain Extended).gridLength =
      (intLadder low high step hordered hstep).top + 1 := by
    rw [← htop, gridLength_int hordered hstep hspans]
  refine ⟨rfl, hlength, fun i hi => ?_, .inl ⟨rfl, rfl⟩⟩
  have hlt : i < (int low high step value : Domain Extended).gridLength := by omega
  obtain ⟨-, hinside⟩ := gridStep_le hspans hlt
  have hexact := toInt_gridValue hspans hlt
  have hrung : (intLadder low high step hordered hstep).rung i =
      ((low.toInt + step.toInt * i : ℤ) : ℚ) := by
    rw [Ladder.rung_of_le_high]
    · simp [intLadder]
    · simp only [intLadder]
      exact_mod_cast hinside
  rw [hrung]
  simp only [gridValue, Value.number?]
  rw [hexact]
  rfl

def floatLadder (low high step : ℚ) (hordered : low ≤ high) (hstep : 0 < step) : Ladder where
  low := low
  high := high
  step := step
  slack := mkRat 1 (Nat.pow 10 9)
  ordered := hordered
  rising := hstep
  slack_nonneg := by decide +kernel
  slack_lt_one := by decide +kernel

theorem climbs_float {low high step : ℚ} {value : Extended} (hordered : low ≤ high)
    (hstep : 0 < step)
    (hfits : (float (finite low) (finite high) (finite step) value).Fits) :
    (float (finite low) (finite high) (finite step) value).Climbs
      (floatLadder low high step hordered hstep) := by
  have hcount : (finite high - finite low) / finite step + gridTolerance =
      finite ((high - low) / step + mkRat 1 (Nat.pow 10 9)) := by
    rw [finite_sub, finite_div hstep.ne']
    rfl
  have htop : (floatLadder low high step hordered hstep).top < maxCount := by
    have hsteps : 0 ≤ (high - low) / step := div_nonneg (sub_nonneg.2 hordered) hstep.le
    rw [Fits, hcount, nat_eq_finite, finite_lt] at hfits
    exact (Nat.floor_lt (add_nonneg hsteps (floatLadder _ _ _ hordered hstep).slack_nonneg)).2 hfits
  have hfloor :
      Scalar.floorUpTo maxCount ((finite high - finite low) / finite step + gridTolerance) =
        (floatLadder low high step hordered hstep).top := by
    rw [hcount]
    exact min_eq_right htop.le
  refine ⟨rfl, ?_, fun i hi => ?_, .inr ⟨rfl, rfl⟩⟩
  · have hbounds : ¬(finite high < finite low ∨ finite step ≤ Scalar.nat 0) := by
      rw [nat_eq_finite, finite_lt, finite_le]
      exact not_or.2 ⟨hordered.not_gt, hstep.not_ge⟩
    rw [gridLength, if_neg hbounds, hfloor, Nat.mod_eq_of_lt (Nat.succ_lt_succ htop)]
  · simp only [gridValue, Value.number?, nat_eq_finite, finite_mul, finite_add, smaller_finite,
      Rational.smaller_eq_min]
    rfl

/-- The grid of a sound range of numbers is a ladder. -/
theorem exists_climbs {d : Domain Extended} {low high step : Extended}
    (hbounds : d.bounds? = some (low, high, step)) (hfault : d.fault? = none) (hfits : d.Fits) :
    ∃ l, d.Climbs l := by
  cases d with
  | int low high step value =>
    obtain ⟨hordered, hstep⟩ := bounds_of_fault?_int hfault
    exact ⟨_, climbs_int hordered hstep hfits⟩
  | float low high step value =>
    obtain ⟨⟨hlow, hhigh, hstep⟩, hordered, hpositive, -⟩ := fault?_float_eq_none_iff.1 hfault
    obtain ⟨low, rfl⟩ := isFinite_iff.1 hlow
    obtain ⟨high, rfl⟩ := isFinite_iff.1 hhigh
    obtain ⟨step, rfl⟩ := isFinite_iff.1 hstep
    rw [finite_lt, not_lt] at hordered
    rw [nat_eq_finite, finite_le, not_le] at hpositive
    exact ⟨_, climbs_float hordered hpositive hfits⟩
  | choice options value => cases hbounds

namespace Climbs

variable {d : Domain Extended} {l : Ladder}

theorem gridNumbers_eq (h : d.Climbs l) :
    d.gridNumbers = (List.range (l.top + 1)).map fun i => finite (l.rung i) := by
  rw [gridNumbers, gridValues, List.filterMap_map, h.length, ← List.filterMap_eq_map]
  refine List.filterMap_congr fun i hi => ?_
  exact h.number i (Nat.lt_succ_iff.1 (List.mem_range.1 hi))

theorem mem_gridNumbers_iff (h : d.Climbs l) {x : Extended} :
    x ∈ d.gridNumbers ↔ ∃ i ≤ l.top, finite (l.rung i) = x := by
  simp only [h.gridNumbers_eq, List.mem_map, List.mem_range, Nat.lt_succ_iff]

theorem increasing (h : d.Climbs l) : d.gridNumbers.Pairwise (· < ·) := by
  rw [h.gridNumbers_eq, List.pairwise_map]
  refine List.pairwise_lt_range.imp_of_mem fun {i j} _ hj hij => ?_
  exact finite_lt.2 (Ladder.rung_lt_rung hij (Nat.lt_succ_iff.1 (List.mem_range.1 hj)))

theorem getLast?_gridNumbers (h : d.Climbs l) :
    d.gridNumbers.getLast? = some (finite (l.rung l.top)) := by
  rw [h.gridNumbers_eq, List.range_succ, List.map_append, List.map_singleton,
    List.getLast?_concat]

/-- A rung is a value of the range. -/
theorem admits (h : d.Climbs l) (hspans : d.Spans) {i : ℕ} (hi : i ≤ l.top) :
    d.Admits (d.gridValue i) := by
  cases d with
  | int low high step value =>
    refine admits_gridValue_int hspans ?_
    rw [h.length]
    exact Nat.lt_succ_iff.2 hi
  | float low high step value =>
    have hnumber := Option.some.inj (h.number i hi)
    obtain ⟨rfl, hrest⟩ := Prod.mk.inj (Option.some.inj h.bounds)
    obtain ⟨rfl, -⟩ := Prod.mk.inj hrest
    simp only [gridValue, Admits] at hnumber ⊢
    rw [hnumber, finite_lt, finite_lt]
    exact ⟨rfl, Ladder.low_le_rung.not_gt, Ladder.rung_le_high.not_gt⟩
  | choice options value => cases h.bounds

end Climbs

end Domain

namespace Declaration

open Extended Domain

/-- The grid of a declared range covers it: it is made of the steps inside the bounds, and for a
number range also of the upper bound where the next step passes it by no more than the tolerance. -/
structure GridCovers (d : Declaration Extended) (low high step : Extended) : Prop where
  length : d.domain.gridNumbers.length = d.domain.gridLength
  increasing : d.domain.gridNumbers.Pairwise (· < ·)
  accepted : ∀ v ∈ d.domain.gridValues, d.normalize v = .ok v
  first : d.domain.gridNumbers.head? = some low
  reached : ∀ j : ℕ, low + step * Scalar.nat j ≤ high →
    low + step * Scalar.nat j ∈ d.domain.gridNumbers
  others : ∀ x ∈ d.domain.gridNumbers,
    (∃ j : ℕ, x = low + step * Scalar.nat j ∧ x ≤ high) ∨
      d.domain.kind = .float ∧ x = high ∧ d.domain.gridNumbers.getLast? = some x ∧
        ∃ j : ℕ, low + step * Scalar.nat j < high ∧ high < low + step * Scalar.nat (j + 1) ∧
          low + step * Scalar.nat (j + 1) ≤ high + gridTolerance * step
  topped : d.domain.kind = .float → ∀ j : ℕ, high < low + step * Scalar.nat j →
    low + step * Scalar.nat j ≤ high + gridTolerance * step → high ∈ d.domain.gridNumbers

theorem grid_covers {d : Declaration Extended} {low high step : Extended}
    (hbounds : d.domain.bounds? = some (low, high, step)) (hcheck : d.check = .ok ())
    (hfits : d.domain.Fits) : d.GridCovers low high step := by
  obtain ⟨l, h⟩ := exists_climbs hbounds (check_eq_ok_iff.1 hcheck) hfits
  obtain ⟨rfl, hrest⟩ := Prod.mk.inj (Option.some.inj (hbounds.symm.trans h.bounds))
  obtain ⟨rfl, rfl⟩ := Prod.mk.inj hrest
  exact
    { length := by rw [h.gridNumbers_eq, h.length, List.length_map, List.length_range]
      increasing := h.increasing
      accepted := fun v hv => by
        obtain ⟨i, hi, rfl⟩ := List.mem_map.1 hv
        rw [List.mem_range, h.length, Nat.lt_succ_iff] at hi
        exact normalize_of_admits (h.admits hfits.spans hi)
      first := by
        rw [h.gridNumbers_eq, List.range_succ_eq_map, List.map_cons, List.head?_cons,
          Ladder.rung_zero]
      reached := fun j hj => by
        rw [nat_eq_finite, finite_mul, finite_add] at hj ⊢
        rw [finite_le] at hj
        exact h.mem_gridNumbers_iff.2 ⟨j, Ladder.le_top_of_le_high hj,
          congrArg finite (Ladder.rung_of_le_high hj)⟩
      others := fun x hx => by
        obtain ⟨i, hi, rfl⟩ := h.mem_gridNumbers_iff.1 hx
        obtain hrung | ⟨hrung, hlast, j, hbelow, hpassed, hslack⟩ := Ladder.rung_cases hi
        · refine .inl ⟨i, ?_, finite_le.2 Ladder.rung_le_high⟩
          rw [nat_eq_finite, finite_mul, finite_add, hrung]
          rfl
        · obtain ⟨-, hexact⟩ | ⟨hkind, htolerance⟩ := h.slack
          -- no step of an integer range passes the bound
          · rw [hexact, zero_mul, add_zero] at hslack
            exact absurd hpassed hslack.not_gt
          · refine .inr ⟨hkind, congrArg finite hrung, hlast ▸ h.getLast?_gridNumbers, j, ?_⟩
            simp only [htolerance, nat_eq_finite, finite_mul, finite_add, finite_lt, finite_le]
            exact ⟨hbelow, hpassed, hslack⟩
      topped := fun hkind j hpassed hslack => by
        obtain ⟨hint, -⟩ | ⟨-, htolerance⟩ := h.slack
        · cases hkind.symm.trans hint
        · simp only [htolerance, nat_eq_finite, finite_mul, finite_add, finite_lt,
            finite_le] at hpassed hslack
          exact h.mem_gridNumbers_iff.2 ⟨j, Ladder.le_top_iff.2 hslack,
            congrArg finite (Ladder.rung_of_high_lt hpassed)⟩ }

def halves : Declaration Extended :=
  .float "level" (finite 0) (finite 1) (finite (mkRat 50000000001 100000000000)) (finite 0)

def fourths : Declaration Extended := .int "count" 1 10 4 1

/-- Two steps of a little over a half pass the upper bound of one by so little that this is a grid
point. No integer step is bent. -/
theorem grid_covers_halves_fourths :
    (halves.GridCovers (finite 0) (finite 1) (finite (mkRat 50000000001 100000000000)) ∧
      halves.domain.gridNumbers.getLast? = some (finite 1)) ∧
    fourths.GridCovers (finite 1) (finite 10) (finite 4) ∧
      fourths.domain.gridNumbers.getLast? = some (finite 9) := by
  have hfits : halves.domain.Fits := by
    change _ < Scalar.nat maxCount
    decide +kernel
  refine ⟨⟨grid_covers rfl (eq_ok_of_isSome (by decide +kernel)) hfits, by decide +kernel⟩,
    grid_covers rfl (eq_ok_of_isSome (by decide +kernel)) ?_, by decide +kernel⟩
  change _ ≤ _
  decide +kernel

end Declaration

end Parameter

end Backtest
