import Backtest.Proofs.Decimal.Digits
import Backtest.Proofs.Scalar.Fraction

/-!
# The fewest digits read back

The search for the coarsest decimal grid ends at a point in the interval of the double: a grid finer
than half of its last place has one, and twenty-two grids reach below that.
-/

namespace Backtest.Decimal

open Double

section

variable (m : ℕ) (e : ℤ)

theorem denominator_pos : 0 < (Interval.ofBinary m e).denominator := by
  unfold Interval.ofBinary
  dsimp only
  split
  · exact one_pos
  · exact Nat.pow_pos two_pos

/-- The ends and the middle of the interval, which are whole numbers over its denominator. -/
theorem ofBinary_eq :
    ((Interval.ofBinary m e).low : ℚ) =
        (4 * m - reach m e : ℕ) * 2 ^ (e - 2) * (Interval.ofBinary m e).denominator ∧
      ((Interval.ofBinary m e).value : ℚ) =
        4 * m * 2 ^ (e - 2) * (Interval.ofBinary m e).denominator ∧
      ((Interval.ofBinary m e).high : ℚ) =
        (4 * m + 2) * 2 ^ (e - 2) * (Interval.ofBinary m e).denominator := by
  obtain ⟨scale, denominator, hscale, hi⟩ : ∃ scale denominator : ℕ,
      (scale : ℚ) = 2 ^ (e - 2) * denominator ∧ Interval.ofBinary m e =
        ⟨(4 * m - reach m e) * scale, 4 * m * scale, (4 * m + 2) * scale, denominator,
          m % 2 == 0⟩ := by
    rcases le_or_gt 2 e with h | h
    · refine ⟨2 ^ (e - 2).toNat, 1, ?_, ?_⟩
      · push_cast
        rw [mul_one, ← zpow_natCast, Int.toNat_of_nonneg (by omega)]
      · unfold Interval.ofBinary
        rw [if_pos h, if_pos h]
        rfl
    · refine ⟨1, 2 ^ (2 - e).toNat, ?_, ?_⟩
      · push_cast
        rw [← zpow_natCast, Int.toNat_of_nonneg (by omega), ← zpow_add₀ two_ne_zero]
        simp
      · unfold Interval.ofBinary
        rw [if_neg h.not_ge, if_neg h.not_ge]
        rfl
  rw [hi]
  push_cast
  rw [hscale]
  refine ⟨by ring, by ring, by ring⟩

end

theorem holds_iff {i : Interval} {num den : ℕ} : i.holds num den = true ↔
    i.low * den ≤ num * i.denominator ∧ num * i.denominator ≤ i.high * den ∧
      (i.closed = false →
        i.low * den < num * i.denominator ∧ num * i.denominator < i.high * den) := by
  unfold Interval.holds
  cases i.closed with
  | true => simp
  | false =>
    simp only [Bool.false_eq_true, if_false, Bool.and_eq_true, decide_eq_true_eq, true_imp_iff]
    exact ⟨fun h => ⟨h.1.le, h.2.le, h⟩, fun h => h.2.2⟩

variable {m : ℕ} {e : ℤ}

/-- A fraction that reads back is in the interval. -/
theorem near_of_holds (hm : 0 < m) {num den : ℕ} (hden : 0 < den)
    (h : (Interval.ofBinary m e).holds num den = true) : Near m e (num / den) := by
  obtain ⟨hlow, -, hhigh⟩ := ofBinary_eq m e
  have hreach : ((4 * m - reach m e : ℕ) : ℚ) = 4 * m - reach m e := by
    rw [Nat.cast_sub ((reach_le m e).trans (by omega))]
    push_cast
    rfl
  rw [hreach] at hlow
  have hden : (0 : ℚ) < den := Nat.cast_pos.2 hden
  have hdenominator : (0 : ℚ) < (Interval.ofBinary m e).denominator :=
    Nat.cast_pos.2 (denominator_pos m e)
  obtain ⟨hl, hh, hstrict⟩ := holds_iff.1 h
  refine ⟨?_, ?_, fun hodd => ?_⟩
  · rw [le_div_iff₀ hden]
    refine le_of_mul_le_mul_right ?_ hdenominator
    rw [mul_right_comm, ← hlow]
    exact_mod_cast hl
  · rw [div_le_iff₀ hden]
    refine le_of_mul_le_mul_right ?_ hdenominator
    rw [mul_right_comm, ← hhigh]
    exact_mod_cast hh
  · have hclosed : (Interval.ofBinary m e).closed = false :=
      beq_false_of_ne (by omega)
    rw [lt_div_iff₀ hden, div_lt_iff₀ hden]
    constructor
    · refine lt_of_mul_lt_mul_right ?_ hdenominator.le
      rw [mul_right_comm, ← hlow]
      exact_mod_cast (hstrict hclosed).1
    · refine lt_of_mul_lt_mul_right ?_ hdenominator.le
      rw [mul_right_comm, ← hhigh]
      exact_mod_cast (hstrict hclosed).2

/-! ## Grids -/

section

variable (i : Interval) (exponent : ℤ)

def gridFloor : ℕ :=
  i.value * Nat.pow 10 (-exponent).toNat / (i.denominator * Nat.pow 10 exponent.toNat)

def readsOn (c : ℕ) : Bool :=
  0 < c && i.holds (c * Nat.pow 10 exponent.toNat) (Nat.pow 10 (-exponent).toNat)

/-- The points around the value are tried one after the other. -/
theorem onGrid?_eq : ∃ first second,
    (first = gridFloor i exponent ∧ second = gridFloor i exponent + 1 ∨
      first = gridFloor i exponent + 1 ∧ second = gridFloor i exponent) ∧
    i.onGrid? exponent =
      if readsOn i exponent first then some ⟨first, exponent⟩
      else if readsOn i exponent second then some ⟨second, exponent⟩ else none := by
  unfold Interval.onGrid?
  simp only
  split
  · exact ⟨_, _, .inl ⟨rfl, rfl⟩, rfl⟩
  · exact ⟨_, _, .inr ⟨rfl, rfl⟩, rfl⟩

variable {i exponent}

theorem onGrid?_eq_some {d : Digits} (h : i.onGrid? exponent = some d) :
    d.exponent = exponent ∧ readsOn i exponent d.digits = true := by
  obtain ⟨first, second, -, heq⟩ := onGrid?_eq i exponent
  rw [heq] at h
  split at h
  · cases h
    exact ⟨rfl, ‹_›⟩
  · split at h
    · cases h
      exact ⟨rfl, ‹_›⟩
    · cases h

/-- The grid point above the value is one of the two that are tried. -/
theorem onGrid?_isSome (h : readsOn i exponent (gridFloor i exponent + 1) = true) :
    (i.onGrid? exponent).isSome := by
  obtain ⟨first, second, ⟨-, rfl⟩ | ⟨rfl, -⟩, heq⟩ := onGrid?_eq i exponent
  · rw [heq]
    split <;> rfl
  · rw [heq, if_pos h]
    rfl

/-- On a grid finer than half of the last place, the point above the value reads back. -/
theorem readsOn_of_fine (hden : 0 < i.denominator) (hlow : i.low ≤ i.value)
    (hfine : i.value * 10 ^ (-exponent).toNat + i.denominator * 10 ^ exponent.toNat <
      i.high * 10 ^ (-exponent).toNat) :
    readsOn i exponent (gridFloor i exponent + 1) = true := by
  have hstep : 0 < i.denominator * 10 ^ exponent.toNat := by positivity
  have habove : i.value * 10 ^ (-exponent).toNat <
      (gridFloor i exponent + 1) * (i.denominator * 10 ^ exponent.toNat) :=
    Nat.lt_mul_of_div_lt (Nat.lt_succ_self _) hstep
  have hfloor : gridFloor i exponent * (i.denominator * 10 ^ exponent.toNat) ≤
      i.value * 10 ^ (-exponent).toNat := Nat.div_mul_le_self _ _
  have hle : i.low * 10 ^ (-exponent).toNat ≤ i.value * 10 ^ (-exponent).toNat :=
    Nat.mul_le_mul_right _ hlow
  have hpoint : (gridFloor i exponent + 1) * 10 ^ exponent.toNat * i.denominator =
      (gridFloor i exponent + 1) * (i.denominator * 10 ^ exponent.toNat) := by ring
  have hholds : i.holds ((gridFloor i exponent + 1) * 10 ^ exponent.toNat)
      (10 ^ (-exponent).toNat) = true := by
    rw [holds_iff, hpoint]
    rw [add_mul, one_mul] at habove ⊢
    exact ⟨by omega, by omega, fun _ => ⟨by omega, by omega⟩⟩
  rw [readsOn, Bool.and_eq_true]
  exact ⟨decide_eq_true (Nat.succ_pos _), hholds⟩

end

/-- The search ends at a grid that has a point. -/
theorem search_eq {i : Interval} {fuel : ℕ} {exponent : ℤ} {j : ℕ} (hj : j < fuel)
    (h : (i.onGrid? (exponent - j)).isSome) :
    ∃ k, i.onGrid? k = some (i.search fuel exponent) := by
  induction fuel generalizing exponent j with
  | zero => omega
  | succ fuel ih =>
    rw [Interval.search]
    cases hgrid : i.onGrid? exponent with
    | some d => exact ⟨exponent, hgrid⟩
    | none =>
      cases j with
      | zero =>
        rw [Int.natCast_zero, sub_zero, hgrid] at h
        cases h
      | succ j =>
        refine ih (Nat.lt_of_succ_lt_succ hj) ?_
        convert h using 3
        push_cast
        ring

theorem up_div_down (exponent : ℤ) :
    ((10 ^ exponent.toNat : ℕ) / (10 ^ (-exponent).toNat : ℕ) : ℚ) = 10 ^ exponent := by
  push_cast
  rw [← zpow_natCast, ← zpow_natCast, ← zpow_sub₀ (by norm_num)]
  congr 1
  omega

/-- The last of twenty-two grids is finer than half of the last place. -/
theorem zpow_start_lt (hlt : m < 2 ^ 53) :
    (10 : ℚ) ^ ((digitCount (Interval.ofBinary m e).high : ℤ) -
      digitCount (Interval.ofBinary m e).denominator - 20) < 2 * 2 ^ (e - 2) := by
  obtain ⟨-, -, hhigh⟩ := ofBinary_eq m e
  have hpos : (0 : ℚ) < (Interval.ofBinary m e).high := by
    have hdenominator := denominator_pos m e
    rw [hhigh]
    positivity
  obtain ⟨a, ha⟩ : ∃ a : ℤ, (digitCount (Interval.ofBinary m e).high : ℤ) = a := ⟨_, rfl⟩
  obtain ⟨b, hb⟩ : ∃ b : ℤ, (digitCount (Interval.ofBinary m e).denominator : ℤ) = b := ⟨_, rfl⟩
  have hlow := zpow_digitCount_le (Nat.cast_pos.1 hpos) (-b)
  have hunit := lt_zpow_digitCount (Interval.ofBinary m e).denominator (-b)
  rw [ha, hhigh] at hlow
  rw [hb, add_neg_cancel, zpow_zero] at hunit
  have hm : (4 * m + 2 : ℚ) * 10 ^ (-19 : ℤ) ≤ 2 := by
    have hm : (m : ℚ) ≤ 9007199254740992 := by exact_mod_cast hlt.le
    norm_num
    linarith
  rw [ha, hb]
  calc (10 : ℚ) ^ (a - b - 20) = 10 ^ (a - 1 + -b) * 10 ^ (-19 : ℤ) := by
        rw [← zpow_add₀ (by norm_num)]
        congr 1
        ring
    _ ≤ (4 * m + 2) * 2 ^ (e - 2) * (Interval.ofBinary m e).denominator * 10 ^ (-b) *
          10 ^ (-19 : ℤ) := mul_le_mul_of_nonneg_right hlow (by positivity)
    _ = (4 * m + 2) * 10 ^ (-19 : ℤ) * 2 ^ (e - 2) *
          ((Interval.ofBinary m e).denominator * 10 ^ (-b)) := by ring
    _ < (4 * m + 2) * 10 ^ (-19 : ℤ) * 2 ^ (e - 2) * 1 :=
        mul_lt_mul_of_pos_left hunit (by positivity)
    _ ≤ 2 * 2 ^ (e - 2) := by
        rw [mul_one]
        exact mul_le_mul_of_nonneg_right hm (by positivity)

/-- The search finds a point of some grid. -/
theorem exists_onGrid (hlt : m < 2 ^ 53) {start : ℤ}
    (hstart : start = (digitCount (Interval.ofBinary m e).high : ℤ) -
      digitCount (Interval.ofBinary m e).denominator + 1) :
    ((Interval.ofBinary m e).onGrid? (start - (21 : ℕ))).isSome := by
  obtain ⟨hlow, hvalue, hhigh⟩ := ofBinary_eq m e
  have hden := denominator_pos m e
  have hdenominator : (0 : ℚ) < (Interval.ofBinary m e).denominator := Nat.cast_pos.2 hden
  obtain ⟨k, hk⟩ : ∃ k, start - (21 : ℕ) = k := ⟨_, rfl⟩
  have hfine := zpow_start_lt (e := e) hlt
  rw [show (digitCount (Interval.ofBinary m e).high : ℤ) -
    digitCount (Interval.ofBinary m e).denominator - 20 = k by omega, ← up_div_down,
    div_lt_iff₀ (by positivity)] at hfine
  rw [hk]
  refine onGrid?_isSome (readsOn_of_fine hden ?_ ?_)
  · have hle : ((Interval.ofBinary m e).low : ℚ) ≤ (Interval.ofBinary m e).value := by
      rw [hlow, hvalue]
      gcongr
      exact_mod_cast Nat.sub_le _ _
    exact_mod_cast hle
  · have hlt : ((Interval.ofBinary m e).value * (10 ^ (-k).toNat : ℕ) +
        (Interval.ofBinary m e).denominator * (10 ^ k.toNat : ℕ) : ℚ) <
        (Interval.ofBinary m e).high * (10 ^ (-k).toNat : ℕ) := by
      rw [hvalue, hhigh]
      nlinarith [mul_lt_mul_of_pos_left hfine hdenominator]
    exact_mod_cast hlt

/-- The digits of a double read back. -/
theorem near_shortest (hm : 0 < m) (hlt : m < 2 ^ 53) :
    0 < (shortest m e).digits ∧
      Near m e ((shortest m e).digits * 10 ^ (shortest m e).exponent) := by
  rw [shortest, if_neg hm.ne']
  dsimp only
  obtain ⟨k, hgrid⟩ := search_eq (by decide : 21 < 22) (exists_onGrid (e := e) hlt rfl)
  obtain ⟨hexponent, hreads⟩ := onGrid?_eq_some hgrid
  rw [readsOn, Bool.and_eq_true, decide_eq_true_eq] at hreads
  refine ⟨hreads.1, ?_⟩
  have hnear := near_of_holds hm (Nat.pow_pos (by decide)) hreads.2
  rw [hexponent, ← up_div_down, mul_div_assoc']
  exact_mod_cast hnear

end Backtest.Decimal
