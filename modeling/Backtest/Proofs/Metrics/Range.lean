import Backtest.Metrics.Basic
import Backtest.Proofs.Scalar.Double
import Backtest.Proofs.Scalar.Quotient

/-!
# Figures that stay in range

On doubles, whatever the equity curve and the trades hold, the drawdown, the win rate and the annual
growth of a run are finite: the first is moved between two numbers, the second is a quotient of
counts, and the third is held at the greatest double. Nothing holds the quotient of growth and
drawdown, which leaves the range as soon as growth is at its bound and less than everything is lost.
-/

namespace Backtest.Metrics

open Scalar

/-! ## Drawdown -/

section

variable {α : Type} [Scalar α] {x y low high : α}

theorem isFinite_clamp [Reading α] (hx : isNaN x = false) (hlow : isFinite low = true)
    (hhigh : isFinite high = true) : isFinite (clamp x low high) = true := by
  have hn := Reading.isNaN_of_isFinite hlow
  have hn' := Reading.isNaN_of_isFinite hhigh
  unfold clamp
  by_cases hbelow : x < low
  · simp only [if_pos hbelow]
    split <;> assumption
  · simp only [if_neg hbelow]
    split
    · exact hhigh
    · rename_i habove
      exact Reading.isFinite_of_between hx hlow hhigh ((Reading.not_lt_iff hx hn).1 hbelow)
        ((Reading.not_lt_iff hn' hx).1 habove)

theorem isNaN_larger (hx : isNaN x = false) : isNaN (larger x y) = false := by
  cases hy : isNaN y with
  | true => rwa [larger, hy, if_pos rfl]
  | false =>
    rw [larger, hy, if_neg Bool.false_ne_true]
    split <;> assumption

theorem Fall.isNaN_step {f : Fall α} (h : isNaN f.worst = false) (x : α) :
    isNaN (f.step x).worst = false := by
  unfold Fall.step
  dsimp only
  generalize (if f.peak < x then x else f.peak) = peak
  split
  · exact isNaN_larger h
  · exact h

theorem Fall.isNaN_foldl {f : Fall α} (h : isNaN f.worst = false) (xs : List α) :
    isNaN (xs.foldl Fall.step f).worst = false := by
  induction xs generalizing f with
  | nil => exact h
  | cons x xs ih => exact ih (f.isNaN_step h x)

theorem isFinite_maxDrawdownOf [Reading α] (hone : isFinite (nat 1 : α) = true)
    (equity : List α) : isFinite (maxDrawdownOf equity) = true := by
  cases equity with
  | nil => exact Reading.isFinite_zero
  | cons first rest =>
    exact isFinite_clamp (Fall.isNaN_foldl Reading.isNaN_zero _) Reading.isFinite_zero hone

end

/-! ## Win rate -/

variable {trades : List (Trade Float)} {equity : List Float} {barsPerYear : Float}

theorem isFinite_winRateOf (h : trades.length < UInt64.size) :
    isFinite (winRateOf trades) = true := by
  unfold winRateOf
  cases trades with
  | nil => rfl
  | cons t ts =>
    have hcount := List.countP_le_length (p := Trade.isWinner) (l := t :: ts)
    have hpos := List.length_pos_of_ne_nil (List.cons_ne_nil t ts)
    exact Double.isFinite_nat_div (hcount.trans_lt h) hpos h

/-! ## Annual growth -/

/-- The bound is the greatest double. -/
theorem ofFloat_greatest : Decimal.Binary.ofFloat greatest = .finite false (2 ^ 53 - 1) 971 := by
  decide +kernel

theorem isFinite_greatest : isFinite (greatest : Float) = true :=
  Decimal.isFinite_iff.2 ⟨false, 2 ^ 53 - 1, 971, ofFloat_greatest⟩

/-- Growth is finite if no power of a positive number is negative. -/
theorem isFinite_annualGrowthOf [Powers Float]
    (hpow : ∀ x y : Float, ¬x ≤ nat 0 → ¬Powers.pow x y < nat 0) :
    isFinite (annualGrowthOf equity barsPerYear) = true := by
  have hbound := isFinite_greatest
  unfold annualGrowthOf
  generalize (greatest : Float) = bound at hbound ⊢
  split
  · split
    · rfl
    · dsimp only
      split
      · exact Reading.isFinite_neg (show isFinite (nat 1 : Float) = true from rfl)
      · rename_i hratio
        rw [smaller, Reading.isNaN_of_isFinite hbound, if_neg Bool.false_ne_true]
        split
        · rename_i hlt
          exact Double.isFinite_sub_of_lt (hpow _ _ hratio) rfl hbound hlt
        · exact hbound
  · rfl

/-! ## Growth over drawdown -/

/-- Growth at its bound, over less than the whole, exceeds every double. -/
theorem isFinite_greatest_div {fall : Float} (hpos : nat 0 < fall) (hlt : fall < nat 1) :
    isFinite (greatest / fall) = false := by
  obtain ⟨m, e, h, hu, hm, he⟩ := Double.exists_unpacked_of_fraction hpos hlt
  have hbound := Decimal.unpacked_of_ofFloat (by decide) ofFloat_greatest
  refine Double.isFinite_div_of_overflow hbound hu ?_
  have hmq : (m : ℚ) ≤ (2 ^ 53 - 1 : ℕ) := Nat.cast_le.2 (Nat.le_sub_one_of_lt hm)
  have heq : (2 : ℚ) ^ e ≤ 2 ^ (-53 : ℤ) := zpow_le_zpow_right₀ one_le_two he
  have hpos : (0 : ℚ) < m * 2 ^ e := mul_pos (by exact_mod_cast h) (by positivity)
  rw [le_div_iff₀ hpos]
  calc (2 : ℚ) ^ (1024 : ℤ) * (m * 2 ^ e)
      ≤ 2 ^ (1024 : ℤ) * ((2 ^ 53 - 1 : ℕ) * 2 ^ (-53 : ℤ)) := by gcongr
    _ = (2 ^ 53 - 1 : ℕ) * 2 ^ (971 : ℤ) := by
        rw [mul_left_comm, ← zpow_add₀ two_ne_zero]
        rfl

theorem isFinite_calmar_compute [Powers Float]
    (hgrowth : annualGrowthOf equity barsPerYear = greatest)
    (hpos : nat 0 < maxDrawdownOf equity) (hlt : maxDrawdownOf equity < nat 1) :
    isFinite (compute equity trades barsPerYear).calmar = false := by
  have hcalmar : (compute equity trades barsPerYear).calmar =
      annualGrowthOf equity barsPerYear / maxDrawdownOf equity := if_pos hpos
  rw [hcalmar, hgrowth]
  exact isFinite_greatest_div hpos hlt

end Backtest.Metrics
