import Mathlib.Tactic.Linarith
import Mathlib.Tactic.LinearCombination
import Backtest.Proofs.Simulation.Exact

/-!
# How large a rational order is

A purchase never takes up more than the headroom, and a weight that is not negative never leads
into a short position. Every fill is made at a positive price.
-/

namespace Backtest

open Extended Scalar

namespace Order

variable {c : Costs ℚ} {p : Portfolio ℚ} {opening weight requested : ℚ}

theorem clamp_of_abs_le (h : |weight| ≤ c.maxWeight) :
    clamp weight (-c.maxWeight) c.maxWeight = weight := by
  obtain ⟨hlow, hhigh⟩ := abs_le.1 h
  simp only [clamp, if_neg hlow.not_gt, if_neg hhigh.not_gt]

/-- Weights of at most all of the equity, on either side, are within the limits of any costs. -/
theorem clamp_maxWeight (hc : c.Valid) (hlow : -1 ≤ weight) (hhigh : weight ≤ 1) :
    clamp weight (-c.maxWeight) c.maxWeight = weight := by
  have hleverage := hc.maxLeverage_nonneg
  refine clamp_of_abs_le ((abs_le.2 ⟨hlow, hhigh⟩).trans ?_)
  simp only [Costs.maxWeight, Rational.nat_eq, Nat.cast_one]
  linarith

theorem allowedWeight_nonneg (h : c.allowShort = false) : 0 ≤ (allowedWeight c requested).1 := by
  simp only [allowedWeight, h, Bool.not_false, Bool.and_true, decide_eq_true_eq]
  split
  · simp
  · rename_i hnot
    simpa using hnot

theorem maxBuy_nonneg : 0 ≤ maxBuy c p opening := by
  rw [maxBuy_eq]
  by_cases h : headroom c p opening ≤ 0 ∨ headroomPerUnit c opening ≤ 0
  · simp [h]
  · have hpos := not_or.1 h
    have hquotient := div_nonneg (not_le.1 hpos.1).le (not_le.1 hpos.2).le
    simpa [h] using hquotient

theorem maxBuy_mul_of_pos (h : 0 < maxBuy c p opening) :
    0 < headroomPerUnit c opening ∧
      maxBuy c p opening * headroomPerUnit c opening = headroom c p opening := by
  rw [maxBuy_eq] at h ⊢
  by_cases hnone : headroom c p opening ≤ 0 ∨ headroomPerUnit c opening ≤ 0
  · simp [hnone] at h
  · have hpos := not_le.1 (not_or.1 hnone).2
    refine ⟨hpos, ?_⟩
    simp only [Bool.or_eq_true, decide_eq_true_eq, Rational.nat_eq, Nat.cast_zero, if_neg hnone]
    exact div_mul_cancel₀ _ hpos.ne'

/-- A purchase takes up no more than the headroom. -/
theorem quantity_mul_le_headroom (h : 0 < quantity c p opening weight) :
    quantity c p opening weight * headroomPerUnit c opening ≤ headroom c p opening := by
  have hle : quantity c p opening weight ≤ maxBuy c p opening := by
    unfold quantity at h ⊢
    by_cases hbuy : nat 0 < targetQuantity c p opening weight - p.quantity
    · simp only [if_pos hbuy, Rational.smaller_eq_min]
      exact min_le_right _ _
    · simp only [if_neg hbuy] at h
      exact absurd h hbuy
  obtain ⟨hpos, hmul⟩ := maxBuy_mul_of_pos (h.trans_le hle)
  rw [← hmul]
  exact mul_le_mul_of_nonneg_right hle hpos.le

theorem targetQuantity_nonneg (hc : c.Valid) (hopening : 0 < opening) (hweight : 0 ≤ weight) :
    0 ≤ targetQuantity c p opening weight := by
  have hcost := buyCost_pos hc hopening
  simp only [targetQuantity, Rational.nat_eq, Rational.beq_eq, Nat.cast_zero, Nat.cast_one]
  split
  · exact le_rfl
  · rename_i hsome
    have hequity : 0 < p.equityAt opening := by
      by_contra hle
      simp [not_lt.1 hle] at hsome
    split
    · exact div_nonneg (mul_nonneg hweight hequity.le) hcost.le
    · rename_i hnot
      simp [le_antisymm (not_lt.1 hnot) hweight]

/-- A weight that is not negative leads from a position that is not short into no short one. -/
theorem quantity_add_nonneg (hc : c.Valid) (hopening : 0 < opening) (hweight : 0 ≤ weight)
    (hq : 0 ≤ p.quantity) : 0 ≤ p.quantity + quantity c p opening weight := by
  have htarget := targetQuantity_nonneg (p := p) hc hopening hweight
  unfold quantity
  by_cases hbuy : nat 0 < targetQuantity c p opening weight - p.quantity
  · simp only [if_pos hbuy, Rational.smaller_eq_min]
    exact add_nonneg hq (le_min (le_of_lt hbuy) maxBuy_nonneg)
  · simp only [if_neg hbuy]
    linarith

/-- What a fill of an order at a positive opening is made of. -/
theorem filled_cases {discrete : Bool} {signalTime : Timestamp} {n : ℕ} {bar : Bar ℚ} {f : Fill ℚ}
    (hc : c.Valid) (h : outcome c p discrete weight signalTime n bar = .filled f) :
    0 < bar.openPrice ∧ ¬Scalar.abs f.quantity < Ledger.dust ∧
      f.quantity = quantity c p bar.openPrice weight ∧
      f.commission = |f.quantity| * f.price * c.commissionRate ∧ 0 < f.price ∧
      (0 < f.quantity → f.price = buyPrice c bar.openPrice) := by
  obtain ⟨-, htradable, hdust, hf⟩ := outcome_eq_filled h
  have hopening : 0 < bar.openPrice := by simpa [isTradable] using htradable
  have hprice : f.price =
      if 0 < f.quantity then buyPrice c bar.openPrice else sellPrice c bar.openPrice := by
    simpa using congrArg Fill.price hf
  have hbuy : 0 < buyPrice c bar.openPrice := by
    have := hc.slippageRate_nonneg
    simp only [buyPrice, Rational.nat_eq, Nat.cast_one]
    positivity
  refine ⟨hopening, hdust, by rw [congrArg Fill.quantity hf], congrArg Fill.commission hf, ?_, ?_⟩
  · rw [hprice]
    split
    · exact hbuy
    · exact sellPrice_pos hc hopening
  · intro hpos
    rw [hprice, if_pos hpos]

def unitCost {α : Type} [Scalar α] (c : Costs α) (opening : α) : α :=
  buyPrice c opening * (nat 1 + c.commissionRate)

def unitProceeds {α : Type} [Scalar α] (c : Costs α) (opening : α) : α :=
  sellPrice c opening * (nat 1 - c.commissionRate)

theorem unitCost_exact (c : Costs ℚ) (opening : ℚ) :
    unitCost c.exact (finite opening) = finite (unitCost c opening) := by
  simp [unitCost, buyPrice, Costs.exact]

theorem unitProceeds_exact (c : Costs ℚ) (opening : ℚ) :
    unitProceeds c.exact (finite opening) = finite (unitProceeds c opening) := by
  simp [unitProceeds, sellPrice, Costs.exact]

theorem unitProceeds_nonneg (hc : c.Valid) (hopening : 0 < opening) :
    0 ≤ unitProceeds c opening := by
  have hprice := sellPrice_pos hc hopening
  have hrate := sub_pos.2 hc.commissionRate_lt_one
  simp only [unitProceeds, Rational.nat_eq, Nat.cast_one]
  positivity

/-- What a fill of an order takes from cash, or adds to it. -/
theorem spent_of_filled {discrete : Bool} {signalTime : Timestamp} {n : ℕ} {bar : Bar ℚ}
    {f : Fill ℚ} (h : outcome c p discrete weight signalTime n bar = .filled f) :
    f.quantity * f.price + f.commission =
      f.quantity *
        if 0 < f.quantity then unitCost c bar.openPrice else unitProceeds c bar.openPrice := by
  obtain ⟨-, -, -, hf⟩ := outcome_eq_filled h
  have hprice : f.price =
      if 0 < f.quantity then buyPrice c bar.openPrice else sellPrice c bar.openPrice := by
    simpa using congrArg Fill.price hf
  have hcommission : f.commission = |f.quantity| * f.price * c.commissionRate :=
    congrArg Fill.commission hf
  rw [hcommission, hprice]
  simp only [unitCost, unitProceeds, Rational.nat_eq, Nat.cast_one]
  split
  · rw [abs_of_pos ‹_›]
    ring
  · rw [abs_of_nonpos (not_lt.1 ‹_›)]
    ring

end Order

end Backtest
