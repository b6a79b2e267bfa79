import Backtest.Proofs.Account.Division
import Backtest.Proofs.Account.Flatness

/-!
# Reversals

A fill against a position and larger than it is two fills in one: the first ends the position, the
second begins one on the other side, and they share the costs in proportion to quantity. In exact
arithmetic the ledger cannot tell the one fill from the two, in any of its figures.
-/

namespace Backtest

open Scalar

/-- The part of a fill that has this quantity, with its share of the costs. -/
def Fill.part {α : Type} [Scalar α] (f : Fill α) (quantity : α) : Fill α :=
  { f with
    quantity
    commission := f.commission * (abs quantity / abs f.quantity)
    slippage := f.slippage * (abs quantity / abs f.quantity) }

namespace Ledger

section Parts

variable {α : Type} [Scalar α] {l : Ledger α} {s : Split α} {f : Fill α}

/-- The fill takes a position past flat and leaves more than dust on the other side. -/
structure Reverses (l : Ledger α) (f : Fill α) : Prop where
  held : l.portfolio.isFlat = false
  against : sameSide l.portfolio.quantity f.quantity = false
  past : abs l.portfolio.quantity + dust < abs f.quantity

def closedBy (l : Ledger α) (s : Split α) (f : Fill α) : List (Trade α) :=
  (l.openTrade.map fun o => (bookExit s f o).close f.bar f.time).toList ++ l.closedTrades

theorem closePart_of_ends (hclosing : nat 0 < s.closing)
    (hend : (s.after == nat 0 || !sameSide s.after l.portfolio.quantity) = true) :
    l.closePart s f = (none, l.closedBy s f) := by
  rw [closePart, if_pos hclosing, if_pos hend, closedBy]
  cases l.openTrade <;> rfl

end Parts

variable {l : Ledger ℚ} {f : Fill ℚ} {q d : ℚ}

/-! ## One fill and two -/

theorem split_neg_self (hq : q ≠ 0) : split q (-q) = ⟨|q|, 0, 1, 0⟩ := by
  have hside : sameSide q (-q) = false := sameSide_eq_false_iff.2 (by simp [mul_self_nonneg])
  simp [split, hq, hside, Rational.smaller_eq_min, dust_pos]

theorem split_past_end (h : q * d < 0) (hpast : |q| + dust < |d|) :
    split q d = ⟨|q|, |q + d|, |q| / |d|, q + d⟩ := by
  have hless : |q| < |d| := by linarith [dust_pos]
  have hfar : ¬|q + d| < dust := by
    rw [abs_add_of_against h.le hless.le]
    linarith
  have hdust : ¬|d| < dust := by linarith [abs_nonneg q]
  have hdivides := split_divides (q := q) hdust
  generalize split q d = s at hdivides
  cases hdivides with
  | along halong => exact absurd h halong.not_gt
  | within _ hle => exact absurd hless hle.not_gt
  | past => rw [settled, if_neg hfar]

/-- The ledger after a fill that ends the position it meets. -/
theorem apply_to_end (hq : dust ≤ |l.portfolio.quantity|)
    (hf : f.quantity = -l.portfolio.quantity) :
    l.apply f =
      { portfolio :=
          { l.portfolio with
            cash := l.portfolio.cash - (f.quantity * f.price + f.commission)
            quantity := 0
            averagePrice := 0 }
        openTrade := none
        closedTrades := l.closedBy ⟨|l.portfolio.quantity|, 0, 1, 0⟩ f
        totalCommission := l.totalCommission + f.commission
        totalSlippage := l.totalSlippage + f.slippage } := by
  have hpos := dust_pos.trans_le hq
  have hdust : ¬Scalar.abs f.quantity < dust := by simpa [hf] using hq
  have hsplit : l.splitOf f = ⟨|l.portfolio.quantity|, 0, 1, 0⟩ := by
    rw [splitOf, hf, split_neg_self (abs_pos.1 hpos)]
  rw [apply_of_not_dust hdust, hsplit, closePart_of_ends hpos (by simp)]
  simp [openPart, averageAfter, dust_pos.le]

/-- The ledger after a fill that begins a position and a trade. -/
theorem apply_from_none (hq : l.portfolio.quantity = 0) (hopen : l.openTrade = none)
    (hmore : dust < |f.quantity|) :
    l.apply f =
      { portfolio :=
          { l.portfolio with
            cash := l.portfolio.cash - (f.quantity * f.price + f.commission)
            quantity := f.quantity
            averagePrice := f.price }
        openTrade := openPart ⟨0, |f.quantity|, 0, f.quantity⟩ f none
        closedTrades := l.closedTrades
        totalCommission := l.totalCommission + f.commission
        totalSlippage := l.totalSlippage + f.slippage } := by
  have hne : f.quantity ≠ 0 := abs_pos.1 (dust_pos.trans hmore)
  have hsplit : l.splitOf f = ⟨0, |f.quantity|, 0, f.quantity⟩ := by
    simp [splitOf, split, hq, hmore.not_gt]
  rw [apply_of_not_dust (f := f) hmore.not_gt, hsplit]
  simp [closePart, hopen, averageAfter, hq, hne]

/-- The ledger after a fill that ends the position it meets and begins another. -/
theorem apply_past_end (h : l.portfolio.quantity * f.quantity < 0)
    (hpast : |l.portfolio.quantity| + dust < |f.quantity|) :
    l.apply f =
      let s : Split ℚ := ⟨|l.portfolio.quantity|, |l.portfolio.quantity + f.quantity|,
        |l.portfolio.quantity| / |f.quantity|, l.portfolio.quantity + f.quantity⟩
      { portfolio :=
          { l.portfolio with
            cash := l.portfolio.cash - (f.quantity * f.price + f.commission)
            quantity := l.portfolio.quantity + f.quantity
            averagePrice := f.price }
        openTrade := openPart s f none
        closedTrades := l.closedBy s f
        totalCommission := l.totalCommission + f.commission
        totalSlippage := l.totalSlippage + f.slippage } := by
  have hless : |l.portfolio.quantity| < |f.quantity| := by linarith [dust_pos]
  have hdust : ¬Scalar.abs f.quantity < dust := by
    rw [Rational.abs_eq]
    linarith [abs_nonneg l.portfolio.quantity]
  have hne : l.portfolio.quantity + f.quantity ≠ 0 := by
    refine abs_pos.1 ?_
    rw [abs_add_of_against h.le hless.le]
    linarith [dust_pos]
  have hother : sameSide (l.portfolio.quantity + f.quantity) l.portfolio.quantity = false := by
    rw [sameSide_eq_false_iff, mul_comm]
    exact (add_past h hless).1.le
  rw [apply_of_not_dust hdust, splitOf, split_past_end h hpast,
    closePart_of_ends (abs_pos.2 (left_ne_zero_of_mul h.ne)) (by simp [hother])]
  simp [averageAfter, hne, hother]

/-- A reversing fill does to a ledger what its two parts do one after the other. -/
theorem apply_eq_apply_parts (hq : dust ≤ |l.portfolio.quantity|)
    (h : l.portfolio.quantity * f.quantity < 0)
    (hpast : |l.portfolio.quantity| + dust < |f.quantity|) :
    l.apply f = (l.apply (f.part (-l.portfolio.quantity))).apply
      (f.part (l.portfolio.quantity + f.quantity)) := by
  have hless : |l.portfolio.quantity| < |f.quantity| := by linarith [dust_pos]
  have hleft := abs_add_of_against h.le hless.le
  have hside : 0 < l.portfolio.quantity + f.quantity ↔ 0 < f.quantity :=
    (pos_iff_pos_of_mul_pos (add_past h hless).2).symm
  have hmore : dust < |(f.part (l.portfolio.quantity + f.quantity)).quantity| := by
    rw [Fill.part, hleft]
    linarith
  rw [apply_past_end h hpast, apply_to_end hq rfl, apply_from_none rfl rfl hmore]
  -- the second part pays what the first has left of the costs
  have hshare : |l.portfolio.quantity + f.quantity| / |f.quantity| =
      1 - |l.portfolio.quantity| / |f.quantity| := by
    rw [hleft, sub_div, div_self ((abs_nonneg _).trans_lt hless).ne']
  have hended : l.closedBy ⟨|l.portfolio.quantity|, |l.portfolio.quantity + f.quantity|,
        |l.portfolio.quantity| / |f.quantity|, l.portfolio.quantity + f.quantity⟩ f =
      l.closedBy ⟨|l.portfolio.quantity|, 0, 1, 0⟩ (f.part (-l.portfolio.quantity)) := by
    simp [closedBy, bookExit, Fill.part]
  have hbegun : openPart ⟨|l.portfolio.quantity|, |l.portfolio.quantity + f.quantity|,
        |l.portfolio.quantity| / |f.quantity|, l.portfolio.quantity + f.quantity⟩ f none =
      openPart ⟨0, |l.portfolio.quantity + f.quantity|, 0, l.portfolio.quantity + f.quantity⟩
        (f.part (l.portfolio.quantity + f.quantity)) none := by
    simp [openPart, raisePeak, bookEntry, Fill.part, hshare, hside]
  have hcash : l.portfolio.cash - (f.quantity * f.price + f.commission) =
      l.portfolio.cash - (-l.portfolio.quantity * f.price +
          f.commission * (|l.portfolio.quantity| / |f.quantity|)) -
        ((l.portfolio.quantity + f.quantity) * f.price +
          f.commission * (1 - |l.portfolio.quantity| / |f.quantity|)) := by
    ring
  have hcost (total cost : ℚ) : total + cost =
      total + cost * (|l.portfolio.quantity| / |f.quantity|) +
        cost * (1 - |l.portfolio.quantity| / |f.quantity|) := by
    ring
  simp only [hended, hbegun, hcash, hcost l.totalCommission f.commission,
    hcost l.totalSlippage f.slippage, Fill.part,
    Rational.abs_eq, abs_neg, hshare]

/-! ## Exact numbers -/

theorem part_exact (hf : f.quantity ≠ 0) (quantity : ℚ) :
    f.exact.part (.finite quantity) = (f.part quantity).exact := by
  have hne : |f.quantity| ≠ 0 := abs_ne_zero.2 hf
  simp [Fill.part, Fill.exact, Extended.abs_finite, hne]

theorem reverses_exact : l.exact.Reverses f.exact ↔ l.Reverses f := by
  have hflat : l.exact.portfolio.isFlat = l.portfolio.isFlat := by
    simp [Portfolio.isFlat, exact, Portfolio.exact]
  have hagainst : sameSide l.exact.portfolio.quantity f.exact.quantity =
      sameSide l.portfolio.quantity f.quantity := Extended.sameSide_finite
  have hpast : Scalar.abs l.exact.portfolio.quantity + dust < Scalar.abs f.exact.quantity ↔
      Scalar.abs l.portfolio.quantity + dust < Scalar.abs f.quantity := by
    simp [exact, Portfolio.exact, Fill.exact, dust_exact, Extended.abs_finite]
  constructor
  · rintro ⟨h, h', h''⟩
    exact ⟨hflat ▸ h, hagainst ▸ h', hpast.1 h''⟩
  · rintro ⟨h, h', h''⟩
    exact ⟨hflat ▸ h, hagainst ▸ h', hpast.2 h''⟩

theorem cleared_applyAll (fills : List (Fill ℚ)) (h : l.Cleared) :
    (l.applyAll fills).Cleared := by
  induction fills generalizing l with
  | nil => exact h
  | cons f fills ih => exact ih (h.apply f)

/-- In exact arithmetic, after any number of fills: a fill that takes the position past flat leaves
the ledger that the part of it that ends the position leaves, followed by the rest of it. -/
theorem reversal_closes_then_opens (cash : ℚ) (fills : List (Fill ℚ)) (f : Fill ℚ)
    (l : Ledger Extended) (hl : (ofCash (.finite cash)).applyAll (fills.map Fill.exact) = l)
    (h : l.Reverses f.exact) :
    l.apply f.exact = (l.apply (f.exact.part (-l.portfolio.quantity))).apply
      (f.exact.part (l.portfolio.quantity + f.exact.quantity)) := by
  have hexact : l = ((ofCash cash).applyAll fills).exact :=
    hl.symm.trans (applyAll_exact (ofCash cash) fills)
  have hcleared : ((ofCash cash).applyAll fills).Cleared :=
    cleared_applyAll fills (cleared_ofCash cash)
  generalize (ofCash cash).applyAll fills = r at hexact hcleared
  subst hexact
  obtain ⟨hheld, hagainst, hpast⟩ := reverses_exact.1 h
  have hq : dust ≤ |r.portfolio.quantity| :=
    not_lt.1 (hcleared.isFlat_iff.not.1 (by simp [hheld]))
  have hne : f.quantity ≠ 0 :=
    abs_pos.1 ((add_pos_of_nonneg_of_pos (abs_nonneg _) dust_pos).trans hpast)
  have hopposite : r.portfolio.quantity * f.quantity < 0 :=
    (sameSide_eq_false_iff.1 hagainst).lt_of_ne
      (mul_ne_zero (abs_pos.1 (dust_pos.trans_le hq)) hne)
  rw [apply_exact, apply_eq_apply_parts hq hopposite hpast, ← apply_exact, ← apply_exact,
    ← part_exact hne, ← part_exact hne]
  rfl

def partlyBoughtBack : List (Fill ℚ) :=
  [{ Fill.plain 3 2 100 with commission := 1 }, .plain 4 (-2) 110,
    { Fill.plain 5 (-3) 90 with slippage := 1 / 2 }, .plain 8 1 80]

def turnLong : Fill ℚ := { Fill.plain 9 5 120 with commission := 3, slippage := 1 }

theorem reversal_closes_then_opens_turnLong :
    ∃ l : Ledger Extended,
      (ofCash (.finite 10000)).applyAll (partlyBoughtBack.map Fill.exact) = l ∧
      l.Reverses turnLong.exact ∧ l.trades.length = 1 ∧
      l.apply turnLong.exact =
        (l.apply (turnLong.exact.part (.finite 2))).apply (turnLong.exact.part (.finite 3)) := by
  let l := (ofCash (.finite 10000)).applyAll (partlyBoughtBack.map Fill.exact)
  have hreverses : l.Reverses turnLong.exact :=
    ⟨by decide +kernel, by decide +kernel, by decide +kernel⟩
  have hclosing : -l.portfolio.quantity = .finite 2 := by decide +kernel
  have hrest : l.portfolio.quantity + turnLong.exact.quantity = .finite 3 := by decide +kernel
  have hparts := reversal_closes_then_opens 10000 partlyBoughtBack turnLong l rfl hreverses
  rw [hclosing, hrest] at hparts
  exact ⟨l, rfl, hreverses, by decide +kernel, hparts⟩

end Ledger

end Backtest
