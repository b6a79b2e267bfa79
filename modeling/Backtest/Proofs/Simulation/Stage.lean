import Mathlib.Tactic.NormNum
import Backtest.Proofs.Account.Flatness
import Backtest.Proofs.Simulation.Solvency

/-!
# Out of the market and all in

An account that may neither borrow nor go short, under signals that name no weights, is in one of
two stages in exact arithmetic: out of the market with all it has in cash, or all in with no cash at
all. A fill spends all of the cash on units or turns all of the units into cash.
-/

namespace Backtest

open Extended Scalar

/-! ## Fills -/

namespace Ledger

variable {l : Ledger ℚ} {f : Fill ℚ}

/-- Out of the market, or all in. A position of exactly dust is one without a trade. -/
inductive Stage (l : Ledger ℚ) : Prop
  | out (hq : l.portfolio.quantity = 0) (hcash : 0 ≤ l.portfolio.cash) (hopen : l.openTrade = none)
  | allIn (hq : dust ≤ l.portfolio.quantity) (hcash : l.portfolio.cash = 0)
      (hopen : l.openTrade = none ↔ l.portfolio.quantity = dust)

namespace Stage

theorem openTrade_of_flat (h : l.Stage) (hq : l.portfolio.quantity = 0) : l.openTrade = none := by
  cases h with
  | out _ _ hopen => exact hopen
  | allIn hlong _ _ => exact absurd (hq ▸ hlong) dust_pos.not_ge

theorem cash_of_held (h : l.Stage) (hq : dust ≤ l.portfolio.quantity) : l.portfolio.cash = 0 := by
  cases h with
  | out hflat _ _ => exact absurd (hflat ▸ hq) dust_pos.not_ge
  | allIn _ hcash _ => exact hcash

theorem cash_nonneg (h : l.Stage) : 0 ≤ l.portfolio.cash := by
  cases h with
  | out _ hcash => exact hcash
  | allIn _ hcash _ => exact hcash.ge

theorem mark (h : l.Stage) (price : ℚ) : (l.mark price).Stage := by
  cases h with
  | out hq hcash hopen => exact .out hq hcash hopen
  | allIn hq hcash hopen => exact .allIn hq hcash hopen

end Stage

theorem not_abs_lt_dust_of_le {q : ℚ} (h : dust ≤ q) : ¬Scalar.abs q < dust := by
  rw [Rational.abs_eq, abs_of_pos (dust_pos.trans_le h)]
  exact not_lt.2 h

theorem not_abs_neg_lt_dust_of_le {q : ℚ} (h : dust ≤ q) : ¬Scalar.abs (-q) < dust := by
  rw [Rational.abs_eq, abs_neg]
  exact not_abs_lt_dust_of_le h

theorem split_from_flat {quantity : ℚ} (hdust : dust ≤ quantity) :
    (split 0 quantity).closing = 0 ∧ (split 0 quantity).opening = quantity ∧
      (split 0 quantity).after = quantity := by
  have hclosing : (split 0 quantity).closing = 0 := by simp [split]
  refine ⟨hclosing, ?_, ?_⟩
  · rw [split_opening, hclosing, Rational.abs_eq, abs_of_pos (dust_pos.trans_le hdust), sub_zero]
  · rw [split_after, zero_add, if_neg (not_abs_lt_dust_of_le hdust)]

/-- A purchase from flat opens a trade, unless it is one of exactly dust. -/
theorem apply_from_flat (hq : l.portfolio.quantity = 0) (hopen : l.openTrade = none)
    (hdust : dust ≤ f.quantity) :
    (l.apply f).portfolio.quantity = f.quantity ∧ (l.apply f).closedTrades = l.closedTrades ∧
      ((l.apply f).openTrade = none ↔ f.quantity = dust) ∧
      ∀ o, (l.apply f).openTrade = some o → o.entryBar = f.bar := by
  obtain ⟨hclosing, hopening, hafter⟩ := split_from_flat hdust
  have hsplit : l.splitOf f = split 0 f.quantity := by rw [splitOf, hq]
  rw [← hsplit] at hclosing hopening hafter
  have hnone : l.closePart (l.splitOf f) f = (none, l.closedTrades) := by
    simp [closePart, hclosing, hopen]
  rw [apply_of_not_dust (not_abs_lt_dust_of_le hdust)]
  refine ⟨hafter, by rw [hnone], ?_, ?_⟩
  · rw [openPart, hopening, hnone]
    rcases hdust.eq_or_lt with heq | hlt
    · simp [← heq]
    · simp [hlt, hlt.ne']
  · intro o ho
    rw [hnone] at ho
    rcases mem_openPart ho with ⟨_, hsome, -⟩ | ⟨-, hopened⟩
    · cases hsome
    · exact hopened.entryBar

theorem split_to_flat {held : ℚ} (hpos : 0 < held) :
    (split held (-held)).closing = held ∧ (split held (-held)).after = 0 := by
  have hopposite : sameSide held (-held) = false := by simp [sameSide, hpos.le]
  constructor
  · simp [split, hopposite, hpos.ne', Rational.smaller_eq_min, abs_of_pos hpos]
  · rw [split_after, add_neg_cancel, if_pos]
    · rfl
    · simpa using dust_pos

/-- Selling all of a position closes its trade. -/
theorem apply_to_flat (hq : dust ≤ l.portfolio.quantity) (hf : f.quantity = -l.portfolio.quantity) :
    (l.apply f).portfolio.quantity = 0 ∧ (l.apply f).openTrade = none ∧
      ∀ o, l.openTrade = some o → ∃ t : Trade ℚ, t.Closes o f ∧
        (l.apply f).closedTrades = t :: l.closedTrades := by
  have hpos := dust_pos.trans_le hq
  have hdust : ¬Scalar.abs f.quantity < dust := hf ▸ not_abs_neg_lt_dust_of_le hq
  have hsplit : l.splitOf f = split l.portfolio.quantity (-l.portfolio.quantity) := by
    rw [splitOf, hf]
  obtain ⟨hclosing, hafter⟩ := split_to_flat hpos
  rw [← hsplit] at hclosing hafter
  refine ⟨?_, openTrade_apply_of_after_eq_zero rfl rfl hdust hafter, fun o ho => ?_⟩
  · rw [apply_of_not_dust hdust, hafter]
  · have hclose : (l.closePart (l.splitOf f) f).2 =
        (bookExit (l.splitOf f) f o).close f.bar f.time :: l.closedTrades := by
      simp [closePart, hclosing, hafter, hpos, ho]
    rw [apply_of_not_dust hdust, hclose]
    exact ⟨_, closes_close (continues_bookExit o), rfl⟩

end Ledger

/-! ## Orders of whole weights -/

namespace Order

variable {c : Costs ℚ} {p : Portfolio ℚ} {opening weight requested : ℚ}

/-- Without leverage and short positions, a signal that names no weight comes to all or nothing. -/
theorem allowedWeight_whole (hleverage : c.maxLeverage = 0) (hshort : c.allowShort = false)
    {signal : Signal Extended} (hsignal : ∀ w, signal ≠ .target w)
    (h : signal.weight? = some (.finite requested)) :
    signal.isDiscrete = true ∧
      ((allowedWeight c requested).1 = 0 ∨ (allowedWeight c requested).1 = 1) := by
  cases signal with
  | long | flat | short =>
    cases h
    norm_num [Signal.isDiscrete, allowedWeight, clamp, Costs.maxWeight, hleverage, hshort]
  | target w => exact absurd rfl (hsignal w)
  | hold => cases h

/-- From flat, without leverage, all of the cash is spent. -/
theorem quantity_all_in (hc : c.Valid) (hleverage : c.maxLeverage = 0) (hopening : 0 < opening)
    (hq : p.quantity = 0) (hcash : 0 ≤ p.cash) :
    quantity c p opening 1 * unitCost c opening = p.cash := by
  have hcost : 0 < unitCost c opening := buyCost_pos hc hopening
  have hequity : p.equityAt opening = p.cash := by
    simp [Portfolio.equityAt, Portfolio.marketValue, hq]
  have htarget : targetQuantity c p opening 1 = p.cash / unitCost c opening := by
    rcases hcash.eq_or_lt with hzero | hpos
    · simp [targetQuantity, hequity, ← hzero]
    · simp [targetQuantity, hequity, hpos.not_ge, unitCost]
  have hmax : maxBuy c p opening = p.cash / unitCost c opening := by
    have hroom : headroom c p opening = p.cash := by simp [headroom, hleverage]
    have hunit : headroomPerUnit c opening = unitCost c opening := by
      simp [headroomPerUnit, hleverage, unitCost]
    rw [maxBuy_eq, hroom, hunit]
    rcases hcash.eq_or_lt with hzero | hpos
    · simp [← hzero]
    · simp [hpos.not_ge, hcost.not_ge]
  rw [quantity, htarget, hmax, hq, sub_zero, Rational.smaller_eq_min, min_self, ite_self,
    div_mul_cancel₀ _ hcost.ne']

/-- From a long position, all of it is sold. -/
theorem quantity_all_out (hq : 0 < p.quantity) : quantity c p opening 0 = -p.quantity := by
  simp [quantity, targetQuantity, hq.le]

/-- A fill that spends all cash on units, or turns all units into cash. -/
inductive Whole (c : Costs ℚ) (opening : ℚ) (p : Portfolio ℚ) (f : Fill ℚ) : Prop
  | buys (hq : p.quantity = 0) (hdust : Ledger.dust ≤ f.quantity)
      (hcost : f.quantity * unitCost c opening = p.cash)
      (hspent : f.quantity * f.price + f.commission = p.cash)
  | sells (hq : Ledger.dust ≤ p.quantity) (hf : f.quantity = -p.quantity)
      (hspent : f.quantity * f.price + f.commission = -(p.quantity * unitProceeds c opening))

theorem Whole.not_dust {f : Fill ℚ} (h : Whole c opening p f) :
    ¬Scalar.abs f.quantity < Ledger.dust := by
  cases h with
  | buys _ hdust => exact Ledger.not_abs_lt_dust_of_le hdust
  | sells hq hf => exact hf ▸ Ledger.not_abs_neg_lt_dust_of_le hq

/-- An order of a whole weight is settled, or filled as a whole. -/
theorem whole_of_filled {l : Ledger ℚ} {signalTime : Timestamp} {n : ℕ} {bar : Bar ℚ} {f : Fill ℚ}
    (hc : c.Valid) (hleverage : c.maxLeverage = 0) (hl : l.Stage)
    (hweight : weight = 0 ∨ weight = 1)
    (h : outcome c l.portfolio true weight signalTime n bar = .filled f) :
    0 < bar.openPrice ∧ Whole c bar.openPrice l.portfolio f := by
  obtain ⟨hsettled, -, -, -⟩ := outcome_eq_filled h
  obtain ⟨hopening, hdust, hquantity, -⟩ := filled_cases hc h
  have hspent := spent_of_filled h
  have hcost : 0 < unitCost c bar.openPrice := buyCost_pos hc hopening
  refine ⟨hopening, ?_⟩
  cases hl with
  | out hq hcash _ =>
    rcases hweight with rfl | rfl
    · -- flat already
      simp [isSettled, hq] at hsettled
    · have hall := quantity_all_in hc hleverage hopening hq hcash
      rw [← hquantity] at hall
      have hpos : 0 < f.quantity := by
        refine lt_of_le_of_ne ?_ (Ledger.quantity_ne_zero hdust).symm
        exact nonneg_of_mul_nonneg_left (hall ▸ hcash) hcost
      rw [if_pos hpos, hall] at hspent
      rw [Rational.abs_eq, abs_of_pos hpos, not_lt] at hdust
      exact .buys hq hdust hall hspent
  | allIn hq _ _ =>
    have hpos := Ledger.dust_pos.trans_le hq
    rcases hweight with rfl | rfl
    · have hall : f.quantity = -l.portfolio.quantity := hquantity.trans (quantity_all_out hpos)
      have hneg : ¬0 < f.quantity := by
        rw [hall, not_lt]
        exact (neg_lt_zero.2 hpos).le
      exact .sells hq hall (by rw [hspent, if_neg hneg, hall, neg_mul])
    · -- long already
      simp [isSettled, Side.ofQuantity?, hpos] at hsettled

end Order

/-! ## From one stage to the other -/

namespace Ledger

variable {c : Costs ℚ} {opening : ℚ} {l : Ledger ℚ} {f : Fill ℚ}

/-- A fill of all leads from one stage into the other. -/
theorem Stage.apply (hc : c.Valid) (hopening : 0 < opening) (hl : l.Stage)
    (hf : Order.Whole c opening l.portfolio f) : (l.apply f).Stage := by
  have hcash := cash_apply (l := l) hf.not_dust
  cases hf with
  | buys hq hdust _ hspent =>
    obtain ⟨hafter, -, htrade, -⟩ := apply_from_flat hq (hl.openTrade_of_flat hq) hdust
    exact .allIn (hafter ▸ hdust) (by rw [hcash, hspent, sub_self]) (hafter ▸ htrade)
  | sells hq hf hspent =>
    obtain ⟨hafter, hopen, -⟩ := apply_to_flat hq hf
    refine .out hafter ?_ hopen
    rw [hcash, hspent, hl.cash_of_held hq, sub_neg_eq_add, zero_add]
    exact mul_nonneg (dust_pos.le.trans hq) (Order.unitProceeds_nonneg hc hopening)

end Ledger

namespace Simulation

variable {c : Costs ℚ} {past : List (Bar Extended)} {bar : Bar Extended} {signal : Signal Extended}
  {b b' : Account ℚ}

/-- A signal that names no weight is settled, or filled as a whole at the opening of its bar. -/
theorem Executes.whole (hc : c.Valid) (hleverage : c.maxLeverage = 0)
    (hshort : c.allowShort = false) (hsignal : ∀ w, signal ≠ .target w)
    (hb : b.ledger.Stage) (h : Executes c past signal bar b b') :
    b'.ledger = b.ledger ∨ ∃ opening f, bar.openPrice = .finite opening ∧ 0 < opening ∧
      f.bar = past.length ∧ Order.Whole c opening b.ledger.portfolio f ∧
        b'.ledger = b.ledger.apply f := by
  cases h with
  | held => exact .inl rfl
  | unopened houtcome => rcases houtcome with rfl | rfl <;> exact .inl rfl
  | @ordered requested opening signalBar hweight _ hbar =>
    obtain ⟨hdiscrete, hwhole⟩ := Order.allowedWeight_whole hleverage hshort hsignal hweight
    rw [hdiscrete]
    cases hf : Order.outcome c b.ledger.portfolio true (Order.allowedWeight c requested).1
      signalBar.time past.length (Order.openingBar bar.time opening) with
    | unchanged => exact .inl rfl
    | noOpening => exact .inl rfl
    | filled f =>
      obtain ⟨hopening, hall⟩ := Order.whole_of_filled hc hleverage hb hwhole hf
      obtain ⟨-, -, -, hbooked⟩ := Order.outcome_eq_filled hf
      have hsnap := Ledger.snapCash_of_nonneg (hb.apply hc hopening hall).cash_nonneg cashTolerance
      exact .inr ⟨opening, f, hbar, hopening, by rw [hbooked], hall, hsnap⟩

end Simulation

end Backtest
