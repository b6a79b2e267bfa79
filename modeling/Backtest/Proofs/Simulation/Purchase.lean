import Backtest.Proofs.Simulation.Fills
import Backtest.Proofs.Simulation.Leverage

/-!
# The largest purchase

Under costs that a run accepts every unit bought takes up headroom, however far it may be borrowed
against. So the largest purchase is where the headroom ends: a quantity can be bought within the
borrowing limit if and only if it is no larger, from a short position, from one that is borrowed
too much against already, and where there is no headroom at all.
-/

namespace Backtest

open Extended Scalar

namespace Order

def bought {α : Type} [Scalar α] (c : Costs α) (p : Portfolio α) (opening d : α) :
    Portfolio α :=
  let price := buyPrice c opening
  { p with
    cash := p.cash - (d * price + abs d * price * c.commissionRate)
    quantity := p.quantity + d }

section

variable {α : Type} [Scalar α] {c : Costs α} {p q : Portfolio α} {opening d : α}

/-- Neither the average price nor the equity last recorded plays a part in what can be bought. -/
theorem maxBuy_congr (hcash : p.cash = q.cash) (hheld : p.quantity = q.quantity) :
    maxBuy c p opening = maxBuy c q opening := by
  simp only [maxBuy, hcash, hheld]

theorem withinLimit_bought_congr (hcash : p.cash = q.cash) (hheld : p.quantity = q.quantity) :
    WithinLimit c (bought c p opening d) opening ↔
      WithinLimit c (bought c q opening d) opening := by
  simp only [WithinLimit, bought, Portfolio.equityAt, Portfolio.marketValue, hcash, hheld]

end

/-- An order that buys is booked as a purchase of its quantity, up to a position that is dust. -/
theorem apply_of_filled {α : Type} [Scalar α] {c : Costs α} {l : Ledger α} {discrete : Bool}
    {weight : α} {signalTime : Timestamp} {n : ℕ} {bar : Bar α} {f : Fill α}
    (h : outcome c l.portfolio discrete weight signalTime n bar = .filled f)
    (hpos : nat 0 < f.quantity) :
    let after := bought c l.portfolio bar.openPrice f.quantity
    (l.apply f).portfolio.cash = after.cash ∧
      (l.apply f).portfolio.quantity =
        if abs after.quantity < Ledger.dust then nat 0 else after.quantity := by
  obtain ⟨-, -, hdust, hf⟩ := outcome_eq_filled h
  have hprice : f.price = buyPrice c bar.openPrice := (congrArg Fill.price hf).trans (if_pos hpos)
  have hcommission : f.commission = abs f.quantity * f.price * c.commissionRate :=
    congrArg Fill.commission hf
  refine ⟨?_, Ledger.quantity_apply hdust⟩
  rw [Ledger.cash_apply hdust, hcommission, hprice, bought]

variable {c : Costs ℚ} {p : Portfolio ℚ} {opening d : ℚ}

theorem bought_exact (c : Costs ℚ) (p : Portfolio ℚ) (opening d : ℚ) :
    bought c.exact p.exact (finite opening) (finite d) = (bought c p opening d).exact := by
  simp only [bought, buyPrice_exact]
  simp [Costs.exact, Portfolio.exact, abs_finite]

theorem headroomPerUnit_pos (hc : c.Valid) (hopening : 0 < opening) :
    0 < headroomPerUnit c opening := by
  have hleverage := hc.maxLeverage_nonneg
  have hslippage := hc.slippageRate_nonneg
  have hcommission := hc.commissionRate_nonneg
  -- a unit costs at least what it is worth as a security
  have hcost : opening ≤ opening * (1 + c.slippageRate) * (1 + c.commissionRate) := by
    rw [mul_assoc]
    refine le_mul_of_one_le_right hopening.le (one_le_mul_of_one_le_of_one_le ?_ ?_) <;> linarith
  have hborrowed := mul_le_mul_of_nonneg_right hcost (add_nonneg zero_le_one hleverage)
  simp only [headroomPerUnit, buyPrice, Rational.nat_eq, Nat.cast_one]
  linarith

theorem headroom_bought (hd : 0 ≤ d) :
    headroom c (bought c p opening d) opening =
      headroom c p opening - d * headroomPerUnit c opening := by
  simp only [headroom, bought, headroomPerUnit, Rational.abs_eq, abs_of_nonneg hd, Rational.nat_eq,
    Nat.cast_one]
  ring

theorem le_maxBuy_iff (hunit : 0 < headroomPerUnit c opening) (hd : 0 < d) :
    d ≤ maxBuy c p opening ↔ d * headroomPerUnit c opening ≤ headroom c p opening := by
  rw [maxBuy_eq]
  rcases le_or_gt (headroom c p opening) 0 with hroom | hroom
  · have htaken := mul_pos hd hunit
    simp [hroom, hd.not_ge, (hroom.trans_lt htaken).not_ge]
  · simp [hroom.not_ge, hunit.not_ge, le_div_iff₀ hunit]

theorem withinLimit_bought_iff (hc : c.Valid) (hopening : 0 < opening) (hd : 0 < d) :
    WithinLimit c (bought c p opening d) opening ↔ d ≤ maxBuy c p opening := by
  rw [withinLimit_iff, headroom_bought hd.le, sub_nonneg,
    le_maxBuy_iff (headroomPerUnit_pos hc hopening) hd]

/-- In exact arithmetic, under costs that a run accepts, for any cash and position and any opening
that can be traded at: a unit bought takes up headroom; buying a quantity above zero leads to an
account within its borrowing limit at the opening price if and only if the quantity is at most the
largest purchase; and an order that buys is booked as such a purchase, up to a position that is
dust. -/
theorem maxBuy_is_limit (c : Costs Extended) (hc : c.validate = .ok ()) (l : Ledger Extended)
    (hcash : isFinite l.portfolio.cash = true) (hheld : isFinite l.portfolio.quantity = true)
    (opening : Extended) (hopening : isTradable opening = true) :
    let p := l.portfolio
    nat 0 < headroomPerUnit c opening ∧
      (∀ d, isFinite d = true → nat 0 < d →
        (WithinLimit c (bought c p opening d) opening ↔ d ≤ maxBuy c p opening)) ∧
      ∀ (discrete : Bool) (weight : Extended) (signalTime : Timestamp) (n : ℕ)
        (bar : Bar Extended) (f : Fill Extended), bar.openPrice = opening →
        outcome c p discrete weight signalTime n bar = .filled f → nat 0 < f.quantity →
          let after := bought c p opening f.quantity
          (l.apply f).portfolio.cash = after.cash ∧
            (l.apply f).portfolio.quantity =
              if abs after.quantity < Ledger.dust then nat 0 else after.quantity := by
  obtain ⟨c, rfl, hvalid⟩ := Costs.exists_exact hc
  obtain ⟨hopens, hpositive⟩ := Bool.and_eq_true_iff.1 hopening
  obtain ⟨opening, rfl⟩ := Extended.isFinite_iff.1 hopens
  have hpositive : 0 < opening := by simpa using hpositive
  obtain ⟨cash, hcash⟩ := Extended.isFinite_iff.1 hcash
  obtain ⟨held, hheld⟩ := Extended.isFinite_iff.1 hheld
  refine ⟨?_, fun d hd hpos => ?_, ?_⟩
  · rw [headroomPerUnit_exact, nat_eq_finite, finite_lt]
    exact headroomPerUnit_pos hvalid hpositive
  · obtain ⟨d, rfl⟩ := Extended.isFinite_iff.1 hd
    let q : Portfolio ℚ := ⟨cash, held, 0, 0⟩
    have hcash : l.portfolio.cash = q.exact.cash := hcash
    have hheld : l.portfolio.quantity = q.exact.quantity := hheld
    rw [withinLimit_bought_congr hcash hheld, maxBuy_congr hcash hheld, bought_exact,
      withinLimit_exact, maxBuy_exact, finite_le]
    exact withinLimit_bought_iff hvalid hpositive (by simpa using hpos)
  · intro discrete weight signalTime n bar f hbar hfilled hbuy
    rw [← hbar]
    exact apply_of_filled hfilled hbuy

def short : Ledger Extended :=
  { Ledger.ofCash (finite 1500) with
    portfolio := ⟨finite 1500, finite (-5), finite 100, finite 1000⟩ }

def dearMargin : Costs Extended :=
  ⟨finite 1000, finite (1 / 100), finite (1 / 50), nat 2, true⟩

/-- Thirty-two units can be bought and thirty-three cannot. An order for three times the equity asks
for more and is booked as the purchase of the most that can. -/
theorem maxBuy_is_limit_short :
    dearMargin.validate = .ok () ∧ isTradable (finite 100) = true ∧
      nat 0 < headroomPerUnit dearMargin (finite 100) ∧
      WithinLimit dearMargin (bought dearMargin short.portfolio (finite 100) (finite 32))
        (finite 100) ∧
      ¬WithinLimit dearMargin (bought dearMargin short.portfolio (finite 100) (finite 33))
        (finite 100) ∧
      ∃ f, outcome dearMargin short.portfolio false (finite 3) default 1
          (.still 2 (finite 100)) = .filled f ∧
        f.quantity = maxBuy dearMargin short.portfolio (finite 100) ∧
        (short.apply f).portfolio.cash =
          (bought dearMargin short.portfolio (finite 100) f.quantity).cash := by
  have hvalid : dearMargin.validate = .ok () := Costs.validate_eq_ok_iff.2 (by decide +kernel)
  have hopening : isTradable (finite 100) = true := by decide +kernel
  obtain ⟨hunit, hlimit, hbooked⟩ :=
    maxBuy_is_limit dearMargin hvalid short rfl rfl (finite 100) hopening
  have hless : finite 32 ≤ maxBuy dearMargin short.portfolio (finite 100) := by decide +kernel
  have hmore : ¬finite 33 ≤ maxBuy dearMargin short.portfolio (finite 100) := by decide +kernel
  have hfills : (outcome dearMargin short.portfolio false (finite 3) default 1
      (.still 2 (finite 100))).fill?.map (fun f => (decide (nat 0 < f.quantity),
        decide (f.quantity = maxBuy dearMargin short.portfolio (finite 100)))) =
      some (true, true) := by
    decide +kernel
  obtain ⟨f, hfilled, hfills⟩ := Option.map_eq_some_iff.1 hfills
  rw [Outcome.fill?_eq_some_iff] at hfilled
  simp only [Prod.mk.injEq, decide_eq_true_eq] at hfills
  exact ⟨hvalid, hopening, hunit, (hlimit _ rfl (by decide +kernel)).2 hless,
    mt (hlimit _ rfl (by decide +kernel)).1 hmore, f, hfilled, hfills.2,
    (hbooked _ _ _ _ _ _ rfl hfilled hfills.1).1⟩

end Order

end Backtest
