import Backtest.Proofs.Simulation.Neutrality

/-!
# Weights that are reached

Where trading is free, the quantity that a weight comes to and the largest purchase are two
functions of cash, position, leverage and price that agree on what can be paid for: from any
position, no purchase towards a weight within the limits is cut. What keeps a position from its
target is dust alone, either too little to trade or too little to hold.
-/

namespace Backtest

open Extended Scalar

namespace Order

variable {c : Costs ℚ} {p : Portfolio ℚ} {opening weight : ℚ}

theorem headroom_eq (c : Costs ℚ) (p : Portfolio ℚ) (opening : ℚ) :
    headroom c p opening = c.maxWeight * p.equityAt opening - p.quantity * opening := by
  simp only [headroom, Costs.maxWeight, Portfolio.equityAt, Portfolio.marketValue,
    Rational.nat_eq, Nat.cast_one]
  ring

theorem targetQuantity_of_free (hfree : c.Free) (hequity : 0 < p.equityAt opening) :
    targetQuantity c p opening weight = weight * p.equityAt opening / opening := by
  rw [targetQuantity, buyPrice_of_free hfree, sellPrice_of_free hfree, hfree.commissionRate]
  by_cases hweight : weight = 0
  · simp [hweight]
  · simp [hweight, hequity.not_ge]

/-- What is missing to the largest weight may be bought. -/
theorem maxBuy_of_free (hfree : c.Free) (hopening : 0 < opening)
    (hroom : p.quantity < c.maxWeight * p.equityAt opening / opening) :
    maxBuy c p opening = c.maxWeight * p.equityAt opening / opening - p.quantity := by
  rw [lt_div_iff₀ hopening, ← sub_pos] at hroom
  rw [maxBuy_eq, headroomPerUnit_of_free hfree, headroom_eq]
  simp only [Rational.nat_eq, Nat.cast_zero, hroom.not_ge, hopening.not_ge, decide_false,
    Bool.or_self, Bool.false_eq_true, if_false]
  rw [sub_div, mul_div_cancel_right₀ _ hopening.ne']

/-- Where trading is free no order towards a weight within the limits is cut. -/
theorem quantity_of_free (hfree : c.Free) (hopening : 0 < opening)
    (hequity : 0 < p.equityAt opening) (hweight : weight ≤ c.maxWeight) :
    quantity c p opening weight = weight * p.equityAt opening / opening - p.quantity := by
  rw [quantity, targetQuantity_of_free hfree hequity]
  split
  · rename_i hbuy
    have hless : weight * p.equityAt opening / opening ≤
        c.maxWeight * p.equityAt opening / opening := by
      gcongr
    have hroom : p.quantity < c.maxWeight * p.equityAt opening / opening :=
      (sub_pos.1 (show 0 < _ from hbuy)).trans_le hless
    rw [maxBuy_of_free hfree hopening hroom, Rational.smaller_eq_min]
    exact min_eq_left (sub_le_sub_right hless _)
  · rfl

/-- A weight within the limits is allowed as it is. -/
theorem allowedWeight_of_abs_le (hweight : |weight| ≤ c.maxWeight)
    (hshort : 0 ≤ weight ∨ c.allowShort = true) : allowedWeight c weight = (weight, false) := by
  have hallowed : (decide (weight < nat 0) && !c.allowShort) = false := by
    rcases hshort with hlong | hshort
    · simp [hlong]
    · simp [hshort]
  simp only [allowedWeight, clamp_of_abs_le hweight, hallowed]
  rfl

end Order

namespace Simulation

variable {c : Costs ℚ} {b : Account ℚ} {opening weight target : ℚ} {bar : Bar ℚ}

/-- An order of all that is missing to a target leads less than dust away from it. -/
theorem abs_carryOut_sub_lt_dust {refused : Bool} {signalTime : Timestamp} {n : ℕ}
    (hbar : 0 < bar.openPrice)
    (hquantity : Order.quantity c b.ledger.portfolio bar.openPrice weight =
      target - b.ledger.portfolio.quantity) :
    |(b.carryOut refused (Order.outcome c b.ledger.portfolio false weight signalTime n
      bar)).ledger.portfolio.quantity - target| < Ledger.dust := by
  unfold Order.outcome
  by_cases hsettled : Order.isSettled false b.ledger.portfolio.quantity weight = true
  · obtain ⟨hweight, hheld⟩ : weight = 0 ∧ b.ledger.portfolio.quantity = 0 := by
      simpa [Order.isSettled] using hsettled
    have htarget : target = 0 := by
      simpa [Order.quantity, Order.targetQuantity, hweight, hheld] using hquantity.symm
    rw [if_pos hsettled]
    simpa [Account.carryOut, hheld, htarget] using Ledger.dust_pos
  · have htradable : (!Order.isTradable bar.openPrice) = false := by simp [Order.isTradable, hbar]
    rw [if_neg hsettled, htradable, if_neg Bool.false_ne_true]
    unfold Order.fillFor
    rw [hquantity]
    dsimp only
    split
    · rename_i hsmall
      rwa [Rational.abs_eq, abs_sub_comm] at hsmall
    · rename_i hdust
      rw [Account.carryOut, Ledger.quantity_snapCash, Ledger.quantity_apply hdust]
      simp only [add_sub_cancel]
      split
      · rename_i hsmall
        simpa using hsmall
      · simpa using Ledger.dust_pos

/-- Executing a weight within the limits on a rational account. -/
theorem execute_target_exact {s : Setup Extended} {past : List (Bar Extended)} {bar : Bar Extended}
    (hs : s.costs = c.exact) (hc : c.Valid) (hpast : past ≠ [])
    (hbar : bar.openPrice = .finite opening) (hopening : 0 < opening)
    (hallowed : Order.allowedWeight c weight = (weight, false))
    (hquantity : Order.quantity c b.ledger.portfolio opening weight =
      target - b.ledger.portfolio.quantity) :
    ∃ b' : Account ℚ,
      execute s (.ofSeries past) (.target (.finite weight)) bar b.exact = .ok b'.exact ∧
        |b'.ledger.portfolio.quantity - target| < Ledger.dust := by
  obtain ⟨signalBar, hlast⟩ :=
    Option.ne_none_iff_exists'.1 (mt List.getLast?_eq_none_iff.1 hpast)
  have hexecute : execute s (.ofSeries past) (.target (.finite weight)) bar b.exact = _ :=
    execute_eq rfl hlast
  rw [orderAt, hs, Order.allowedWeight_exact, hallowed] at hexecute
  have hexact : b.exact.ledger.portfolio = b.ledger.portfolio.exact := rfl
  rw [hexact, Order.outcome_exact hc _ _ _ _ _ hbar, carryOut_exact] at hexecute
  exact ⟨_, hexecute, abs_carryOut_sub_lt_dust hopening hquantity⟩

/-- In exact arithmetic, where trading is free: from every account that a run goes through, whatever
it holds, with equity above zero at an opening that can be traded at, a finite weight within the
limits is allowed as it is, its order is for all that is missing to this weight of the equity at the
opening price, and executing it leads less than dust away from there. -/
theorem target_reached (bars : List (Bar Extended)) (start k : ℕ) (strategy : Strategy Extended)
    (assigned : Parameter.Assignment Extended) (costs : Costs Extended) (a : Account Extended)
    (ha : accountAfter bars start strategy assigned costs k = .ok a) (hfree : costs.Free)
    (s : Setup Extended) (hs : s.costs = costs) (past : List (Bar Extended)) (hpast : past ≠ [])
    (bar : Bar Extended) (hbar : Order.isTradable bar.openPrice = true)
    (hequity : nat 0 < a.ledger.portfolio.equityAt bar.openPrice) (weight : Extended)
    (hfinite : isFinite weight = true) (hlimit : Scalar.abs weight ≤ costs.maxWeight)
    (hshort : nat 0 ≤ weight ∨ costs.allowShort = true) :
    let p := a.ledger.portfolio
    let target := weight * p.equityAt bar.openPrice / bar.openPrice
    Order.allowedWeight costs weight = (weight, false) ∧
    Order.quantity costs p bar.openPrice weight = target - p.quantity ∧
    ∃ a', execute s (.ofSeries past) (.target weight) bar a = .ok a' ∧
      Scalar.abs (a'.ledger.portfolio.quantity - target) < Ledger.dust := by
  obtain ⟨c, b, rfl, hc, rfl⟩ := exists_rational_of_accountAfter ha
  obtain ⟨weight, rfl⟩ := Extended.isFinite_iff.1 hfinite
  obtain ⟨hopens, hpositive⟩ := Bool.and_eq_true_iff.1 hbar
  obtain ⟨opening, hopening⟩ := Extended.isFinite_iff.1 hopens
  have hexact : b.exact.ledger.portfolio = b.ledger.portfolio.exact := rfl
  simp only [hopening, hexact, Portfolio.equityAt_exact, nat_eq_finite, finite_lt,
    decide_eq_true_eq] at hpositive hequity ⊢
  have hlimit : |weight| ≤ c.maxWeight := by
    simpa [Costs.maxWeight, Costs.exact, Extended.abs_finite] using hlimit
  have hallowed := Order.allowedWeight_of_abs_le hlimit (by simpa [Costs.exact] using hshort)
  have hquantity := Order.quantity_of_free (Costs.free_exact.1 hfree) hpositive hequity
    ((le_abs_self _).trans hlimit)
  obtain ⟨b', hb', hnear⟩ :=
    execute_target_exact hs hc hpast hopening hpositive hallowed hquantity
  rw [Order.allowedWeight_exact, hallowed, Order.quantity_exact hc hpositive, hquantity,
    finite_mul, finite_div hpositive.ne']
  have hheld : b'.exact.ledger.portfolio.quantity = .finite b'.ledger.portfolio.quantity := rfl
  refine ⟨rfl, finite_sub.symm, b'.exact, hb', ?_⟩
  rw [hheld, finite_sub, abs_finite, Ledger.dust_exact]
  exact finite_lt.2 hnear

def riseAndFall : List (Bar Extended) :=
  [.still 2 (finite 100), .still 3 (finite 110), .still 4 (finite 90)]

def freeSetup : Setup Extended := ⟨turning, .empty, .empty, freeMargin⟩

/-- From a short position to three times the equity in units, which is all that may be bought. -/
theorem target_reached_riseAndFall :
    freeMargin.Free ∧ riseAndFall ≠ [] ∧
      Order.isTradable (Bar.still 5 (finite 70)).openPrice = true ∧
      Scalar.abs (finite 3) ≤ freeMargin.maxWeight ∧
      ∃ a, accountAfter riseAndFall 0 turning .empty freeMargin 3 = .ok a ∧
        a.ledger.portfolio.quantity < nat 0 ∧
        nat 0 < a.ledger.portfolio.equityAt (finite 70) ∧
        ∃ a', execute freeSetup (.ofSeries riseAndFall) (.target (finite 3)) (.still 5 (finite 70))
            a = .ok a' ∧
          Scalar.abs (a'.ledger.portfolio.quantity -
            finite 3 * a.ledger.portfolio.equityAt (finite 70) / finite 70) < Ledger.dust := by
  have hstate : (accountAfter riseAndFall 0 turning .empty freeMargin 3).toOption.map (fun a =>
      (decide (a.ledger.portfolio.quantity < nat 0),
        decide (nat 0 < a.ledger.portfolio.equityAt (finite 70)))) = some (true, true) := by
    decide +kernel
  obtain ⟨a, ha, hstate⟩ := Option.map_eq_some_iff.1 hstate
  simp only [Prod.mk.injEq, decide_eq_true_eq] at hstate
  obtain ⟨hshort, hequity⟩ := hstate
  have hrun := toOption_eq_some_iff.1 ha
  have hfree : freeMargin.Free := ⟨rfl, rfl⟩
  have hbar : Order.isTradable (Bar.still 5 (finite 70)).openPrice = true := by decide +kernel
  have hlimit : Scalar.abs (finite 3) ≤ freeMargin.maxWeight := by decide +kernel
  obtain ⟨-, -, a', hexecute, hnear⟩ := target_reached riseAndFall 0 3 turning .empty freeMargin a
    hrun hfree freeSetup rfl riseAndFall nofun (.still 5 (finite 70)) hbar hequity (finite 3) rfl
    hlimit (.inr rfl)
  exact ⟨hfree, nofun, hbar, hlimit, a, hrun, hshort, hequity, a', hexecute, hnear⟩

end Simulation

end Backtest
