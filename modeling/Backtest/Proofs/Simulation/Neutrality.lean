import Backtest.Proofs.Market.Order
import Backtest.Proofs.Metrics.FlatCurve
import Backtest.Proofs.Simulation.Completion
import Backtest.Proofs.Simulation.Foresight
import Backtest.Simulation.Evaluation

/-!
# A flat market without costs

Where every price is the same or missing and trading is free, a run of a strategy that names no
weights ends where it started, with leverage or without, long, short or out. An account is even: it
holds a whole number of its starting cash in units, one, none or minus one, and the rest in cash.
-/

namespace Backtest

open Extended Scalar

/-- No price but this one, at the opening and at the close. -/
structure Bar.StaysAt {α : Type} [Scalar α] (price : α) (bar : Bar α) : Prop where
  opening : isFinite bar.openPrice = true → bar.openPrice = price
  close : isFinite bar.close = true → bar.close = price

/-- Trading is free. -/
structure Costs.Free {α : Type} [Scalar α] (c : Costs α) : Prop where
  commissionRate : c.commissionRate = nat 0
  slippageRate : c.slippageRate = nat 0

theorem Costs.free_exact {c : Costs ℚ} : c.exact.Free ↔ c.Free := by
  constructor
  · rintro ⟨hcommission, hslippage⟩
    exact ⟨by simpa [exact] using hcommission, by simpa [exact] using hslippage⟩
  · rintro ⟨hcommission, hslippage⟩
    exact ⟨congrArg finite hcommission, congrArg finite hslippage⟩

def IsUnit (w : ℚ) : Prop := w = 0 ∨ w = 1 ∨ w = -1

namespace IsUnit

variable {v w u : ℚ}

theorem le_one (h : IsUnit v) : v ≤ 1 := by
  rcases h with rfl | rfl | rfl <;> norm_num

theorem neg_one_le (h : IsUnit v) : -1 ≤ v := by
  rcases h with rfl | rfl | rfl <;> norm_num

theorem abs_mul_eq (h : IsUnit v) (hv : v ≠ 0) (hu : 0 ≤ u) : |v * u| = u := by
  rcases h with rfl | rfl | rfl
  · exact absurd rfl hv
  · rw [one_mul, abs_of_nonneg hu]
  · rw [neg_one_mul, abs_neg, abs_of_nonneg hu]

/-- Different units are not on the same side. -/
theorem sameSide_eq_false (hv : IsUnit v) (hw : IsUnit w) (hne : v ≠ w) (hu : 0 ≤ u) :
    sameSide (v * u) (w * u) = false := by
  rcases hv with rfl | rfl | rfl <;> rcases hw with rfl | rfl | rfl <;>
    simp_all [sameSide, not_lt]

end IsUnit

/-- Of what the portfolio is worth at a price, `w` times all is held in units. -/
structure Portfolio.Even (worth price w : ℚ) (p : Portfolio ℚ) : Prop where
  unit : IsUnit w
  quantity : p.quantity = w * (worth / price)
  cash : p.cash = worth - w * worth
  averagePrice : w ≠ 0 → p.averagePrice = price
  /-- What is held is no dust. -/
  notDust : w ≠ 0 → Ledger.dust ≤ worth / price

namespace Portfolio

variable {worth price w : ℚ} {p : Portfolio ℚ}

theorem Even.equityAt (h : p.Even worth price w) (hprice : price ≠ 0) {mark : ℚ}
    (hmark : w ≠ 0 → mark = price) : p.equityAt mark = worth := by
  rw [Portfolio.equityAt, marketValue, h.cash, h.quantity]
  by_cases hw : w = 0
  · simp [hw]
  · rw [hmark hw]
    field_simp
    ring

theorem even_ofCash (cash price : ℚ) : (ofCash cash).Even cash price 0 where
  unit := .inl rfl
  quantity := by simp [ofCash]
  cash := by simp [ofCash]
  averagePrice h := absurd rfl h
  notDust h := absurd rfl h

end Portfolio

/-! ## Orders -/

namespace Order

variable {c : Costs ℚ} {p : Portfolio ℚ} {worth price v w : ℚ}

/-- A signal that names no weight is allowed as it is, or as none. -/
theorem allowedWeight_unit (hc : c.Valid) {signal : Signal Extended} {requested : ℚ}
    (hsignal : ∀ w, signal ≠ .target w) (h : signal.weight? = some (.finite requested)) :
    signal.isDiscrete = true ∧ IsUnit (allowedWeight c requested).1 := by
  have hunit : IsUnit requested ∧ signal.isDiscrete = true := by
    cases signal with
    | long | flat | short =>
      cases h
      simp [IsUnit, Signal.isDiscrete]
    | target w => exact absurd rfl (hsignal w)
    | hold => cases h
  refine ⟨hunit.2, ?_⟩
  rw [allowedWeight, clamp_maxWeight hc hunit.1.neg_one_le hunit.1.le_one]
  split
  · exact .inl rfl
  · exact hunit.1

theorem buyPrice_of_free (hfree : c.Free) (opening : ℚ) : buyPrice c opening = opening := by
  simp [buyPrice, hfree.slippageRate]

theorem sellPrice_of_free (hfree : c.Free) (opening : ℚ) : sellPrice c opening = opening := by
  simp [sellPrice, hfree.slippageRate]

theorem headroomPerUnit_of_free (hfree : c.Free) (opening : ℚ) :
    headroomPerUnit c opening = opening := by
  simp only [headroomPerUnit, buyPrice_of_free hfree, hfree.commissionRate, Rational.nat_eq,
    Nat.cast_one, Nat.cast_zero]
  ring

theorem targetQuantity_of_even (hfree : c.Free) (hprice : 0 < price) (hworth : 0 ≤ worth)
    (h : p.Even worth price w) : targetQuantity c p price v = v * (worth / price) := by
  rw [targetQuantity, h.equityAt hprice.ne' fun _ => rfl, buyPrice_of_free hfree,
    sellPrice_of_free hfree, hfree.commissionRate]
  rcases hworth.eq_or_lt with rfl | hpos
  · simp
  · by_cases hv : v = 0
    · simp [hv]
    · simp [hv, hpos.not_ge, mul_div_assoc]

/-- The limit does not cut a purchase that an even portfolio makes up to all of its worth. -/
theorem quantity_of_even (hc : c.Valid) (hfree : c.Free) (hprice : 0 < price) (hworth : 0 ≤ worth)
    (hv : v ≤ 1) (h : p.Even worth price w) :
    quantity c p price v = (v - w) * (worth / price) := by
  have hroom : headroom c p price = (1 - w + c.maxLeverage) * worth := by
    simp only [headroom, h.cash, h.quantity, Rational.nat_eq, Nat.cast_one]
    field_simp
    ring
  have hdifference : targetQuantity c p price v - p.quantity = (v - w) * (worth / price) := by
    rw [targetQuantity_of_even hfree hprice hworth h, h.quantity, sub_mul]
  rw [quantity, hdifference]
  by_cases hbuy : nat 0 < (v - w) * (worth / price)
  · have hleverage := hc.maxLeverage_nonneg
    have hquotient : 0 ≤ worth / price := div_nonneg hworth hprice.le
    have hmore : 0 < v - w := pos_of_mul_pos_left (by simpa using hbuy) hquotient
    have hpos : 0 < worth := by
      refine lt_of_le_of_ne hworth fun hzero => ?_
      simp [← hzero] at hbuy
    have hlimit : maxBuy c p price = (1 - w + c.maxLeverage) * (worth / price) := by
      have hleft : 0 < (1 - w + c.maxLeverage) * worth := mul_pos (by linarith) hpos
      rw [maxBuy_eq, hroom, headroomPerUnit_of_free hfree,
        if_neg (by simp [hleft.not_ge, hprice.not_ge]), mul_div_assoc]
    rw [if_pos hbuy, Rational.smaller_eq_min, hlimit]
    exact min_eq_left (mul_le_mul_of_nonneg_right (by linarith) hquotient)
  · rw [if_neg hbuy]

end Order

/-! ## Fills -/

namespace Ledger

variable {c : Costs ℚ} {worth price v w : ℚ} {l : Ledger ℚ} {signalTime : Timestamp} {n : ℕ}
  {bar : Bar ℚ} {f : Fill ℚ}

/-- What an order of a unit leaves of an even portfolio is no dust. -/
theorem dust_le_of_filled (hworth : 0 ≤ worth / price) (hv : IsUnit v) (hv0 : v ≠ 0)
    (h : l.portfolio.Even worth price w) (hdust : ¬Scalar.abs f.quantity < dust)
    (hquantity : f.quantity = (v - w) * (worth / price)) : dust ≤ worth / price := by
  by_cases hw : w = 0
  · rwa [hquantity, hw, sub_zero, Rational.abs_eq, hv.abs_mul_eq hv0 hworth, not_lt] at hdust
  · exact h.notDust hw

/-- The fill of an order of a unit leads from an even portfolio to an even one. -/
theorem even_apply (hc : c.Valid) (hfree : c.Free) (hprice : 0 < price) (hworth : 0 ≤ worth)
    (hv : IsUnit v) (hbar : bar.openPrice = price) (h : l.portfolio.Even worth price w)
    (hf : Order.outcome c l.portfolio true v signalTime n bar = .filled f) :
    (l.apply f).portfolio.Even worth price v := by
  obtain ⟨-, hdust, hquantity, hcommission, -⟩ := Order.filled_cases hc hf
  obtain ⟨-, -, -, hbooked⟩ := Order.outcome_eq_filled hf
  have hunits : 0 ≤ worth / price := div_nonneg hworth hprice.le
  rw [hbar, Order.quantity_of_even hc hfree hprice hworth hv.le_one h] at hquantity
  have hat : f.price = price := by
    rw [hbooked, Order.buyPrice_of_free hfree, Order.sellPrice_of_free hfree, ite_self, hbar]
  have hfee : f.commission = 0 := by simp [hcommission, hfree.commissionRate]
  have hne : v ≠ w := by
    rintro rfl
    exact quantity_ne_zero hdust (by rw [hquantity, sub_self, zero_mul])
  have hheld (hv0 : v ≠ 0) : dust ≤ worth / price :=
    dust_le_of_filled hunits hv hv0 h hdust hquantity
  have hafter : (l.splitOf f).after = v * (worth / price) := by
    have hsum : l.portfolio.quantity + f.quantity = v * (worth / price) := by
      rw [h.quantity, hquantity]
      ring
    rw [splitOf, split_after, hsum]
    by_cases hv0 : v = 0
    · simp [hv0]
    · rw [if_neg]
      rw [Rational.abs_eq, hv.abs_mul_eq hv0 hunits]
      exact (hheld hv0).not_gt
  rw [apply_of_not_dust hdust]
  refine ⟨hv, hafter, ?_, fun hv0 => ?_, hheld⟩
  · dsimp only
    rw [h.cash, hfee, hat, hquantity]
    field_simp
    ring
  · have hside : sameSide (l.splitOf f).after l.portfolio.quantity = false := by
      rw [hafter, h.quantity]
      exact hv.sameSide_eq_false h.unit hne hunits
    have hsome : (l.splitOf f).after ≠ 0 := by
      rw [hafter]
      exact mul_ne_zero hv0 (dust_pos.trans_le (hheld hv0)).ne'
    dsimp only
    rw [averageAfter, if_neg (by simpa using hsome), if_pos (by simp [hside]), hat]

end Ledger

/-! ## Runs -/

namespace Simulation

variable {s : Setup Extended} {c : Costs ℚ} {price : ℚ} {past rest bars : List (Bar Extended)}
  {bar : Bar Extended} {signal : Signal Extended} {b b' : Account ℚ} {start k : ℕ}
  {strategy : Strategy Extended} {assigned : Parameter.Assignment Extended}
  {costs : Costs Extended} {a : Account Extended}

/-- An even account that has been worth its starting cash at every mark. -/
structure Account.Neutral (c : Costs ℚ) (price : ℚ) (b : Account ℚ) : Prop where
  even : ∃ w, b.ledger.portfolio.Even c.startingCash price w
  lastClose : ∀ close, b.lastClose = some close → close = price
  points : ∀ point ∈ b.points, point.equity = c.startingCash

theorem neutral_start (c : Costs ℚ) (price : ℚ) (time : Timestamp) :
    (Account.start c.startingCash time).Neutral c price where
  even := ⟨0, Portfolio.even_ofCash _ _⟩
  lastClose := nofun
  points point h := by rw [List.mem_singleton.1 h]

theorem Account.Neutral.mark (hprice : price ≠ 0) (h : b.Neutral c price) (time : Timestamp)
    {close? : Option ℚ} (hclose : ∀ close, close? = some close → close = price) :
    (b.mark time close?).Neutral c price := by
  obtain ⟨w, heven⟩ := h.even
  have hlast : ∀ close, close?.or b.lastClose = some close → close = price := by
    intro close hor
    rcases Option.or_eq_some_iff.1 hor with hnow | ⟨-, hbefore⟩
    · exact hclose close hnow
    · exact h.lastClose close hbefore
  have hmark : w ≠ 0 →
      (close?.or b.lastClose).getD b.ledger.portfolio.averagePrice = price := by
    intro hw
    cases hor : close?.or b.lastClose with
    | none => exact heven.averagePrice hw
    | some close => exact hlast close hor
  refine ⟨⟨w, heven.unit, heven.quantity, heven.cash, heven.averagePrice, heven.notDust⟩, hlast,
    fun point hpoint => ?_⟩
  rcases List.mem_cons.1 hpoint with rfl | hbefore
  · exact heven.equityAt hprice hmark
  · exact h.points point hbefore

theorem Account.Neutral.executes (hc : c.Valid) (hfree : c.Free) (hprice : 0 < price)
    (hsignal : ∀ w, signal ≠ .target w) (hbar : bar.StaysAt (.finite price))
    (h : b.Neutral c price) (hb : Executes c past signal bar b b') : b'.Neutral c price := by
  cases hb with
  | held => exact h
  | unopened houtcome => rcases houtcome with rfl | rfl <;> exact ⟨h.even, h.lastClose, h.points⟩
  | @ordered requested opening signalBar hweight _ hopening =>
    obtain ⟨hdiscrete, hunit⟩ := Order.allowedWeight_unit hc hsignal hweight
    obtain ⟨w, heven⟩ := h.even
    have hat : opening = price := by
      have hsame := hbar.opening (by rw [hopening, isFinite_finite])
      rw [hopening] at hsame
      exact Extended.finite.inj hsame
    rw [hdiscrete]
    cases hf : Order.outcome c b.ledger.portfolio true (Order.allowedWeight c requested).1
      signalBar.time past.length (Order.openingBar bar.time opening) with
    | unchanged => exact ⟨⟨w, heven⟩, h.lastClose, h.points⟩
    | noOpening => exact ⟨⟨w, heven⟩, h.lastClose, h.points⟩
    | filled f =>
      have hafter := Ledger.even_apply hc hfree hprice hc.startingCash_nonneg hunit hat heven hf
      have hcash : 0 ≤ (b.ledger.apply f).portfolio.cash := by
        rw [hafter.cash, sub_nonneg]
        exact mul_le_of_le_one_left hc.startingCash_nonneg hunit.le_one
      refine ⟨⟨(Order.allowedWeight c requested).1, ?_⟩, h.lastClose, h.points⟩
      rw [Account.carryOut, Ledger.snapCash_of_nonneg hcash]
      exact hafter

theorem Account.Neutral.meets (hc : c.Valid) (hfree : c.Free) (hprice : 0 < price)
    (hsignal : ∀ signal, signalAt s (.ofSeries past) = .ok signal → ∀ w, signal ≠ .target w)
    (hbar : bar.StaysAt (.finite price)) (h : b.Neutral c price) (hb : Meets s c past bar b b') :
    b'.Neutral c price := by
  have hclose : ∀ close, close? bar = some close → close = price := by
    intro close hclose
    have hfinite := close?_eq_some_iff.1 hclose
    have hsame := hbar.close (by rw [hfinite, isFinite_finite])
    rw [hfinite] at hsame
    exact Extended.finite.inj hsame
  cases hb with
  | first => exact h.mark hprice.ne' _ hclose
  | @next signal _ _ hgiven hmid =>
    exact (h.executes hc hfree hprice (hsignal signal hgiven) hbar hmid).mark hprice.ne' _ hclose

theorem accountAfter_neutral (hc : c.Valid) (hfree : c.Free) (hprice : 0 < price)
    (hbars : ∀ bar ∈ bars.drop start, bar.StaysAt (.finite price))
    (hstrategy : strategy.AllOrNothing assigned)
    (h : accountAfter bars start strategy assigned c.exact k = .ok a) :
    ∃ b : Account ℚ, a = b.exact ∧ b.Neutral c price := by
  refine accountAfter_invariant hc (neutral_start c price) ?_ h
  intro j hj s bar b b' hprepare hbar _ hb hmeets
  have hmem : bar ∈ bars.drop start := by
    rw [← List.getElem?_drop] at hbar
    exact List.mem_of_getElem? hbar
  exact hb.meets hc hfree hprice (signalAt_ne_target hstrategy hprepare) (hbars bar hmem) hmeets

/-- Every point of a run in a flat market without costs is the starting cash. -/
theorem equityValues_neutral (hfree : costs.Free) (hprice : 0 < price)
    (hbars : ∀ bar ∈ bars.drop start, bar.StaysAt (.finite price))
    (hstrategy : strategy.AllOrNothing assigned) {sim : Simulation Extended}
    (h : runFrom bars start strategy assigned costs = .ok sim) :
    ∃ level n, costs.startingCash = .finite level ∧
      sim.equityValues = List.replicate n (.finite level) := by
  obtain ⟨setup, -, a, ha, rfl⟩ := runFrom_eq_ok_iff_accountAfter.1 h
  obtain ⟨c, rfl, hc⟩ := exists_exact_of_accountAfter ha
  obtain ⟨b, rfl, hb⟩ :=
    accountAfter_neutral hc (Costs.free_exact.1 hfree) hprice hbars hstrategy ha
  refine ⟨c.startingCash, _, rfl, List.eq_replicate_of_mem fun x hx => ?_⟩
  obtain ⟨point, hpoint, rfl⟩ := List.mem_map.1 hx
  obtain ⟨exact, hexact, rfl⟩ := List.mem_map.1 (List.mem_reverse.1 hpoint)
  exact congrArg finite (hb.points exact hexact)

/-! ## Runs that give a result -/

/-- A strategy that names no weights and always answers runs to the end. -/
theorem exists_runFrom (hvalid : costs.validate = .ok ()) (hordered : disorder? bars = none)
    (hlength : start + leastBars ≤ bars.length) (hstrategy : strategy.AllOrNothing assigned)
    (hanswers : strategy.Answers assigned) :
    ∃ sim, runFrom bars start strategy assigned costs = .ok sim :=
  exists_runFrom_of_answers hvalid hordered hlength hanswers
    (hstrategy.finiteWeights rfl rfl rfl)

end Simulation

/-! ## Strategies that name no weights -/

section

variable {α : Type} [Scalar α] (assigned : Parameter.Assignment α)

theorem buyAndHold_allOrNothing : (buyAndHold : Strategy α).AllOrNothing assigned := by
  rintro parameters - history view weight h
  cases h

theorem Crossover.allOrNothing : (strategy : Strategy α).AllOrNothing assigned := by
  rintro parameters - history view weight h
  simp only [strategy, evaluate, bind_eq_ok_iff] at h
  obtain ⟨settings, -, h⟩ := h
  split at h
  · cases h
  · split at h
    · split at h <;> cases h
    · cases h

theorem Momentum.allOrNothing : (strategy : Strategy α).AllOrNothing assigned := by
  rintro parameters - history view weight h
  have hdecide : Momentum.decide history parameters = .ok (.target weight) := h
  simp only [Momentum.decide, bind_eq_ok_iff] at hdecide
  obtain ⟨lookback, -, threshold, -, allowShort, -, hdecide⟩ := hdecide
  cases hlatest : (RateOfChange.indicator lookback).latest history with
  | none => simp [hlatest] at hdecide
  | some change =>
    simp only [hlatest, pure_eq_ok_iff] at hdecide
    split at hdecide
    · cases hdecide
    · split at hdecide <;> cases hdecide

theorem Threshold.allOrNothing : (strategy : Strategy α).AllOrNothing assigned := by
  rintro parameters - history view weight h
  simp only [strategy, evaluate, bind_eq_ok_iff] at h
  obtain ⟨period, -, lower, -, upper, -, h⟩ := h
  cases hlatest : view.latest? (RelativeStrength.name period) with
  | none => simp [hlatest] at h
  | some strength =>
    simp only [hlatest, pure_eq_ok_iff] at h
    split at h
    · cases h
    · split at h <;> cases h

variable {assigned} in
theorem Registry.allOrNothing_of_mem_builtins {strategy : Strategy α}
    (h : strategy ∈ (builtins : Registry α).list) : strategy.AllOrNothing assigned := by
  rcases mem_builtins_iff.1 h with rfl | rfl | rfl | rfl
  · exact buyAndHold_allOrNothing assigned
  · exact Crossover.allOrNothing assigned
  · exact Momentum.allOrNothing assigned
  · exact Threshold.allOrNothing assigned

end

/-! ## Evaluated runs -/

namespace Evaluation

/-- The curve never leaves the starting cash, and the figures show neither gain nor risk. -/
structure IsNeutral (e : Evaluation Extended) : Prop where
  equity : ∀ point ∈ e.equity, point.equity = e.costs.startingCash
  totalReturn : e.metrics.totalReturn = nat 0
  sharpe : e.metrics.sharpe = nat 0
  maxDrawdown : e.metrics.maxDrawdown = nat 0

end Evaluation

namespace Simulation

/-- In exact arithmetic: no registered strategy names weights of its own; and for any strategy that
names none, any leverage, with short positions or without, a run without costs over bars that show
one price wherever they show a number comes to an end if the strategy always answers, and every run
that comes to an end is neutral. -/
theorem flat_market_neutral :
    (∀ strategy ∈ (Registry.builtins : Registry Extended).list, ∀ assigned,
      strategy.AllOrNothing assigned) ∧
    ∀ [Powers Extended], Powers.sqrt (nat 0 : Extended) = nat 0 →
      ∀ (bars : List (Bar Extended)) (start : ℕ) (strategy : Strategy Extended)
        (assigned : Parameter.Assignment Extended) (costs : Costs Extended)
        (barsPerYear : Extended) (price : ℚ),
        0 < price → (∀ bar ∈ bars, bar.StaysAt (.finite price)) → costs.Free →
        strategy.AllOrNothing assigned →
        (strategy.Answers assigned → costs.validate = .ok () → disorder? bars = none →
          start + leastBars ≤ bars.length → checkBarsPerYear barsPerYear = .ok () →
          ∃ e, Evaluation.runFrom bars start strategy assigned costs barsPerYear = .ok e) ∧
        ∀ e, Evaluation.runFrom bars start strategy assigned costs barsPerYear = .ok e →
          e.costs = costs ∧ e.IsNeutral := by
  refine ⟨fun strategy h assigned => Registry.allOrNothing_of_mem_builtins h, ?_⟩
  intro _ hsqrt bars start strategy assigned costs barsPerYear price hprice hbars hfree hstrategy
  constructor
  · intro hanswers hvalid hordered hlength hscale
    obtain ⟨sim, hsim⟩ := exists_runFrom hvalid hordered hlength hstrategy hanswers
    exact ⟨_, Evaluation.runFrom_eq_ok_iff.2 ⟨hscale, sim, hsim, rfl⟩⟩
  · intro e h
    obtain ⟨-, sim, hsim, rfl⟩ := Evaluation.runFrom_eq_ok_iff.1 h
    obtain ⟨level, n, hcash, hcurve⟩ := equityValues_neutral hfree hprice
      (fun bar hbar => hbars bar (List.mem_of_mem_drop hbar)) hstrategy hsim
    refine ⟨rfl, fun point hpoint => ?_, ?_, ?_, ?_⟩
    · have hmem : point.equity ∈ sim.equityValues := List.mem_map_of_mem hpoint
      rw [hcurve] at hmem
      exact (List.eq_of_mem_replicate hmem).trans hcash.symm
    · exact (congrArg Metrics.totalReturnOf hcurve).trans Metrics.totalReturnOf_replicate
    · exact (congrArg (Metrics.sharpeOf · barsPerYear) hcurve).trans
        (Metrics.sharpeOf_replicate hsqrt _)
    · exact (congrArg Metrics.maxDrawdownOf hcurve).trans Metrics.maxDrawdownOf_replicate

def turning : Strategy Extended where
  name := "turning"
  decide history _ :=
    .ok (match history.length % 4 with
      | 1 => .long
      | 2 => .short
      | 3 => .hold
      | _ => .flat)

def eighties : List (Bar Extended) :=
  [.still 2 (finite 80), { Bar.still 3 (finite 80) with close := .nan }, .still 4 (finite 80),
    { Bar.still 5 (finite 80) with openPrice := .nan, close := .infinite true },
    .still 8 (finite 80), .still 9 (finite 80), { Bar.still 10 (finite 80) with low := finite 1 }]

def freeMargin : Costs Extended := ⟨finite 1000, nat 0, nat 0, nat 2, true⟩

local instance : Powers Extended := Extended.coarsePowers

theorem flat_market_neutral_eighties :
    Powers.sqrt (nat 0 : Extended) = nat 0 ∧ (0 : ℚ) < 80 ∧
      (∀ bar ∈ eighties, bar.StaysAt (.finite 80)) ∧ freeMargin.Free ∧
      turning.AllOrNothing .empty ∧ turning.Answers .empty ∧ freeMargin.validate = .ok () ∧
      disorder? eighties = none ∧ 0 + leastBars ≤ eighties.length ∧
      checkBarsPerYear (Metrics.standardBarsPerYear : Extended) = .ok () ∧
      ∃ e, Evaluation.runFrom eighties 0 turning .empty freeMargin Metrics.standardBarsPerYear =
          .ok e ∧
        e.trades.length = 3 ∧ e.IsNeutral := by
  have hsqrt : Powers.sqrt (nat 0 : Extended) = nat 0 := by decide +kernel
  have hprice : (0 : ℚ) < 80 := by norm_num
  have hbars : ∀ bar ∈ eighties, bar.StaysAt (.finite 80) := by
    have hall : ∀ bar ∈ eighties,
        (isFinite bar.openPrice = true → bar.openPrice = .finite 80) ∧
          (isFinite bar.close = true → bar.close = .finite 80) := by
      decide +kernel
    exact fun bar hbar => ⟨(hall bar hbar).1, (hall bar hbar).2⟩
  have hnamed : turning.AllOrNothing .empty := by
    rintro parameters - history view weight h
    have h' : Except.ok _ = Except.ok (Signal.target weight) := h
    split at h' <;> cases h'
  have hanswers : turning.Answers .empty :=
    ⟨.empty, rfl, ⟨[], rfl⟩, fun _ _ => ⟨_, rfl⟩⟩
  have hvalid : freeMargin.validate = .ok () := Costs.validate_eq_ok_iff.2 (by decide +kernel)
  have hordered : disorder? eighties = none := by decide +kernel
  have hscale : checkBarsPerYear (Metrics.standardBarsPerYear : Extended) = .ok () := rfl
  have hfree : freeMargin.Free := ⟨rfl, rfl⟩
  have hcount : (Evaluation.runFrom eighties 0 turning .empty freeMargin
      Metrics.standardBarsPerYear).toOption.map (·.trades.length) = some 3 := by
    decide +kernel
  obtain ⟨hends, hneutral⟩ := flat_market_neutral.2 hsqrt eighties 0 turning .empty freeMargin
    Metrics.standardBarsPerYear 80 hprice hbars hfree hnamed
  obtain ⟨e, he⟩ := hends hanswers hvalid hordered (by decide) hscale
  rw [he] at hcount
  exact ⟨hsqrt, hprice, hbars, hfree, hnamed, hanswers, hvalid, hordered, by decide, hscale, e, he,
    Option.some.inj hcount, (hneutral e he).2⟩

end Simulation

end Backtest
