import Backtest.Proofs.Market.Order
import Backtest.Proofs.Simulation.Exact

/-!
# No price poisons a run

In exact arithmetic every number that a finished run reports is finite, whatever its bars hold. No
divisor that is met on the way is zero: a rate below one, a tested bound or a quantity above dust
keeps each of them away from it. So nothing depends on what a quotient by zero is taken to be.
-/

namespace Backtest

open Extended Scalar

/-! ## Finite records -/

section

variable {α : Type} [Scalar α]

structure Portfolio.IsFinite (p : Portfolio α) : Prop where
  cash : isFinite p.cash = true
  quantity : isFinite p.quantity = true
  averagePrice : isFinite p.averagePrice = true
  equity : isFinite p.equity = true

structure Trade.IsFinite (t : Trade α) : Prop where
  entryPrice : isFinite t.entryPrice = true
  exitPrice : isFinite t.exitPrice = true
  quantity : isFinite t.quantity = true
  commission : isFinite t.commission = true
  slippage : isFinite t.slippage = true
  profit : isFinite t.profit = true

structure Simulation.IsFinite (s : Simulation α) : Prop where
  equity : ∀ point ∈ s.equity, isFinite point.equity = true
  trades : ∀ t ∈ s.trades, t.IsFinite
  final : s.final.IsFinite
  totalCommission : isFinite s.totalCommission = true
  totalSlippage : isFinite s.totalSlippage = true

end

theorem Portfolio.isFinite_exact (p : Portfolio ℚ) : p.exact.IsFinite := ⟨rfl, rfl, rfl, rfl⟩

theorem Trade.isFinite_exact (t : Trade ℚ) : t.exact.IsFinite := ⟨rfl, rfl, rfl, rfl, rfl, rfl⟩

/-- What is reported of a rational account is finite. -/
theorem Simulation.isFinite_ofAccount (parameters : Parameter.Assignment Extended) (start : ℕ)
    (b : Account ℚ) : (ofAccount parameters start b.exact).IsFinite where
  equity point h := by
    obtain ⟨q, -, rfl⟩ := List.mem_map.1 (List.mem_reverse.1 h)
    rfl
  trades t h := by
    obtain ⟨q, -, rfl⟩ := List.mem_map.1 (List.mem_reverse.1 h)
    exact q.isFinite_exact
  final := b.ledger.portfolio.isFinite_exact
  totalCommission := rfl
  totalSlippage := rfl

/-! ## Quotients by zero -/

namespace Extended

/-- Exact numbers with `zeroth x` for the quotient of `x` by zero. -/
@[reducible]
def quotients (zeroth : Extended → Extended) : Scalar Extended :=
  { (inferInstance : Scalar Extended) with
    div := fun x y => if y = finite 0 then zeroth x else x / y }

end Extended

variable {zeroth : Extended → Extended}

namespace Order

variable {c : Costs Extended} {p : Portfolio Extended} {opening weight : Extended}

theorem maxBuy_quotients :
    @maxBuy Extended (quotients zeroth) c p opening = maxBuy c p opening := by
  change (if headroom c p opening ≤ nat 0 || headroomPerUnit c opening ≤ nat 0 then nat 0
    else if headroomPerUnit c opening = finite 0 then zeroth (headroom c p opening)
    else headroom c p opening / headroomPerUnit c opening) = maxBuy c p opening
  rw [maxBuy_eq]
  by_cases h : headroomPerUnit c opening = finite 0
  · simp [h]
  · rw [if_neg h]

theorem targetQuantity_quotients (hbuy : buyPrice c opening * (nat 1 + c.commissionRate) ≠ finite 0)
    (hsell : sellPrice c opening ≠ finite 0) :
    @targetQuantity Extended (quotients zeroth) c p opening weight =
      targetQuantity c p opening weight := by
  change (if p.equityAt opening ≤ nat 0 || weight == nat 0 then nat 0
    else if nat 0 < weight then
      if buyPrice c opening * (nat 1 + c.commissionRate) = finite 0 then
        zeroth (weight * p.equityAt opening)
      else weight * p.equityAt opening / (buyPrice c opening * (nat 1 + c.commissionRate))
    else if sellPrice c opening = finite 0 then zeroth (weight * p.equityAt opening)
    else weight * p.equityAt opening / sellPrice c opening) = targetQuantity c p opening weight
  rw [if_neg hbuy, if_neg hsell]
  rfl

variable {discrete : Bool} {signalTime : Timestamp} {n : ℕ} {bar : Bar Extended}

theorem fillFor_quotients
    (h : @targetQuantity Extended (quotients zeroth) c p bar.openPrice weight =
      targetQuantity c p bar.openPrice weight) :
    @fillFor Extended (quotients zeroth) c p weight signalTime n bar =
      fillFor c p weight signalTime n bar := by
  have hquantity : @quantity Extended (quotients zeroth) c p bar.openPrice weight =
      quantity c p bar.openPrice weight := by
    unfold quantity
    rw [h, maxBuy_quotients]
    rfl
  unfold fillFor
  rw [hquantity]
  rfl

theorem outcome_quotients
    (h : isTradable bar.openPrice = true →
      @targetQuantity Extended (quotients zeroth) c p bar.openPrice weight =
        targetQuantity c p bar.openPrice weight) :
    @outcome Extended (quotients zeroth) c p discrete weight signalTime n bar =
      outcome c p discrete weight signalTime n bar := by
  change (if isSettled discrete p.quantity weight then .unchanged
    else if !isTradable bar.openPrice then .noOpening
    else @fillFor Extended (quotients zeroth) c p weight signalTime n bar) = _
  cases htradable : isTradable bar.openPrice with
  | false => simp [outcome, htradable]
  | true =>
    rw [fillFor_quotients (h htradable)]
    simp [outcome, htradable]

end Order

namespace OpenTrade

theorem average_quotients (notional quantity : Extended) :
    @average Extended (quotients zeroth) notional quantity = average notional quantity := by
  change (if nat 0 < quantity then
    if quantity = finite 0 then zeroth notional else notional / quantity else nat 0) = _
  unfold average
  by_cases h : quantity = finite 0
  · simp [h]
  · rw [if_neg h]

theorem close_quotients : @close Extended (quotients zeroth) = close := by
  funext o bar time
  unfold close
  rw [average_quotients, average_quotients]
  rfl

end OpenTrade

namespace Ledger

theorem split_quotients {held quantity : Extended} (h : ¬abs quantity < dust) :
    @split Extended (quotients zeroth) held quantity = split held quantity := by
  have hne : abs quantity ≠ finite 0 := by
    intro hzero
    rw [hzero] at h
    exact h (by decide)
  change Split.mk (split held quantity).closing (split held quantity).opening
    (if abs quantity = finite 0 then zeroth (split held quantity).closing
      else (split held quantity).closing / abs quantity) (split held quantity).after = _
  rw [if_neg hne]
  rfl

theorem averageAfter_quotients (p : Portfolio Extended) (s : Split Extended) (f : Fill Extended) :
    @averageAfter Extended (quotients zeroth) p s f = averageAfter p s f := by
  change (if s.after == nat 0 then nat 0
    else if p.quantity == nat 0 || !sameSide s.after p.quantity then f.price
    else if abs p.quantity < abs s.after then
      if abs s.after = finite 0 then
        zeroth (abs p.quantity * p.averagePrice + s.opening * f.price)
      else (abs p.quantity * p.averagePrice + s.opening * f.price) / abs s.after
    else p.averagePrice) = averageAfter p s f
  unfold averageAfter
  cases hflat : s.after == nat 0 with
  | true => rfl
  | false =>
    have hne : abs s.after ≠ finite 0 := by
      cases hafter : s.after with
      | finite q => simpa [hafter, abs_finite] using hflat
      | infinite negative => nofun
      | nan => nofun
    rw [if_neg hne]

theorem closePart_quotients (l : Ledger Extended) (s : Split Extended) (f : Fill Extended) :
    @closePart Extended (quotients zeroth) l s f = l.closePart s f := by
  unfold closePart
  rw [OpenTrade.close_quotients]
  rfl

theorem apply_quotients : @apply Extended (quotients zeroth) = apply := by
  funext l f
  by_cases hdust : abs f.quantity < dust
  · rw [apply_of_dust hdust]
    exact if_pos hdust
  · have hsplit : @splitOf Extended (quotients zeroth) l f = l.splitOf f := split_quotients hdust
    rw [apply_of_not_dust hdust]
    refine (@apply_of_not_dust Extended (quotients zeroth) l f hdust).trans ?_
    rw [hsplit, closePart_quotients, averageAfter_quotients]
    rfl

end Ledger

namespace Simulation

variable {s : Setup Extended} {c : Costs ℚ} {past rest : List (Bar Extended)} {bar : Bar Extended}
  {signal : Signal Extended}

/-- Under valid costs a target is divided by what a unit costs or brings at a positive opening. -/
theorem targetQuantity_exact_quotients (hc : c.Valid) (p : Portfolio Extended) {opening : Extended}
    (weight : Extended) (h : Order.isTradable opening = true) :
    @Order.targetQuantity Extended (quotients zeroth) c.exact p opening weight =
      Order.targetQuantity c.exact p opening weight := by
  obtain ⟨hfinite, hpos⟩ := Bool.and_eq_true_iff.1 h
  obtain ⟨q, rfl⟩ := Extended.isFinite_iff.1 hfinite
  have hq : 0 < q := by simpa using hpos
  apply Order.targetQuantity_quotients
  · have hcost := (Order.buyCost_pos hc hq).ne'
    rw [Order.buyPrice_exact]
    simpa [Costs.exact] using hcost
  · rw [Order.sellPrice_exact]
    simpa using (Order.sellPrice_pos hc hq).ne'

theorem carryOut_quotients :
    @Account.carryOut Extended (quotients zeroth) = Account.carryOut := by
  funext a refused o
  cases o with
  | unchanged => rfl
  | noOpening => rfl
  | filled f =>
    unfold Account.carryOut
    rw [Ledger.apply_quotients]
    rfl

theorem execute_quotients (hs : s.costs = c.exact) (hc : c.Valid) (hpast : past ≠ [])
    (a : Account Extended) :
    @execute Extended (quotients zeroth) s (.ofSeries past) signal bar a =
      execute s (.ofSeries past) signal bar a := by
  obtain ⟨signalBar, hlast⟩ := Option.ne_none_iff_exists'.1 (mt List.getLast?_eq_none_iff.1 hpast)
  cases hweight : signal.weight? with
  | none =>
    rw [execute_of_no_weight hweight]
    exact @execute_of_no_weight Extended (quotients zeroth) s bar a signal (.ofSeries past) hweight
  | some requested =>
    have horder : @orderAt Extended (quotients zeroth) s past signal requested signalBar bar a =
        orderAt s past signal requested signalBar bar a :=
      Order.outcome_quotients fun h => hs ▸ targetQuantity_exact_quotients hc _ _ h
    rw [execute_eq hweight hlast]
    refine (@execute_eq Extended (quotients zeroth) _ _ _ _ _ _ _ hweight hlast).trans ?_
    rw [horder, carryOut_quotients]
    rfl

theorem step_quotients (hs : s.costs = c.exact) (hc : c.Valid) (a : Account Extended) :
    @step Extended (quotients zeroth) s (.ofSeries past) bar a = step s (.ofSeries past) bar a := by
  by_cases hpast : past = []
  · subst hpast
    rfl
  · change (if (History.ofSeries past).isEmpty = true then .ok (close bar a)
      else (signalAt s (.ofSeries past)).bind fun signal =>
        (@execute Extended (quotients zeroth) s (.ofSeries past) signal bar a).map (close bar)) = _
    unfold step
    cases signalAt s (.ofSeries past) with
    | error e => rfl
    | ok signal =>
      simp only [Except.bind]
      rw [execute_quotients hs hc hpast]

theorem play_quotients (hs : s.costs = c.exact) (hc : c.Valid) (a : Account Extended) :
    @play Extended (quotients zeroth) s (.ofSeries past) rest a =
      play s (.ofSeries past) rest a := by
  induction rest generalizing past a with
  | nil => rfl
  | cons bar rest ih =>
    refine (@play.eq_2 Extended (quotients zeroth) s _ a bar rest).trans ?_
    rw [step_quotients hs hc, play]
    cases step s (.ofSeries past) bar a with
    | error e => rfl
    | ok mid =>
      simp only [History.ofSeries_push]
      exact ih mid

variable (bars : List (Bar Extended)) (start : ℕ) (strategy : Strategy Extended)
  (assigned : Parameter.Assignment Extended) (costs : Costs Extended)

/-- Preparing a run divides nothing, and refuses costs under which a run could divide by zero. -/
theorem runFrom_quotients :
    @runFrom Extended (quotients zeroth) bars start strategy assigned costs =
      runFrom bars start strategy assigned costs := by
  change ((prepare bars start strategy assigned costs).bind fun setup =>
    (@play Extended (quotients zeroth) setup (.ofSeries (bars.take start)) (bars.drop start)
      (.start costs.startingCash (((bars[start]?).map (·.time)).getD default))).bind fun account =>
        .ok (ofAccount setup.parameters start account)) = _
  unfold runFrom
  cases hprepare : prepare bars start strategy assigned costs with
  | error e => rfl
  | ok setup =>
    obtain ⟨hvalid, -, -, parameters, -, indicators, -, rfl⟩ := prepare_eq_ok_iff.1 hprepare
    obtain ⟨c, rfl, hc⟩ := Costs.exists_exact hvalid
    simp only [Except.bind]
    rw [play_quotients rfl hc]
    rfl

/-- Wherever a run under these costs divides, the divisor is not zero: on any arguments that it may
pass, each of the functions that divide comes to the same whatever a quotient by zero is. -/
structure DividesByNoZero (zeroth : Extended → Extended) (costs : Costs Extended) : Prop where
  target {opening : Extended} (h : Order.isTradable opening = true) (p : Portfolio Extended)
    (weight : Extended) :
    @Order.targetQuantity Extended (quotients zeroth) costs p opening weight =
      Order.targetQuantity costs p opening weight
  maxBuy (p : Portfolio Extended) (opening : Extended) :
    @Order.maxBuy Extended (quotients zeroth) costs p opening = Order.maxBuy costs p opening
  execute {s : Setup Extended} (hs : s.costs = costs) {past : List (Bar Extended)}
    (hpast : past ≠ []) (signal : Signal Extended) (bar : Bar Extended) (a : Account Extended) :
    @execute Extended (quotients zeroth) s (.ofSeries past) signal bar a =
      execute s (.ofSeries past) signal bar a
  split {quantity : Extended} (h : ¬abs quantity < Ledger.dust) (held : Extended) :
    @Ledger.split Extended (quotients zeroth) held quantity = Ledger.split held quantity
  averageAfter (p : Portfolio Extended) (s : Ledger.Split Extended) (f : Fill Extended) :
    @Ledger.averageAfter Extended (quotients zeroth) p s f = Ledger.averageAfter p s f
  apply (l : Ledger Extended) (f : Fill Extended) :
    @Ledger.apply Extended (quotients zeroth) l f = l.apply f
  close (o : OpenTrade Extended) (bar : ℕ) (time : Timestamp) :
    @OpenTrade.close Extended (quotients zeroth) o bar time = o.close bar time

variable {costs} in
theorem dividesByNoZero (zeroth : Extended → Extended) (h : costs.validate = .ok ()) :
    DividesByNoZero zeroth costs := by
  obtain ⟨c, rfl, hc⟩ := Costs.exists_exact h
  exact {
    target := fun h p weight => targetQuantity_exact_quotients hc p weight h
    maxBuy := fun _ _ => Order.maxBuy_quotients
    execute := fun hs _ hpast _ _ a => execute_quotients hs hc hpast a
    split := fun h _ => Ledger.split_quotients h
    averageAfter := Ledger.averageAfter_quotients
    apply := fun l f => congrFun₂ Ledger.apply_quotients l f
    close := fun o bar time => by rw [OpenTrade.close_quotients] }

/-- In exact arithmetic, whatever the bars, the strategy and its parameters: what a run reports is
finite in every number. Whether it reports or fails, the result depends on no quotient by zero; and
under costs that a run accepts, no part of it divides by zero. -/
theorem stays_finite :
    (∀ sim, runFrom bars start strategy assigned costs = .ok sim → sim.IsFinite) ∧
      ∀ zeroth : Extended → Extended,
        @runFrom Extended (quotients zeroth) bars start strategy assigned costs =
          runFrom bars start strategy assigned costs ∧
        (costs.validate = .ok () → DividesByNoZero zeroth costs) := by
  refine ⟨fun sim h => ?_, fun zeroth => ⟨runFrom_quotients bars start strategy assigned costs,
    dividesByNoZero zeroth⟩⟩
  obtain ⟨setup, -, a, ha, rfl⟩ := runFrom_eq_ok_iff_accountAfter.1 h
  obtain ⟨c, b, rfl, hc, rfl⟩ := exists_rational_of_accountAfter ha
  exact isFinite_ofAccount _ _ _

def reversing : Strategy Extended where
  name := "reversing"
  decide history _ :=
    .ok (.target (if history.length % 2 = 1 then finite 2 else finite (-2)))

def lent : Costs Extended := ⟨finite 1000, finite (1 / 100), finite (1 / 50), nat 2, true⟩

def corrupt : List (Bar Extended) :=
  [{ Bar.still 2 (finite 100) with close := .nan }, .still 3 (finite 110),
    { Bar.still 4 (finite 0) with close := .infinite false, volume := .nan },
    { Bar.still 5 (finite 90) with close := finite (-10) },
    { Bar.still 8 .nan with high := finite 1, low := finite 2 },
    { Bar.still 9 (finite 120) with close := .infinite true }, .still 10 (finite 70)]

theorem stays_finite_corrupt :
    lent.validate = .ok () ∧
      ∃ sim, runFrom corrupt 0 reversing .empty lent = .ok sim ∧ sim.equity.length = 8 ∧
        sim.trades.length = 1 ∧ sim.IsFinite ∧
        @runFrom Extended (quotients fun _ => .nan) corrupt 0 reversing .empty lent = .ok sim ∧
        DividesByNoZero (fun _ => .nan) lent := by
  have hvalid : lent.validate = .ok () :=
    Costs.validate_eq_ok_iff.2 (by decide +kernel)
  have hcounts : (runFrom corrupt 0 reversing .empty lent).toOption.map
      (fun sim => (sim.equity.length, sim.trades.length)) = some (8, 1) := by
    decide +kernel
  obtain ⟨sim, hsim, hcounts⟩ := Option.map_eq_some_iff.1 hcounts
  simp only [Prod.mk.injEq] at hcounts
  have hrun := toOption_eq_some_iff.1 hsim
  obtain ⟨hfinite, hdivides⟩ := stays_finite corrupt 0 reversing .empty lent
  obtain ⟨hsame, hnone⟩ := hdivides fun _ => .nan
  exact ⟨hvalid, sim, hrun, hcounts.1, hcounts.2, hfinite sim hrun, hsame.trans hrun, hnone hvalid⟩

end Simulation

end Backtest
