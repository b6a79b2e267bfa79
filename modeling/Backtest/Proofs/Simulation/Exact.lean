import Backtest.Proofs.Account.Exact
import Backtest.Proofs.Simulation.Inversion

/-!
# Rational runs

Under costs that a run accepts, sizing an order divides by no zero, so on exact numbers an account
that is rational stays rational, whatever the strategy asks for and whatever the bars hold. Each
bar then does one of two things to it: it books the fill that the same order comes to in rational
arithmetic, or none; and it marks the account at the last close that is a number.
-/

namespace Backtest

open Extended Scalar

/-! ## Costs -/

namespace Costs

def exact (c : Costs ℚ) : Costs Extended where
  startingCash := finite c.startingCash
  commissionRate := finite c.commissionRate
  slippageRate := finite c.slippageRate
  maxLeverage := finite c.maxLeverage
  allowShort := c.allowShort

structure Valid (c : Costs ℚ) : Prop where
  startingCash_nonneg : 0 ≤ c.startingCash
  commissionRate_nonneg : 0 ≤ c.commissionRate
  commissionRate_lt_one : c.commissionRate < 1
  slippageRate_nonneg : 0 ≤ c.slippageRate
  slippageRate_lt_one : c.slippageRate < 1
  maxLeverage_nonneg : 0 ≤ c.maxLeverage

theorem validate_eq_ok_iff {α : Type} [Scalar α] {c : Costs α} :
    c.validate = .ok () ↔
      (isFinite c.startingCash = true ∧ ¬c.startingCash < nat 0) ∧ isRate c.commissionRate = true ∧
        isRate c.slippageRate = true ∧ isFinite c.maxLeverage = true ∧ ¬c.maxLeverage < nat 0 := by
  unfold validate
  by_cases hcash : isFinite c.startingCash = true ∧ ¬c.startingCash < nat 0
  · by_cases hleverage : isFinite c.maxLeverage = true ∧ ¬c.maxLeverage < nat 0
    · cases isRate c.commissionRate <;> cases isRate c.slippageRate <;> simp [hcash, hleverage]
    · have hbad : (!isFinite c.maxLeverage || decide (c.maxLeverage < nat 0)) = true := by
        simpa [or_iff_not_imp_left] using hleverage
      cases isRate c.commissionRate <;> cases isRate c.slippageRate <;>
        simp [hcash, hleverage, hbad]
  · have hbad : (!isFinite c.startingCash || decide (c.startingCash < nat 0)) = true := by
      simpa [or_iff_not_imp_left] using hcash
    simp [hcash, hbad]

theorem isRate_iff {x : Extended} :
    isRate x = true ↔ ∃ r : ℚ, x = finite r ∧ 0 ≤ r ∧ r < 1 := by
  cases x with
  | finite r => simp [isRate]
  | infinite negative =>
    cases negative
    · exact ⟨nofun, fun ⟨_, h, _⟩ => nomatch h⟩
    · exact ⟨nofun, fun ⟨_, h, _⟩ => nomatch h⟩
  | nan => exact ⟨nofun, fun ⟨_, h, _⟩ => nomatch h⟩

theorem exists_exact {c : Costs Extended} (h : c.validate = .ok ()) :
    ∃ q : Costs ℚ, c = q.exact ∧ q.Valid := by
  obtain ⟨⟨hcash, hcash0⟩, hcommission, hslippage, hleverage, hleverage0⟩ :=
    validate_eq_ok_iff.1 h
  obtain ⟨cash, commission, slippage, leverage, short⟩ := c
  obtain ⟨cash, rfl⟩ := Extended.isFinite_iff.1 hcash
  obtain ⟨commission, rfl, hcommission0, hcommission1⟩ := isRate_iff.1 hcommission
  obtain ⟨slippage, rfl, hslippage0, hslippage1⟩ := isRate_iff.1 hslippage
  obtain ⟨leverage, rfl⟩ := Extended.isFinite_iff.1 hleverage
  refine ⟨⟨cash, commission, slippage, leverage, short⟩, rfl, ?_, hcommission0, hcommission1,
    hslippage0, hslippage1, ?_⟩
  · simpa using hcash0
  · simpa using hleverage0

end Costs

theorem Portfolio.equityAt_exact (p : Portfolio ℚ) (price : ℚ) :
    p.exact.equityAt (finite price) = finite (p.equityAt price) := by
  simp [equityAt, marketValue, exact]

/-! ## Orders -/

namespace Order

variable {c : Costs ℚ} {p : Portfolio ℚ} {opening weight : ℚ}

theorem ofQuantity?_exact (x : ℚ) : Side.ofQuantity? (finite x) = Side.ofQuantity? x := by
  simp only [Side.ofQuantity?, nat_eq_finite, finite_lt]

theorem allowedWeight_exact (c : Costs ℚ) (requested : ℚ) :
    allowedWeight c.exact (finite requested) =
      (finite (allowedWeight c requested).1, (allowedWeight c requested).2) := by
  have hclamp : clamp (finite requested) (-c.exact.maxWeight) c.exact.maxWeight =
      finite (clamp requested (-c.maxWeight) c.maxWeight) := by
    simp [Costs.maxWeight, Costs.exact]
  simp only [allowedWeight, hclamp, nat_eq_finite, finite_lt]
  cases decide (clamp requested (-c.maxWeight) c.maxWeight < nat 0) <;>
    cases hshort : c.allowShort <;> simp [Costs.exact, hshort]

theorem isSettled_exact (discrete : Bool) (held weight : ℚ) :
    isSettled discrete (finite held) (finite weight) = isSettled discrete held weight := by
  simp [isSettled, ofQuantity?_exact]

theorem buyPrice_exact (c : Costs ℚ) (opening : ℚ) :
    buyPrice c.exact (finite opening) = finite (buyPrice c opening) := by
  simp [buyPrice, Costs.exact]

theorem sellPrice_exact (c : Costs ℚ) (opening : ℚ) :
    sellPrice c.exact (finite opening) = finite (sellPrice c opening) := by
  simp [sellPrice, Costs.exact]

/-- Cash that a purchase may use, with what may be borrowed against the position. -/
def headroom {α : Type} [Scalar α] (c : Costs α) (p : Portfolio α) (opening : α) : α :=
  p.cash * (nat 1 + c.maxLeverage) + c.maxLeverage * p.quantity * opening

/-- Headroom that each unit bought takes up. -/
def headroomPerUnit {α : Type} [Scalar α] (c : Costs α) (opening : α) : α :=
  buyPrice c opening * (nat 1 + c.commissionRate) * (nat 1 + c.maxLeverage) -
    c.maxLeverage * opening

theorem maxBuy_eq {α : Type} [Scalar α] (c : Costs α) (p : Portfolio α) (opening : α) :
    maxBuy c p opening =
      if headroom c p opening ≤ nat 0 || headroomPerUnit c opening ≤ nat 0 then nat 0
      else headroom c p opening / headroomPerUnit c opening := rfl

theorem headroom_exact (c : Costs ℚ) (p : Portfolio ℚ) (opening : ℚ) :
    headroom c.exact p.exact (finite opening) = finite (headroom c p opening) := by
  simp [headroom, Costs.exact, Portfolio.exact]

theorem headroomPerUnit_exact (c : Costs ℚ) (opening : ℚ) :
    headroomPerUnit c.exact (finite opening) = finite (headroomPerUnit c opening) := by
  simp [headroomPerUnit, buyPrice, Costs.exact]

theorem maxBuy_exact (c : Costs ℚ) (p : Portfolio ℚ) (opening : ℚ) :
    maxBuy c.exact p.exact (finite opening) = finite (maxBuy c p opening) := by
  rw [maxBuy_eq, maxBuy_eq, headroom_exact, headroomPerUnit_exact, nat_eq_finite]
  simp only [finite_le]
  by_cases h : headroomPerUnit c opening ≤ 0
  · simp [h]
  · -- only here is anything divided, and by no zero
    have hne : headroomPerUnit c opening ≠ 0 := (not_le.1 h).ne'
    rw [finite_div hne, apply_ite finite]

/-! ## Fills -/

variable (hc : c.Valid) (hopening : 0 < opening)

include hc hopening in
theorem buyCost_pos : 0 < buyPrice c opening * (1 + c.commissionRate) := by
  have := hc.slippageRate_nonneg
  have := hc.commissionRate_nonneg
  simp only [buyPrice, Rational.nat_eq, Nat.cast_one]
  positivity

include hc hopening in
theorem sellPrice_pos : 0 < sellPrice c opening := by
  have := sub_pos.2 hc.slippageRate_lt_one
  simp only [sellPrice, Rational.nat_eq, Nat.cast_one]
  positivity

include hc hopening in
theorem targetQuantity_exact (p : Portfolio ℚ) (weight : ℚ) :
    targetQuantity c.exact p.exact (finite opening) (finite weight) =
      finite (targetQuantity c p opening weight) := by
  have hcost : buyPrice c.exact (finite opening) * (nat 1 + c.exact.commissionRate) =
      finite (buyPrice c opening * (nat 1 + c.commissionRate)) := by
    rw [buyPrice_exact]
    simp [Costs.exact]
  have hbuy : buyPrice c opening * (nat 1 + c.commissionRate) ≠ 0 :=
    (buyCost_pos hc hopening).ne'
  have hsell : sellPrice c opening ≠ 0 := (sellPrice_pos hc hopening).ne'
  rw [targetQuantity, targetQuantity, Portfolio.equityAt_exact, hcost, sellPrice_exact,
    finite_mul, finite_div hbuy, finite_div hsell, nat_eq_finite, finite_beq]
  simp only [finite_le, finite_lt, apply_ite finite]
  rfl

include hc hopening in
theorem quantity_exact (p : Portfolio ℚ) (weight : ℚ) :
    quantity c.exact p.exact (finite opening) (finite weight) =
      finite (quantity c p opening weight) := by
  have hdifference : targetQuantity c.exact p.exact (finite opening) (finite weight) -
      p.exact.quantity = finite (targetQuantity c p opening weight - p.quantity) := by
    rw [targetQuantity_exact hc hopening, Portfolio.exact, finite_sub]
  rw [quantity, quantity, hdifference, maxBuy_exact, smaller_finite, nat_eq_finite]
  simp only [finite_lt, apply_ite finite]

theorem isTradable_exact (opening : ℚ) : isTradable (finite opening) = isTradable opening := by
  simp [isTradable]

def openingBar (time : Timestamp) (opening : ℚ) : Bar ℚ :=
  ⟨time, opening, opening, opening, opening, 0⟩

def Outcome.exact : Outcome ℚ → Outcome Extended
  | .unchanged => .unchanged
  | .noOpening => .noOpening
  | .filled f => .filled f.exact

include hc hopening in
theorem fillFor_exact (p : Portfolio ℚ) (weight : ℚ) (signalTime : Timestamp) (n : ℕ)
    {bar : Bar Extended} (hbar : bar.openPrice = finite opening) :
    fillFor c.exact p.exact (finite weight) signalTime n bar =
      (fillFor c p weight signalTime n (openingBar bar.time opening)).exact := by
  unfold fillFor
  simp only [hbar, openingBar, quantity_exact hc hopening, abs_finite, Ledger.dust_exact, finite_lt,
    nat_eq_finite, buyPrice_exact, sellPrice_exact, ← apply_ite finite]
  by_cases hdust : |quantity c p opening weight| < Ledger.dust
  · simp [hdust, Outcome.exact]
  · simp [hdust, Outcome.exact, Fill.exact, Costs.exact]

/-- At an opening that is a number, an order on exact numbers has the outcome that it has in
rational arithmetic. -/
theorem outcome_exact (hc : c.Valid) (p : Portfolio ℚ) (discrete : Bool) (weight : ℚ)
    (signalTime : Timestamp) (n : ℕ) {bar : Bar Extended} (hbar : bar.openPrice = finite opening) :
    outcome c.exact p.exact discrete (finite weight) signalTime n bar =
      (outcome c p discrete weight signalTime n (openingBar bar.time opening)).exact := by
  have hsettled : isSettled discrete p.exact.quantity (finite weight) =
      isSettled discrete p.quantity weight := isSettled_exact ..
  have hopenPrice : (openingBar bar.time opening).openPrice = opening := rfl
  unfold outcome
  rw [hsettled, hbar, isTradable_exact, hopenPrice]
  cases isSettled discrete p.quantity weight with
  | true => rfl
  | false =>
    cases htradable : isTradable opening with
    | false => rfl
    | true =>
      have hopening : 0 < opening := by simpa [isTradable] using htradable
      simpa using fillFor_exact hc hopening p weight signalTime n hbar

/-- Without an opening that is a number nothing is filled. -/
theorem outcome_of_not_isFinite {costs : Costs Extended} {portfolio : Portfolio Extended}
    {discrete : Bool} {requested : Extended} {signalTime : Timestamp} {n : ℕ} {bar : Bar Extended}
    (hbar : isFinite bar.openPrice = false) :
    outcome costs portfolio discrete requested signalTime n bar = .unchanged ∨
      outcome costs portfolio discrete requested signalTime n bar = .noOpening := by
  unfold outcome
  cases isSettled discrete portfolio.quantity requested <;> simp [isTradable, hbar]

end Order

/-! ## Accounts -/

theorem Ledger.snapCash_exact (l : Ledger ℚ) (tolerance : ℚ) :
    l.exact.snapCash (finite tolerance) = (l.snapCash tolerance).exact := by
  have hsnaps : (l.exact.portfolio.cash < nat 0 ∧ -finite tolerance < l.exact.portfolio.cash) ↔
      (l.portfolio.cash < nat 0 ∧ -tolerance < l.portfolio.cash) := by
    simp [exact, Portfolio.exact]
  unfold snapCash
  by_cases h : l.portfolio.cash < nat 0 ∧ -tolerance < l.portfolio.cash
  · simp only [Bool.and_eq_true, decide_eq_true_eq, if_pos h, if_pos (hsnaps.2 h)]
    rfl
  · simp only [Bool.and_eq_true, decide_eq_true_eq, if_neg h, if_neg (mt hsnaps.1 h)]

def EquityPoint.exact (p : EquityPoint ℚ) : EquityPoint Extended := ⟨p.time, finite p.equity⟩

namespace Simulation

variable {s : Setup Extended} {c : Costs ℚ} {past rest : List (Bar Extended)} {bar : Bar Extended}
  {signal : Signal Extended} {a : Account Extended} {b b' : Account ℚ}

def Account.exact (b : Account ℚ) : Account Extended where
  ledger := b.ledger.exact
  lastClose := b.lastClose.map finite
  rejectedSignals := b.rejectedSignals
  unfilledSignals := b.unfilledSignals
  points := b.points.map EquityPoint.exact

theorem carryOut_exact (b : Account ℚ) (refused : Bool) (o : Order.Outcome ℚ) :
    b.exact.carryOut refused o.exact = (b.carryOut refused o).exact := by
  cases o with
  | unchanged => rfl
  | noOpening => rfl
  | filled f =>
    have hledger : (b.exact.ledger.apply f.exact).snapCash cashTolerance =
        ((b.ledger.apply f).snapCash cashTolerance).exact := by
      rw [← Ledger.snapCash_exact, ← Ledger.apply_exact]
      rfl
    simp only [Account.carryOut, Order.Outcome.exact, hledger]
    rfl

def close? (bar : Bar Extended) : Option ℚ :=
  match bar.close with
  | .finite price => some price
  | _ => none

theorem close?_eq_some_iff {price : ℚ} : close? bar = some price ↔ bar.close = .finite price := by
  unfold close?
  cases bar.close <;> simp

def Account.mark (b : Account ℚ) (time : Timestamp) (close? : Option ℚ) : Account ℚ :=
  let lastClose := close?.or b.lastClose
  let ledger := b.ledger.mark (lastClose.getD b.ledger.portfolio.averagePrice)
  { b with ledger, lastClose, points := ⟨time, ledger.portfolio.equity⟩ :: b.points }

theorem Ledger.mark_exact (l : Ledger ℚ) (price : ℚ) :
    l.exact.mark (finite price) = (l.mark price).exact := by
  simp [Ledger.mark, Portfolio.mark, Portfolio.equityAt, Portfolio.marketValue, Ledger.exact,
    Portfolio.exact]

theorem close_exact (bar : Bar Extended) (b : Account ℚ) :
    close bar b.exact = (b.mark bar.time (close? bar)).exact := by
  have hlast : (if isFinite bar.close then some bar.close else b.exact.lastClose) =
      ((close? bar).or b.lastClose).map finite := by
    cases hclose : bar.close <;> simp [close?, hclose, isFinite, Account.exact]
  have hprice : (((close? bar).or b.lastClose).map finite).getD
      b.exact.ledger.portfolio.averagePrice =
        finite (((close? bar).or b.lastClose).getD b.ledger.portfolio.averagePrice) := by
    cases (close? bar).or b.lastClose <;> rfl
  have hledger := Ledger.mark_exact b.ledger
    (((close? bar).or b.lastClose).getD b.ledger.portfolio.averagePrice)
  simp only [close, hlast, hprice]
  simp only [Account.exact] at hledger ⊢
  rw [hledger]
  rfl

/-! ## Steps -/

/-- What executing a signal at the opening of a bar makes of a rational account. -/
inductive Executes (c : Costs ℚ) (past : List (Bar Extended)) (signal : Signal Extended)
    (bar : Bar Extended) (b : Account ℚ) : Account ℚ → Prop
  | held (h : signal.weight? = none) : Executes c past signal bar b b
  | unopened {refused : Bool} {outcome : Order.Outcome ℚ}
      (houtcome : outcome = .unchanged ∨ outcome = .noOpening)
      (hopening : isFinite bar.openPrice = false) :
      Executes c past signal bar b (b.carryOut refused outcome)
  | ordered {requested opening : ℚ} {signalBar : Bar Extended}
      (hweight : signal.weight? = some (.finite requested))
      (hlast : past.getLast? = some signalBar) (hopening : bar.openPrice = .finite opening) :
      Executes c past signal bar b
        (b.carryOut (Order.allowedWeight c requested).2
          (Order.outcome c b.ledger.portfolio signal.isDiscrete
            (Order.allowedWeight c requested).1 signalBar.time past.length
            (Order.openingBar bar.time opening)))

/-- The fill that an order at the opening of a bar comes to in rational arithmetic. -/
def FilledAt (c : Costs ℚ) (bar : Bar Extended) (p : Portfolio ℚ) (f : Fill ℚ) : Prop :=
  ∃ requested opening discrete signalTime n, bar.openPrice = .finite opening ∧
    Order.outcome c p discrete (Order.allowedWeight c requested).1 signalTime n
      (Order.openingBar bar.time opening) = .filled f

/-- Executing a signal books one fill or none, and marks nothing. -/
theorem Executes.books (h : Executes c past signal bar b b') :
    b'.lastClose = b.lastClose ∧ b'.points = b.points ∧
      (b'.ledger = b.ledger ∨
        ∃ f, FilledAt c bar b.ledger.portfolio f ∧
          b'.ledger = (b.ledger.apply f).snapCash cashTolerance) := by
  cases h with
  | held => exact ⟨rfl, rfl, .inl rfl⟩
  | unopened houtcome => rcases houtcome with rfl | rfl <;> exact ⟨rfl, rfl, .inl rfl⟩
  | @ordered requested opening signalBar _ _ hopening =>
    cases hf : Order.outcome c b.ledger.portfolio signal.isDiscrete
      (Order.allowedWeight c requested).1 signalBar.time past.length
      (Order.openingBar bar.time opening) with
    | unchanged => exact ⟨rfl, rfl, .inl rfl⟩
    | noOpening => exact ⟨rfl, rfl, .inl rfl⟩
    | filled f => exact ⟨rfl, rfl, .inr ⟨f, ⟨_, opening, _, _, _, hopening, hf⟩, rfl⟩⟩

theorem execute_exact (hs : s.costs = c.exact) (hc : c.Valid) (hpast : past ≠ [])
    (h : execute s (.ofSeries past) signal bar b.exact = .ok a) :
    ∃ b', a = b'.exact ∧ Executes c past signal bar b b' := by
  rcases execute_cases hpast h with ⟨hweight, rfl⟩ |
    ⟨requested, signalBar, hweight, hlast, hfinite, rfl⟩
  · exact ⟨b, rfl, .held hweight⟩
  · obtain ⟨requested, rfl⟩ := Extended.isFinite_iff.1 hfinite
    rw [orderAt, hs, Order.allowedWeight_exact]
    cases hopening : isFinite bar.openPrice with
    | true =>
      obtain ⟨opening, hopening⟩ := Extended.isFinite_iff.1 hopening
      have houtcome := Order.outcome_exact hc b.ledger.portfolio signal.isDiscrete
        (Order.allowedWeight c requested).1 signalBar.time past.length hopening
      exact ⟨_, (congrArg _ houtcome).trans (carryOut_exact ..),
        .ordered hweight hlast hopening⟩
    | false =>
      rcases Order.outcome_of_not_isFinite hopening with houtcome | houtcome
      · refine ⟨b.carryOut (Order.allowedWeight c requested).2 .unchanged, ?_,
          .unopened (.inl rfl) hopening⟩
        rw [houtcome]
        rfl
      · refine ⟨b.carryOut (Order.allowedWeight c requested).2 .noOpening, ?_,
          .unopened (.inr rfl) hopening⟩
        rw [houtcome]
        rfl

/-- What meeting a bar makes of a rational account. -/
inductive Meets (s : Setup Extended) (c : Costs ℚ) (past : List (Bar Extended))
    (bar : Bar Extended) (b : Account ℚ) : Account ℚ → Prop
  | first (hpast : past = []) : Meets s c past bar b (b.mark bar.time (close? bar))
  | next {signal : Signal Extended} {mid : Account ℚ} (hpast : past ≠ [])
      (hsignal : signalAt s (.ofSeries past) = .ok signal)
      (hmid : Executes c past signal bar b mid) :
      Meets s c past bar b (mid.mark bar.time (close? bar))

theorem step_exact (hs : s.costs = c.exact) (hc : c.Valid)
    (h : step s (.ofSeries past) bar b.exact = .ok a) :
    ∃ b', a = b'.exact ∧ Meets s c past bar b b' := by
  rcases step_eq_ok_iff.1 h with ⟨hpast, rfl⟩ | ⟨hpast, signal, hsignal, mid, hmid, rfl⟩
  · exact ⟨_, close_exact bar b, .first hpast⟩
  · obtain ⟨mid, rfl, hexecutes⟩ := execute_exact hs hc hpast hmid
    exact ⟨_, close_exact bar mid, .next hpast hsignal hexecutes⟩

/-! ## Runs -/

/-- What holds of a rational account before some bars and is kept by meeting each of them holds
after them, and the account then is rational still. -/
theorem play_exact_induction {P : List (Bar Extended) → Account ℚ → Prop}
    (hs : s.costs = c.exact) (hc : c.Valid)
    (hstep : ∀ past bar b b', bar ∈ rest → P past b → Meets s c past bar b b' →
      P (past ++ [bar]) b')
    (h : play s (.ofSeries past) rest b.exact = .ok a) (hb : P past b) :
    ∃ b', a = b'.exact ∧ P (past ++ rest) b' := by
  induction rest generalizing past b with
  | nil =>
    cases h
    exact ⟨b, rfl, by simpa using hb⟩
  | cons bar rest ih =>
    obtain ⟨mid, hmid, hrest⟩ := play_cons.1 h
    obtain ⟨mid, rfl, hmeets⟩ := step_exact hs hc hmid
    simpa using ih (fun past bar b b' hbar => hstep past bar b b' (List.mem_cons_of_mem _ hbar))
      hrest (hstep past bar b mid List.mem_cons_self hb hmeets)

variable {bars : List (Bar Extended)} {start k : ℕ} {strategy : Strategy Extended}
  {assigned : Parameter.Assignment Extended} {costs : Costs Extended}

theorem exists_exact_of_accountAfter
    (h : accountAfter bars start strategy assigned costs k = .ok a) :
    ∃ c : Costs ℚ, costs = c.exact ∧ c.Valid := by
  obtain ⟨setup, hprepare, -⟩ := accountAfter_eq_ok_iff.1 h
  exact Costs.exists_exact (prepare_eq_ok_iff.1 hprepare).1

/-- What holds of the account at the start and is kept by meeting each traded bar holds of every
account that a run goes through, and these accounts are rational. -/
theorem accountAfter_induction {P : List (Bar Extended) → Account ℚ → Prop} (hc : c.Valid)
    (hstart : ∀ time, P (bars.take start) (.start c.startingCash time))
    (hstep : ∀ s : Setup Extended, s.costs = c.exact → ∀ past bar b b', bar ∈ bars.drop start →
      P past b → Meets s c past bar b b' → P (past ++ [bar]) b')
    (h : accountAfter bars start strategy assigned c.exact k = .ok a) :
    ∃ b, a = b.exact ∧ P (bars.take (start + k)) b := by
  obtain ⟨setup, hprepare, hplay⟩ := accountAfter_eq_ok_iff.1 h
  obtain ⟨-, -, -, parameters, -, indicators, -, rfl⟩ := prepare_eq_ok_iff.1 hprepare
  rw [List.take_add]
  exact play_exact_induction (b := .start c.startingCash _) rfl hc
    (fun past bar b b' hbar => hstep _ rfl past bar b b' (List.mem_of_mem_take hbar)) hplay
    (hstart _)

/-- Every account that a run goes through is rational, and so are the costs. -/
theorem exists_rational_of_accountAfter
    (h : accountAfter bars start strategy assigned costs k = .ok a) :
    ∃ (c : Costs ℚ) (b : Account ℚ), costs = c.exact ∧ c.Valid ∧ a = b.exact := by
  obtain ⟨c, rfl, hc⟩ := exists_exact_of_accountAfter h
  obtain ⟨b, hb, -⟩ := accountAfter_induction (P := fun _ _ => True) hc (fun _ => trivial)
    (fun _ _ _ _ _ _ _ _ _ => trivial) h
  exact ⟨c, b, rfl, hc, hb⟩

end Simulation

end Backtest
