import Backtest.Proofs.Account.Reconciliation
import Backtest.Proofs.Market.Order
import Backtest.Proofs.Simulation.Sizing

/-!
# Solvency of an account that may not borrow

In exact arithmetic, an account that may not borrow never runs out of cash: a purchase is cut to
what cash can pay, costs included, and a sale only adds to it. If it may not go short either, it
holds no negative quantity, and then its equity is not negative unless a price it is marked at is.
-/

namespace Backtest

open Extended Scalar

namespace Ledger

variable {l : Ledger ℚ} {f : Fill ℚ}

theorem snapCash_of_nonneg (h : 0 ≤ l.portfolio.cash) (tolerance : ℚ) :
    l.snapCash tolerance = l := by
  unfold snapCash
  rw [if_neg]
  simp [not_lt.2 h]

theorem split_after_nonneg {held quantity : ℚ} (h : 0 ≤ held + quantity) :
    0 ≤ (split held quantity).after := by
  rw [split_after]
  split
  · simp
  · exact h

/-- An average of prices that are not negative is not negative. -/
theorem averageAfter_nonneg (haverage : 0 ≤ l.portfolio.averagePrice) (hprice : 0 ≤ f.price) :
    0 ≤ averageAfter l.portfolio (l.splitOf f) f := by
  have hopening : 0 ≤ (l.splitOf f).opening := sub_nonneg.2 (closing_le ..)
  unfold averageAfter
  split
  · simp
  · split
    · exact hprice
    · split
      · simp only [Rational.abs_eq]
        positivity
      · exact haverage

end Ledger

namespace Order

variable {c : Costs ℚ} {p : Portfolio ℚ} {weight : ℚ} {discrete : Bool} {signalTime : Timestamp}
  {n : ℕ} {bar : Bar ℚ} {f : Fill ℚ}

/-- A fill of an account that may not borrow costs no more than its cash. -/
theorem cash_nonneg_of_filled (hc : c.Valid) (hleverage : c.maxLeverage = 0) (hcash : 0 ≤ p.cash)
    (h : outcome c p discrete weight signalTime n bar = .filled f) :
    0 ≤ p.cash - (f.quantity * f.price + f.commission) := by
  obtain ⟨-, -, hquantity, hcommission, hprice, hbuy⟩ := filled_cases hc h
  rw [hcommission]
  by_cases hpos : 0 < f.quantity
  · -- without leverage the headroom is the cash, and a unit takes up its price and commission
    have hroom := quantity_mul_le_headroom (hquantity ▸ hpos)
    rw [← hquantity] at hroom
    simp only [headroom, headroomPerUnit, hleverage, ← hbuy hpos, Rational.nat_eq, Nat.cast_one]
      at hroom
    rw [abs_of_pos hpos]
    linarith
  · have hrate : 0 ≤ 1 - c.commissionRate := sub_nonneg.2 hc.commissionRate_lt_one.le
    have hproceeds : 0 ≤ -f.quantity * f.price * (1 - c.commissionRate) :=
      mul_nonneg (mul_nonneg (neg_nonneg.2 (not_lt.1 hpos)) hprice.le) hrate
    rw [abs_of_nonpos (not_lt.1 hpos)]
    linarith

end Order

namespace Simulation

variable {c : Costs ℚ} {s : Setup Extended} {past : List (Bar Extended)} {bar : Bar Extended}
  {signal : Signal Extended} {b b' : Account ℚ}

/-- A portfolio that owes nothing; if it may not be short, it is not. -/
structure Solvent (c : Costs ℚ) (p : Portfolio ℚ) : Prop where
  cash_nonneg : 0 ≤ p.cash
  averagePrice_nonneg : 0 ≤ p.averagePrice
  quantity_nonneg : c.allowShort = false → 0 ≤ p.quantity

structure MarkedUp (b : Account ℚ) : Prop where
  lastClose_nonneg : ∀ price, b.lastClose = some price → 0 ≤ price
  points_nonneg : ∀ point ∈ b.points, 0 ≤ point.equity

theorem solvent_start (hc : c.Valid) (time : Timestamp) :
    Solvent c (Account.start c.startingCash time).ledger.portfolio where
  cash_nonneg := hc.startingCash_nonneg
  averagePrice_nonneg := le_rfl
  quantity_nonneg _ := le_rfl

theorem markedUp_start (hc : c.Valid) (time : Timestamp) :
    MarkedUp (.start c.startingCash time) where
  lastClose_nonneg := nofun
  points_nonneg point h := by
    rw [List.mem_singleton.1 h]
    exact hc.startingCash_nonneg

/-- Booking the fill of an order keeps a portfolio solvent. -/
theorem Solvent.apply {l : Ledger ℚ} {f : Fill ℚ} (hc : c.Valid) (hleverage : c.maxLeverage = 0)
    (h : Solvent c l.portfolio) (hf : FilledAt c bar l.portfolio f) :
    Solvent c (l.apply f).portfolio := by
  obtain ⟨requested, opening, discrete, signalTime, n, -, hf⟩ := hf
  obtain ⟨hopening, hdust, hquantity, -, hprice, -⟩ := Order.filled_cases hc hf
  rw [Ledger.apply_of_not_dust hdust]
  refine ⟨Order.cash_nonneg_of_filled hc hleverage h.cash_nonneg hf,
    Ledger.averageAfter_nonneg h.averagePrice_nonneg hprice.le, fun hshort => ?_⟩
  apply Ledger.split_after_nonneg
  rw [hquantity]
  exact Order.quantity_add_nonneg hc hopening (Order.allowedWeight_nonneg hshort)
    (h.quantity_nonneg hshort)

theorem Solvent.executes (hc : c.Valid) (hleverage : c.maxLeverage = 0)
    (h : Solvent c b.ledger.portfolio) (hb : Executes c past signal bar b b') :
    Solvent c b'.ledger.portfolio := by
  obtain ⟨-, -, hsame | ⟨f, hf, hbooked⟩⟩ := hb.books
  · rwa [hsame]
  · have hsolvent := h.apply hc hleverage hf
    rwa [hbooked, Ledger.snapCash_of_nonneg hsolvent.cash_nonneg]

theorem Solvent.mark (h : Solvent c b.ledger.portfolio) (time : Timestamp) (close? : Option ℚ) :
    Solvent c (b.mark time close?).ledger.portfolio :=
  ⟨h.cash_nonneg, h.averagePrice_nonneg, h.quantity_nonneg⟩

theorem Solvent.meets (hc : c.Valid) (hleverage : c.maxLeverage = 0)
    (h : Solvent c b.ledger.portfolio) (hb : Meets s c past bar b b') :
    Solvent c b'.ledger.portfolio := by
  cases hb with
  | first => exact h.mark ..
  | next _ _ hmid => exact (h.executes hc hleverage hmid).mark ..

theorem MarkedUp.executes (h : MarkedUp b) (hb : Executes c past signal bar b b') :
    MarkedUp b' := by
  obtain ⟨hlastClose, hpoints, -⟩ := hb.books
  constructor
  · rw [hlastClose]
    exact h.lastClose_nonneg
  · rw [hpoints]
    exact h.points_nonneg

/-- Marking a solvent account that is not short at a price that is not negative. -/
theorem MarkedUp.mark (h : MarkedUp b) (hb : Solvent c b.ledger.portfolio)
    (hshort : c.allowShort = false) (time : Timestamp) {close? : Option ℚ}
    (hclose : ∀ price, close? = some price → 0 ≤ price) : MarkedUp (b.mark time close?) := by
  have hlast : ∀ price, close?.or b.lastClose = some price → 0 ≤ price := by
    intro price hprice
    rcases Option.or_eq_some_iff.1 hprice with hnow | ⟨-, hbefore⟩
    · exact hclose price hnow
    · exact h.lastClose_nonneg price hbefore
  have hprice : 0 ≤ (close?.or b.lastClose).getD b.ledger.portfolio.averagePrice := by
    cases hor : close?.or b.lastClose with
    | none => exact hb.averagePrice_nonneg
    | some price => exact hlast price hor
  refine ⟨hlast, fun point hpoint => ?_⟩
  rcases List.mem_cons.1 hpoint with rfl | hbefore
  · exact add_nonneg hb.cash_nonneg (mul_nonneg (hb.quantity_nonneg hshort) hprice)
  · exact h.points_nonneg point hbefore

theorem MarkedUp.meets (hc : c.Valid) (hleverage : c.maxLeverage = 0)
    (hshort : c.allowShort = false) (hclose : ∀ price, close? bar = some price → 0 ≤ price)
    (h : MarkedUp b) (hs : Solvent c b.ledger.portfolio) (hb : Meets s c past bar b b') :
    MarkedUp b' := by
  cases hb with
  | first => exact h.mark hs hshort _ hclose
  | next _ _ hmid =>
    exact (h.executes hmid).mark (hs.executes hc hleverage hmid) hshort _ hclose

variable {bars : List (Bar Extended)} {start k : ℕ} {strategy : Strategy Extended}
  {assigned : Parameter.Assignment Extended} {a : Account Extended}

/-- A run that may not borrow goes through solvent accounts and, if it may not go short and no
traded bar closes below zero, marks them at no negative price. -/
theorem accountAfter_solvent (hc : c.Valid) (hleverage : c.maxLeverage = 0)
    (h : accountAfter bars start strategy assigned c.exact k = .ok a) :
    ∃ b, a = b.exact ∧ Solvent c b.ledger.portfolio ∧
      (c.allowShort = false →
        (∀ bar ∈ bars.drop start, ∀ price, close? bar = some price → 0 ≤ price) → MarkedUp b) := by
  refine accountAfter_induction
    (P := fun _ b => Solvent c b.ledger.portfolio ∧
      (c.allowShort = false →
        (∀ bar ∈ bars.drop start, ∀ price, close? bar = some price → 0 ≤ price) → MarkedUp b))
    hc ?_ ?_ h
  · intro time
    exact ⟨solvent_start hc time, fun _ _ => markedUp_start hc time⟩
  · rintro s - past bar b b' hbar ⟨hsolvent, hmarked⟩ hmeets
    refine ⟨hsolvent.meets hc hleverage hmeets, fun hshort hcloses => ?_⟩
    exact (hmarked hshort hcloses).meets hc hleverage hshort (hcloses bar hbar) hsolvent hmeets

/-- In exact arithmetic, whatever the strategy, the bars and the costs, after any number of bars of
a run that may not borrow: cash is not negative; if the run may not go short either, the position is
not negative, and no point of the equity curve is if no traded bar closes below zero. What a
finished run reports is one of these accounts. -/
theorem stays_solvent (bars : List (Bar Extended)) (start : ℕ) (strategy : Strategy Extended)
    (assigned : Parameter.Assignment Extended) (costs : Costs Extended)
    (hleverage : costs.maxLeverage = nat 0) :
    (∀ k a, accountAfter bars start strategy assigned costs k = .ok a →
      nat 0 ≤ a.ledger.portfolio.cash ∧
        (costs.allowShort = false →
          nat 0 ≤ a.ledger.portfolio.quantity ∧
            ((∀ bar ∈ bars.drop start, isFinite bar.close = true → nat 0 ≤ bar.close) →
              ∀ point ∈ a.points, nat 0 ≤ point.equity))) ∧
    ∀ sim, runFrom bars start strategy assigned costs = .ok sim →
      ∃ k a, accountAfter bars start strategy assigned costs k = .ok a ∧
        sim.final = a.ledger.portfolio ∧ sim.equity = a.points.reverse := by
  constructor
  · intro k a h
    obtain ⟨c, rfl, hc⟩ := exists_exact_of_accountAfter h
    have hnone : c.maxLeverage = 0 := by simpa [Costs.exact] using hleverage
    obtain ⟨b, rfl, hsolvent, hmarked⟩ := accountAfter_solvent hc hnone h
    refine ⟨finite_le.2 hsolvent.cash_nonneg, fun hshort =>
      ⟨finite_le.2 (hsolvent.quantity_nonneg hshort), ?_⟩⟩
    intro hcloses point hpoint
    have hmarkedUp : MarkedUp b := hmarked hshort fun bar hbar price hprice => by
      have hclose := close?_eq_some_iff.1 hprice
      simpa [hclose] using hcloses bar hbar (by simp [hclose])
    obtain ⟨q, hq, rfl⟩ := List.mem_map.1 hpoint
    exact finite_le.2 (hmarkedUp.points_nonneg q hq)
  · intro sim h
    obtain ⟨setup, -, a, ha, rfl⟩ := runFrom_eq_ok_iff_accountAfter.1 h
    exact ⟨_, a, ha, rfl, rfl⟩

def swinging : Strategy Extended where
  name := "swinging"
  decide history _ :=
    .ok (match history.length % 3 with
      | 1 => .long
      | 2 => .target (.finite (1 / 2))
      | _ => .flat)

def gaps : List (Bar Extended) :=
  [.still 2 (.finite 100), .still 3 (.finite 110), .still 4 (.finite 40),
    { Bar.still 5 (.finite 50) with openPrice := .nan }, .still 8 (.finite 90),
    { Bar.still 9 (.finite 95) with close := .nan }]

theorem stays_solvent_gaps :
    (Costs.standard : Costs Extended).maxLeverage = nat 0 ∧
      ∃ a, accountAfter gaps 0 swinging .empty .standard 6 = .ok a ∧ a.points.length = 7 ∧
        nat 0 ≤ a.ledger.portfolio.cash ∧ nat 0 ≤ a.ledger.portfolio.quantity ∧
        ∀ point ∈ a.points, nat 0 ≤ point.equity := by
  have hcount : (accountAfter gaps 0 swinging .empty (.standard : Costs Extended)
      6).toOption.map (·.points.length) = some 7 := by
    decide +kernel
  obtain ⟨a, ha, hlength⟩ := Option.map_eq_some_iff.1 hcount
  have hrun := toOption_eq_some_iff.1 ha
  have hclose : ∀ bar ∈ gaps.drop 0, isFinite bar.close = true → nat 0 ≤ bar.close := by
    decide +kernel
  have hnone : (Costs.standard : Costs Extended).maxLeverage = nat 0 := rfl
  obtain ⟨hcash, hlong⟩ := (stays_solvent gaps 0 swinging .empty .standard hnone).1 6 a hrun
  exact ⟨hnone, a, hrun, hlength, hcash, (hlong rfl).1, (hlong rfl).2 hclose⟩

end Simulation

end Backtest
