import Backtest.Proofs.Account.Flatness
import Backtest.Proofs.Market.Order
import Backtest.Proofs.Scalar.Double
import Backtest.Proofs.Simulation.Exact
import Backtest.Proofs.Simulation.Log
import Backtest.Strategy.BuyAndHold

/-!
# Going flat

On doubles, the signal to go flat ends any position and its trade at the next opening, with one
exception: buying back a short position is a purchase, and a purchase is cut to what the borrowing
limit allows. Where the limit cuts it, as much as it allows is bought and the rest stays short.
-/

namespace Backtest

open Scalar Reading

variable {α : Type} [Scalar α]

namespace Order

/-- The borrowing limit allows to buy back less than a short position. -/
structure Limited (c : Costs α) (p : Portfolio α) (opening : α) : Prop where
  short : p.quantity < nat 0
  less : maxBuy c p opening < -p.quantity

/-- The borrowing limit leaves some of a short position: what it allows to buy back is too little to
be traded, or leaves more than dust. -/
structure Cut (c : Costs α) (p : Portfolio α) (opening : α) : Prop extends
    Limited c p opening where
  rest : abs (maxBuy c p opening) < Ledger.dust ∨
    ¬abs (p.quantity + maxBuy c p opening) < Ledger.dust

variable {c : Costs α} {p : Portfolio α} {opening : α}

variable [Reading α]

theorem quantity_zero_weight :
    quantity c p opening (nat 0) =
      if nat 0 < nat 0 - p.quantity then smaller (nat 0 - p.quantity) (maxBuy c p opening)
      else nat 0 - p.quantity := by
  simp only [quantity, targetQuantity, Ledger.zero_beq_zero, Bool.or_true, if_true]

/-- Without a limit the order to go flat is the opposite of the position. -/
theorem quantity_of_not_limited (hq : isFinite p.quantity = true)
    (h : ¬Limited c p opening) :
    isFinite (quantity c p opening (nat 0)) = true ∧
      value (quantity c p opening (nat 0)) = -value p.quantity := by
  obtain ⟨hnum, r, hr⟩ := isFinite_iff.1 hq
  obtain ⟨hfinite, hval⟩ := value_zero_sub hq
  have hrest := isNaN_of_isFinite hfinite
  rw [quantity_zero_weight]
  by_cases hbuy : nat 0 < nat 0 - p.quantity
  · rw [if_pos hbuy, smaller]
    by_cases hnan : isNaN (maxBuy c p opening) = true
    · rw [if_pos hnan]
      exact ⟨hfinite, hval⟩
    · rw [if_neg hnan]
      rw [Bool.not_eq_true] at hnan
      by_cases hlt : nat 0 - p.quantity < maxBuy c p opening
      · rw [if_pos hlt]
        exact ⟨hfinite, hval⟩
      · -- the limit is exactly what is needed
        rw [if_neg hlt]
        have hshort : p.quantity < nat 0 := by
          rwa [lt_zero_iff hnum, along, ← hval, ← value_zero (α := α), ← lt_iff isNaN_zero hrest]
        have hmax : value (maxBuy c p opening) = -value p.quantity := by
          refine le_antisymm ?_ ?_
          · rwa [lt_iff hrest hnan, not_lt, hval] at hlt
          · rw [← value_neg, ← not_lt, ← lt_iff hnan (by rw [isNaN_neg, hnum])]
            exact fun hless => h ⟨hshort, hless⟩
        refine ⟨isFinite_iff.2 ⟨hnan, -r, ?_⟩, hmax⟩
        rw [hmax, hr, EReal.coe_neg]
  · rw [if_neg hbuy]
    exact ⟨hfinite, hval⟩

variable [Saturating α]

/-- With a limit the order to go flat is what the limit allows. -/
theorem quantity_of_limited (hq : isFinite p.quantity = true) (h : Limited c p opening) :
    quantity c p opening (nat 0) = maxBuy c p opening := by
  obtain ⟨hnum, r, hr⟩ := isFinite_iff.1 hq
  obtain ⟨hfinite, hval⟩ := value_zero_sub hq
  have hrest := isNaN_of_isFinite hfinite
  have hmax := Saturating.isNaN_of_lt h.less
  have hbuy : nat 0 < nat 0 - p.quantity := by
    rw [lt_iff isNaN_zero hrest, value_zero, hval]
    exact (lt_zero_iff hnum).1 h.short
  have hless : ¬nat 0 - p.quantity < maxBuy c p opening := by
    have hlt := h.less
    rw [lt_iff hmax (by rw [isNaN_neg, hnum]), value_neg] at hlt
    rw [lt_iff hrest hmax, hval]
    exact hlt.not_gt
  rw [quantity_zero_weight, if_pos hbuy, smaller, hmax, if_neg Bool.false_ne_true, if_neg hless]

end Order

namespace Simulation

variable {s : Setup α} {past : List (Bar α)} {bar : Bar α} {signal : Signal α} {a a' : Account α}

/-- Executing a signal books one fill or none. -/
theorem execute_books (hpast : past ≠ []) (h : execute s (.ofSeries past) signal bar a = .ok a') :
    a'.ledger = a.ledger ∨ ∃ f, a'.ledger = (a.ledger.apply f).snapCash cashTolerance := by
  rcases execute_cases hpast h with ⟨-, rfl⟩ | ⟨requested, signalBar, -, -, -, rfl⟩
  · exact .inl rfl
  · cases orderAt s past signal requested signalBar bar a with
    | unchanged => exact .inl rfl
    | noOpening => exact .inl rfl
    | filled f => exact .inr ⟨f, rfl⟩

/-- Carrying out the order of a weight books nothing if it is for dust, else a fill of its
quantity. -/
theorem ledger_carryOut_fillFor (c : Costs α) (a : Account α) (refused : Bool) (weight : α)
    (signalTime : Timestamp) (n : ℕ) (bar : Bar α) :
    (abs (Order.quantity c a.ledger.portfolio bar.openPrice weight) < Ledger.dust ∧
      (a.carryOut refused (Order.fillFor c a.ledger.portfolio weight signalTime n bar)).ledger =
        a.ledger) ∨
    (¬abs (Order.quantity c a.ledger.portfolio bar.openPrice weight) < Ledger.dust ∧
      ∃ f, f.quantity = Order.quantity c a.ledger.portfolio bar.openPrice weight ∧
        (a.carryOut refused (Order.fillFor c a.ledger.portfolio weight signalTime n bar)).ledger =
          (a.ledger.apply f).snapCash cashTolerance) := by
  unfold Order.fillFor
  by_cases hdust : abs (Order.quantity c a.ledger.portfolio bar.openPrice weight) < Ledger.dust
  · rw [if_pos hdust]
    exact .inl ⟨hdust, rfl⟩
  · rw [if_neg hdust]
    exact .inr ⟨hdust, _, rfl, rfl⟩

/-- A signal that requests a finite weight has its order carried out. -/
theorem execute_of_weight {requested : α} {signalBar : Bar α}
    (hweight : signal.weight? = some requested) (hlast : past.getLast? = some signalBar)
    (hfinite : isFinite requested = true) :
    execute s (.ofSeries past) signal bar a =
      .ok (a.carryOut (Order.allowedWeight s.costs requested).2
        (orderAt s past signal requested signalBar bar a)) := by
  rw [execute_eq hweight hlast, if_pos hfinite]

/-! ## Runs -/

theorem Cleared.snapCash {l : Ledger α} (h : l.Cleared) (tolerance : α) :
    (l.snapCash tolerance).Cleared := by
  constructor
  · rw [Ledger.quantity_snapCash]
    exact h.no_dust
  · rw [Portfolio.isFlat, Ledger.quantity_snapCash, Ledger.openTrade_snapCash]
    exact h.no_trade

variable [Reading α]

section Saturating

variable [Saturating α]

theorem cleared_execute (h : a.ledger.Cleared) (hpast : past ≠ [])
    (hexecute : execute s (.ofSeries past) signal bar a = .ok a') : a'.ledger.Cleared := by
  rcases execute_books hpast hexecute with hsame | ⟨f, hf⟩
  · rwa [hsame]
  · rw [hf]
    exact Cleared.snapCash (h.apply f) _

theorem cleared_step (h : a.ledger.Cleared) (hstep : step s (.ofSeries past) bar a = .ok a') :
    a'.ledger.Cleared := by
  have hclose {mid : Account α} (h : mid.ledger.Cleared) : (close bar mid).ledger.Cleared :=
    ⟨h.no_dust, h.no_trade⟩
  rcases step_eq_ok_iff.1 hstep with ⟨-, rfl⟩ | ⟨hpast, signal, -, mid, hmid, rfl⟩
  · exact hclose h
  · exact hclose (cleared_execute h hpast hmid)

/-- A run goes through accounts without dust, and without a trade where there is no position. -/
theorem cleared_accountAfter {bars : List (Bar α)} {start k : ℕ} {strategy : Strategy α}
    {assigned : Parameter.Assignment α} {costs : Costs α}
    (h : accountAfter bars start strategy assigned costs k = .ok a) : a.ledger.Cleared := by
  obtain ⟨setup, -, hplay⟩ := accountAfter_eq_ok_iff.1 h
  exact play_induction (P := fun _ a => a.ledger.Cleared)
    (fun _ _ _ _ hcleared hstep => cleared_step hcleared hstep) hplay (Ledger.cleared_ofCash _)

end Saturating

/-! ## The signal to go flat -/

/-- Going flat at an opening that can be traded at, from a position. -/
theorem outcome_flat {c : Costs α} {p : Portfolio α} (hq : isNaN p.quantity = false)
    (hflat : p.isFlat = false) (hbar : Order.isTradable bar.openPrice = true)
    (signalTime : Timestamp) (n : ℕ) :
    Order.outcome c p true (nat 0) signalTime n bar =
      Order.fillFor c p (nat 0) signalTime n bar := by
  have hnone : Side.ofQuantity? (nat 0 : α) = none :=
    (ofQuantity?_eq_none_iff isNaN_zero).2 Ledger.zero_beq_zero
  have hsome : Side.ofQuantity? p.quantity ≠ none := by
    rw [Ne, ofQuantity?_eq_none_iff hq, ← Portfolio.isFlat, hflat]
    exact Bool.false_ne_true
  have hsettled : Order.isSettled true p.quantity (nat 0) = false := by
    rw [Portfolio.isFlat] at hflat
    simp [Order.isSettled, hnone, Option.ne_none_iff_isSome.1 hsome, hflat]
  rw [Order.outcome, hsettled, hbar]
  rfl

/-- From flat nothing happens. -/
theorem outcome_flat_of_isFlat {c : Costs α} {p : Portfolio α} (hflat : p.isFlat = true)
    (signalTime : Timestamp) (n : ℕ) :
    Order.outcome c p true (nat 0) signalTime n bar = .unchanged := by
  rw [Portfolio.isFlat] at hflat
  have hsettled : Order.isSettled true p.quantity (nat 0) = true := by
    simp [Order.isSettled, hflat, Ledger.zero_beq_zero]
  rw [Order.outcome, hsettled]
  rfl

section Saturating

variable [Saturating α] {c : Costs α} {signalTime : Timestamp} {n : ℕ}

/-- Where the borrowing limit does not matter, going flat leaves no position. -/
theorem isFlat_of_not_limited (ha : a.ledger.Cleared)
    (hq : isFinite a.ledger.portfolio.quantity = true)
    (hbar : Order.isTradable bar.openPrice = true)
    (hlimited : ¬Order.Limited c a.ledger.portfolio bar.openPrice) :
    (a.carryOut false (Order.outcome c a.ledger.portfolio true (nat 0) signalTime n
      bar)).ledger.portfolio.isFlat = true := by
  have hnum := isNaN_of_isFinite hq
  by_cases hflat : a.ledger.portfolio.isFlat = true
  · rw [outcome_flat_of_isFlat hflat]
    exact hflat
  · have hheld : ¬abs a.ledger.portfolio.quantity < Ledger.dust := mt ha.isFlat_iff.2 hflat
    obtain ⟨hfinite, hopposite⟩ := Order.quantity_of_not_limited hq hlimited
    rw [outcome_flat hnum (by simpa using hflat) hbar]
    rcases ledger_carryOut_fillFor c a false (nat 0) signalTime n bar with
      ⟨hdust, -⟩ | ⟨hdust, f, hf, hbooked⟩
    · -- the order is as large as the position, and that is no dust
      rw [lt_iff (isNaN_of_isFinite (isFinite_abs hfinite)) Ledger.isNaN_dust, value_abs, hopposite,
        neg_neg, max_comm, ← value_abs, ← lt_iff (by rw [isNaN_abs, hnum]) Ledger.isNaN_dust]
        at hdust
      exact absurd hdust hheld
    · obtain ⟨hsum, hzero⟩ := value_add_of_opposite hq hfinite hopposite
      rw [hbooked, Portfolio.isFlat, Ledger.quantity_snapCash, ← Portfolio.isFlat,
        Ledger.isFlat_apply_iff (by rwa [hf]), hf]
      exact Ledger.abs_lt_dust_of_value_eq_zero hsum hzero

/-- Where the borrowing limit allows to buy back less than was sold, that much is bought. -/
theorem quantity_of_limited (hq : isFinite a.ledger.portfolio.quantity = true)
    (hbar : Order.isTradable bar.openPrice = true)
    (hlimited : Order.Limited c a.ledger.portfolio bar.openPrice) :
    (a.carryOut false (Order.outcome c a.ledger.portfolio true (nat 0) signalTime n
      bar)).ledger.portfolio.quantity =
      if abs (Order.maxBuy c a.ledger.portfolio bar.openPrice) < Ledger.dust then
        a.ledger.portfolio.quantity
      else if abs (a.ledger.portfolio.quantity +
          Order.maxBuy c a.ledger.portfolio bar.openPrice) < Ledger.dust then nat 0
      else a.ledger.portfolio.quantity + Order.maxBuy c a.ledger.portfolio bar.openPrice := by
  have hnum := isNaN_of_isFinite hq
  have hflat : a.ledger.portfolio.isFlat = false := by
    rw [← Bool.not_eq_true, Portfolio.isFlat, beq_zero_iff hnum .short]
    exact ((lt_zero_iff hnum).1 hlimited.short).ne'
  have hquantity := Order.quantity_of_limited hq hlimited
  rw [outcome_flat hnum hflat hbar]
  rcases ledger_carryOut_fillFor c a false (nat 0) signalTime n bar with
    ⟨hdust, hsame⟩ | ⟨hdust, f, hf, hbooked⟩
  · rw [hquantity] at hdust
    rw [hsame, if_pos hdust]
  · rw [hbooked, Ledger.quantity_snapCash, Ledger.quantity_apply (by rwa [hf]), hf, hquantity]
    rw [hquantity] at hdust
    rw [if_neg hdust]

/-- Going flat leaves a position exactly if the borrowing limit cuts its purchase. -/
theorem isFlat_carryOut_flat_iff (ha : a.ledger.Cleared)
    (hq : isFinite a.ledger.portfolio.quantity = true)
    (hbar : Order.isTradable bar.openPrice = true) :
    (a.carryOut false (Order.outcome c a.ledger.portfolio true (nat 0) signalTime n
      bar)).ledger.portfolio.isFlat = true ↔ ¬Order.Cut c a.ledger.portfolio bar.openPrice := by
  by_cases hlimited : Order.Limited c a.ledger.portfolio bar.openPrice
  · have hshort : ¬(a.ledger.portfolio.quantity == nat 0) = true := by
      rw [beq_zero_iff (isNaN_of_isFinite hq) .short]
      exact ((lt_zero_iff (isNaN_of_isFinite hq)).1 hlimited.short).ne'
    rw [Portfolio.isFlat, quantity_of_limited hq hbar hlimited]
    split
    · exact iff_of_false hshort (not_not_intro ⟨hlimited, .inl ‹_›⟩)
    · split
      · exact iff_of_true Ledger.zero_beq_zero fun hcut => absurd hcut.rest (by simp [*])
      · exact iff_of_false (fun hzero => absurd (Ledger.abs_lt_dust_of_beq_zero hzero) ‹_›)
          (not_not_intro ⟨hlimited, .inr ‹_›⟩)
  · exact iff_of_true (isFlat_of_not_limited ha hq hbar hlimited) fun hcut =>
      hlimited hcut.toLimited

end Saturating

theorem allowedWeight_zero {c : Costs Float} (h : c.validate = .ok ()) :
    Order.allowedWeight c (nat 0) = (nat 0, false) := by
  obtain ⟨-, -, -, hfinite, hleverage⟩ := Costs.validate_eq_ok_iff.1 h
  have hone : isNaN (nat 1 : Float) = false := rfl
  have hone_nonneg : 0 ≤ along .long (nat 1 : Float) := by
    have hlt : ¬(nat 1 : Float) < nat 0 := by decide
    rwa [lt_iff hone isNaN_zero, not_lt, value_zero] at hlt
  have hnum : isNaN c.maxWeight = false := isNaN_add hone hfinite
  have hmax : 0 ≤ value c.maxWeight := by
    rw [lt_iff (isNaN_of_isFinite hfinite) isNaN_zero, not_lt, value_zero] at hleverage
    exact le_trans hleverage (along_le_along_add (s := .long) hone hfinite hone_nonneg)
  have hlow : ¬nat 0 < -c.maxWeight := by
    rw [lt_iff isNaN_zero (by rw [isNaN_neg, hnum]), value_zero, value_neg, not_lt]
    simpa using EReal.neg_le_neg_iff.2 hmax
  have hhigh : ¬c.maxWeight < nat 0 := by
    rw [lt_iff hnum isNaN_zero, value_zero, not_lt]
    exact hmax
  have hzero : ¬(nat 0 : Float) < nat 0 := by
    rw [lt_iff isNaN_zero isNaN_zero]
    exact lt_irrefl _
  simp only [Order.allowedWeight, clamp, if_neg hlow, if_neg hhigh, decide_eq_false hzero,
    Bool.false_and, if_neg Bool.false_ne_true]

theorem execute_flat {s : Setup Float} {past : List (Bar Float)} (hs : s.costs.validate = .ok ())
    (hpast : past ≠ []) (bar : Bar Float) (a : Account Float) :
    ∃ signalTime, execute s (.ofSeries past) .flat bar a =
      .ok (a.carryOut false
        (Order.outcome s.costs a.ledger.portfolio true (nat 0) signalTime past.length bar)) := by
  obtain ⟨signalBar, hlast⟩ := Option.ne_none_iff_exists'.1 (mt List.getLast?_eq_none_iff.1 hpast)
  have hweight : (Signal.flat : Signal Float).weight? = some (nat 0) := rfl
  refine ⟨signalBar.time, ?_⟩
  rw [execute_of_weight hweight hlast rfl, orderAt, allowedWeight_zero hs]
  rfl

/-- On doubles, for every account that a run goes through whose position is a finite number, and
every opening that can be traded at: the signal to go flat is carried out, and it ends the position
and its trade if and only if the borrowing limit does not cut the purchase of a short position.
Where the limit cuts it, what the limit allows is bought, or nothing if that is dust. -/
theorem flat_liquidates_iff (bars : List (Bar Float)) (start k : ℕ) (strategy : Strategy Float)
    (assigned : Parameter.Assignment Float) (costs : Costs Float) (a : Account Float)
    (h : accountAfter bars start strategy assigned costs k = .ok a)
    (hq : isFinite a.ledger.portfolio.quantity = true) (s : Setup Float) (hs : s.costs = costs)
    (past : List (Bar Float)) (hpast : past ≠ []) (bar : Bar Float)
    (hbar : Order.isTradable bar.openPrice = true) :
    ∃ a', execute s (.ofSeries past) .flat bar a = .ok a' ∧
      ((a'.ledger.portfolio.isFlat = true ∧ a'.ledger.openTrade = none) ↔
        ¬Order.Cut costs a.ledger.portfolio bar.openPrice) ∧
      (Order.Cut costs a.ledger.portfolio bar.openPrice →
        a'.ledger.portfolio.quantity =
          if abs (Order.maxBuy costs a.ledger.portfolio bar.openPrice) < Ledger.dust then
            a.ledger.portfolio.quantity
          else a.ledger.portfolio.quantity +
            Order.maxBuy costs a.ledger.portfolio bar.openPrice) := by
  obtain ⟨setup, hprepare, -⟩ := accountAfter_eq_ok_iff.1 h
  obtain ⟨signalTime, hexecute⟩ :=
    execute_flat (hs ▸ (prepare_eq_ok_iff.1 hprepare).1) hpast bar a
  have ha := cleared_accountAfter h
  have hno_trade := (cleared_execute ha hpast hexecute).no_trade
  rw [hs] at hexecute hno_trade
  refine ⟨_, hexecute, ?_, fun hcut => ?_⟩
  · rw [and_iff_left_of_imp hno_trade]
    exact isFlat_carryOut_flat_iff ha hq hbar
  · rw [quantity_of_limited hq hbar hcut.toLimited]
    split
    · rfl
    · rw [if_neg (hcut.rest.resolve_left ‹_›)]

def shorting : Strategy Float where
  name := "shorting"
  decide _ _ := .ok .short

def shortable : Costs Float := { Costs.frictionless 1000 with allowShort := true }

def twoHundreds : List (Bar Float) := [.still 2 100, .still 3 100]

/-- Ten units sold short at 100 can be bought back in full at 150, and in part at 400. -/
theorem flat_liquidates_iff_short :
    twoHundreds ≠ [] ∧ Order.isTradable (150 : Float) = true ∧
      Order.isTradable (400 : Float) = true ∧
      ∃ a, accountAfter twoHundreds 0 shorting .empty shortable 2 = .ok a ∧
        isFinite a.ledger.portfolio.quantity = true ∧
        (∃ a', execute ⟨shorting, .empty, .empty, shortable⟩ (.ofSeries twoHundreds) .flat
            (.still 4 150) a = .ok a' ∧
          a'.ledger.portfolio.isFlat = true ∧ a'.ledger.openTrade = none) ∧
        ∃ a', execute ⟨shorting, .empty, .empty, shortable⟩ (.ofSeries twoHundreds) .flat
            (.still 4 400) a = .ok a' ∧
          ¬(a'.ledger.portfolio.isFlat = true ∧ a'.ledger.openTrade = none) := by
  have hfacts : (accountAfter twoHundreds 0 shorting .empty shortable 2).toOption.map (fun a =>
      let p := a.ledger.portfolio
      (isFinite p.quantity, decide (p.quantity < nat 0),
        decide (Order.maxBuy shortable p 150 < -p.quantity),
        decide (Order.maxBuy shortable p 400 < -p.quantity),
        decide (abs (p.quantity + Order.maxBuy shortable p 400) < Ledger.dust))) =
      some (true, true, false, true, false) := by
    decide +kernel
  obtain ⟨a, ha, hfacts⟩ := Option.map_eq_some_iff.1 hfacts
  simp only [Prod.mk.injEq, decide_eq_true_eq, decide_eq_false_iff_not] at hfacts
  obtain ⟨hq, hshort, henough, hless, hrest⟩ := hfacts
  have hrun := toOption_eq_some_iff.1 ha
  have hpast : twoHundreds ≠ [] := nofun
  have hlow : Order.isTradable (150 : Float) = true := by decide
  have hhigh : Order.isTradable (400 : Float) = true := by decide
  obtain ⟨b, hb, hflat, -⟩ := flat_liquidates_iff twoHundreds 0 2 shorting .empty shortable a hrun
    hq ⟨shorting, .empty, .empty, shortable⟩ rfl twoHundreds hpast (.still 4 150) hlow
  obtain ⟨d, hd, hcut, -⟩ := flat_liquidates_iff twoHundreds 0 2 shorting .empty shortable a hrun
    hq ⟨shorting, .empty, .empty, shortable⟩ rfl twoHundreds hpast (.still 4 400) hhigh
  exact ⟨hpast, hlow, hhigh, a, hrun, hq, ⟨b, hb, hflat.2 fun h => henough h.less⟩, d, hd,
    fun h => hcut.1 h ⟨⟨hshort, hless⟩, .inr hrest⟩⟩

/-- Going flat after `k` bars of a run ends the position and its trade at every opening that can be
traded at. -/
def AlwaysLiquidates (bars : List (Bar Float)) (start k : ℕ) (strategy : Strategy Float)
    (assigned : Parameter.Assignment Float) (costs : Costs Float) : Prop :=
  ∀ a, accountAfter bars start strategy assigned costs k = .ok a →
    ∀ (s : Setup Float) (past : List (Bar Float)) (bar : Bar Float), s.costs = costs → past ≠ [] →
      Order.isTradable bar.openPrice = true →
        ∃ a', execute s (.ofSeries past) .flat bar a = .ok a' ∧
          a'.ledger.portfolio.isFlat = true ∧ a'.ledger.openTrade = none

theorem not_alwaysLiquidates_of_eq {bars : List (Bar Float)} {start k : ℕ}
    {strategy : Strategy Float} {assigned : Parameter.Assignment Float} {costs : Costs Float}
    (s : Setup Float) (past : List (Bar Float)) (bar : Bar Float) (hs : s.costs = costs)
    (hpast : past ≠ []) (hbar : Order.isTradable bar.openPrice = true)
    (h : ((accountAfter bars start strategy assigned costs k).toOption.bind fun a =>
      (execute s (.ofSeries past) .flat bar a).toOption.map (·.ledger.portfolio.isFlat)) =
        some false) :
    ¬AlwaysLiquidates bars start k strategy assigned costs := by
  intro hall
  obtain ⟨a, ha, h⟩ := Option.bind_eq_some_iff.1 h
  obtain ⟨a', ha', hheld⟩ := Option.map_eq_some_iff.1 h
  obtain ⟨b, hb, hflat, -⟩ := hall a (toOption_eq_some_iff.1 ha) s past bar hs hpast hbar
  rw [toOption_eq_some_iff, hb] at ha'
  cases ha'
  rw [hheld] at hflat
  cases hflat

def twoSpecks : List (Bar Float) := [.still 2 1e-150, .still 3 1e-150]

def vast : Costs Float := .frictionless 1e200

/-- Ten units sold short at 100 and bought back at 400 for the 2000 of cash: five stay short. A
position that has left the range of doubles does not end either. -/
theorem not_alwaysLiquidates :
    ¬AlwaysLiquidates twoHundreds 0 2 shorting .empty shortable ∧
      ¬AlwaysLiquidates twoSpecks 0 2 buyAndHold .empty vast :=
  ⟨not_alwaysLiquidates_of_eq ⟨shorting, .empty, .empty, shortable⟩ twoHundreds (.still 4 400) rfl
      nofun (by decide) (by decide +kernel),
    not_alwaysLiquidates_of_eq ⟨buyAndHold, .empty, .empty, vast⟩ twoSpecks
      (.still 4 1e-150) rfl nofun (by decide +kernel) (by decide +kernel)⟩

end Simulation

end Backtest
