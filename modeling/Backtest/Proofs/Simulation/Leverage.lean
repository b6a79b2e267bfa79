import Mathlib.Tactic.Ring
import Backtest.Proofs.Market.Order
import Backtest.Proofs.Simulation.Log
import Backtest.Proofs.Simulation.Sizing

/-!
# The borrowing limit

An account is within its borrowing limit while its headroom is not negative. In exact arithmetic each
unit bought takes up headroom and each unit sold frees some, and a purchase is cut to the headroom
there is. A sale is not: where costs are so high that selling a unit takes up headroom, or prices
have used it up before, it may leave an account beyond its limit.
-/

namespace Backtest

open Extended Scalar

namespace Ledger

variable {l : Ledger ℚ} {f : Fill ℚ}

/-- Cash is left as it is, or lifted from below zero to zero. -/
theorem snapCash_cases (l : Ledger ℚ) (tolerance : ℚ) :
    l.snapCash tolerance = l ∨
      (l.portfolio.cash < 0 ∧ (l.snapCash tolerance).portfolio.cash = 0) := by
  unfold snapCash
  split
  · rename_i h
    simp only [Bool.and_eq_true, decide_eq_true_eq, Rational.nat_eq, Nat.cast_zero] at h
    exact .inr ⟨h.1, rfl⟩
  · exact .inl rfl

theorem cash_le_snapCash (l : Ledger ℚ) (tolerance : ℚ) :
    l.portfolio.cash ≤ (l.snapCash tolerance).portfolio.cash := by
  rcases l.snapCash_cases tolerance with hsame | ⟨hneg, hzero⟩
  · rw [hsame]
  · rw [hzero]
    exact hneg.le

theorem quantity_apply_of_ne_zero (hdust : ¬Scalar.abs f.quantity < dust)
    (h : (l.apply f).portfolio.quantity ≠ 0) :
    (l.apply f).portfolio.quantity = l.portfolio.quantity + f.quantity := by
  rw [quantity_apply hdust] at h ⊢
  split
  · rw [if_pos ‹_›] at h
    exact absurd rfl h
  · rfl

end Ledger

namespace Order

/-- Cash is at least the negative of the allowed leverage times equity. -/
def WithinLimit {α : Type} [Scalar α] (c : Costs α) (p : Portfolio α) (opening : α) : Prop :=
  -c.maxLeverage * p.equityAt opening ≤ p.cash

/-- Headroom that each unit sold frees, which is negative if costs take more than the unit was worth
as a security. -/
def headroomFreed {α : Type} [Scalar α] (c : Costs α) (opening : α) : α :=
  unitProceeds c opening * (nat 1 + c.maxLeverage) - c.maxLeverage * opening

variable {c : Costs ℚ} {p p' : Portfolio ℚ} {opening weight : ℚ}

theorem withinLimit_iff : WithinLimit c p opening ↔ 0 ≤ headroom c p opening := by
  simp only [WithinLimit, headroom, Portfolio.equityAt, Portfolio.marketValue, Rational.nat_eq,
    Nat.cast_one]
  constructor <;> intro h <;> linarith

theorem withinLimit_exact :
    WithinLimit c.exact p.exact (finite opening) ↔ WithinLimit c p opening := by
  simp [WithinLimit, Portfolio.equityAt, Portfolio.marketValue, Costs.exact, Portfolio.exact]

theorem headroomFreed_exact (c : Costs ℚ) (opening : ℚ) :
    headroomFreed c.exact (finite opening) = finite (headroomFreed c opening) := by
  rw [headroomFreed, headroomFreed, unitProceeds_exact]
  simp [Costs.exact]

/-- What is held within the limit when an order has been filled at an opening: purchases keep to it,
sales only as far as the headroom and what they free of it reach, and an account left flat is within
it if it owes nothing. -/
structure KeepsLimit {α : Type} [Scalar α] (c : Costs α) (p p' : Portfolio α) (opening : α) :
    Prop where
  purchase : p.quantity < p'.quantity → p'.quantity ≠ nat 0 → WithinLimit c p' opening
  sale : p'.quantity < p.quantity → p'.quantity ≠ nat 0 →
    (WithinLimit c p' opening ↔
      (p'.cash = nat 0 ∧ nat 0 ≤ c.maxLeverage * p'.quantity) ∨
        nat 0 ≤ headroom c p opening + (p.quantity - p'.quantity) * headroomFreed c opening)
  closing : p'.quantity ≠ p.quantity → p'.quantity = nat 0 →
    (WithinLimit c p' opening ↔ nat 0 ≤ p'.cash)

theorem KeepsLimit.exact (h : KeepsLimit c p p' opening) :
    KeepsLimit c.exact p.exact p'.exact (finite opening) := by
  constructor
  · intro hmore hne
    exact withinLimit_exact.2 (h.purchase (finite_lt.1 hmore) (by simpa [Portfolio.exact] using hne))
  · intro hless hne
    have hsale := h.sale (finite_lt.1 hless) (by simpa [Portfolio.exact] using hne)
    rw [withinLimit_exact, hsale, headroom_exact, headroomFreed_exact]
    simp [Portfolio.exact, Costs.exact]
  · intro hother hzero
    have hclosing := h.closing (by simpa [Portfolio.exact] using hother)
      (by simpa [Portfolio.exact] using hzero)
    rw [withinLimit_exact, hclosing]
    exact finite_le.symm

theorem keepsLimit_of_quantity_eq {q : ℚ} {c : Costs Extended} {p p' : Portfolio Extended}
    {opening : Extended} (hp : p.quantity = finite q) (hp' : p'.quantity = finite q) :
    KeepsLimit c p p' opening := by
  constructor
  · intro h
    rw [hp, hp', finite_lt] at h
    exact absurd h (lt_irrefl _)
  · intro h
    rw [hp, hp', finite_lt] at h
    exact absurd h (lt_irrefl _)
  · intro h
    rw [hp, hp'] at h
    exact absurd rfl h

/-! ## Headroom -/

theorem withinLimit_of_no_cash (hopening : 0 < opening) (hcash : p.cash = 0) :
    WithinLimit c p opening ↔ 0 ≤ c.maxLeverage * p.quantity := by
  have hroom : headroom c p opening = c.maxLeverage * p.quantity * opening := by
    simp [headroom, hcash]
  rw [withinLimit_iff, hroom, mul_nonneg_iff_of_pos_right hopening]

theorem withinLimit_of_flat (hc : c.Valid) (hq : p.quantity = 0) :
    WithinLimit c p opening ↔ 0 ≤ p.cash := by
  have hfactor : 0 < 1 + c.maxLeverage := add_pos_of_pos_of_nonneg one_pos hc.maxLeverage_nonneg
  have hroom : headroom c p opening = p.cash * (1 + c.maxLeverage) := by simp [headroom, hq]
  rw [withinLimit_iff, hroom, mul_nonneg_iff_of_pos_right hfactor]

/-- More cash is more headroom. -/
theorem headroom_le_headroom (hc : c.Valid) (hcash : p.cash ≤ p'.cash)
    (hq : p'.quantity = p.quantity) : headroom c p opening ≤ headroom c p' opening := by
  have hfactor : 0 ≤ 1 + c.maxLeverage := add_nonneg zero_le_one hc.maxLeverage_nonneg
  have := mul_le_mul_of_nonneg_right hcash hfactor
  simp only [headroom, hq, Rational.nat_eq, Nat.cast_one]
  linarith

/-! ## Fills -/

variable {l : Ledger ℚ} {discrete : Bool} {signalTime : Timestamp} {n : ℕ} {bar : Bar ℚ}
  {f : Fill ℚ}

/-- What a fill of an order that leaves a position makes of the headroom. -/
theorem headroom_apply (h : outcome c l.portfolio discrete weight signalTime n bar = .filled f)
    (hdust : ¬Scalar.abs f.quantity < Ledger.dust) (hne : (l.apply f).portfolio.quantity ≠ 0) :
    headroom c (l.apply f).portfolio bar.openPrice = headroom c l.portfolio bar.openPrice -
      f.quantity *
        if 0 < f.quantity then headroomPerUnit c bar.openPrice
        else headroomFreed c bar.openPrice := by
  simp only [headroom, Ledger.cash_apply hdust, Ledger.quantity_apply_of_ne_zero hdust hne,
    spent_of_filled h, headroomPerUnit, headroomFreed, unitCost, Rational.nat_eq, Nat.cast_one]
  split <;> ring

/-- Lifting cash to zero only adds to the headroom. -/
theorem headroom_le_snapCash (hc : c.Valid) (l : Ledger ℚ) (tolerance : ℚ) :
    headroom c l.portfolio opening ≤ headroom c (l.snapCash tolerance).portfolio opening :=
  headroom_le_headroom hc (l.cash_le_snapCash tolerance) (l.quantity_snapCash tolerance)

theorem withinLimit_of_purchase (hc : c.Valid) (tolerance : ℚ)
    (h : outcome c l.portfolio discrete weight signalTime n bar = .filled f)
    (hpos : 0 < f.quantity) (hne : (l.apply f).portfolio.quantity ≠ 0) :
    WithinLimit c ((l.apply f).snapCash tolerance).portfolio bar.openPrice := by
  obtain ⟨-, hdust, hquantity, -⟩ := filled_cases hc h
  have hroom := quantity_mul_le_headroom (hquantity ▸ hpos)
  rw [← hquantity] at hroom
  refine withinLimit_iff.2 (le_trans ?_ (headroom_le_snapCash hc _ _))
  rw [headroom_apply h hdust hne, if_pos hpos]
  exact sub_nonneg.2 hroom

theorem withinLimit_of_sale_iff (hc : c.Valid) (tolerance : ℚ)
    (h : outcome c l.portfolio discrete weight signalTime n bar = .filled f)
    (hneg : f.quantity < 0) (hne : (l.apply f).portfolio.quantity ≠ 0) :
    WithinLimit c ((l.apply f).snapCash tolerance).portfolio bar.openPrice ↔
      (((l.apply f).snapCash tolerance).portfolio.cash = 0 ∧
        0 ≤ c.maxLeverage * (l.apply f).portfolio.quantity) ∨
      0 ≤ headroom c l.portfolio bar.openPrice +
        -f.quantity * headroomFreed c bar.openPrice := by
  obtain ⟨hopening, hdust, -⟩ := filled_cases hc h
  have hroom := headroom_apply h hdust hne
  rw [if_neg hneg.not_gt, sub_eq_add_neg, ← neg_mul] at hroom
  rw [← hroom]
  constructor
  · intro hwithin
    rcases (l.apply f).snapCash_cases tolerance with hsame | ⟨-, hzero⟩
    · exact .inr (withinLimit_iff.1 (hsame ▸ hwithin))
    · have hlong := (withinLimit_of_no_cash hopening hzero).1 hwithin
      rw [Ledger.quantity_snapCash] at hlong
      exact .inl ⟨hzero, hlong⟩
  · rintro (⟨hzero, hlong⟩ | hroom)
    · refine (withinLimit_of_no_cash hopening hzero).2 ?_
      rwa [Ledger.quantity_snapCash]
    · exact withinLimit_iff.2 (hroom.trans (headroom_le_snapCash hc _ _))

theorem keepsLimit_of_filled (hc : c.Valid) (tolerance : ℚ)
    (h : outcome c l.portfolio discrete weight signalTime n bar = .filled f) :
    KeepsLimit c l.portfolio ((l.apply f).snapCash tolerance).portfolio bar.openPrice := by
  obtain ⟨-, hdust, -⟩ := filled_cases hc h
  constructor
  · rw [Ledger.quantity_snapCash]
    intro hmore hne
    have hsum := Ledger.quantity_apply_of_ne_zero hdust hne
    exact withinLimit_of_purchase hc tolerance h (by linarith) hne
  · rw [Ledger.quantity_snapCash]
    intro hless hne
    have hsum := Ledger.quantity_apply_of_ne_zero hdust hne
    have hsold : l.portfolio.quantity - (l.apply f).portfolio.quantity = -f.quantity := by
      rw [hsum]
      ring
    rw [hsold]
    exact withinLimit_of_sale_iff hc tolerance h (by linarith) hne
  · exact fun _ hzero => withinLimit_of_flat hc hzero

end Order

namespace Simulation

variable {c : Costs ℚ} {past : List (Bar Extended)} {bar : Bar Extended} {signal : Signal Extended}
  {b b' : Account ℚ}

theorem Executes.keepsLimit (hc : c.Valid) (h : Executes c past signal bar b b') :
    Order.KeepsLimit c.exact b.exact.ledger.portfolio b'.exact.ledger.portfolio bar.openPrice := by
  obtain ⟨-, -, hsame | ⟨f, ⟨requested, opening, discrete, signalTime, n, hbar, hf⟩, hbooked⟩⟩ :=
    h.books
  · exact Order.keepsLimit_of_quantity_eq rfl (by rw [Account.exact, hsame]; rfl)
  · have hkeeps := Order.keepsLimit_of_filled hc cashTolerance hf
    rw [← hbooked] at hkeeps
    rw [hbar]
    exact hkeeps.exact

/-- In exact arithmetic, for every account that a run goes through and every signal executed at the
opening of any bar, at whatever equity: after a purchase that leaves a position the account is within
its borrowing limit; after a sale that leaves one, it is if and only if its headroom and what the
sale frees of it reach, or cash has been lifted to zero from below; and an account that is left flat
is within the limit if and only if it owes nothing. -/
theorem execute_keepsLimit (bars : List (Bar Extended)) (start k : ℕ)
    (strategy : Strategy Extended) (assigned : Parameter.Assignment Extended)
    (costs : Costs Extended) (a : Account Extended)
    (h : accountAfter bars start strategy assigned costs k = .ok a) (s : Setup Extended)
    (hs : s.costs = costs) (past : List (Bar Extended)) (hpast : past ≠ [])
    (signal : Signal Extended) (bar : Bar Extended) (a' : Account Extended)
    (hexecute : execute s (.ofSeries past) signal bar a = .ok a') :
    Order.KeepsLimit costs a.ledger.portfolio a'.ledger.portfolio bar.openPrice := by
  obtain ⟨c, b, rfl, hc, rfl⟩ := exists_rational_of_accountAfter h
  obtain ⟨b', rfl, hexecutes⟩ := execute_exact hs hc hpast hexecute
  exact hexecutes.keepsLimit hc

def doubling : Strategy Extended where
  name := "doubling"
  decide _ _ := .ok (.target (finite 2))

def steep : Costs Extended := ⟨finite 1000, nat 0, finite (3 / 4), nat 1, false⟩

def steepSetup : Setup Extended := ⟨doubling, .empty, .empty, steep⟩

def twoOnes : List (Bar Extended) := [.still 2 (finite 1), .still 3 (finite 1)]

/-- A purchase goes to the limit. At the same price, selling a part of it leads beyond, though the
equity before was positive. -/
theorem execute_keepsLimit_steep :
    twoOnes ≠ [] ∧
      (∃ a, accountAfter twoOnes 0 doubling .empty steep 1 = .ok a ∧
        ∃ a', execute steepSetup (.ofSeries twoOnes) (.target (finite 2)) (.still 4 (finite 1)) a =
            .ok a' ∧
          Order.WithinLimit steep a'.ledger.portfolio (finite 1)) ∧
      ∃ a, accountAfter twoOnes 0 doubling .empty steep 2 = .ok a ∧
        nat 0 < a.ledger.portfolio.equityAt (finite 1) ∧
        Order.WithinLimit steep a.ledger.portfolio (finite 1) ∧
        ∃ a', execute steepSetup (.ofSeries twoOnes) (.target (finite (1 / 2)))
            (.still 4 (finite 1)) a = .ok a' ∧
          ¬Order.WithinLimit steep a'.ledger.portfolio (finite 1) := by
  have hbought : ((accountAfter twoOnes 0 doubling .empty steep 1).toOption.bind fun a =>
      (execute steepSetup (.ofSeries twoOnes) (.target (finite 2)) (.still 4 (finite 1))
        a).toOption.map fun a' =>
          (decide (a.ledger.portfolio.quantity < a'.ledger.portfolio.quantity),
            decide (a'.ledger.portfolio.quantity = nat 0))) = some (true, false) := by
    decide +kernel
  have hsold : ((accountAfter twoOnes 0 doubling .empty steep 2).toOption.bind fun a =>
      (execute steepSetup (.ofSeries twoOnes) (.target (finite (1 / 2))) (.still 4 (finite 1))
        a).toOption.map fun a' =>
          let p := a.ledger.portfolio
          let p' := a'.ledger.portfolio
          (decide (nat 0 < p.equityAt (finite 1)),
            decide (-steep.maxLeverage * p.equityAt (finite 1) ≤ p.cash),
            decide (p'.quantity < p.quantity), decide (p'.quantity = nat 0),
            decide (p'.cash = nat 0),
            decide (nat 0 ≤ Order.headroom steep p (finite 1) +
              (p.quantity - p'.quantity) * Order.headroomFreed steep (finite 1)))) =
      some (true, true, true, false, false, false) := by
    decide +kernel
  obtain ⟨a, ha, hbought⟩ := Option.bind_eq_some_iff.1 hbought
  obtain ⟨a', ha', hbought⟩ := Option.map_eq_some_iff.1 hbought
  obtain ⟨d, hd, hsold⟩ := Option.bind_eq_some_iff.1 hsold
  obtain ⟨d', hd', hsold⟩ := Option.map_eq_some_iff.1 hsold
  simp only [Prod.mk.injEq, decide_eq_true_eq, decide_eq_false_iff_not] at hbought hsold
  obtain ⟨hmore, hlong⟩ := hbought
  obtain ⟨hequity, hwithin, hless, hleft, hcash, hroom⟩ := hsold
  have hrun := toOption_eq_some_iff.1 ha
  have hrun' := toOption_eq_some_iff.1 hd
  have hexecute := toOption_eq_some_iff.1 ha'
  have hexecute' := toOption_eq_some_iff.1 hd'
  have hpast : twoOnes ≠ [] := nofun
  have hpurchase := execute_keepsLimit twoOnes 0 1 doubling .empty steep a hrun steepSetup rfl
    twoOnes hpast _ (.still 4 (finite 1)) a' hexecute
  have hsale := execute_keepsLimit twoOnes 0 2 doubling .empty steep d hrun' steepSetup rfl
    twoOnes hpast _ (.still 4 (finite 1)) d' hexecute'
  refine ⟨hpast, ⟨a, hrun, a', hexecute, hpurchase.purchase hmore hlong⟩, d, hrun', hequity,
    hwithin, d', hexecute', fun hkept => ?_⟩
  exact ((hsale.sale hless hleft).1 hkept).elim (fun h => hcash h.1) hroom

end Simulation

end Backtest
