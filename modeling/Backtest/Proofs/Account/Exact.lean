import Backtest.Proofs.Account.Log
import Backtest.Proofs.Scalar.Rational

/-!
# Rational ledgers

Fills of rational quantities, prices and costs leave a ledger of rational numbers: nothing that
booking divides by is zero. What holds of rational arithmetic therefore holds of exact numbers.
-/

namespace Backtest

open Extended Scalar

def Fill.exact (f : Fill ℚ) : Fill Extended where
  bar := f.bar
  time := f.time
  signalTime := f.signalTime
  quantity := finite f.quantity
  price := finite f.price
  commission := finite f.commission
  slippage := finite f.slippage

def Portfolio.exact (p : Portfolio ℚ) : Portfolio Extended :=
  ⟨finite p.cash, finite p.quantity, finite p.averagePrice, finite p.equity⟩

def Trade.exact (t : Trade ℚ) : Trade Extended where
  side := t.side
  signalTime := t.signalTime
  entryBar := t.entryBar
  entryTime := t.entryTime
  entryPrice := finite t.entryPrice
  exitBar := t.exitBar
  exitTime := t.exitTime
  exitPrice := finite t.exitPrice
  quantity := finite t.quantity
  commission := finite t.commission
  slippage := finite t.slippage
  profit := finite t.profit

def OpenTrade.exact (o : OpenTrade ℚ) : OpenTrade Extended where
  side := o.side
  signalTime := o.signalTime
  entryBar := o.entryBar
  entryTime := o.entryTime
  entryQuantity := finite o.entryQuantity
  entryNotional := finite o.entryNotional
  exitQuantity := finite o.exitQuantity
  exitNotional := finite o.exitNotional
  peakQuantity := finite o.peakQuantity
  commission := finite o.commission
  slippage := finite o.slippage

theorem Side.sign_exact (s : Side) : (s.sign : Extended) = finite s.sign := by
  cases s <;> rfl

theorem OpenTrade.average_exact (notional quantity : ℚ) :
    average (finite notional) (finite quantity) = finite (average notional quantity) := by
  unfold average
  rw [nat_eq_finite]
  by_cases h : nat 0 < quantity
  · have hne : quantity ≠ 0 := (show (0 : ℚ) < quantity from h).ne'
    rw [if_pos h, if_pos (finite_lt.2 h), finite_div hne]
  · rw [if_neg h, if_neg fun h' => h (finite_lt.1 h')]

theorem OpenTrade.close_exact (o : OpenTrade ℚ) (bar : ℕ) (time : Timestamp) :
    o.exact.close bar time = (o.close bar time).exact := by
  simp only [close, Trade.exact, OpenTrade.exact, average_exact, Side.sign_exact, finite_sub,
    finite_mul]

namespace Ledger

variable {s : Split ℚ} {f : Fill ℚ}

def exact (l : Ledger ℚ) : Ledger Extended where
  portfolio := l.portfolio.exact
  openTrade := l.openTrade.map OpenTrade.exact
  closedTrades := l.closedTrades.map Trade.exact
  totalCommission := finite l.totalCommission
  totalSlippage := finite l.totalSlippage

def Split.exact (s : Split ℚ) : Split Extended :=
  ⟨finite s.closing, finite s.opening, finite s.closeShare, finite s.after⟩

theorem dust_exact : (dust : Extended) = finite dust := rfl

theorem dust_pos : (0 : ℚ) < dust := by
  change (0 : ℚ) < mkRat 1 (Nat.pow 10 9)
  decide

/-- Dividing a fill that is not zero divides by no zero. -/
theorem split_exact {held quantity : ℚ} (h : quantity ≠ 0) :
    split (finite held) (finite quantity) = (split held quantity).exact := by
  have habs : |quantity| ≠ 0 := abs_ne_zero.2 h
  have hclosing : (split (finite held) (finite quantity)).closing =
      finite (split held quantity).closing := by
    simp only [split, nat_eq_finite, finite_beq, Rational.beq_eq, sameSide_finite, abs_finite,
      smaller_finite, apply_ite finite, Rational.abs_eq]
  have hopening : (split (finite held) (finite quantity)).opening =
      finite (split held quantity).opening := by
    rw [split_opening, split_opening, hclosing, abs_finite, finite_sub]
    rfl
  have hshare : (split (finite held) (finite quantity)).closeShare =
      finite (split held quantity).closeShare := by
    change (split (finite held) (finite quantity)).closing / Scalar.abs (finite quantity) = _
    rw [hclosing, abs_finite, finite_div habs]
    rfl
  have hafter : (split (finite held) (finite quantity)).after =
      finite (split held quantity).after := by
    rw [split_after, split_after, finite_add, abs_finite, dust_exact, apply_ite finite]
    simp only [finite_lt]
    rfl
  rw [Split.exact, ← hclosing, ← hopening, ← hshare, ← hafter]

theorem bookExit_exact (o : OpenTrade ℚ) :
    bookExit s.exact f.exact o.exact = (bookExit s f o).exact := by
  simp only [bookExit, OpenTrade.exact, Split.exact, Fill.exact, finite_add, finite_mul]

theorem bookEntry_exact (o : Option (OpenTrade ℚ)) :
    bookEntry s.exact f.exact (o.map OpenTrade.exact) = (bookEntry s f o).exact := by
  cases o with
  | none =>
    simp only [bookEntry, Option.map_none, OpenTrade.exact, Split.exact, Fill.exact, nat_eq_finite,
      finite_lt, finite_sub, finite_mul]
  | some o =>
    simp only [bookEntry, Option.map_some, OpenTrade.exact, Split.exact, Fill.exact, nat_eq_finite,
      finite_add, finite_sub, finite_mul]

theorem averageAfter_exact (p : Portfolio ℚ) :
    averageAfter p.exact s.exact f.exact = finite (averageAfter p s f) := by
  simp only [averageAfter, Portfolio.exact, Split.exact, Fill.exact, nat_eq_finite, finite_beq,
    sameSide_finite, abs_finite, finite_lt]
  by_cases hflat : s.after = 0
  · simp [hflat]
  · have hne : |s.after| ≠ 0 := abs_ne_zero.2 hflat
    simp only [finite_mul, finite_add, finite_div hne, apply_ite finite]
    rfl

theorem closePart_exact (l : Ledger ℚ) :
    l.exact.closePart s.exact f.exact =
      ((l.closePart s f).1.map OpenTrade.exact, (l.closePart s f).2.map Trade.exact) := by
  have hends : (s.exact.after == nat 0 || !sameSide s.exact.after l.exact.portfolio.quantity) =
      (s.after == nat 0 || !sameSide s.after l.portfolio.quantity) := by
    simp [Split.exact, exact, Portfolio.exact]
  have hcloses : nat 0 < s.exact.closing ↔ nat 0 < s.closing := finite_lt
  unfold closePart
  rw [hends]
  simp only [hcloses]
  cases ho : l.openTrade with
  | none =>
    split
    · split <;> simp [exact, ho]
    · simp [exact, ho]
  | some o =>
    split
    · split
      · have hclose : (bookExit s f o).exact.close f.exact.bar f.exact.time =
            ((bookExit s f o).close f.bar f.time).exact := OpenTrade.close_exact ..
        simp [exact, ho, bookExit_exact, hclose]
      · simp [exact, ho, bookExit_exact]
    · simp [exact, ho]

theorem openPart_exact (o : Option (OpenTrade ℚ)) :
    openPart s.exact f.exact (o.map OpenTrade.exact) = (openPart s f o).map OpenTrade.exact := by
  have hopens : dust < s.exact.opening ↔ dust < s.opening := finite_lt
  have hpeak (o : OpenTrade ℚ) : raisePeak s.exact o.exact = (raisePeak s o).exact := by
    simp only [raisePeak, OpenTrade.exact, Split.exact, abs_finite, larger_finite]
    rfl
  simp only [openPart, hopens, bookEntry_exact]
  split
  · simp [hpeak]
  · cases o <;> simp [hpeak]

theorem abs_lt_dust_exact : Scalar.abs f.exact.quantity < dust ↔ Scalar.abs f.quantity < dust := by
  rw [Fill.exact, abs_finite]
  exact finite_lt

theorem quantity_ne_zero (hdust : ¬Scalar.abs f.quantity < dust) : f.quantity ≠ 0 := by
  intro h
  rw [h] at hdust
  exact hdust (by simpa using dust_pos)

theorem splitOf_exact (l : Ledger ℚ) (hdust : ¬Scalar.abs f.quantity < dust) :
    l.exact.splitOf f.exact = (l.splitOf f).exact :=
  split_exact (quantity_ne_zero hdust)

/-- Booking a fill of rational numbers. -/
theorem apply_exact (l : Ledger ℚ) (f : Fill ℚ) : l.exact.apply f.exact = (l.apply f).exact := by
  by_cases hdust : Scalar.abs f.quantity < dust
  · rw [apply_of_dust hdust, apply_of_dust (abs_lt_dust_exact.2 hdust)]
  · have haverage : averageAfter l.exact.portfolio (l.splitOf f).exact f.exact =
        finite (averageAfter l.portfolio (l.splitOf f) f) := averageAfter_exact l.portfolio
    rw [apply_of_not_dust hdust, apply_of_not_dust fun h => hdust (abs_lt_dust_exact.1 h),
      splitOf_exact l hdust, closePart_exact, openPart_exact, haverage]
    simp only [exact, Portfolio.exact, Fill.exact, Split.exact, finite_add, finite_sub, finite_mul]

/-- Booking any number of fills of rational numbers. -/
theorem applyAll_exact (l : Ledger ℚ) (fills : List (Fill ℚ)) :
    l.exact.applyAll (fills.map Fill.exact) = (l.applyAll fills).exact := by
  induction fills generalizing l with
  | nil => rfl
  | cons f fills ih => rw [List.map_cons, applyAll_cons, apply_exact, ih, applyAll_cons]

theorem trades_exact (l : Ledger ℚ) : l.exact.trades = l.trades.map Trade.exact :=
  List.map_reverse.symm

end Ledger

end Backtest
