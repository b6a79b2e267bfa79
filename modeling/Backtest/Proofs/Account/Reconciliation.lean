import Mathlib.Tactic.LinearCombination
import Backtest.Proofs.Account.Agreement
import Backtest.Proofs.Account.Exact

/-!
# Reconciliation of the ledger

In exact arithmetic the trade log accounts for all money: cash is the starting cash plus the profits
of the closed trades plus what the open trade has earned so far, and the costs of the trades are all
costs. A fill whose opening part is dust would be lost to the log, so there must be none.
-/

namespace Backtest

open Scalar Reading

def OpenTrade.result (o : OpenTrade ℚ) : ℚ :=
  o.side.sign * (o.exitNotional - o.entryNotional) - o.commission

namespace Ledger

/-- The fill opens more than nothing but no more than `dust`. -/
structure OpensDust {α : Type} [Scalar α] (l : Ledger α) (f : Fill α) : Prop where
  booked : ¬abs f.quantity < dust
  pos : nat 0 < (l.splitOf f).opening
  le : (l.splitOf f).opening ≤ dust

/-- The trade log accounts for cash and costs. -/
structure Reconciles (cash : ℚ) (l : Ledger ℚ) : Prop where
  cash_eq : l.portfolio.cash =
    cash + (l.trades.map (·.profit)).sum + l.openTrade.elim 0 OpenTrade.result
  commission_eq : l.totalCommission =
    (l.trades.map (·.commission)).sum + l.openTrade.elim 0 (·.commission)
  slippage_eq : l.totalSlippage =
    (l.trades.map (·.slippage)).sum + l.openTrade.elim 0 (·.slippage)

/-! ## Figures of a log -/

variable {l : Ledger ℚ} {f : Fill ℚ} {s : Split ℚ}

def figure (ofTrade : Trade ℚ → ℚ) (ofOpen : OpenTrade ℚ → ℚ) (opened : Option (OpenTrade ℚ))
    (closed : List (Trade ℚ)) : ℚ :=
  (closed.map ofTrade).sum + opened.elim 0 ofOpen

variable {ofTrade : Trade ℚ → ℚ} {ofOpen : OpenTrade ℚ → ℚ} {x y : ℚ}

/-- Closing a trade moves its figure; booking an exit adds to it. -/
theorem figure_closePart
    (hclose : ∀ o bar time, ofTrade (OpenTrade.close o bar time) = ofOpen o)
    (hnone : ¬nat 0 < s.closing → x = 0)
    (hexit : nat 0 < s.closing →
      ∃ o, l.openTrade = some o ∧ ofOpen (bookExit s f o) = ofOpen o + x) :
    figure ofTrade ofOpen (l.closePart s f).1 (l.closePart s f).2 =
      figure ofTrade ofOpen l.openTrade l.closedTrades + x := by
  unfold closePart
  split
  · obtain ⟨o, ho, hbooked⟩ := hexit ‹_›
    rw [ho]
    split
    · simp [figure, hclose, hbooked]
      ring
    · simp [figure, hbooked]
      ring
  · rw [hnone ‹_›, add_zero]

/-- Booking an entry adds to the figure of the open trade. -/
theorem figure_openPart (hpeak : ∀ o, ofOpen (raisePeak s o) = ofOpen o)
    (remaining : Option (OpenTrade ℚ)) (closed : List (Trade ℚ))
    (hnone : ¬dust < s.opening → y = 0)
    (hentry : dust < s.opening →
      ofOpen (bookEntry s f remaining) = remaining.elim 0 ofOpen + y) :
    figure ofTrade ofOpen (openPart s f remaining) closed =
      figure ofTrade ofOpen remaining closed + y := by
  unfold openPart
  split
  · simp [figure, hpeak, hentry ‹_›]
    ring
  · rw [hnone ‹_›, add_zero]
    cases remaining <;> simp [figure, hpeak]

/-! ## Shares of a fill -/

theorem sign_of_ne {s t : Side} (h : s ≠ t) : (t.sign : ℚ) = -s.sign := by
  cases s <;> cases t <;> first | exact absurd rfl h | simp [Side.sign]

theorem sign_mul_abs (f : Fill ℚ) : (openedSide f).sign * |f.quantity| = f.quantity := by
  unfold openedSide
  by_cases h : nat 0 < f.quantity
  · rw [if_pos h, abs_of_pos h]
    exact one_mul _
  · rw [if_neg h, abs_of_nonpos (not_lt.1 h)]
    simp [Side.sign]

theorem closing_mem (q d : ℚ) :
    (split q d).closing = 0 ∨ (split q d).closing = |d| ∨
      ((split q d).closing = |q| ∧ |q| ≤ |d|) := by
  unfold split
  simp only [smaller, Rational.isNaN_eq, Rational.abs_eq, Bool.false_eq_true, if_false]
  split
  · split
    · exact .inr (.inl rfl)
    · exact .inr (.inr ⟨rfl, not_lt.1 ‹_›⟩)
  · exact .inl rfl

theorem closing_nonneg (q d : ℚ) : 0 ≤ (split q d).closing := by
  rcases closing_mem q d with h | h | ⟨h, -⟩ <;> rw [h] <;> positivity

theorem closing_le (q d : ℚ) : (split q d).closing ≤ |d| := by
  rcases closing_mem q d with h | h | ⟨h, hle⟩
  · rw [h]
    positivity
  · exact h.le
  · rw [h]
    exact hle

/-- The share of a fill that closes nothing. -/
theorem closeShare_of_not_closing (h : ¬nat 0 < (l.splitOf f).closing) :
    (l.splitOf f).closing = 0 ∧ (l.splitOf f).closeShare = 0 := by
  have hzero : (l.splitOf f).closing = 0 :=
    le_antisymm (not_lt.1 h) (closing_nonneg _ _)
  refine ⟨hzero, ?_⟩
  change (l.splitOf f).closing / _ = _
  rw [hzero, zero_div]

/-- The share of a fill that opens nothing. -/
theorem closeShare_of_not_opening (hne : f.quantity ≠ 0) (h : (l.splitOf f).opening = 0) :
    (l.splitOf f).closeShare = 1 := by
  have hall : (l.splitOf f).closing = |f.quantity| := (sub_eq_zero.1 h).symm
  change (l.splitOf f).closing / |f.quantity| = 1
  rw [hall, div_self (abs_ne_zero.2 hne)]

theorem opening_eq_zero (hno : ¬l.OpensDust f) (hdust : ¬Scalar.abs f.quantity < dust)
    (h : ¬dust < (l.splitOf f).opening) : (l.splitOf f).opening = 0 := by
  have hnonneg : 0 ≤ (l.splitOf f).opening := sub_nonneg.2 (closing_le _ _)
  refine le_antisymm (not_lt.1 fun hpos => hno ⟨hdust, hpos, not_lt.1 h⟩) hnonneg

/-! ## One fill -/

/-- A figure after a fill, which adds `x` to it by closing and `y` by opening. -/
theorem figure_apply (x y : ℚ) (hno : ¬l.OpensDust f) (hdust : ¬Scalar.abs f.quantity < dust)
    (hclose : ∀ o bar time, ofTrade (OpenTrade.close o bar time) = ofOpen o)
    (hpeak : ∀ o, ofOpen (raisePeak (l.splitOf f) o) = ofOpen o)
    (hkept : (l.splitOf f).closing = 0 → (l.splitOf f).closeShare = 0 → x = 0)
    (hexit : nat 0 < (l.splitOf f).closing →
      ∃ o, l.openTrade = some o ∧ ofOpen (bookExit (l.splitOf f) f o) = ofOpen o + x)
    (hspent : (l.splitOf f).opening = 0 → (l.splitOf f).closeShare = 1 → y = 0)
    (hentry : dust < (l.splitOf f).opening →
      ofOpen (bookEntry (l.splitOf f) f (l.closePart (l.splitOf f) f).1) =
        (l.closePart (l.splitOf f) f).1.elim 0 ofOpen + y) :
    figure ofTrade ofOpen (l.apply f).openTrade (l.apply f).closedTrades =
      figure ofTrade ofOpen l.openTrade l.closedTrades + x + y := by
  rw [apply_of_not_dust hdust]
  simp only
  rw [figure_openPart hpeak _ _ ?_ hentry, figure_closePart hclose ?_ hexit]
  · intro h
    obtain ⟨hclosing, hshare⟩ := closeShare_of_not_closing h
    exact hkept hclosing hshare
  · intro h
    have hopening := opening_eq_zero hno hdust h
    exact hspent hopening (closeShare_of_not_opening (quantity_ne_zero hdust) hopening)

/-- A fill of more than dust has a side. -/
theorem openedSide_along (hdust : ¬Scalar.abs f.quantity < dust) :
    0 < along (openedSide f) f.quantity := by
  have hfar : value (dust : ℚ) ≤ value (Scalar.abs f.quantity) := by
    rwa [lt_iff rfl rfl, not_lt] at hdust
  obtain ⟨s, hs⟩ := exists_along_pos hfar
  rwa [openedSide_eq rfl hs]

/-- What the trades have earned, after a fill: less by what the fill cost. -/
theorem figure_result_apply (hl : l.Agrees) (hno : ¬l.OpensDust f)
    (hdust : ¬Scalar.abs f.quantity < dust) :
    figure (·.profit) OpenTrade.result (l.apply f).openTrade (l.apply f).closedTrades =
      figure (·.profit) OpenTrade.result l.openTrade l.closedTrades -
        (f.quantity * f.price + f.commission) := by
  have hs := openedSide_along hdust
  refine (figure_apply
    (-((openedSide f).sign * ((l.splitOf f).closing * f.price)) -
      f.commission * (l.splitOf f).closeShare)
    (-((openedSide f).sign * ((l.splitOf f).opening * f.price)) -
      f.commission * (1 - (l.splitOf f).closeShare))
    hno hdust (fun _ _ _ => rfl) (fun _ => rfl) ?_ ?_ ?_ ?_).trans ?_
  · intro hclosing hshare
    rw [hclosing, hshare]
    ring
  · intro hclosing
    obtain ⟨o, ho, hne⟩ := exists_open_of_closing hl rfl rfl hs hclosing
    refine ⟨o, ho, ?_⟩
    simp only [OpenTrade.result, bookExit, sign_of_ne hne]
    ring
  · intro hopening hshare
    rw [hopening, hshare]
    ring
  · intro hopens
    cases hr : (l.closePart (l.splitOf f) f).1 with
    | none =>
      simp only [OpenTrade.result, bookEntry, Option.elim_none, openedSide, Rational.nat_eq]
      push_cast
      ring
    | some o =>
      have hside := side_of_remaining hl rfl rfl hs hopens hr
      simp only [OpenTrade.result, bookEntry, Option.elim_some, hside, Rational.nat_eq]
      push_cast
      ring
  · have hopening : (l.splitOf f).opening = |f.quantity| - (l.splitOf f).closing := rfl
    rw [hopening]
    linear_combination -f.price * sign_mul_abs f

/-- A cost that a fill shares between what it closes and what it opens. -/
theorem figure_cost_apply (ofTrade : Trade ℚ → ℚ) (ofOpen : OpenTrade ℚ → ℚ) (cost : ℚ)
    (hl : l.Agrees) (hno : ¬l.OpensDust f)
    (hdust : ¬Scalar.abs f.quantity < dust)
    (hclose : ∀ o bar time, ofTrade (OpenTrade.close o bar time) = ofOpen o)
    (hpeak : ∀ o, ofOpen (raisePeak (l.splitOf f) o) = ofOpen o)
    (hexit : ∀ o, ofOpen (bookExit (l.splitOf f) f o) = ofOpen o + cost * (l.splitOf f).closeShare)
    (hentry : ∀ r, ofOpen (bookEntry (l.splitOf f) f r) =
      r.elim 0 ofOpen + cost * (1 - (l.splitOf f).closeShare)) :
    figure ofTrade ofOpen (l.apply f).openTrade (l.apply f).closedTrades =
      figure ofTrade ofOpen l.openTrade l.closedTrades + cost := by
  refine (figure_apply (cost * (l.splitOf f).closeShare) (cost * (1 - (l.splitOf f).closeShare))
    hno hdust hclose hpeak ?_ ?_ ?_ fun _ => hentry _).trans ?_
  · intro _ hshare
    rw [hshare, mul_zero]
  · intro hclosing
    obtain ⟨o, ho, -⟩ := exists_open_of_closing hl rfl rfl (openedSide_along hdust) hclosing
    exact ⟨o, ho, hexit o⟩
  · intro _ hshare
    rw [hshare, sub_self, mul_zero]
  · ring

theorem commission_bookEntry (r : Option (OpenTrade ℚ)) :
    (bookEntry s f r).commission = r.elim 0 (·.commission) + f.commission * (1 - s.closeShare) := by
  cases r with
  | none => exact (zero_add _).symm
  | some o => rfl

theorem slippage_bookEntry (r : Option (OpenTrade ℚ)) :
    (bookEntry s f r).slippage = r.elim 0 (·.slippage) + f.slippage * (1 - s.closeShare) := by
  cases r with
  | none => exact (zero_add _).symm
  | some o => rfl

/-! ## Reconciled ledgers -/

theorem reconciles_iff (cash : ℚ) : l.Reconciles cash ↔
    l.portfolio.cash =
        cash + figure (·.profit) OpenTrade.result l.openTrade l.closedTrades ∧
      l.totalCommission = figure (·.commission) (·.commission) l.openTrade l.closedTrades ∧
      l.totalSlippage = figure (·.slippage) (·.slippage) l.openTrade l.closedTrades := by
  have hsum (v : Trade ℚ → ℚ) : (l.trades.map v).sum = (l.closedTrades.map v).sum := by
    rw [trades, List.map_reverse, List.sum_reverse]
  unfold figure
  constructor
  · rintro ⟨hcash, hcommission, hslippage⟩
    rw [hsum] at hcash hcommission hslippage
    exact ⟨by rw [hcash, add_assoc], hcommission, hslippage⟩
  · rintro ⟨hcash, hcommission, hslippage⟩
    exact ⟨by rw [hsum, hcash, add_assoc], by rw [hsum, hcommission], by rw [hsum, hslippage]⟩

/-- A fill that opens no dust keeps the ledger reconciled. -/
theorem Reconciles.apply {cash : ℚ} (h : l.Reconciles cash) (hl : l.Agrees)
    (hno : ¬l.OpensDust f) : (l.apply f).Reconciles cash := by
  by_cases hdust : Scalar.abs f.quantity < dust
  · rwa [apply_of_dust hdust]
  · rw [reconciles_iff] at h ⊢
    obtain ⟨hcash, hcommission, hslippage⟩ := h
    have hpaid := figure_cost_apply (·.commission) (·.commission) f.commission hl hno hdust
      (fun _ _ _ => rfl) (fun _ => rfl) (fun _ => rfl) commission_bookEntry
    have hslipped := figure_cost_apply (·.slippage) (·.slippage) f.slippage hl hno hdust
      (fun _ _ _ => rfl) (fun _ => rfl) (fun _ => rfl) slippage_bookEntry
    rw [figure_result_apply hl hno hdust, hpaid, hslipped, ← hcommission, ← hslippage,
      apply_of_not_dust hdust]
    refine ⟨?_, rfl, rfl⟩
    simp only
    rw [hcash]
    ring

theorem reconciles_ofCash (cash : ℚ) : (ofCash cash).Reconciles cash := by
  constructor <;> simp [ofCash, trades, Portfolio.ofCash]

/-- A reconciled ledger without a position holds the starting cash and the profits. -/
theorem Reconciles.cash_of_flat {cash : ℚ} (h : l.Reconciles cash) (hl : l.Agrees)
    (hflat : l.portfolio.quantity = 0) :
    l.portfolio.cash = cash + (l.trades.map (·.profit)).sum := by
  have hsome := hl.isSome_eq
  rw [Portfolio.isFlat, hflat] at hsome
  have hnone : l.openTrade = none := Option.not_isSome_iff_eq_none.1 (by simp [hsome])
  rw [h.cash_eq, hnone]
  exact add_zero _

theorem Agrees.apply_of_not_opensDust (hl : l.Agrees) (hno : ¬l.OpensDust f) :
    (l.apply f).Agrees := by
  refine (agrees_apply_iff hl rfl rfl).2 fun hbad => ?_
  have heq : (l.splitOf f).opening = dust := by simpa using hbad.opening
  exact hno ⟨hbad.booked, heq ▸ dust_pos, heq.le⟩

theorem reconciles_applyAll {cash : ℚ} (fills : List (Fill ℚ)) (h : l.Reconciles cash)
    (hl : l.Agrees)
    (hno : ∀ k f, fills[k]? = some f → ¬(l.applyAll (fills.take k)).OpensDust f) (k : ℕ) :
    (l.applyAll (fills.take k)).Reconciles cash ∧ (l.applyAll (fills.take k)).Agrees := by
  induction fills generalizing l k with
  | nil => exact ⟨by simpa using h, by simpa using hl⟩
  | cons f fills ih =>
    cases k with
    | zero => exact ⟨h, hl⟩
    | succ k =>
      have hfirst := hno 0 f rfl
      exact ih (h.apply hl hfirst) (hl.apply_of_not_opensDust hfirst)
        (fun k g hg => hno (k + 1) g hg) k

theorem opensDust_exact : l.exact.OpensDust f.exact ↔ l.OpensDust f := by
  constructor
  · rintro ⟨hbooked, hpos, hle⟩
    rw [abs_lt_dust_exact] at hbooked
    rw [splitOf_exact l hbooked] at hpos hle
    exact ⟨hbooked, Extended.finite_lt.1 hpos, Extended.finite_le.1 hle⟩
  · rintro ⟨hbooked, hpos, hle⟩
    refine ⟨fun h => hbooked (abs_lt_dust_exact.1 h), ?_, ?_⟩
    · rw [splitOf_exact l hbooked]
      exact Extended.finite_lt.2 hpos
    · rw [splitOf_exact l hbooked]
      exact Extended.finite_le.2 hle

/-- In exact arithmetic, after any number of fills none of which opens dust, all numbers of the
ledger are rational; cash, commission and slippage are those of the trades; and without a position
cash is the starting cash plus the profits. -/
theorem reconciles (cash : ℚ) (fills : List (Fill ℚ))
    (hno : ∀ k f, fills[k]? = some f →
      ¬((ofCash (.finite cash)).applyAll ((fills.take k).map Fill.exact)).OpensDust f.exact)
    (k : ℕ) :
    ∃ l : Ledger ℚ,
      (ofCash (.finite cash)).applyAll ((fills.take k).map Fill.exact) = l.exact ∧
      l.Reconciles cash ∧
      (l.portfolio.quantity = 0 →
        l.portfolio.cash = cash + (l.trades.map (·.profit)).sum) := by
  have hexact (k : ℕ) : (ofCash (.finite cash)).applyAll ((fills.take k).map Fill.exact) =
      ((ofCash cash).applyAll (fills.take k)).exact :=
    applyAll_exact (ofCash cash) (fills.take k)
  have hno' : ∀ k f, fills[k]? = some f →
      ¬((ofCash cash).applyAll (fills.take k)).OpensDust f := fun k f hf hbad =>
    hno k f hf (hexact k ▸ opensDust_exact.2 hbad)
  obtain ⟨hreconciles, hagrees⟩ :=
    reconciles_applyAll fills (reconciles_ofCash cash) (agrees_ofCash cash) hno' k
  exact ⟨_, hexact k, hreconciles, hreconciles.cash_of_flat hagrees⟩

def reversal : List (Fill ℚ) :=
  [{ Fill.plain 3 2 100 with commission := 1 }, .plain 4 1 110,
    { Fill.plain 5 (-1) 120 with slippage := 1 / 2 },
    { Fill.plain 8 (-5) 90 with commission := 3, slippage := 1 }, .plain 9 (1 / 10 ^ 10) 50,
    { Fill.plain 10 3 80 with commission := 2 }]

theorem reconciles_reversal :
    (∀ k f, reversal[k]? = some f →
      ¬((ofCash (.finite 10000)).applyAll ((reversal.take k).map Fill.exact)).OpensDust
        f.exact) ∧
    ∃ l : Ledger ℚ,
      (ofCash (.finite 10000)).applyAll ((reversal.take 6).map Fill.exact) = l.exact ∧
      l.Reconciles 10000 ∧ l.portfolio.cash = 10000 + (l.trades.map (·.profit)).sum := by
  have hno : ∀ k f, reversal[k]? = some f →
      ¬((ofCash (.finite 10000)).applyAll ((reversal.take k).map Fill.exact)).OpensDust
        f.exact := by
    intro k f hk hbad
    match k, hk with
    | 0, rfl => exact absurd hbad.le (by decide +kernel)
    | 1, rfl => exact absurd hbad.le (by decide +kernel)
    | 2, rfl => exact absurd hbad.pos (by decide +kernel)
    | 3, rfl => exact absurd hbad.le (by decide +kernel)
    | 4, rfl => exact hbad.booked (by decide +kernel)
    | 5, rfl => exact absurd hbad.pos (by decide +kernel)
  obtain ⟨l, hl, hreconciles, hflat⟩ := reconciles 10000 reversal hno 6
  have hquantity : Extended.finite l.portfolio.quantity = .finite 0 := by
    change l.exact.portfolio.quantity = _
    rw [← hl]
    decide +kernel
  exact ⟨hno, l, hl, hreconciles, hflat (Extended.finite.inj hquantity)⟩

end Ledger

end Backtest
