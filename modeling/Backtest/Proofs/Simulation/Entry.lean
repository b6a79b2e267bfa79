import Backtest.Proofs.Simulation.Compounding

/-!
# One entry and no exit

A run whose signals are flat at first and long from some bar on goes into the market at most once.
What it asks for is what it holds, or it holds nothing; so no fill meets a position, and no trade is
closed.
-/

namespace Backtest

open Extended Scalar

namespace Ledger

variable {l : Ledger ℚ} {f : Fill ℚ}

theorem closedTrades_apply_of_flat (hq : l.portfolio.quantity = 0) :
    (l.apply f).closedTrades = l.closedTrades := by
  by_cases hdust : Scalar.abs f.quantity < dust
  · rw [apply_of_dust hdust]
  · have hclosing : (l.splitOf f).closing = 0 := by simp [splitOf, split, hq]
    rw [apply_of_not_dust hdust]
    simp [closePart, hclosing]

end Ledger

namespace Order

variable {c : Costs ℚ}

theorem allowedWeight_of_mem (hc : c.Valid) {weight : ℚ} (hlow : 0 ≤ weight) (hhigh : weight ≤ 1) :
    (allowedWeight c weight).1 = weight := by
  rw [allowedWeight, clamp_maxWeight hc (by linarith) hhigh]
  simp [hlow.not_gt]

end Order

namespace Simulation

variable {c : Costs ℚ} {past bars : List (Bar Extended)} {bar : Bar Extended} {b b' : Account ℚ}
  {s : Setup Extended} {a : Account Extended} {n start k : ℕ} {strategy : Strategy Extended}
  {assigned : Parameter.Assignment Extended} {costs : Costs Extended}

/-- Out of the market, a flat signal is settled. -/
theorem Executes.ledger_of_flat (hc : c.Valid) (hq : b.ledger.portfolio.quantity = 0)
    (h : Executes c past .flat bar b b') : b'.ledger = b.ledger := by
  cases h with
  | held => rfl
  | unopened houtcome => rcases houtcome with rfl | rfl <;> rfl
  | @ordered requested opening signalBar hweight =>
    obtain rfl : (0 : ℚ) = requested := by simpa [Signal.weight?] using hweight
    have hsettled (discrete : Bool) :
        Order.isSettled discrete b.ledger.portfolio.quantity 0 = true := by
      simp [Order.isSettled, hq]
    rw [Order.allowedWeight_of_mem hc le_rfl zero_le_one, Order.outcome, if_pos (hsettled _)]
    rfl

/-- A long signal buys from flat, and is settled in the market. -/
theorem Executes.enters (hc : c.Valid) (hq : 0 ≤ b.ledger.portfolio.quantity)
    (h : Executes c past .long bar b b') :
    b'.ledger.closedTrades = b.ledger.closedTrades ∧ 0 ≤ b'.ledger.portfolio.quantity := by
  cases h with
  | held => exact ⟨rfl, hq⟩
  | unopened houtcome => rcases houtcome with rfl | rfl <;> exact ⟨rfl, hq⟩
  | @ordered requested opening signalBar hweight =>
    obtain rfl : (1 : ℚ) = requested := by simpa [Signal.weight?] using hweight
    rw [Order.allowedWeight_of_mem hc zero_le_one le_rfl]
    cases hf : Order.outcome c b.ledger.portfolio Signal.long.isDiscrete 1 signalBar.time
      past.length (Order.openingBar bar.time opening) with
    | unchanged => exact ⟨rfl, hq⟩
    | noOpening => exact ⟨rfl, hq⟩
    | filled f =>
      obtain ⟨hsettled, -, -, -⟩ := Order.outcome_eq_filled hf
      obtain ⟨hopening, hdust, hquantity, -⟩ := Order.filled_cases hc hf
      have hflat : b.ledger.portfolio.quantity = 0 := by
        by_contra hheld
        have hpos := lt_of_le_of_ne hq (Ne.symm hheld)
        simp [Order.isSettled, Signal.isDiscrete, Side.ofQuantity?, hpos] at hsettled
      have hafter := Order.quantity_add_nonneg (p := b.ledger.portfolio) hc hopening zero_le_one hq
      rw [← hquantity] at hafter
      simp only [Account.carryOut, Ledger.closedTrades_snapCash, Ledger.quantity_snapCash]
      refine ⟨Ledger.closedTrades_apply_of_flat hflat, ?_⟩
      rw [Ledger.apply_of_not_dust hdust]
      exact Ledger.split_after_nonneg hafter

/-- Nothing closed, not short, and out of the market after fewer than `n` bars. -/
structure Entering (n : ℕ) (past : List (Bar Extended)) (b : Account ℚ) : Prop where
  closedTrades : b.ledger.closedTrades = []
  quantity_nonneg : 0 ≤ b.ledger.portfolio.quantity
  quantity_eq_zero : past.length < n → b.ledger.portfolio.quantity = 0

theorem Entering.mark {time : Timestamp} {close? : Option ℚ} (h : Entering n past b) :
    Entering n (past ++ [bar]) (b.mark time close?) where
  closedTrades := h.closedTrades
  quantity_nonneg := h.quantity_nonneg
  quantity_eq_zero hshort := by
    rw [List.length_append] at hshort
    exact h.quantity_eq_zero (by omega)

/-- The signals of a history are flat while it is shorter than `n` bars, and long from then on. -/
def Enters (n : ℕ) (s : Setup Extended) (past : List (Bar Extended)) : Prop :=
  ∀ signal, signalAt s (.ofSeries past) = .ok signal →
    signal = if past.length < n then .flat else .long

theorem Entering.meets (hc : c.Valid) (hsignal : past ≠ [] → Enters n s past)
    (h : Entering n past b) (hb : Meets s c past bar b b') : Entering n (past ++ [bar]) b' := by
  cases hb with
  | first => exact h.mark
  | @next signal mid hpast hgiven hmid =>
    refine Entering.mark ?_
    have hsame := hsignal hpast signal hgiven
    by_cases hshort : past.length < n
    · rw [if_pos hshort] at hsame
      subst hsame
      have hledger := hmid.ledger_of_flat hc (h.quantity_eq_zero hshort)
      exact ⟨hledger ▸ h.closedTrades, hledger ▸ h.quantity_nonneg,
        fun _ => hledger ▸ h.quantity_eq_zero hshort⟩
    · rw [if_neg hshort] at hsame
      subst hsame
      obtain ⟨hclosed, hnonneg⟩ := hmid.enters hc h.quantity_nonneg
      exact ⟨hclosed.trans h.closedTrades, hnonneg, fun hshort' => absurd hshort' hshort⟩

theorem accountAfter_entering (hc : c.Valid)
    (hsignals : ∀ s, prepare bars start strategy assigned c.exact = .ok s →
      ∀ t < bars.length, Enters n s (bars.take (t + 1)))
    (h : accountAfter bars start strategy assigned c.exact k = .ok a) :
    ∃ b, a = b.exact ∧ Entering n (bars.take (start + k)) b := by
  refine accountAfter_prefix hc (fun time => ⟨rfl, le_rfl, fun _ => rfl⟩) ?_ h
  intro j hj s bar b b' hprepare hbar _ hb hmeets
  have hlt := (List.getElem?_eq_some_iff.1 hbar).1
  refine hb.meets hc (fun hpast => ?_) hmeets
  have hsome : start + j ≠ 0 := fun hzero => hpast (by rw [hzero, List.take_zero])
  obtain ⟨t, ht⟩ := Nat.exists_eq_succ_of_ne_zero hsome
  rw [ht]
  exact hsignals s hprepare t (by omega)

/-- A run that is flat at first and long from some bar on closes no trade. -/
theorem trades_of_enters (hprepare : prepare bars start strategy assigned costs = .ok s)
    (hsignals : ∀ t < bars.length, Enters n s (bars.take (t + 1)))
    {sim : Simulation Extended} (h : runFrom bars start strategy assigned costs = .ok sim) :
    sim.trades = [] := by
  obtain ⟨setup, -, a, ha, rfl⟩ := runFrom_eq_ok_iff_accountAfter.1 h
  obtain ⟨c, rfl, hc⟩ := exists_exact_of_accountAfter ha
  have hsignals' : ∀ s, prepare bars start strategy assigned c.exact = .ok s →
      ∀ t < bars.length, Enters n s (bars.take (t + 1)) := by
    intro s' hprepare'
    cases hprepare.symm.trans hprepare'
    exact hsignals
  obtain ⟨b, rfl, hentering⟩ := accountAfter_entering hc hsignals' ha
  simp [ofAccount, Ledger.trades, Account.exact, Ledger.exact, hentering.closedTrades]

end Simulation

end Backtest
