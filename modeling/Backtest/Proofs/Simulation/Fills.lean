import Backtest.Proofs.Simulation.Compounding

/-!
# The fills of a run

A run books at most one fill a bar. Its position and its trades are those of a ledger that books
these fills and nothing else: neither marking the account nor lifting its cash touches them. In
exact arithmetic the fills are rational, and their slippage is what the traded quantity would have
come to at the raw opening price, less what it came to.
-/

namespace Backtest

open Scalar

section Log

variable {α : Type}

def Order.Outcome.fill? : Order.Outcome α → Option (Fill α)
  | .filled f => some f
  | .unchanged | .noOpening => none

@[simp] theorem Order.Outcome.fill?_eq_some_iff {o : Order.Outcome α} {f : Fill α} :
    o.fill? = some f ↔ o = .filled f := by
  cases o <;> simp [fill?]

namespace Ledger

/-- The same position and the same trades; cash, average price and totals may differ. -/
structure SameLog (l l' : Ledger α) : Prop where
  quantity : l.portfolio.quantity = l'.portfolio.quantity
  openTrade : l.openTrade = l'.openTrade
  closedTrades : l.closedTrades = l'.closedTrades

variable {l l' l'' : Ledger α}

theorem SameLog.refl (l : Ledger α) : l.SameLog l := ⟨rfl, rfl, rfl⟩

theorem SameLog.trans (h : l.SameLog l') (h' : l'.SameLog l'') : l.SameLog l'' :=
  ⟨h.quantity.trans h'.quantity, h.openTrade.trans h'.openTrade,
    h.closedTrades.trans h'.closedTrades⟩

variable [Scalar α]

theorem sameLog_mark (l : Ledger α) (price : α) : (l.mark price).SameLog l := ⟨rfl, rfl, rfl⟩

theorem sameLog_snapCash (l : Ledger α) (tolerance : α) : (l.snapCash tolerance).SameLog l :=
  ⟨quantity_snapCash l tolerance, openTrade_snapCash l tolerance, closedTrades_snapCash l tolerance⟩

/-- How a fill is booked to the trades depends on the position and the trades alone. -/
theorem SameLog.apply (h : l.SameLog l') (f : Fill α) : (l.apply f).SameLog (l'.apply f) := by
  by_cases hdust : abs f.quantity < dust
  · rwa [apply_of_dust hdust, apply_of_dust hdust]
  · have hsplit : l.splitOf f = l'.splitOf f := by rw [splitOf, splitOf, h.quantity]
    have hclose : l.closePart (l'.splitOf f) f = l'.closePart (l'.splitOf f) f := by
      rw [closePart, closePart, h.quantity, h.openTrade, h.closedTrades]
    rw [apply_of_not_dust hdust, apply_of_not_dust hdust, hsplit, hclose]
    exact ⟨rfl, rfl, rfl⟩

theorem SameLog.applyAll (h : l.SameLog l') (fills : List (Fill α)) :
    (l.applyAll fills).SameLog (l'.applyAll fills) := by
  induction fills generalizing l l' with
  | nil => exact h
  | cons f fills ih => exact ih (h.apply f)

end Ledger

namespace Simulation

variable [Scalar α]

/-- The fill that the signal of the close before a bar comes to at its opening. -/
def fillAt? (s : Setup α) (past : List (Bar α)) (bar : Bar α) (a : Account α) :
    Option (Fill α) := do
  let signal ← (signalAt s (.ofSeries past)).toOption
  let requested ← signal.weight?
  let signalBar ← past.getLast?
  if isFinite requested then (orderAt s past signal requested signalBar bar a).fill? else none

def fillsOf (s : Setup α) : List (Bar α) → List (Bar α) → Account α → List (Fill α)
  | _, [], _ => []
  | past, bar :: rest, a =>
    match step s (.ofSeries past) bar a with
    | .ok a' => (fillAt? s past bar a).toList ++ fillsOf s (past ++ [bar]) rest a'
    | .error _ => []

def fills (bars : List (Bar α)) (start : Nat) (strategy : Strategy α)
    (assigned : Parameter.Assignment α) (costs : Costs α) : List (Fill α) :=
  match prepare bars start strategy assigned costs with
  | .ok s =>
    fillsOf s (bars.take start) (bars.drop start)
      (.start costs.startingCash (((bars[start]?).map (·.time)).getD default))
  | .error _ => []

variable {s : Setup α} {past rest : List (Bar α)} {bar : Bar α} {a a' : Account α}

theorem fillAt?_eq_some_iff {f : Fill α} :
    fillAt? s past bar a = some f ↔
      ∃ signal, signalAt s (.ofSeries past) = .ok signal ∧
        ∃ requested, signal.weight? = some requested ∧
          ∃ signalBar, past.getLast? = some signalBar ∧ isFinite requested = true ∧
            orderAt s past signal requested signalBar bar a = .filled f := by
  simp [fillAt?, Option.bind_eq_some_iff, toOption_eq_some_iff]

theorem execute_sameLog {signal : Signal α} (hpast : past ≠ [])
    (hsignal : signalAt s (.ofSeries past) = .ok signal)
    (h : execute s (.ofSeries past) signal bar a = .ok a') :
    a'.ledger.SameLog (a.ledger.applyAll (fillAt? s past bar a).toList) := by
  rcases execute_cases hpast h with ⟨hweight, rfl⟩ |
    ⟨requested, signalBar, hweight, hlast, hfinite, rfl⟩
  · have hnone : fillAt? s past bar a' = none := by
      simp [fillAt?, hsignal, hweight, Except.toOption]
    rw [hnone]
    exact .refl _
  · have hfill : fillAt? s past bar a =
        (orderAt s past signal requested signalBar bar a).fill? := by
      simp [fillAt?, hsignal, hweight, hlast, hfinite, Except.toOption]
    rw [hfill]
    cases orderAt s past signal requested signalBar bar a with
    | unchanged => exact .refl _
    | noOpening => exact .refl _
    | filled f => exact Ledger.sameLog_snapCash _ _

/-- A bar books its fill and nothing else. -/
theorem step_sameLog (h : step s (.ofSeries past) bar a = .ok a') :
    a'.ledger.SameLog (a.ledger.applyAll (fillAt? s past bar a).toList) := by
  rcases step_eq_ok_iff.1 h with ⟨rfl, rfl⟩ | ⟨hpast, signal, hsignal, mid, hmid, rfl⟩
  · have hnone : fillAt? s [] bar a = none := by
      cases hsignal : signalAt s (.ofSeries []) <;> simp [fillAt?]
    rw [hnone]
    exact Ledger.sameLog_mark _ _
  · exact (Ledger.sameLog_mark _ _).trans (execute_sameLog hpast hsignal hmid)

theorem play_sameLog (h : play s (.ofSeries past) rest a = .ok a') :
    a'.ledger.SameLog (a.ledger.applyAll (fillsOf s past rest a)) := by
  induction rest generalizing past a with
  | nil =>
    cases h
    exact .refl _
  | cons bar rest ih =>
    obtain ⟨mid, hmid, hrest⟩ := play_cons.1 h
    have hfills : fillsOf s past (bar :: rest) a =
        (fillAt? s past bar a).toList ++ fillsOf s (past ++ [bar]) rest mid := by
      rw [fillsOf, hmid]
    rw [hfills, Ledger.applyAll, List.foldl_append]
    exact (ih hrest).trans ((step_sameLog hmid).applyAll _)

/-- The trades of a run are those of a ledger that books its fills. -/
theorem trades_eq_applyAll {bars : List (Bar α)} {start : Nat} {strategy : Strategy α}
    {assigned : Parameter.Assignment α} {costs : Costs α} {sim : Simulation α}
    (h : runFrom bars start strategy assigned costs = .ok sim) :
    sim.trades = ((Ledger.ofCash costs.startingCash).applyAll
      (fills bars start strategy assigned costs)).trades := by
  obtain ⟨setup, hprepare, account, hplay, rfl⟩ := runFrom_eq_ok_iff.1 h
  have hlog := play_sameLog hplay
  simp only [fills, hprepare]
  exact congrArg List.reverse hlog.closedTrades

end Simulation

end Log

/-! ## Rational fills -/

open Extended

/-- What the fill has slipped is what its quantity comes to at its price, less what it comes to at
the raw opening price of its bar. -/
def Fill.SlipsFrom (bars : List (Bar Extended)) (f : Fill ℚ) : Prop :=
  ∃ opening : ℚ, openingAt bars f.bar = .finite opening ∧
    f.slippage = f.quantity * (f.price - opening)

theorem Order.slippage_of_filled {c : Costs ℚ} {p : Portfolio ℚ} {weight : ℚ} {discrete : Bool}
    {signalTime : Timestamp} {n : ℕ} {bar : Bar ℚ} {f : Fill ℚ}
    (h : outcome c p discrete weight signalTime n bar = .filled f) :
    f.bar = n ∧ f.slippage = f.quantity * (f.price - bar.openPrice) := by
  obtain ⟨-, -, -, hf⟩ := outcome_eq_filled h
  have hprice : f.price =
      if 0 < f.quantity then buyPrice c bar.openPrice else sellPrice c bar.openPrice := by
    simpa using congrArg Fill.price hf
  have hslippage : f.slippage = |f.quantity| * bar.openPrice * c.slippageRate :=
    congrArg Fill.slippage hf
  refine ⟨congrArg Fill.bar hf, ?_⟩
  rw [hslippage, hprice]
  split
  · rw [abs_of_pos ‹_›]
    simp only [buyPrice, Rational.nat_eq, Nat.cast_one]
    ring
  · rw [abs_of_nonpos (not_lt.1 ‹_›)]
    simp only [sellPrice, Rational.nat_eq, Nat.cast_one]
    ring

namespace Simulation

variable {s : Setup Extended} {c : Costs ℚ} {past rest : List (Bar Extended)} {bar : Bar Extended}
  {a a' : Account Extended} {b : Account ℚ}

/-- The fill of a rational account at a bar is rational. -/
theorem fillAt?_exact (hs : s.costs = c.exact) (hc : c.Valid) {f : Fill Extended}
    (h : fillAt? s past bar b.exact = some f) (rest : List (Bar Extended)) :
    ∃ q : Fill ℚ, f = q.exact ∧ q.SlipsFrom (past ++ bar :: rest) := by
  obtain ⟨signal, -, requested, -, signalBar, -, hfinite, horder⟩ := fillAt?_eq_some_iff.1 h
  obtain ⟨requested, rfl⟩ := Extended.isFinite_iff.1 hfinite
  rw [orderAt, hs, Order.allowedWeight_exact] at horder
  cases hopening : isFinite bar.openPrice with
  | false =>
    rcases Order.outcome_of_not_isFinite hopening with hnone | hnone
    · cases hnone.symm.trans horder
    · cases hnone.symm.trans horder
  | true =>
    obtain ⟨opening, hopening⟩ := Extended.isFinite_iff.1 hopening
    have hexact := (Order.outcome_exact hc b.ledger.portfolio signal.isDiscrete
      (Order.allowedWeight c requested).1 signalBar.time past.length hopening).symm.trans horder
    cases hq : Order.outcome c b.ledger.portfolio signal.isDiscrete
        (Order.allowedWeight c requested).1 signalBar.time past.length
        (Order.openingBar bar.time opening) with
    | unchanged => simp [hq, Order.Outcome.exact] at hexact
    | noOpening => simp [hq, Order.Outcome.exact] at hexact
    | filled q =>
      rw [hq] at hexact
      cases hexact
      obtain ⟨hbar, hslips⟩ := Order.slippage_of_filled hq
      exact ⟨q, rfl, opening, by simp [openingAt, hbar, hopening], hslips⟩

/-- The fills of a rational account at any bars are rational. -/
theorem fillsOf_exact (hs : s.costs = c.exact) (hc : c.Valid) (past rest : List (Bar Extended))
    (b : Account ℚ) :
    ∃ qs : List (Fill ℚ), fillsOf s past rest b.exact = qs.map Fill.exact ∧
      ∀ q ∈ qs, q.SlipsFrom (past ++ rest) := by
  induction rest generalizing past b with
  | nil => exact ⟨[], rfl, List.forall_mem_nil _⟩
  | cons bar rest ih =>
    rw [fillsOf]
    cases hstep : step s (.ofSeries past) bar b.exact with
    | error e => exact ⟨[], rfl, List.forall_mem_nil _⟩
    | ok mid =>
      obtain ⟨mid, rfl, -⟩ := step_exact hs hc hstep
      obtain ⟨qs, hqs, hslips⟩ := ih (past ++ [bar]) mid
      rw [List.append_assoc] at hslips
      cases hfill : fillAt? s past bar b.exact with
      | none => exact ⟨qs, hqs, hslips⟩
      | some f =>
        obtain ⟨q, rfl, hq⟩ := fillAt?_exact hs hc hfill rest
        exact ⟨q :: qs, congrArg (q.exact :: ·) hqs, List.forall_mem_cons.2 ⟨hq, hslips⟩⟩

/-- The fills of a run are rational. -/
theorem fills_exact {bars : List (Bar Extended)} {start : ℕ} {strategy : Strategy Extended}
    {assigned : Parameter.Assignment Extended} (hc : c.Valid) :
    ∃ qs : List (Fill ℚ), fills bars start strategy assigned c.exact = qs.map Fill.exact ∧
      ∀ q ∈ qs, q.SlipsFrom bars := by
  unfold fills
  cases hprepare : prepare bars start strategy assigned c.exact with
  | error e => exact ⟨[], rfl, List.forall_mem_nil _⟩
  | ok setup =>
    obtain ⟨-, -, -, parameters, -, indicators, -, rfl⟩ := prepare_eq_ok_iff.1 hprepare
    have hfills := fillsOf_exact (s := ⟨strategy, parameters, .compute bars indicators, c.exact⟩)
      rfl hc (bars.take start) (bars.drop start)
      (.start c.startingCash (((bars[start]?).map (·.time)).getD default))
    rwa [List.take_append_drop] at hfills

end Simulation

end Backtest
