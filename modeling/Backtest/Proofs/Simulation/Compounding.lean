import Mathlib.Tactic.FieldSimp
import Backtest.Proofs.Simulation.Log
import Backtest.Proofs.Simulation.Stage

/-!
# Compounding

A run that may neither borrow nor go short, of a strategy that names no weights, goes from one stage
to the other in exact arithmetic. Cash turns into units at what a unit costs and units into cash at
what a unit brings, so cash is the starting cash compounded by the growth of each round trip, as far
as the trade log tells of them: a position of exactly dust is one without a trade.
-/

namespace Backtest

open Extended Scalar

/-- With these parameters the strategy never names a weight of its own. -/
def Strategy.AllOrNothing {α : Type} [Scalar α] (strategy : Strategy α)
    (assigned : Parameter.Assignment α) : Prop :=
  ∀ parameters, strategy.resolve assigned = .ok parameters → ∀ history view weight,
    strategy.evaluate history view parameters ≠ .ok (.target weight)

/-! ## Growth -/

section Growth

variable {α : Type} [Scalar α]

def openingAt (bars : List (Bar α)) (i : ℕ) : α := (bars[i]?.map (·.openPrice)).getD nan

/-- What a unit brings at the exit of a round trip, over what one cost at its entry. -/
def Trade.growth (bars : List (Bar α)) (costs : Costs α) (t : Trade α) : α :=
  Order.unitProceeds costs (openingAt bars t.exitBar) /
    Order.unitCost costs (openingAt bars t.entryBar)

def compounded (bars : List (Bar α)) (costs : Costs α) (trades : List (Trade α)) : α :=
  trades.foldl (fun cash t => cash * t.growth bars costs) costs.startingCash

theorem compounded_append_singleton (bars : List (Bar α)) (costs : Costs α)
    (trades : List (Trade α)) (t : Trade α) :
    compounded bars costs (trades ++ [t]) =
      compounded bars costs trades * t.growth bars costs := by
  simp [compounded, List.foldl_append]

end Growth

namespace Ledger

variable {c : Costs ℚ} {bars : List (Bar Extended)} {opening : ℚ} {l : Ledger ℚ} {f : Fill ℚ}

/-- Out of the market the compounded cash is held; all in, it is what the units cost when the open
trade was entered. -/
inductive Compounds (c : Costs ℚ) (bars : List (Bar Extended)) (l : Ledger ℚ) : Prop
  | out (hq : l.portfolio.quantity = 0)
      (hworth : compounded bars c.exact l.exact.trades = .finite l.portfolio.cash)
  | allIn {o : OpenTrade ℚ} {entry : ℚ} (hq : dust ≤ l.portfolio.quantity)
      (hopen : l.openTrade = some o) (hentry : openingAt bars o.entryBar = .finite entry)
      (hpos : 0 < entry)
      (hworth : compounded bars c.exact l.exact.trades =
        .finite (l.portfolio.quantity * Order.unitCost c entry))

theorem Compounds.of_flat (h : l.Compounds c bars) (hq : l.portfolio.quantity = 0) :
    compounded bars c.exact l.exact.trades = .finite l.portfolio.cash := by
  cases h with
  | out _ hworth => exact hworth
  | allIn hlong _ _ _ _ => exact absurd (hq ▸ hlong) dust_pos.not_ge

theorem exact_trades_cons {l' : Ledger ℚ} {t : Trade ℚ}
    (h : l'.closedTrades = t :: l.closedTrades) :
    l'.exact.trades = l.exact.trades ++ [t.exact] := by
  simp [trades, exact, h]

theorem exact_trades_congr {l' : Ledger ℚ} (h : l'.closedTrades = l.closedTrades) :
    l'.exact.trades = l.exact.trades := by
  simp [trades, exact, h]

/-- Growth of a round trip with these opening prices. -/
theorem growth_exact (hc : c.Valid) {entry : ℚ} (hpos : 0 < entry) {t : Trade Extended}
    (hentry : openingAt bars t.entryBar = .finite entry)
    (hexit : openingAt bars t.exitBar = .finite opening) :
    t.growth bars c.exact =
      .finite (Order.unitProceeds c opening / Order.unitCost c entry) := by
  have hcost : Order.unitCost c entry ≠ 0 := (Order.buyCost_pos hc hpos).ne'
  rw [Trade.growth, hentry, hexit, Order.unitProceeds_exact, Order.unitCost_exact,
    finite_div hcost]

/-- A fill of all at a bar keeps the compounding, unless it leaves exactly dust. -/
theorem Compounds.apply (hc : c.Valid) (hopening : 0 < opening) (hl : l.Stage)
    (h : l.Compounds c bars) (hf : Order.Whole c opening l.portfolio f)
    (hbar : openingAt bars f.bar = .finite opening)
    (hdust : (l.apply f).portfolio.quantity ≠ dust) : (l.apply f).Compounds c bars := by
  have hcash := cash_apply (l := l) hf.not_dust
  cases hf with
  | buys hq hmore hcost hspent =>
    obtain ⟨hafter, hclosed, htrade, hentryBar⟩ :=
      apply_from_flat hq (hl.openTrade_of_flat hq) hmore
    rw [hafter] at hdust
    obtain ⟨o, ho⟩ := Option.ne_none_iff_exists'.1 (mt htrade.1 hdust)
    refine .allIn (hafter ▸ hmore) ho (hentryBar o ho ▸ hbar) hopening ?_
    rw [exact_trades_congr hclosed, h.of_flat hq, hafter, hcost]
  | sells hq hf hspent =>
    cases h with
    | out hflat _ => exact absurd (hflat ▸ hq) dust_pos.not_ge
    | @allIn o entry _ hopen hentry hpos hworth =>
      obtain ⟨hafter, -, hcloses⟩ := apply_to_flat hq hf
      obtain ⟨t, ht, hclosed⟩ := hcloses o hopen
      have hgrowth : t.exact.growth bars c.exact =
          .finite (Order.unitProceeds c opening / Order.unitCost c entry) :=
        growth_exact hc hpos (by rw [Trade.exact, ht.entryBar, hentry])
          (by rw [Trade.exact, ht.exitBar, hbar])
      have hcost : Order.unitCost c entry ≠ 0 := (Order.buyCost_pos hc hpos).ne'
      refine .out hafter ?_
      -- the units are sold for what they cost times what they grew by
      rw [exact_trades_cons hclosed, compounded_append_singleton, hworth, hgrowth, finite_mul,
        hcash, hspent, hl.cash_of_held hq, sub_neg_eq_add, zero_add]
      field_simp

theorem Compounds.mark (h : l.Compounds c bars) (price : ℚ) :
    (l.mark price).Compounds c bars := by
  cases h with
  | out hq hworth => exact .out hq hworth
  | allIn hq hopen hentry hpos hworth => exact .allIn hq hopen hentry hpos hworth

end Ledger

/-! ## Runs -/

namespace Simulation

variable {s : Setup Extended} {c : Costs ℚ} {bars past : List (Bar Extended)} {bar : Bar Extended}
  {signal : Signal Extended} {b b' : Account ℚ} {start k : ℕ} {strategy : Strategy Extended}
  {assigned : Parameter.Assignment Extended} {a : Account Extended}

/-- Meeting a bar leads from stage to stage, and keeps the compounding unless it leaves exactly
dust. -/
theorem Meets.stage (hc : c.Valid) (hleverage : c.maxLeverage = 0) (hshort : c.allowShort = false)
    (hsignal : ∀ signal, signalAt s (.ofSeries past) = .ok signal → ∀ w, signal ≠ .target w)
    (hb : b.ledger.Stage) (h : Meets s c past bar b b') :
    b'.ledger.Stage ∧
      (openingAt bars past.length = bar.openPrice → b.ledger.Compounds c bars →
        b'.ledger.portfolio.quantity ≠ Ledger.dust → b'.ledger.Compounds c bars) := by
  cases h with
  | first => exact ⟨hb.mark _, fun _ hcompounds _ => hcompounds.mark _⟩
  | @next signal mid _ hgiven hmid =>
    rcases hmid.whole hc hleverage hshort (hsignal signal hgiven) hb with
      hsame | ⟨opening, f, hbar, hopening, hn, hall, hbooked⟩
    · exact ⟨(hsame ▸ hb).mark _, fun _ hcompounds _ => (hsame ▸ hcompounds).mark _⟩
    · refine ⟨(hbooked ▸ hb.apply hc hopening hall).mark _, fun hat hcompounds hdust => ?_⟩
      have hdust' : (b.ledger.apply f).portfolio.quantity ≠ Ledger.dust := hbooked ▸ hdust
      have happlied := hcompounds.apply hc hopening hb hall (by rw [hn, hat, hbar]) hdust'
      exact (hbooked ▸ happlied).mark _

/-- What holds of the account at the start and is kept by each of the next `k` bars that are there
holds after them; it may speak of the bars so far. -/
theorem accountAfter_prefix {P : List (Bar Extended) → Account ℚ → Prop} (hc : c.Valid)
    (hstart : ∀ time, P (bars.take start) (.start c.startingCash time))
    (hstep : ∀ j < k, ∀ s bar b b', prepare bars start strategy assigned c.exact = .ok s →
      bars[start + j]? = some bar →
      accountAfter bars start strategy assigned c.exact (j + 1) = .ok b'.exact →
      P (bars.take (start + j)) b → Meets s c (bars.take (start + j)) bar b b' →
      P (bars.take (start + j) ++ [bar]) b')
    (h : accountAfter bars start strategy assigned c.exact k = .ok a) :
    ∃ b, a = b.exact ∧ P (bars.take (start + k)) b := by
  induction k generalizing a with
  | zero =>
    obtain ⟨setup, -, hplay⟩ := accountAfter_eq_ok_iff.1 h
    rw [List.take_zero] at hplay
    cases hplay
    exact ⟨.start c.startingCash _, rfl, hstart _⟩
  | succ k ih =>
    rw [← Nat.add_assoc, List.take_add_one]
    rcases accountAfter_succ h with ⟨hnone, hsame⟩ | ⟨s, bar, mid, hprepare, hbar, hrun, hmeet⟩
    · rw [hnone, Option.toList_none, List.append_nil]
      exact ih (fun j hj => hstep j (Nat.lt_succ_of_lt hj)) hsame
    · rw [hbar, Option.toList_some]
      obtain ⟨b, rfl, hb⟩ := ih (fun j hj => hstep j (Nat.lt_succ_of_lt hj)) hrun
      have hs : s.costs = c.exact := by
        obtain ⟨-, -, -, _, -, _, -, rfl⟩ := prepare_eq_ok_iff.1 hprepare
        rfl
      obtain ⟨b', rfl, hmeets⟩ := step_exact hs hc hmeet
      exact ⟨b', rfl, hstep k (Nat.lt_succ_self k) s bar b b' hprepare hbar h hb hmeets⟩

theorem accountAfter_invariant {P : Account ℚ → Prop} (hc : c.Valid)
    (hstart : ∀ time, P (.start c.startingCash time))
    (hstep : ∀ j < k, ∀ s bar b b', prepare bars start strategy assigned c.exact = .ok s →
      bars[start + j]? = some bar →
      accountAfter bars start strategy assigned c.exact (j + 1) = .ok b'.exact →
      P b → Meets s c (bars.take (start + j)) bar b b' → P b')
    (h : accountAfter bars start strategy assigned c.exact k = .ok a) :
    ∃ b, a = b.exact ∧ P b :=
  accountAfter_prefix (P := fun _ => P) hc hstart hstep h

/-- The signals of a run of a strategy that names no weights. -/
theorem signalAt_ne_target (hstrategy : strategy.AllOrNothing assigned) {costs : Costs Extended}
    (hprepare : prepare bars start strategy assigned costs = .ok s) :
    ∀ signal, signalAt s (.ofSeries past) = .ok signal → ∀ w, signal ≠ .target w := by
  rintro signal hsignal w rfl
  obtain ⟨-, -, -, parameters, hparameters, _, -, rfl⟩ := prepare_eq_ok_iff.1 hprepare
  rw [signalAt, mapError_eq_ok_iff] at hsignal
  exact hstrategy parameters hparameters _ _ w hsignal

/-- No account of the run up to bar `k` holds exactly dust. -/
def NeverDust {α : Type} [Scalar α] (bars : List (Bar α)) (start : ℕ) (strategy : Strategy α)
    (assigned : Parameter.Assignment α) (costs : Costs α) (k : ℕ) : Prop :=
  ∀ j ≤ k, ∀ a, accountAfter bars start strategy assigned costs j = .ok a →
    a.ledger.portfolio.quantity ≠ Ledger.dust

theorem accountAfter_stage (hc : c.Valid) (hleverage : c.maxLeverage = 0)
    (hshort : c.allowShort = false) (hstrategy : strategy.AllOrNothing assigned)
    (h : accountAfter bars start strategy assigned c.exact k = .ok a) :
    ∃ b : Account ℚ, a = b.exact ∧ b.ledger.Stage ∧
      (NeverDust bars start strategy assigned c.exact k → b.ledger.Compounds c bars) := by
  refine accountAfter_invariant hc (fun time => ?_) ?_ h
  · exact ⟨.out rfl hc.startingCash_nonneg rfl, fun _ => .out rfl rfl⟩
  · rintro j hj s bar b b' hprepare hbar hrun ⟨hstage, hcompounds⟩ hmeets
    obtain ⟨hstage', hkept⟩ := hmeets.stage hc hleverage hshort
      (signalAt_ne_target hstrategy hprepare) hstage
    refine ⟨hstage', fun hnever => hkept ?_ (hcompounds hnever) fun hdust => ?_⟩
    · have hlt := (List.getElem?_eq_some_iff.1 hbar).1
      rw [List.length_take_of_le hlt.le, openingAt, hbar]
      rfl
    · exact hnever (j + 1) hj b'.exact hrun (congrArg finite hdust)

/-- In exact arithmetic, in a run that may neither borrow nor go short, of a strategy that names no
weights: while a position is held there is no cash, and no trade is open if and only if the position
is exactly `dust`; while none is held, cash is the starting cash times the growth of each closed
trade, unless the run has held exactly `dust`. What a finished run reports is the account after its
last bar. -/
theorem compounds (bars : List (Bar Extended)) (start : ℕ) (strategy : Strategy Extended)
    (assigned : Parameter.Assignment Extended) (costs : Costs Extended)
    (hleverage : costs.maxLeverage = nat 0) (hshort : costs.allowShort = false)
    (hstrategy : strategy.AllOrNothing assigned) :
    (∀ k a, accountAfter bars start strategy assigned costs k = .ok a →
      (a.ledger.portfolio.isFlat = false → a.ledger.portfolio.cash = nat 0 ∧
        (a.ledger.openTrade = none ↔ a.ledger.portfolio.quantity = Ledger.dust)) ∧
      (a.ledger.portfolio.isFlat = true → NeverDust bars start strategy assigned costs k →
        a.ledger.portfolio.cash = compounded bars costs a.ledger.trades)) ∧
    ∀ sim, runFrom bars start strategy assigned costs = .ok sim →
      ∃ a, accountAfter bars start strategy assigned costs (bars.length - start) = .ok a ∧
        sim.final = a.ledger.portfolio ∧ sim.trades = a.ledger.trades := by
  constructor
  · intro k a h
    obtain ⟨c, rfl, hc⟩ := exists_exact_of_accountAfter h
    have hnone : c.maxLeverage = 0 := by simpa [Costs.exact] using hleverage
    obtain ⟨b, rfl, hstage, hcompounds⟩ := accountAfter_stage hc hnone hshort hstrategy h
    have hflat : b.exact.ledger.portfolio.isFlat = decide (b.ledger.portfolio.quantity = 0) := by
      simp [Portfolio.isFlat, Account.exact, Ledger.exact, Portfolio.exact]
    rw [hflat, decide_eq_true_eq, decide_eq_false_iff_not]
    constructor
    · intro hheld
      cases hstage with
      | out hq => exact absurd hq hheld
      | allIn _ hcash hopen =>
        refine ⟨congrArg finite hcash, ?_⟩
        simpa [Account.exact, Ledger.exact, Portfolio.exact, Ledger.dust_exact] using hopen
    · intro hq hnever
      exact ((hcompounds hnever).of_flat hq).symm
  · intro sim h
    obtain ⟨setup, -, a, ha, rfl⟩ := runFrom_eq_ok_iff_accountAfter.1 h
    exact ⟨a, ha, rfl, rfl⟩

def erratic : Strategy Extended where
  name := "erratic"
  decide history _ :=
    .ok (match history.length with
      | 2 => .short
      | 4 | 7 => .hold
      | 6 => .flat
      | _ => .long)

def waves : List (Bar Extended) :=
  [.still 2 (.finite 100), .still 3 (.finite 90), .still 4 (.finite 120),
    { Bar.still 5 (.finite 110) with openPrice := .nan }, .still 8 (.finite 80),
    .still 9 (.finite 70), .still 10 (.finite 105), .still 11 (.finite 60)]

def dear : Costs Extended :=
  ⟨.finite 1000, .finite (1 / 100), .finite (1 / 50), nat 0, false⟩

theorem erratic_allOrNothing : erratic.AllOrNothing .empty := by
  intro parameters _ history view w h
  have h' : Except.ok _ = Except.ok (Signal.target w) := h
  split at h' <;> cases h'

theorem compounds_waves :
    dear.maxLeverage = nat 0 ∧ dear.allowShort = false ∧ erratic.AllOrNothing .empty ∧
      NeverDust waves 0 erratic .empty dear 8 ∧
      (∃ a, accountAfter waves 0 erratic .empty dear 6 = .ok a ∧
        a.ledger.portfolio.isFlat = false ∧ a.ledger.portfolio.cash = nat 0) ∧
      ∃ a, accountAfter waves 0 erratic .empty dear 8 = .ok a ∧
        a.rejectedSignals = 1 ∧ a.unfilledSignals = 1 ∧ a.ledger.trades.length = 2 ∧
        a.ledger.portfolio.isFlat = true ∧
        a.ledger.portfolio.cash = compounded waves dear a.ledger.trades := by
  have hnever : NeverDust waves 0 erratic .empty dear 8 := by
    have hall : ∀ j ∈ List.range 9, ((accountAfter waves 0 erratic .empty dear j).toOption.all
        fun a => a.ledger.portfolio.quantity ≠ Ledger.dust) = true := by
      decide +kernel
    intro j hj a ha
    have hj := hall j (List.mem_range.2 (Nat.lt_succ_of_le hj))
    rw [toOption_eq_some_iff.2 ha] at hj
    simpa using hj
  have hheld : (accountAfter waves 0 erratic .empty dear 6).toOption.map
      (·.ledger.portfolio.isFlat) = some false := by
    decide +kernel
  have hended : (accountAfter waves 0 erratic .empty dear 8).toOption.map
      (fun a => (a.rejectedSignals, a.unfilledSignals, a.ledger.trades.length,
        a.ledger.portfolio.isFlat)) = some (1, 1, 2, true) := by
    decide +kernel
  obtain ⟨a, ha, hheld⟩ := Option.map_eq_some_iff.1 hheld
  obtain ⟨d, hd, hended⟩ := Option.map_eq_some_iff.1 hended
  simp only [Prod.mk.injEq] at hended
  obtain ⟨hrejected, hunfilled, hlength, hflat⟩ := hended
  have ha := toOption_eq_some_iff.1 ha
  have hd := toOption_eq_some_iff.1 hd
  obtain ⟨hruns, -⟩ := compounds waves 0 erratic .empty dear rfl rfl erratic_allOrNothing
  exact ⟨rfl, rfl, erratic_allOrNothing, hnever, ⟨a, ha, hheld, ((hruns 6 a ha).1 hheld).1⟩,
    d, hd, hrejected, hunfilled, hlength, hflat, (hruns 8 d hd).2 hflat hnever⟩

def inAndOut : Strategy Extended where
  name := "in and out"
  decide history _ := .ok (if history.length = 1 then .long else .flat)

/-- Cash that buys exactly dust at 1 and is doubled at 2: no trade tells of it. -/
example :
    (accountAfter [.still 2 (finite 1), .still 3 (finite 1), .still 4 (finite 2)] 0 inAndOut .empty
      (.frictionless Ledger.dust) 3).toOption.map
        (fun a => (a.ledger.portfolio.cash, a.ledger.trades.length)) =
      some (Ledger.dust + Ledger.dust, 0) := by
  decide +kernel

end Simulation

end Backtest
