import Backtest.Proofs.Metrics.Range
import Backtest.Proofs.Simulation.Finiteness
import Backtest.Proofs.Simulation.Foresight
import Backtest.Proofs.Storage.Search
import Backtest.Storage.Bundle

/-!
# Stored runs read back

Settings and bounded figures of a run of a built-in strategy are finite, so its text is read back
exactly if the numbers that are not bounded are. Growth over drawdown is one of them: where growth
is held at its bound and less than everything is lost, the run ends well and its text is lost.
-/

namespace Backtest

open Scalar

/-! ## Finite settings -/

section

variable {α : Type} [Scalar α]

/-- A range without a fault, and a default that is no NaN. -/
def Parameter.Declaration.isFinite (d : Declaration α) : Bool :=
  d.domain.fault?.isNone && d.defaultValue.isFinite

variable {s : Parameter.Schema α} {d : Parameter.Declaration α} {a r : Parameter.Assignment α}
  {v w : Parameter.Value α}

theorem Parameter.Domain.isFinite_of_fault {low high step value : α}
    (h : (Domain.float low high step value).fault? = none) :
    Scalar.isFinite low = true ∧ Scalar.isFinite high = true := by
  simp only [fault?] at h
  split at h
  · cases h
  · rename_i hfinite
    simp only [Bool.not_eq_true, Bool.not_eq_false', Bool.and_eq_true] at hfinite
    exact hfinite.1

variable [Reading α]

/-- An accepted number lies between the bounds. -/
theorem Parameter.Declaration.isFinite_normalize (hd : d.domain.fault? = none)
    (h : d.normalize v = .ok w) : w.isFinite = true := by
  rcases normalize_cases h with ⟨_, _, _, _, n, -, -, -, -, rfl⟩ |
    ⟨low, high, _, _, x, hdomain, -, hx, hbelow, habove, rfl⟩ | ⟨_, _, c, -, -, -, rfl⟩
  · rfl
  · obtain ⟨hlow, hhigh⟩ := Domain.isFinite_of_fault (hdomain ▸ hd)
    exact Reading.isFinite_of_between hx hlow hhigh
      ((Reading.not_lt_iff hx (Reading.isNaN_of_isFinite hlow)).1 hbelow)
      ((Reading.not_lt_iff (Reading.isNaN_of_isFinite hhigh) hx).1 habove)
  · rfl

theorem Parameter.Schema.isFinite_settled (hd : d.isFinite = true)
    (h : settle a d = .ok (d.name, settled a d)) : (settled a d).isFinite = true := by
  obtain ⟨hfault, hdefault⟩ := Bool.and_eq_true_iff.1 hd
  obtain ⟨-, ⟨-, hvalue⟩ | ⟨v, -, hnormal⟩⟩ := settle_cases h
  · rwa [hvalue]
  · exact Declaration.isFinite_normalize (Option.isNone_iff_eq_none.1 hfault) hnormal

theorem Parameter.Schema.isFinite_of_resolve (hs : ∀ d ∈ s.declarations, d.isFinite = true)
    (h : s.resolve a = .ok r) : ∀ e ∈ r.entries, e.2.isFinite = true := by
  intro e he
  have hget := get?_of_resolve_eq_ok h e.1
  rw [NameMap.mem_entries_iff.1 he, eq_comm, Option.map_eq_some_iff] at hget
  obtain ⟨d, hfind, hvalue⟩ := hget
  have hd := List.mem_reverse.1 (List.mem_of_find?_eq_some hfind)
  rw [← hvalue]
  exact isFinite_settled (hs d hd) ((resolve_eq_ok h).1 d hd)

end

theorem Registry.isFinite_of_mem_builtins {strategy : Strategy Float}
    (h : strategy ∈ (builtins : Registry Float).list) :
    ∀ d ∈ strategy.schema.declarations, d.isFinite = true := by
  have hall : ∀ s ∈ [buyAndHold, Crossover.strategy, Momentum.strategy, Threshold.strategy],
      ∀ d ∈ s.schema.declarations, Parameter.Declaration.isFinite (α := Float) d = true := by
    decide +kernel
  rw [list_builtins] at h
  exact hall strategy h

theorem Costs.isFinite_of_isRate {x : Float} (h : isRate x = true) : isFinite x = true := by
  obtain ⟨hlow, hhigh⟩ := Bool.and_eq_true_iff.1 h
  have hlt := of_decide_eq_true hhigh
  have hx := Saturating.isNaN_of_lt hlt
  exact Reading.isFinite_of_between hx Reading.isFinite_zero rfl
    ((Double.le_iff Reading.isNaN_zero hx).1 (of_decide_eq_true hlow))
    ((Reading.lt_iff hx rfl).1 hlt).le

namespace Storage

variable {a : Parameter.Assignment Float} {c : Costs Float} {e : Evaluation Float}

theorem allFinite_costs (h : c.validate = .ok ()) : (ofCosts c).AllFinite := by
  obtain ⟨⟨hcash, -⟩, hcommission, hslippage, hleverage, -⟩ := Costs.validate_eq_ok_iff.1 h
  have hcommission := Costs.isFinite_of_isRate hcommission
  have hslippage := Costs.isFinite_of_isRate hslippage
  simp only [ofCosts, Document.allFinite_object, List.forall_mem_cons, List.not_mem_nil,
    false_implies, implies_true, Document.allFinite_float, Document.allFinite_bool, and_true]
  exact ⟨hcash, hcommission, hslippage, hleverage⟩

theorem allFinite_portfolio_iff {p : Portfolio Float} : (ofPortfolio p).AllFinite ↔ p.IsFinite := by
  simp only [ofPortfolio, Document.allFinite_object, List.forall_mem_cons, List.not_mem_nil,
    false_implies, implies_true, Document.allFinite_float, and_true]
  constructor
  · rintro ⟨hcash, hquantity, hprice, hequity⟩
    exact ⟨hcash, hquantity, hprice, hequity⟩
  · rintro ⟨hcash, hquantity, hprice, hequity⟩
    exact ⟨hcash, hquantity, hprice, hequity⟩

theorem allFinite_trade_iff {t : Trade Float} : (ofTrade t).AllFinite ↔ t.IsFinite := by
  simp only [ofTrade, Document.allFinite_object, List.forall_mem_cons, List.not_mem_nil,
    false_implies, implies_true, Document.allFinite_float, Document.allFinite_text,
    allFinite_time, allFinite_count, true_and, and_true]
  constructor
  · rintro ⟨hentry, hexit, hquantity, hcommission, hslippage, hprofit⟩
    exact ⟨hentry, hexit, hquantity, hcommission, hslippage, hprofit⟩
  · rintro ⟨hentry, hexit, hquantity, hcommission, hslippage, hprofit⟩
    exact ⟨hentry, hexit, hquantity, hcommission, hslippage, hprofit⟩

theorem allFinite_curve_iff {points : List (EquityPoint Float)} :
    (ofCurve points).AllFinite ↔ ∀ p ∈ points, isFinite p.equity = true := by
  simp only [ofCurve, ofPoint, Document.allFinite_list, List.forall_mem_map,
    Document.allFinite_object, List.forall_mem_cons, List.not_mem_nil, false_implies, implies_true,
    Document.allFinite_float, allFinite_time, true_and, and_true]
  rfl

end Storage

/-! ## The other numbers of a run -/

/-- Finite where no bound keeps a number of a run finite. -/
structure Evaluation.Legible (e : Evaluation Float) : Prop where
  equity : ∀ p ∈ e.equity, isFinite p.equity = true
  trades : ∀ t ∈ e.trades, t.IsFinite
  totalReturn : isFinite e.metrics.totalReturn = true
  sharpe : isFinite e.metrics.sharpe = true
  sortino : isFinite e.metrics.sortino = true
  calmar : isFinite e.metrics.calmar = true
  final : e.final.IsFinite
  totalCommission : isFinite e.totalCommission = true
  totalSlippage : isFinite e.totalSlippage = true

/-- Finite in every run of a built-in strategy. -/
structure Evaluation.Settled (e : Evaluation Float) : Prop where
  parameters : (Storage.ofAssignment e.parameters).AllFinite
  annualGrowth : isFinite e.metrics.annualGrowth = true
  maxDrawdown : isFinite e.metrics.maxDrawdown = true
  winRate : isFinite e.metrics.winRate = true
  costs : (Storage.ofCosts e.costs).AllFinite
  barsPerYear : isFinite e.barsPerYear = true

section

variable {bars : List (Bar Float)} {strategy : Strategy Float}
  {assigned : Parameter.Assignment Float} {costs : Costs Float} {barsPerYear : Float}
  {e : Evaluation Float}

theorem isFinite_of_checkBarsPerYear (h : checkBarsPerYear barsPerYear = .ok ()) :
    isFinite barsPerYear = true := by
  unfold checkBarsPerYear at h
  split at h
  · exact (‹_ ∧ _›).1
  · cases h

theorem Evaluation.settled [Powers Float]
    (hpow : ∀ x y : Float, ¬x ≤ nat 0 → ¬Powers.pow x y < nat 0)
    (hstrategy : strategy ∈ (Registry.builtins : Registry Float).list)
    (h : run bars strategy assigned costs barsPerYear = .ok e)
    (hbars : bars.length < UInt64.size) : e.Settled := by
  have hresolve := Strategy.schema_resolve_eq_ok (resolve_of_run_eq_ok h)
  obtain ⟨hscale, sim, hsim, rfl⟩ := runFrom_eq_ok_iff.1 h
  obtain ⟨setup, hprepare, -, -, -⟩ := Simulation.runFrom_eq_ok_iff.1 hsim
  obtain ⟨hcosts, -⟩ := Simulation.prepare_eq_ok_iff.1 hprepare
  exact {
    parameters := Storage.allFinite_assignment_iff.2
      (Parameter.Schema.isFinite_of_resolve (Registry.isFinite_of_mem_builtins hstrategy) hresolve)
    annualGrowth := Metrics.isFinite_annualGrowthOf hpow
    maxDrawdown := Metrics.isFinite_maxDrawdownOf rfl _
    winRate := Metrics.isFinite_winRateOf
      ((Simulation.runFrom_within hsim).tradeCount.trans_lt hbars)
    costs := Storage.allFinite_costs hcosts
    barsPerYear := isFinite_of_checkBarsPerYear hscale }

/-- Of a settled run the rest decides whether its text has every number. -/
theorem Evaluation.Settled.allFinite_iff (hs : e.Settled) :
    (Storage.ofEvaluation e).AllFinite ↔ e.Legible := by
  have hgrowth := (Document.allFinite_float _).2 hs.annualGrowth
  have hfall := (Document.allFinite_float _).2 hs.maxDrawdown
  have hwins := (Document.allFinite_float _).2 hs.winRate
  have hscale := (Document.allFinite_float _).2 hs.barsPerYear
  simp only [Storage.ofEvaluation, Storage.ofMetrics, Document.allFinite_object,
    List.forall_mem_cons, List.not_mem_nil, false_implies, implies_true, hs.parameters, hs.costs,
    hscale, hgrowth, hfall, hwins, Storage.allFinite_curve_iff, Document.allFinite_list,
    List.forall_mem_map, Storage.allFinite_trade_iff, Storage.allFinite_portfolio_iff,
    Storage.allFinite_count, Storage.allFinite_finite, Storage.ofTexts, Document.allFinite_text,
    true_and, and_true]
  simp only [Document.allFinite_float]
  constructor
  · rintro ⟨hequity, htrades, ⟨hreturn, hsharpe, hsortino, hcalmar⟩, hfinal, hpaid⟩
    exact ⟨hequity, htrades, hreturn, hsharpe, hsortino, hcalmar, hfinal, hpaid.1, hpaid.2⟩
  · rintro ⟨hequity, htrades, hreturn, hsharpe, hsortino, hcalmar, hfinal, hcommission, hslippage⟩
    exact ⟨hequity, htrades, ⟨hreturn, hsharpe, hsortino, hcalmar⟩, hfinal, hcommission, hslippage⟩

theorem Evaluation.schemaVersion_le [Powers Float]
    (h : run bars strategy assigned costs barsPerYear = .ok e) :
    e.schemaVersion ≤ currentSchema := by
  obtain ⟨-, sim, -, rfl⟩ := runFrom_eq_ok_iff.1 h
  exact le_rfl

/-- Growth at its bound and a drawdown of less than everything. -/
theorem Evaluation.not_legible [Powers Float]
    (h : run bars strategy assigned costs barsPerYear = .ok e)
    (hgrowth : e.metrics.annualGrowth = Metrics.greatest) (hpos : nat 0 < e.metrics.maxDrawdown)
    (hlt : e.metrics.maxDrawdown < nat 1) : ¬e.Legible := by
  obtain ⟨-, sim, -, rfl⟩ := runFrom_eq_ok_iff.1 h
  intro hlegible
  exact Bool.false_ne_true
    ((Metrics.isFinite_calmar_compute hgrowth hpos hlt).symm.trans hlegible.calmar)

theorem Storage.restoredRun_eq_iff : restoredRun e = e ↔
    isFinite e.metrics.profitFactor = true ∨ e.metrics.profitFactor = infinity := by
  refine Iff.trans ⟨congrArg Evaluation.metrics, fun h => ?_⟩ Search.restoredMetrics_eq_iff
  exact congrArg (fun m => { e with metrics := m }) h

/-- Either all numbers of a run are in its text, or nothing comes back. -/
theorem Storage.run_runText (h : StorableRun e)
    (hversion : e.schemaVersion ≤ Evaluation.currentSchema) :
    run (runText e) =
      if (ofEvaluation e).AllFinite then .ok (restoredRun e) else .error .notARun := by
  have hread : Document.Json.read? (runText e) = some (ofEvaluation e).written :=
    Document.Json.read?_pretty ((readable_run (k := 0) h).mono (by decide))
  rw [run, hread, Option.bind_some]
  by_cases hfinite : (ofEvaluation e).AllFinite
  · rw [(restores_run h _).2 ⟨hfinite, rfl⟩, if_pos hfinite]
    exact if_neg hversion.not_gt
  · have hnone : evaluation? (ofEvaluation e).written = none :=
      Option.eq_none_iff_forall_ne_some.2 fun r hr => hfinite ((restores_run h r).1 hr).1
    rw [hnone, if_neg hfinite]

end

/-- The text of a run of a built-in strategy is read back as that run, with the same report, if and
only if every number that has no bound is finite and the profit factor is finite or infinity. A
number without a bound that is not finite leaves nothing to read. One such number is growth over
drawdown, whenever growth is held at the greatest double and less than everything is lost. -/
theorem Evaluation.reloads_iff [Powers Float]
    (hpow : ∀ x y : Float, ¬x ≤ nat 0 → ¬Powers.pow x y < nat 0) (bars : List (Bar Float))
    (strategy : Strategy Float) (hstrategy : strategy ∈ (Registry.builtins : Registry Float).list)
    (assigned : Parameter.Assignment Float) (costs : Costs Float) (barsPerYear : Float)
    (e : Evaluation Float) (h : run bars strategy assigned costs barsPerYear = .ok e)
    (hbars : bars.length < UInt64.size) :
    (Storage.run (Storage.runText e) = .ok e ↔
      e.Legible ∧
        (isFinite e.metrics.profitFactor = true ∨ e.metrics.profitFactor = infinity)) ∧
    (e.Legible → isFinite e.metrics.profitFactor = true ∨ e.metrics.profitFactor = infinity →
      (Storage.run (Storage.runText e)).map Report.ofEvaluation = .ok (Report.ofEvaluation e)) ∧
    (¬e.Legible → Storage.run (Storage.runText e) = .error .notARun) ∧
    (e.metrics.annualGrowth = Metrics.greatest → nat 0 < e.metrics.maxDrawdown →
      e.metrics.maxDrawdown < nat 1 → ¬e.Legible) := by
  have hlegible := (settled hpow hstrategy h hbars).allFinite_iff
  have hread := Storage.run_runText (storable h hbars) (schemaVersion_le h)
  have hexact : Storage.run (Storage.runText e) = .ok e ↔ e.Legible ∧
      (isFinite e.metrics.profitFactor = true ∨ e.metrics.profitFactor = infinity) := by
    rw [hread, ← hlegible, ← Storage.restoredRun_eq_iff]
    by_cases hfinite : (Storage.ofEvaluation e).AllFinite
    · simp [hfinite]
    · simp [hfinite]
  refine ⟨hexact, fun he hfactor => ?_, fun he => ?_, not_legible h⟩
  · rw [hexact.2 ⟨he, hfactor⟩]
    rfl
  · rw [hread, if_neg (mt hlegible.1 he)]

namespace Evaluation

@[reducible]
def wholePowers : Powers Float where
  sqrt := Float.sqrt
  pow x y := Scalar.abs ((List.replicate (floorUpTo maxCount y) x).foldl (· * ·) (nat 1))

theorem not_pow_lt_zero (x y : Float) : ¬wholePowers.pow x y < nat 0 := by
  intro hlt
  have hn := Saturating.isNaN_of_lt hlt
  rw [Reading.lt_iff hn Reading.isNaN_zero, Reading.value_zero] at hlt
  exact hlt.not_ge (Reading.value_abs_nonneg _)

def recovery : List (Bar Float) := [.still 2 1, .still 3 1, .still 4 0.5, .still 5 32]

/-- Bought and held for 5 points of 1030 a year: growth of more than `2 ^ 1024`, after a drawdown
of a half. -/
theorem reloads_iff_recovery :
    ∃ e, @run Float _ wholePowers recovery buyAndHold .empty (.frictionless 1000) 1030 = .ok e ∧
      ¬e.Legible ∧ Storage.run (Storage.runText e) = .error .notARun := by
  have hfigures : (@run Float _ wholePowers recovery buyAndHold .empty (.frictionless 1000)
      1030).toOption.map (fun e => decide (e.metrics.annualGrowth = Metrics.greatest ∧
        nat 0 < e.metrics.maxDrawdown ∧ e.metrics.maxDrawdown < nat 1)) = some true := by
    decide +kernel
  obtain ⟨e, he, hfigures⟩ := Option.map_eq_some_iff.1 hfigures
  have h := toOption_eq_some_iff.1 he
  obtain ⟨hgrowth, hpos, hlt⟩ := of_decide_eq_true hfigures
  have hmem : (buyAndHold : Strategy Float) ∈ (Registry.builtins : Registry Float).list := by
    rw [Registry.list_builtins]
    exact List.mem_cons_self
  obtain ⟨-, -, hlost, hcapped⟩ := @reloads_iff wholePowers (fun x y _ => not_pow_lt_zero x y)
    recovery buyAndHold hmem .empty (.frictionless 1000) 1030 e h (by decide)
  exact ⟨e, h, hcapped hgrowth hpos hlt, hlost (hcapped hgrowth hpos hlt)⟩

end Evaluation

end Backtest
