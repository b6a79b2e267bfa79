import Backtest.Proofs.Outcome
import Backtest.Simulation.Evaluation

/-!
# What a finished run went through

A run that gives a result has passed every check made before it, and has met its bars one by one.
Each lemma says all that one definition can do when it succeeds, so that the properties of runs
need not open the definitions again.
-/

namespace Backtest

variable {α : Type}

namespace History

@[simp] theorem ofSeries_push (past : List (Bar α)) (bar : Bar α) :
    (ofSeries past).push bar = ofSeries (past ++ [bar]) := by
  simp [ofSeries, push]

@[simp] theorem length_ofSeries (past : List (Bar α)) : (ofSeries past).length = past.length := by
  simp [ofSeries, length]

@[simp] theorem last?_ofSeries (past : List (Bar α)) : (ofSeries past).last? = past.getLast? := by
  simp [ofSeries, last?]

@[simp] theorem isEmpty_ofSeries (past : List (Bar α)) :
    (ofSeries past).isEmpty = past.isEmpty := by
  simp [ofSeries, isEmpty]

end History

variable [Scalar α]

namespace Order

open Scalar

/-- A fill is made only off the requested position, at a price that can be traded at, and for more
than dust. -/
theorem outcome_eq_filled {c : Costs α} {p : Portfolio α} {discrete : Bool} {weight : α}
    {signalTime : Timestamp} {bar : Nat} {b : Bar α} {f : Fill α}
    (h : outcome c p discrete weight signalTime bar b = .filled f) :
    isSettled discrete p.quantity weight = false ∧ isTradable b.openPrice = true ∧
      ¬abs f.quantity < Ledger.dust ∧
      f =
        { bar
          time := b.time
          signalTime
          quantity := quantity c p b.openPrice weight
          price :=
            if nat 0 < f.quantity then buyPrice c b.openPrice else sellPrice c b.openPrice
          commission := abs f.quantity * f.price * c.commissionRate
          slippage := abs f.quantity * b.openPrice * c.slippageRate } := by
  unfold outcome at h
  split at h
  · cases h
  · split at h
    · cases h
    · dsimp only [fillFor] at h
      split at h
      · cases h
      · cases h
        simp_all

end Order

namespace Simulation

open Scalar

variable {s : Setup α} {bars past rest : List (Bar α)} {bar : Bar α} {start : Nat}
  {strategy : Strategy α} {assigned : Parameter.Assignment α} {costs : Costs α}
  {a a' : Account α}

theorem prepare_eq_ok_iff {setup : Setup α} :
    prepare bars start strategy assigned costs = .ok setup ↔
      costs.validate = .ok () ∧ start + leastBars ≤ bars.length ∧ disorder? bars = none ∧
        ∃ parameters, strategy.resolve assigned = .ok parameters ∧
          ∃ indicators, strategy.indicators parameters = .ok indicators ∧
            setup = ⟨strategy, parameters, .compute bars indicators, costs⟩ := by
  unfold prepare
  by_cases hlength : bars.length < start + leastBars
  · simp [hlength, Nat.not_le.2 hlength]
  · cases hdisorder : disorder? bars with
    | some d => simp [hlength]
    | none => simp [hlength, Nat.not_lt.1 hlength, eq_comm (a := setup)]

theorem runFrom_eq_ok_iff {sim : Simulation α} :
    runFrom bars start strategy assigned costs = .ok sim ↔
      ∃ setup, prepare bars start strategy assigned costs = .ok setup ∧
        ∃ account,
          play setup (.ofSeries (bars.take start)) (bars.drop start)
            (.start costs.startingCash (((bars[start]?).map (·.time)).getD default)) =
              .ok account ∧
          sim = ofAccount setup.parameters start account := by
  simp [runFrom, eq_comm (a := sim)]

/-- The first bar of all has no signal before it and is only marked; every other bar first executes
the signal of the close before it. -/
theorem step_eq_ok_iff :
    step s (.ofSeries past) bar a = .ok a' ↔
      (past = [] ∧ a' = close bar a) ∨
        (past ≠ [] ∧ ∃ signal, signalAt s (.ofSeries past) = .ok signal ∧
          ∃ mid, execute s (.ofSeries past) signal bar a = .ok mid ∧ a' = close bar mid) := by
  unfold step
  by_cases hpast : past = []
  · simp [hpast, eq_comm (a := a')]
  · cases hsignal : signalAt s (.ofSeries past) with
    | error e => simp [hpast, Except.bind]
    | ok signal =>
      cases hexecute : execute s (.ofSeries past) signal bar a with
      | error e => simp [hpast, hexecute, Except.bind, Except.map]
      | ok mid => simp [hpast, hexecute, Except.bind, Except.map, eq_comm (a := a')]

def Account.carryOut (a : Account α) (refused : Bool) : Order.Outcome α → Account α
  | .unchanged => { a with rejectedSignals := a.rejectedSignals + refused.toNat }
  | .noOpening =>
    { a with
      rejectedSignals := a.rejectedSignals + refused.toNat
      unfilledSignals := a.unfilledSignals + 1 }
  | .filled fill =>
    { a with
      ledger := (a.ledger.apply fill).snapCash cashTolerance
      rejectedSignals := a.rejectedSignals + refused.toNat }

def orderAt (s : Setup α) (past : List (Bar α)) (signal : Signal α) (requested : α)
    (signalBar bar : Bar α) (a : Account α) : Order.Outcome α :=
  Order.outcome s.costs a.ledger.portfolio signal.isDiscrete
    (Order.allowedWeight s.costs requested).1 signalBar.time past.length bar

/-- A signal that requests no weight changes nothing. -/
theorem execute_of_no_weight {signal : Signal α} {history : History α} (h : signal.weight? = none) :
    execute s history signal bar a = .ok a := by
  simp [execute, h]

/-- A requested weight is refused if it is no finite number, and else has its order carried out. -/
theorem execute_eq {signal : Signal α} {requested : α} {signalBar : Bar α}
    (hweight : signal.weight? = some requested) (hlast : past.getLast? = some signalBar) :
    execute s (.ofSeries past) signal bar a =
      if isFinite requested = true then
        .ok (a.carryOut (Order.allowedWeight s.costs requested).2
          (orderAt s past signal requested signalBar bar a))
      else .error (.failed (past.length - 1) ⟨s.strategy.name, .weightNotFinite requested⟩) := by
  simp only [execute, hweight, History.last?_ofSeries, hlast, History.length_ofSeries]
  unfold orderAt
  cases isFinite requested with
  | false => rfl
  | true =>
    cases (Order.allowedWeight s.costs requested).2 <;>
      cases houtcome : Order.outcome s.costs a.ledger.portfolio signal.isDiscrete
        (Order.allowedWeight s.costs requested).1 signalBar.time past.length bar <;>
      simp [Account.carryOut, houtcome]

/-- A signal either requests no weight, or a finite one whose order is carried out. -/
theorem execute_cases {signal : Signal α} (hpast : past ≠ [])
    (h : execute s (.ofSeries past) signal bar a = .ok a') :
    (signal.weight? = none ∧ a' = a) ∨
      ∃ requested signalBar, signal.weight? = some requested ∧ past.getLast? = some signalBar ∧
        isFinite requested = true ∧
        a' = a.carryOut (Order.allowedWeight s.costs requested).2
          (orderAt s past signal requested signalBar bar a) := by
  obtain ⟨signalBar, hlast⟩ := Option.ne_none_iff_exists'.1 (mt List.getLast?_eq_none_iff.1 hpast)
  cases hweight : signal.weight? with
  | none =>
    left
    rw [execute_of_no_weight hweight] at h
    exact ⟨rfl, (Except.ok.inj h).symm⟩
  | some requested =>
    rw [execute_eq hweight hlast] at h
    split at h
    · exact .inr ⟨requested, signalBar, rfl, hlast, ‹_›, (Except.ok.inj h).symm⟩
    · cases h

theorem play_cons :
    play s (.ofSeries past) (bar :: rest) a = .ok a' ↔
      ∃ mid, step s (.ofSeries past) bar a = .ok mid ∧
        play s (.ofSeries (past ++ [bar])) rest mid = .ok a' := by
  rw [play]
  cases step s (.ofSeries past) bar a with
  | error e => simp
  | ok mid => simp

/-- What holds before a run and is kept by every bar holds after it. -/
theorem play_induction {P : List (Bar α) → Account α → Prop}
    (hstep : ∀ past bar a a', P past a → step s (.ofSeries past) bar a = .ok a' →
      P (past ++ [bar]) a')
    (h : play s (.ofSeries past) rest a = .ok a') (hstart : P past a) : P (past ++ rest) a' := by
  induction rest generalizing past a with
  | nil =>
    cases h
    simpa using hstart
  | cons bar rest ih =>
    obtain ⟨mid, hmid, hrest⟩ := play_cons.1 h
    simpa using ih hrest (hstep past bar a mid hstart hmid)

/-- The account of a run after its first `k` traded bars. -/
def accountAfter (bars : List (Bar α)) (start : Nat) (strategy : Strategy α)
    (assigned : Parameter.Assignment α) (costs : Costs α) (k : Nat) :
    Except (RunError α) (Account α) := do
  let setup ← prepare bars start strategy assigned costs
  play setup (.ofSeries (bars.take start)) ((bars.drop start).take k)
    (.start costs.startingCash (((bars[start]?).map (·.time)).getD default))

theorem accountAfter_eq_ok_iff {k : Nat} :
    accountAfter bars start strategy assigned costs k = .ok a ↔
      ∃ setup, prepare bars start strategy assigned costs = .ok setup ∧
        play setup (.ofSeries (bars.take start)) ((bars.drop start).take k)
          (.start costs.startingCash (((bars[start]?).map (·.time)).getD default)) = .ok a := by
  simp [accountAfter]

/-- What a run reports is read off its account after all traded bars. -/
theorem runFrom_eq_ok_iff_accountAfter {sim : Simulation α} :
    runFrom bars start strategy assigned costs = .ok sim ↔
      ∃ setup, prepare bars start strategy assigned costs = .ok setup ∧
        ∃ account, accountAfter bars start strategy assigned costs (bars.length - start) =
          .ok account ∧ sim = ofAccount setup.parameters start account := by
  rw [runFrom_eq_ok_iff]
  refine exists_congr fun setup => and_congr_right fun hsetup => exists_congr fun account => ?_
  simp [accountAfter, hsetup, List.take_of_length_le]

end Simulation

/-- An evaluated run is a run with its figures, under a number of bars a year that can be used. -/
theorem Evaluation.runFrom_eq_ok_iff [Powers α] {bars : List (Bar α)} {start : Nat}
    {strategy : Strategy α} {assigned : Parameter.Assignment α} {costs : Costs α}
    {barsPerYear : α} {e : Evaluation α} :
    runFrom bars start strategy assigned costs barsPerYear = .ok e ↔
      checkBarsPerYear barsPerYear = .ok () ∧
        ∃ sim, Simulation.runFrom bars start strategy assigned costs = .ok sim ∧
          e = ofSimulation strategy.name sim costs barsPerYear := by
  simp [runFrom, eq_comm (a := e)]

end Backtest
