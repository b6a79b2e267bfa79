import Backtest.Proofs.Simulation.Inversion

/-!
# What a run asks a strategy

A run asks its strategy for the full parameters, for the series of these, and for a signal at each
history that is a start of its bars. Two strategies that answer these calls alike make the same run,
however one of them decides, fails or crashes in other calls.
-/

namespace Backtest

open Parameter

variable {α : Type} [Scalar α] {t u : Strategy α} {tried : Assignment α → Prop}
  {bars : List (Bar α)} {start : Nat} {assigned : Assignment α} {costs : Costs α}

/-- Two strategies that answer alike in the calls of runs on some bars with some full parameters. -/
structure Strategy.SameOn (t u : Strategy α) (bars : List (Bar α)) (tried : Assignment α → Prop) :
    Prop where
  name : u.name = t.name
  resolve : u.resolve = t.resolve
  indicators : ∀ a, tried a → u.indicators a = t.indicators a
  evaluate : ∀ a, tried a → ∀ history : History α, history.series <+: bars → ∀ view,
    u.evaluate history view a = t.evaluate history view a

namespace Simulation

variable {s : Setup α} {past rest : List (Bar α)} {bar : Bar α} {a : Account α}

theorem step_strategy (hname : u.name = s.strategy.name)
    (hevaluate : ∀ view, u.evaluate (.ofSeries past) view s.parameters =
      s.strategy.evaluate (.ofSeries past) view s.parameters) :
    step { s with strategy := u } (.ofSeries past) bar a = step s (.ofSeries past) bar a := by
  simp only [step, signalAt, execute, hname, hevaluate]

theorem play_strategy (h : s.strategy.SameOn u (past ++ rest) tried) (hs : tried s.parameters) :
    play { s with strategy := u } (.ofSeries past) rest a = play s (.ofSeries past) rest a := by
  induction rest generalizing past a with
  | nil => rfl
  | cons bar rest ih =>
    have hstep : step { s with strategy := u } (.ofSeries past) bar a =
        step s (.ofSeries past) bar a :=
      step_strategy h.name (h.evaluate _ hs _ (by simp [History.ofSeries, History.series]))
    rw [play, play, hstep]
    cases step s (.ofSeries past) bar a with
    | error e => rfl
    | ok mid =>
      simp only [History.ofSeries_push]
      exact ih (by rwa [List.append_assoc, List.singleton_append])

theorem prepare_strategy (h : t.SameOn u bars tried)
    (htried : ∀ parameters, t.resolve assigned = .ok parameters → tried parameters) :
    prepare bars start u assigned costs =
      (prepare bars start t assigned costs).map fun s => { s with strategy := u } := by
  unfold prepare
  rw [h.resolve]
  cases costs.validate with
  | error e => rfl
  | ok _ =>
    by_cases hlength : bars.length < start + leastBars
    · simp only [hlength, if_true]
      rfl
    · cases disorder? bars with
      | some d =>
        simp only [hlength, if_false]
        rfl
      | none =>
        cases hresolve : t.resolve assigned with
        | error e =>
          simp only [hlength, if_false]
          rfl
        | ok parameters =>
          have hindicators := h.indicators parameters (htried parameters hresolve)
          simp only [hlength, if_false, bind, Except.bind, mapError_ok, hindicators]
          cases t.indicators parameters <;> rfl

theorem runFrom_strategy (h : t.SameOn u bars tried)
    (htried : ∀ parameters, t.resolve assigned = .ok parameters → tried parameters) :
    runFrom bars start u assigned costs = runFrom bars start t assigned costs := by
  unfold runFrom
  rw [prepare_strategy h htried]
  cases hprepare : prepare bars start t assigned costs with
  | error e => rfl
  | ok s =>
    obtain ⟨-, -, -, parameters, hresolve, indicators, -, rfl⟩ := prepare_eq_ok_iff.1 hprepare
    have hplay (first : Account α) :
        play ⟨u, parameters, .compute bars indicators, costs⟩ (.ofSeries (bars.take start))
            (bars.drop start) first =
          play ⟨t, parameters, .compute bars indicators, costs⟩ (.ofSeries (bars.take start))
            (bars.drop start) first :=
      play_strategy (s := ⟨t, parameters, .compute bars indicators, costs⟩)
        (by rwa [List.take_append_drop]) (htried parameters hresolve)
    simp only [Except.map, bind, Except.bind, hplay]

end Simulation

theorem Evaluation.runFrom_strategy [Powers α] {barsPerYear : α} (h : t.SameOn u bars tried)
    (htried : ∀ parameters, t.resolve assigned = .ok parameters → tried parameters) :
    runFrom bars start u assigned costs barsPerYear =
      runFrom bars start t assigned costs barsPerYear := by
  simp only [runFrom, Simulation.runFrom_strategy h htried, h.name]

end Backtest
