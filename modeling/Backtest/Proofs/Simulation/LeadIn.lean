import Backtest.Proofs.Simulation.Foresight

/-!
# Lead-in bars are history only

A run from a later bar on is the tail of the run over all bars in which the strategy holds until
then. All that the lead-in of the longer run leaves behind is marks: points of the equity curve, a
last close, and the equity of the last mark. No fill reads these, and the first traded close writes
them anew if it is a number.
-/

namespace Backtest

variable {α : Type}

/-- The strategy holding on histories of fewer than `least` bars. -/
def Strategy.muted (strategy : Strategy α) (least : Nat) : Strategy α :=
  { strategy with
    decide := fun history a =>
      if history.length < least then .ok .hold else strategy.decide history a
    evaluate := fun history view a =>
      if history.length < least then .ok .hold else strategy.evaluate history view a }

variable [Scalar α]

open Scalar

theorem Strategy.resolve_muted (strategy : Strategy α) (least : Nat)
    (assigned : Parameter.Assignment α) :
    (strategy.muted least).resolve assigned = strategy.resolve assigned := rfl

/-! ## Marks -/

namespace Ledger

def unmarked (l : Ledger α) : Ledger α :=
  { l with portfolio := { l.portfolio with equity := nat 0 } }

@[simp] theorem unmarked_mark (l : Ledger α) (price : α) : (l.mark price).unmarked = l.unmarked :=
  rfl

@[simp] theorem mark_unmarked (l : Ledger α) (price : α) : l.unmarked.mark price = l.mark price :=
  rfl

theorem apply_unmarked (l : Ledger α) (f : Fill α) : l.unmarked.apply f = (l.apply f).unmarked := by
  unfold apply
  split <;> rfl

theorem snapCash_unmarked (l : Ledger α) (tolerance : α) :
    l.unmarked.snapCash tolerance = (l.snapCash tolerance).unmarked := by
  unfold snapCash
  rw [apply_ite unmarked]
  rfl

end Ledger

namespace Simulation

variable {s : Setup α} {bars past rest : List (Bar α)} {bar : Bar α} {start : Nat}
  {a : Account α}

namespace Account

def unmarked (a : Account α) : Account α :=
  { a with ledger := a.ledger.unmarked, lastClose := none, points := [] }

def withOlder (points : List (EquityPoint α)) (a : Account α) : Account α :=
  { a with points := a.points ++ points }

def closeAll (a : Account α) (bars : List (Bar α)) : Account α :=
  bars.foldl (fun a bar => close bar a) a

@[simp] theorem closeAll_cons (a : Account α) (bar : Bar α) (bars : List (Bar α)) :
    a.closeAll (bar :: bars) = (close bar a).closeAll bars := rfl

/-- Closes leave marks and nothing else. -/
theorem unmarked_closeAll (a : Account α) (bars : List (Bar α)) :
    (a.closeAll bars).unmarked = a.unmarked := by
  induction bars generalizing a with
  | nil => rfl
  | cons bar bars ih => exact ih (close bar a)

theorem length_points_closeAll (a : Account α) (bars : List (Bar α)) :
    (a.closeAll bars).points.length = a.points.length + bars.length := by
  induction bars generalizing a with
  | nil => rfl
  | cons bar bars ih =>
    rw [closeAll_cons, ih]
    simp only [close, List.length_cons]
    omega

end Account

/-- Executing a signal passes over a change of the account that leaves orders, and what they do, as
they are. -/
theorem execute_map {g : Account α → Account α} {signal : Signal α} (hpast : past ≠ [])
    (horder : ∀ requested signalBar, orderAt s past signal requested signalBar bar (g a) =
      orderAt s past signal requested signalBar bar a)
    (hcarry : ∀ refused o, (g a).carryOut refused o = g (a.carryOut refused o)) :
    execute s (.ofSeries past) signal bar (g a) =
      (execute s (.ofSeries past) signal bar a).map g := by
  obtain ⟨signalBar, hlast⟩ := Option.ne_none_iff_exists'.1 (mt List.getLast?_eq_none_iff.1 hpast)
  cases hweight : signal.weight? with
  | none =>
    rw [execute_of_no_weight hweight, execute_of_no_weight hweight]
    rfl
  | some requested =>
    rw [execute_eq hweight hlast, execute_eq hweight hlast, apply_ite (Except.map g), horder, hcarry]
    rfl

theorem carryOut_unmarked (a : Account α) (refused : Bool) (o : Order.Outcome α) :
    a.unmarked.carryOut refused o = (a.carryOut refused o).unmarked := by
  cases o with
  | unchanged => rfl
  | noOpening => rfl
  | filled f =>
    simp only [Account.carryOut, Account.unmarked, Ledger.apply_unmarked, Ledger.snapCash_unmarked]

/-- Executing a signal reads no mark. -/
theorem execute_unmarked {signal : Signal α} (hpast : past ≠ []) :
    execute s (.ofSeries past) signal bar a.unmarked =
      (execute s (.ofSeries past) signal bar a).map Account.unmarked :=
  execute_map hpast (fun _ _ => rfl) (carryOut_unmarked a)

/-- A close that is a number marks an account whatever its marks were. -/
theorem close_unmarked (hclose : isFinite bar.close = true) (a : Account α) :
    close bar a = (close bar a.unmarked).withOlder a.points := by
  simp only [close, if_pos hclose]
  rfl

/-- At a close that is a number, the earlier marks of an account do not matter. -/
theorem step_unmarked (hpast : past ≠ []) (hclose : isFinite bar.close = true) (a : Account α) :
    step s (.ofSeries past) bar a =
      (step s (.ofSeries past) bar a.unmarked).map (Account.withOlder a.points) := by
  have hfirst : (History.ofSeries past).isEmpty = false := by simpa using hpast
  simp only [step, hfirst, Bool.false_eq_true, if_false]
  cases signalAt s (.ofSeries past) with
  | error e => rfl
  | ok signal =>
    simp only [Except.bind, execute_unmarked hpast]
    cases hexecute : execute s (.ofSeries past) signal bar a with
    | error e => rfl
    | ok mid =>
      have hpoints := (execute_logs hpast hexecute).1
      simp only [Except.map, close_unmarked hclose mid, hpoints]

/-! ## Older points -/

section

variable (points : List (EquityPoint α))

theorem step_withOlder (hpast : past ≠ []) (a : Account α) :
    step s (.ofSeries past) bar (a.withOlder points) =
      (step s (.ofSeries past) bar a).map (Account.withOlder points) := by
  have hfirst : (History.ofSeries past).isEmpty = false := by simpa using hpast
  have hcarry (refused : Bool) (o : Order.Outcome α) :
      (a.withOlder points).carryOut refused o = (a.carryOut refused o).withOlder points := by
    cases o <;> rfl
  simp only [step, hfirst, Bool.false_eq_true, if_false]
  cases signalAt s (.ofSeries past) with
  | error e => rfl
  | ok signal =>
    have hexecute : execute s (.ofSeries past) signal bar (a.withOlder points) =
        (execute s (.ofSeries past) signal bar a).map (Account.withOlder points) :=
      execute_map hpast (fun _ _ => rfl) hcarry
    simp only [Except.bind, hexecute]
    cases execute s (.ofSeries past) signal bar a <;> rfl

/-- No bar reads what was recorded before it. -/
theorem play_withOlder (hpast : past ≠ []) (a : Account α) :
    play s (.ofSeries past) rest (a.withOlder points) =
      (play s (.ofSeries past) rest a).map (Account.withOlder points) := by
  induction rest generalizing past a with
  | nil => rfl
  | cons bar rest ih =>
    rw [play, play, step_withOlder points hpast]
    cases step s (.ofSeries past) bar a with
    | error e => rfl
    | ok mid =>
      simp only [Except.map, History.ofSeries_push]
      exact ih (by simp) mid

end

/-- If the first of the remaining closes is a number, the run through them is that of the account
without its marks, recorded after its points. -/
theorem play_unmarked (hpast : past ≠ []) (hclose : isFinite bar.close = true) (a : Account α) :
    play s (.ofSeries past) (bar :: rest) a =
      (play s (.ofSeries past) (bar :: rest) a.unmarked).map (Account.withOlder a.points) := by
  rw [play, play, step_unmarked hpast hclose]
  cases step s (.ofSeries past) bar a.unmarked with
  | error e => rfl
  | ok mid =>
    simp only [Except.map, History.ofSeries_push]
    exact play_withOlder a.points (by simp) mid

/-! ## Muted strategies -/

def Setup.muted (s : Setup α) (least : Nat) : Setup α :=
  { s with strategy := s.strategy.muted least }

theorem signalAt_muted_of_lt (h : past.length < start) :
    signalAt (s.muted start) (.ofSeries past) = .ok .hold := by
  simp [signalAt, Setup.muted, Strategy.muted, h, Except.mapError]

theorem signalAt_muted_of_le (h : start ≤ past.length) :
    signalAt (s.muted start) (.ofSeries past) = signalAt s (.ofSeries past) := by
  simp [signalAt, Setup.muted, Strategy.muted, Nat.not_lt.2 h]

/-- While the strategy is muted, bars are marked and nothing else happens. -/
theorem play_muted_append {lead : List (Bar α)} (h : past.length + lead.length ≤ start)
    (a : Account α) :
    play (s.muted start) (.ofSeries past) (lead ++ rest) a =
      play (s.muted start) (.ofSeries (past ++ lead)) rest (a.closeAll lead) := by
  induction lead generalizing past a with
  | nil => simp [Account.closeAll]
  | cons bar lead ih =>
    rw [List.length_cons] at h
    have hstep : step (s.muted start) (.ofSeries past) bar a = .ok (close bar a) := by
      unfold step
      split
      · rfl
      · rw [signalAt_muted_of_lt (by omega)]
        rfl
    have hlength : (past ++ [bar]).length + lead.length ≤ start := by
      rw [List.length_append, List.length_singleton]
      omega
    rw [List.cons_append, play, hstep]
    simpa using ih hlength (close bar a)

/-- Once there are `start` bars of history, muting makes no difference. -/
theorem play_muted_of_ge (h : start ≤ past.length) (a : Account α) :
    play (s.muted start) (.ofSeries past) rest a = play s (.ofSeries past) rest a := by
  induction rest generalizing past a with
  | nil => rfl
  | cons bar rest ih =>
    have hstep : step (s.muted start) (.ofSeries past) bar a = step s (.ofSeries past) bar a := by
      unfold step
      rw [signalAt_muted_of_le h]
      rfl
    rw [play, play, hstep]
    cases step s (.ofSeries past) bar a with
    | error e => rfl
    | ok mid =>
      simp only [History.ofSeries_push]
      exact ih (by rw [List.length_append]; omega) mid

variable {strategy : Strategy α} {assigned : Parameter.Assignment α} {costs : Costs α}

/-- If all indicators can be declared, the run over all bars is prepared as the later one. -/
theorem prepare_muted (hlength : start + leastBars ≤ bars.length)
    (hindicators : ∀ parameters, strategy.resolve assigned = .ok parameters →
      ∃ indicators, strategy.indicators parameters = .ok indicators) :
    prepare bars 0 (strategy.muted start) assigned costs =
      (prepare bars start strategy assigned costs).map (Setup.muted · start) := by
  have hlater : ¬bars.length < start + leastBars := Nat.not_lt.2 hlength
  have hfirst : ¬bars.length < 0 + leastBars := by omega
  simp only [prepare, if_neg hlater, if_neg hfirst, Strategy.resolve_muted]
  cases costs.validate with
  | error e => rfl
  | ok _ =>
    cases disorder? bars with
    | some d => rfl
    | none =>
      cases hresolve : strategy.resolve assigned with
      | error e => rfl
      | ok parameters =>
        obtain ⟨indicators, hgiven⟩ := hindicators parameters hresolve
        have hmuted : (strategy.muted start).indicators parameters = .ok indicators := hgiven
        simp only [bind, Except.bind, Except.mapError, hgiven, hmuted]
        rfl

/-- From bar `start` on a run is that of the account without its marks, recorded after its points. -/
theorem play_tail (hstart : 1 ≤ start) (hbar : bars[start]? = some bar)
    (hclose : isFinite bar.close = true) (a : Account α) :
    play s (.ofSeries (bars.take start)) (bars.drop start) a =
      (play s (.ofSeries (bars.take start)) (bars.drop start) a.unmarked).map
        (Account.withOlder a.points) := by
  obtain ⟨hlt, rfl⟩ := List.getElem?_eq_some_iff.1 hbar
  have hpast : bars.take start ≠ [] := by
    apply List.ne_nil_of_length_pos
    rw [List.length_take_of_le hlt.le]
    exact hstart
  rw [List.drop_eq_getElem_cons hlt]
  exact play_unmarked hpast hclose a

/-- The run over all bars that is muted before bar `start` is, from there on, the run that is not. -/
theorem play_muted (hlt : start < bars.length) (a : Account α) :
    play (s.muted start) (.ofSeries []) bars a =
      play s (.ofSeries (bars.take start)) (bars.drop start) (a.closeAll (bars.take start)) := by
  have hlead : (bars.take start).length = start := List.length_take_of_le hlt.le
  have happend : play (s.muted start) (.ofSeries []) (bars.take start ++ bars.drop start) a =
      play (s.muted start) (.ofSeries ([] ++ bars.take start)) (bars.drop start)
        (a.closeAll (bars.take start)) :=
    play_muted_append (by simp) a
  rwa [List.take_append_drop, List.nil_append, play_muted_of_ge hlead.ge] at happend

/-! ## Tails -/

/-- What a run from bar `start` on reports is what the whole run does, with its equity curve begun
anew at that bar. -/
structure TailOf (start : Nat) (tail whole : Simulation α) : Prop where
  parameters : tail.parameters = whole.parameters
  trades : tail.trades = whole.trades
  final : tail.final = whole.final
  rejectedSignals : tail.rejectedSignals = whole.rejectedSignals
  unfilledSignals : tail.unfilledSignals = whole.unfilledSignals
  totalCommission : tail.totalCommission = whole.totalCommission
  totalSlippage : tail.totalSlippage = whole.totalSlippage
  /-- Before its own bars the tail has the one point of its start. -/
  equity : ∃ first, tail.equity = first :: whole.equity.drop (start + 1)
  length_equity : whole.equity.length = start + tail.equity.length

/-- Both runs fail with the same error, or both give a result and one is the tail of the other. -/
inductive Tails (start : Nat) :
    Except (RunError α) (Simulation α) → Except (RunError α) (Simulation α) → Prop
  | failed (e : RunError α) : Tails start (.error e) (.error e)
  | finished {tail whole : Simulation α} (h : TailOf start tail whole) :
      Tails start (.ok tail) (.ok whole)

omit [Scalar α] in
/-- One account reported with one older point, and with `start` more. -/
theorem tailOf_ofAccount {parameters : Parameter.Assignment α} (a : Account α)
    (first : EquityPoint α) {points : List (EquityPoint α)} (hpoints : points.length = start + 1) :
    TailOf start (ofAccount parameters start (a.withOlder [first]))
      (ofAccount parameters 0 (a.withOlder points)) := by
  refine ⟨rfl, rfl, rfl, rfl, rfl, rfl, rfl, ⟨first, ?_⟩, ?_⟩
  · simp only [ofAccount, Account.withOlder, List.reverse_append]
    rw [List.drop_left' (by simpa using hpoints)]
    rfl
  · simp only [ofAccount, Account.withOlder, List.length_reverse, List.length_append,
      List.length_singleton, hpoints]
    omega

/-- A run from bar `start` on, if that bar closes at a number, is the tail of the run over all bars
of the strategy that holds on all shorter histories: both fail with the same error, or they report
the same trades, final state, counts and costs, and the same equity from bar `start` on. No law of
the arithmetic is needed. -/
theorem runFrom_tails_run {α : Type} [Scalar α] (strategy : Strategy α) (bars : List (Bar α))
    (start : Nat) (assigned : Parameter.Assignment α) (costs : Costs α) (bar : Bar α)
    (hstart : 1 ≤ start) (hlength : start + leastBars ≤ bars.length)
    (hbar : bars[start]? = some bar) (hclose : isFinite bar.close = true)
    (hindicators : ∀ parameters, strategy.resolve assigned = .ok parameters →
      ∃ indicators, strategy.indicators parameters = .ok indicators) :
    Tails start (runFrom bars start strategy assigned costs)
      (run bars (strategy.muted start) assigned costs) := by
  have hlt : start < bars.length := (List.getElem?_eq_some_iff.1 hbar).1
  unfold run runFrom
  rw [prepare_muted hlength hindicators]
  cases prepare bars start strategy assigned costs with
  | error e => exact .failed e
  | ok setup =>
    -- both runs come to the account of one run without marks, with other points before it
    let opened := Account.start costs.startingCash (((bars[start]?).map (·.time)).getD default)
    let led := (Account.start costs.startingCash (((bars[0]?).map (·.time)).getD default)).closeAll
      (bars.take start)
    have htail := play_tail (s := setup) hstart hbar hclose opened
    have hwhole := play_tail (s := setup) hstart hbar hclose led
    have hsame : led.unmarked = opened.unmarked := Account.unmarked_closeAll _ _
    have hpoints : led.points.length = start + 1 := by
      rw [Account.length_points_closeAll, List.length_take_of_le hlt.le, Nat.add_comm]
      rfl
    rw [hsame, ← play_muted hlt] at hwhole
    simp only [bind, Except.bind, Except.map, List.take_zero, List.drop_zero]
    cases hcore : play setup (.ofSeries (bars.take start)) (bars.drop start) opened.unmarked with
    | error e =>
      rw [hcore] at htail hwhole
      rw [htail, hwhole]
      exact .failed e
    | ok a =>
      rw [hcore] at htail hwhole
      rw [htail, hwhole]
      exact .finished (tailOf_ofAccount a _ hpoints)

/-- Over three days of history, what is decided on the last of them is bought at the first opening
and sold later on. -/
theorem runFrom_tails_run_recovery :
    1 ≤ 3 ∧ 3 + leastBars ≤ recovery.length ∧ recovery[3]? = some (.still 5 (.finite 95)) ∧
      isFinite (Bar.still 5 (.finite 95) : Bar Extended).close = true ∧
      (∀ parameters, Threshold.strategy.resolve twoDays = .ok parameters →
        ∃ indicators, Threshold.strategy.indicators parameters = .ok indicators) ∧
      ∃ tail whole, runFrom recovery 3 Threshold.strategy twoDays .standard = .ok tail ∧
        run recovery (Threshold.strategy.muted 3) twoDays .standard = .ok whole ∧
        tail.trades.length = 1 ∧ TailOf 3 tail whole := by
  have hindicators : ∀ parameters,
      (Threshold.strategy : Strategy Extended).resolve twoDays = .ok parameters →
        ∃ indicators, Threshold.strategy.indicators parameters = .ok indicators := by
    have hall : (((Threshold.strategy : Strategy Extended).resolve twoDays).toOption.all
        fun parameters => (Threshold.strategy.indicators parameters).toOption.isSome) = true := by
      decide +kernel
    intro parameters h
    rw [toOption_eq_some_iff.2 h] at hall
    exact exists_eq_ok hall
  have hcount : (runFrom recovery 3 Threshold.strategy twoDays .standard).toOption.map
      (·.trades.length) = some 1 := by
    decide +kernel
  obtain ⟨tail, htail, hlength⟩ := Option.map_eq_some_iff.1 hcount
  obtain ⟨whole, hwhole⟩ := exists_eq_ok
    (x := run recovery (Threshold.strategy.muted 3) twoDays .standard) (by decide +kernel)
  have htails := runFrom_tails_run Threshold.strategy recovery 3 twoDays .standard
    (.still 5 (.finite 95)) (by decide) (by decide) rfl rfl hindicators
  rw [toOption_eq_some_iff.1 htail, hwhole] at htails
  cases htails with
  | finished h =>
    exact ⟨by decide, by decide, rfl, rfl, hindicators, tail, whole,
      toOption_eq_some_iff.1 htail, hwhole, hlength, h⟩

end Simulation

end Backtest
