import Backtest.Proofs.Market.Order
import Backtest.Proofs.Simulation.Log
import Backtest.Scalar.Extended
import Mathlib.Data.List.Chain

/-!
# Trades in time

Every closed trade was signalled at the bar before its entry, entered no earlier than trading began
and left at a later bar; and trades follow one another, a reversal at the same bar. The invariant
ties the open trade and the closed ones to the bars met so far.
-/

namespace Backtest

variable {α : Type}

def timeAt (bars : List (Bar α)) (i : Nat) : Option Timestamp := bars[i]?.map (·.time)

theorem lt_length_of_timeAt {bars : List (Bar α)} {i : Nat} {time : Timestamp}
    (h : timeAt bars i = some time) : i < bars.length := by
  obtain ⟨bar, hbar, -⟩ := Option.map_eq_some_iff.1 h
  exact (List.getElem?_eq_some_iff.1 hbar).1

theorem timeAt_append {bars rest : List (Bar α)} {i : Nat} {time : Timestamp}
    (h : timeAt bars i = some time) : timeAt (bars ++ rest) i = some time := by
  rw [timeAt, List.getElem?_append_left (lt_length_of_timeAt h)]
  exact h

theorem Ordered.timeAt_lt {bars : List (Bar α)} (hordered : Ordered bars) {i j : Nat}
    {s t : Timestamp} (hi : timeAt bars i = some s) (hj : timeAt bars j = some t) (hij : i < j) :
    s < t := by
  obtain ⟨a, ha, rfl⟩ := Option.map_eq_some_iff.1 hi
  obtain ⟨b, hb, rfl⟩ := Option.map_eq_some_iff.1 hj
  obtain ⟨hilt, rfl⟩ := List.getElem?_eq_some_iff.1 ha
  obtain ⟨hjlt, rfl⟩ := List.getElem?_eq_some_iff.1 hb
  exact List.pairwise_iff_getElem.1 hordered i j hilt hjlt hij

/-- An entry at or after bar `first`, at the time of its bar and signalled at the bar before. -/
structure Entered (first : Nat) (bars : List (Bar α)) (entryBar : Nat)
    (entryTime signalTime : Timestamp) : Prop where
  first_le : first ≤ entryBar
  entryTime : timeAt bars entryBar = some entryTime
  signalTime : timeAt bars (entryBar - 1) = some signalTime

theorem Entered.append {first entryBar : Nat} {bars rest : List (Bar α)}
    {entryTime signalTime : Timestamp} (h : Entered first bars entryBar entryTime signalTime) :
    Entered first (bars ++ rest) entryBar entryTime signalTime :=
  ⟨h.first_le, timeAt_append h.entryTime, timeAt_append h.signalTime⟩

/-- A round trip with an entry of these bars and a later exit at the time of its bar. -/
structure Trade.Timed (first : Nat) (bars : List (Bar α)) (t : Trade α) : Prop where
  entered : Entered first bars t.entryBar t.entryTime t.signalTime
  entry_lt_exit : t.entryBar < t.exitBar
  exitTime : timeAt bars t.exitBar = some t.exitTime

theorem Trade.Timed.append {first : Nat} {bars rest : List (Bar α)} {t : Trade α}
    (h : t.Timed first bars) : t.Timed first (bars ++ rest) :=
  ⟨h.entered.append, h.entry_lt_exit, timeAt_append h.exitTime⟩

def Trade.Precedes (a b : Trade α) : Prop := a.exitBar ≤ b.entryBar

/-- The trades of a ledger that has met these bars lie in time as they should. -/
structure Ledger.Timed (first : Nat) (past : List (Bar α)) (l : Ledger α) : Prop where
  closed : ∀ t ∈ l.closedTrades, t.Timed first past
  follow : l.closedTrades.IsChain fun later earlier => earlier.Precedes later
  entered : ∀ o ∈ l.openTrade, Entered first past o.entryBar o.entryTime o.signalTime
  open_follows : ∀ o ∈ l.openTrade, ∀ t ∈ l.closedTrades.head?, t.exitBar ≤ o.entryBar

namespace Ledger.Timed

variable {first : Nat} {past : List (Bar α)} {bar : Bar α} {l l' : Ledger α}

theorem of_empty_log (hopen : l.openTrade = none) (hclosed : l.closedTrades = []) :
    l.Timed first past := by
  constructor <;> simp [hopen, hclosed]

theorem append (h : l.Timed first past) (rest : List (Bar α)) : l.Timed first (past ++ rest) where
  closed t ht := (h.closed t ht).append
  follow := h.follow
  entered o ho := (h.entered o ho).append
  open_follows := h.open_follows

theorem exitBar_lt (h : l.Timed first past) {t : Trade α} (ht : t ∈ l.closedTrades) :
    t.exitBar < past.length :=
  lt_length_of_timeAt (h.closed t ht).exitTime

/-- A fill at the newest bar may begin a trade there. -/
theorem entered_of_openedBy {f : Fill α} {o : OpenTrade α} (hf : Simulation.MadeAt past bar f)
    (hfirst : past ≠ [] → first ≤ past.length) (ho : o.OpenedBy f) :
    Entered first (past ++ [bar]) o.entryBar o.entryTime o.signalTime := by
  have hlast := hf.signalTime_eq
  have hpast : past ≠ [] := by
    rintro rfl
    simp at hlast
  have hlength : 0 < past.length := List.length_pos_iff.2 hpast
  rw [List.getLast?_eq_getElem?] at hlast
  rw [ho.entryBar, ho.entryTime, ho.signalTime, hf.bar_eq, hf.time_eq]
  refine ⟨hfirst hpast, by simp [timeAt], ?_⟩
  exact timeAt_append hlast

/-- A bar that leaves the log as it is. -/
theorem of_log_eq (h : l.Timed first past) (hopen : l'.openTrade = l.openTrade)
    (hclosed : l'.closedTrades = l.closedTrades) : l'.Timed first past := by
  constructor
  · rw [hclosed]; exact h.closed
  · rw [hclosed]; exact h.follow
  · rw [hopen]; exact h.entered
  · rw [hopen, hclosed]; exact h.open_follows

/-- A fill at the newest bar that closes no trade. -/
theorem of_kept {f : Fill α} (h : l.Timed first past) (hf : Simulation.MadeAt past bar f)
    (hfirst : past ≠ [] → first ≤ past.length) (hclosed : l'.closedTrades = l.closedTrades)
    (hopen : ∀ o' ∈ l'.openTrade, (∃ o ∈ l.openTrade, o.Continues o') ∨ o'.OpenedBy f) :
    l'.Timed first (past ++ [bar]) where
  closed := hclosed ▸ (h.append [bar]).closed
  follow := hclosed ▸ h.follow
  entered := by
    intro o' ho'
    rcases hopen o' ho' with ⟨o, ho, hcont⟩ | hnew
    · rw [hcont.entryBar, hcont.entryTime, hcont.signalTime]
      exact (h.entered o ho).append
    · exact entered_of_openedBy hf hfirst hnew
  open_follows := by
    rw [hclosed]
    intro o' ho' t ht
    rcases hopen o' ho' with ⟨o, ho, hcont⟩ | hnew
    · rw [hcont.entryBar]
      exact h.open_follows o ho t ht
    · rw [hnew.entryBar, hf.bar_eq]
      exact (h.exitBar_lt (List.mem_of_head? ht)).le

/-- A round trip closed by a fill at the newest bar. -/
theorem timed_of_closes {f : Fill α} {o : OpenTrade α} {t : Trade α} (h : l.Timed first past)
    (hf : Simulation.MadeAt past bar f) (ho : o ∈ l.openTrade) (ht : t.Closes o f) :
    t.Timed first (past ++ [bar]) := by
  have hentered := h.entered o ho
  refine ⟨?_, ?_, ?_⟩
  · rw [ht.entryBar, ht.entryTime, ht.signalTime]
    exact hentered.append
  · rw [ht.entryBar, ht.exitBar, hf.bar_eq]
    exact lt_length_of_timeAt hentered.entryTime
  · rw [ht.exitBar, ht.exitTime, hf.bar_eq, hf.time_eq]
    simp [timeAt]

/-- A fill at the newest bar that closes the open trade, and may begin another. -/
theorem of_closed {f : Fill α} {o : OpenTrade α} {t : Trade α} (h : l.Timed first past)
    (hf : Simulation.MadeAt past bar f) (hfirst : past ≠ [] → first ≤ past.length)
    (ho : o ∈ l.openTrade) (ht : t.Closes o f) (hclosed : l'.closedTrades = t :: l.closedTrades)
    (hopen : ∀ o' ∈ l'.openTrade, o'.OpenedBy f) : l'.Timed first (past ++ [bar]) where
  closed := by
    rw [hclosed]
    intro t' ht'
    rcases List.mem_cons.1 ht' with rfl | ht'
    · exact h.timed_of_closes hf ho ht
    · exact (h.append [bar]).closed t' ht'
  follow := by
    rw [hclosed, List.isChain_cons]
    refine ⟨fun t' ht' => ?_, h.follow⟩
    rw [Trade.Precedes, ht.entryBar]
    exact h.open_follows o ho t' ht'
  entered o' ho' := entered_of_openedBy hf hfirst (hopen o' ho')
  open_follows := by
    rw [hclosed]
    intro o' ho' t' ht'
    obtain rfl : t = t' := by simpa using ht'
    rw [(hopen o' ho').entryBar, ht.exitBar]

variable [Scalar α]

/-- Meeting one bar keeps the trades in time. -/
theorem logs (h : l.Timed first past) (hfirst : past ≠ [] → first ≤ past.length)
    (hlogs : Simulation.Logs past bar l l') : l'.Timed first (past ++ [bar]) := by
  rcases hlogs with ⟨hopen, hclosed⟩ | ⟨f, hf, hopen, hclosed⟩
  · exact (h.append [bar]).of_log_eq hopen hclosed
  · rcases l.apply_log f with ⟨hsame, hkept⟩ | ⟨o, ho, t, ht, hcons, hnew⟩
    · exact h.of_kept hf hfirst (hclosed.trans hsame) fun o' ho' =>
        (hkept o' (hopen ▸ ho')).imp_right And.right
    · exact h.of_closed hf hfirst ho ht (hclosed.trans hcons) fun o' ho' => hnew o' (hopen ▸ ho')

end Ledger.Timed

namespace Simulation

variable [Scalar α] {s : Setup α} {bars past rest : List (Bar α)} {start : Nat}
  {a a' : Account α}

theorem play_timed (hstart : start ≤ past.length)
    (h : play s (.ofSeries past) rest a = .ok a') (ha : a.ledger.Timed (max start 1) past) :
    a'.ledger.Timed (max start 1) (past ++ rest) := by
  have hinv := play_induction
    (P := fun past a => start ≤ past.length ∧ a.ledger.Timed (max start 1) past) ?_ h ⟨hstart, ha⟩
  · exact hinv.2
  · rintro past bar a a' ⟨hstart, ha⟩ hstep
    refine ⟨by rw [List.length_append]; omega, ha.logs (fun hpast => ?_) (step_logs hstep).2⟩
    have := List.length_pos_iff.2 hpast
    omega

/-- Every trade of a run is signalled at the bar before its entry, entered no earlier than the first
bar that can be traded, and left later within the series, each at the time of its bar; and of two
consecutive trades the second is entered no earlier than the first is left, and left later. -/
theorem trades_timed (bars : List (Bar α)) (start : Nat) (strategy : Strategy α)
    (assigned : Parameter.Assignment α) (costs : Costs α) (sim : Simulation α)
    (h : runFrom bars start strategy assigned costs = .ok sim) :
    (∀ t ∈ sim.trades,
      max start 1 ≤ t.entryBar ∧ t.entryBar < t.exitBar ∧ t.exitBar < bars.length ∧
        timeAt bars t.entryBar = some t.entryTime ∧ timeAt bars t.exitBar = some t.exitTime ∧
        timeAt bars (t.entryBar - 1) = some t.signalTime ∧
        t.signalTime < t.entryTime ∧ t.entryTime < t.exitTime) ∧
      sim.trades.IsChain fun a b => a.exitBar ≤ b.entryBar ∧ a.exitBar < b.exitBar := by
  obtain ⟨setup, hprepare, account, hplay, rfl⟩ := runFrom_eq_ok_iff.1 h
  obtain ⟨-, hlength, hdisorder, -⟩ := prepare_eq_ok_iff.1 hprepare
  have hordered := disorder?_eq_none_iff.1 hdisorder
  have hstart : start ≤ (bars.take start).length := by
    rw [List.length_take]
    omega
  have htimed := play_timed hstart hplay (.of_empty_log rfl rfl)
  rw [List.take_append_drop] at htimed
  constructor
  · intro t ht
    have ht := htimed.closed t (List.mem_reverse.1 ht)
    have hfirst := ht.entered.first_le
    exact ⟨hfirst, ht.entry_lt_exit, lt_length_of_timeAt ht.exitTime, ht.entered.entryTime,
      ht.exitTime, ht.entered.signalTime,
      hordered.timeAt_lt ht.entered.signalTime ht.entered.entryTime (by omega),
      hordered.timeAt_lt ht.entered.entryTime ht.exitTime ht.entry_lt_exit⟩
  · refine List.isChain_reverse.2 (htimed.follow.imp_of_mem_imp fun later earlier hlater _ h => ?_)
    exact ⟨h, Nat.lt_of_le_of_lt h (htimed.closed later hlater).entry_lt_exit⟩

def alternating : Strategy Extended where
  name := "alternating"
  decide history _ := .ok (if history.length % 2 = 0 then .long else .short)

def climb : List (Bar Extended) :=
  [.still 2 (.finite 100), .still 3 (.finite 101), .still 4 (.finite 102), .still 5 (.finite 103),
    .still 8 (.finite 104)]

theorem trades_timed_climb :
    ∃ sim, runFrom climb 1 alternating .empty { Costs.standard with allowShort := true } = .ok sim ∧
      sim.trades.length = 3 ∧
      (∀ t ∈ sim.trades,
        max 1 1 ≤ t.entryBar ∧ t.entryBar < t.exitBar ∧ t.exitBar < climb.length ∧
          timeAt climb t.entryBar = some t.entryTime ∧ timeAt climb t.exitBar = some t.exitTime ∧
          timeAt climb (t.entryBar - 1) = some t.signalTime ∧
          t.signalTime < t.entryTime ∧ t.entryTime < t.exitTime) ∧
        sim.trades.IsChain fun a b => a.exitBar ≤ b.entryBar ∧ a.exitBar < b.exitBar := by
  have hcount : (runFrom climb 1 alternating .empty
      { Costs.standard with allowShort := true }).toOption.map (·.trades.length) = some 3 := by
    decide +kernel
  obtain ⟨sim, hsim, hlength⟩ := Option.map_eq_some_iff.1 hcount
  have hrun := toOption_eq_some_iff.1 hsim
  exact ⟨sim, hrun, hlength, trades_timed climb 1 alternating .empty _ sim hrun⟩

end Simulation

end Backtest
