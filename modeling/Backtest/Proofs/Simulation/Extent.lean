import Backtest.Proofs.Simulation.Timing

/-!
# How much a run reports

A bar adds at most one to each count of a run and at most one trade to its log, so none of them
exceeds the number of bars; and a trade begins and ends at bars that there are.
-/

namespace Backtest.Simulation

variable {α : Type} [Scalar α] {s : Setup α} {bars past : List (Bar α)} {bar : Bar α} {start : Nat}
  {strategy : Strategy α} {assigned : Parameter.Assignment α} {costs : Costs α}
  {a a' : Account α}

structure Account.Within (past : List (Bar α)) (a : Account α) : Prop where
  rejectedSignals : a.rejectedSignals ≤ past.length
  unfilledSignals : a.unfilledSignals ≤ past.length
  closedTrades : a.ledger.closedTrades.length ≤ past.length

theorem execute_counts {signal : Signal α} (hpast : past ≠ [])
    (h : execute s (.ofSeries past) signal bar a = .ok a') :
    a'.rejectedSignals ≤ a.rejectedSignals + 1 ∧ a'.unfilledSignals ≤ a.unfilledSignals + 1 := by
  rcases execute_cases hpast h with ⟨-, rfl⟩ | ⟨requested, signalBar, -, -, -, rfl⟩
  · exact ⟨Nat.le_succ _, Nat.le_succ _⟩
  · have hrefused := Bool.toNat_le (Order.allowedWeight s.costs requested).2
    cases orderAt s past signal requested signalBar bar a <;>
      exact ⟨Nat.add_le_add_left hrefused _, by simp [Account.carryOut]⟩

theorem step_counts (h : step s (.ofSeries past) bar a = .ok a') :
    a'.rejectedSignals ≤ a.rejectedSignals + 1 ∧ a'.unfilledSignals ≤ a.unfilledSignals + 1 := by
  rcases step_eq_ok_iff.1 h with ⟨-, rfl⟩ | ⟨hpast, signal, -, mid, hmid, rfl⟩
  · exact ⟨Nat.le_succ _, Nat.le_succ _⟩
  · have hcounts := execute_counts hpast hmid
    exact hcounts

theorem Logs.length_closedTrades_le {l l' : Ledger α} (h : Logs past bar l l') :
    l'.closedTrades.length ≤ l.closedTrades.length + 1 := by
  rcases h with ⟨-, hsame⟩ | ⟨f, -, -, hclosed⟩
  · rw [hsame]
    exact Nat.le_succ _
  · rcases l.apply_log f with ⟨hsame, -⟩ | ⟨o, -, t, -, hcons, -⟩
    · rw [hclosed, hsame]
      exact Nat.le_succ _
    · rw [hclosed, hcons, List.length_cons]

theorem Account.Within.step (h : a.Within past)
    (hstep : Simulation.step s (.ofSeries past) bar a = .ok a') :
    a'.Within (past ++ [bar]) := by
  obtain ⟨hrejected, hunfilled⟩ := step_counts hstep
  have hclosed := (step_logs hstep).2.length_closedTrades_le
  have hlength : (past ++ [bar]).length = past.length + 1 := List.length_append
  constructor
  · rw [hlength]
    exact hrejected.trans (Nat.add_le_add_right h.rejectedSignals 1)
  · rw [hlength]
    exact hunfilled.trans (Nat.add_le_add_right h.unfilledSignals 1)
  · rw [hlength]
    exact hclosed.trans (Nat.add_le_add_right h.closedTrades 1)

structure Trade.Within (bars : List (Bar α)) (t : Trade α) : Prop where
  entryBar : t.entryBar < bars.length
  exitBar : t.exitBar < bars.length

/-- What a run reports is bounded by its bars. -/
structure Within (bars : List (Bar α)) (sim : Simulation α) : Prop where
  rejectedSignals : sim.rejectedSignals ≤ bars.length
  unfilledSignals : sim.unfilledSignals ≤ bars.length
  tradeCount : sim.trades.length ≤ bars.length
  trades : ∀ t ∈ sim.trades, Trade.Within bars t

theorem runFrom_within {sim : Simulation α}
    (h : runFrom bars start strategy assigned costs = .ok sim) : sim.Within bars := by
  obtain ⟨setup, hprepare, account, hplay, rfl⟩ := runFrom_eq_ok_iff.1 h
  obtain ⟨-, hlength, -⟩ := prepare_eq_ok_iff.1 hprepare
  have hlt : start < bars.length := Nat.lt_of_lt_of_le (by simp [leastBars]) hlength
  have hstart : start ≤ (bars.take start).length := by
    rw [List.length_take]
    omega
  have htimed := play_timed hstart hplay (.of_empty_log rfl rfl)
  have hwithin := play_induction (P := Account.Within)
    (fun past bar a a' ha hstep => ha.step hstep) hplay (by
      constructor <;> simp [Account.start, Ledger.ofCash])
  rw [List.take_append_drop] at htimed hwithin
  refine ⟨hwithin.rejectedSignals, hwithin.unfilledSignals, ?_, fun t ht => ?_⟩
  · simpa [ofAccount, Ledger.trades] using hwithin.closedTrades
  · have ht := htimed.closed t (List.mem_reverse.1 ht)
    exact ⟨lt_length_of_timeAt ht.entered.entryTime, lt_length_of_timeAt ht.exitTime⟩

end Backtest.Simulation
