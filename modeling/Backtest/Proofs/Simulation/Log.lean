import Backtest.Proofs.Account.Log
import Backtest.Proofs.Simulation.Inversion

/-!
# The trade log and the equity curve grow

Each bar of a run adds one point to the equity curve and books at most one fill, at that bar, for
the signal of the bar before. So points and closed trades are only ever added, and a closed trade
ends at the bar that closed it.
-/

namespace Backtest

variable {α : Type} [Scalar α]

namespace Ledger

@[simp] theorem openTrade_mark (l : Ledger α) (price : α) :
    (l.mark price).openTrade = l.openTrade := rfl

@[simp] theorem closedTrades_mark (l : Ledger α) (price : α) :
    (l.mark price).closedTrades = l.closedTrades := rfl

@[simp] theorem openTrade_snapCash (l : Ledger α) (tolerance : α) :
    (l.snapCash tolerance).openTrade = l.openTrade := by
  unfold snapCash
  split <;> rfl

@[simp] theorem closedTrades_snapCash (l : Ledger α) (tolerance : α) :
    (l.snapCash tolerance).closedTrades = l.closedTrades := by
  unfold snapCash
  split <;> rfl

@[simp] theorem quantity_mark (l : Ledger α) (price : α) :
    (l.mark price).portfolio.quantity = l.portfolio.quantity := rfl

@[simp] theorem quantity_snapCash (l : Ledger α) (tolerance : α) :
    (l.snapCash tolerance).portfolio.quantity = l.portfolio.quantity := by
  unfold snapCash
  split <;> rfl

end Ledger

namespace Simulation

variable {s : Setup α} {past rest : List (Bar α)} {bar : Bar α} {a a' : Account α}

/-- The fill was made at this bar, right after these ones. -/
structure MadeAt (past : List (Bar α)) (bar : Bar α) (f : Fill α) : Prop where
  bar_eq : f.bar = past.length
  time_eq : f.time = bar.time
  signalTime_eq : past.getLast?.map (·.time) = some f.signalTime

/-- The log of a ledger that has met at most one fill of a bar. -/
def Logs (past : List (Bar α)) (bar : Bar α) (l l' : Ledger α) : Prop :=
  (l'.openTrade = l.openTrade ∧ l'.closedTrades = l.closedTrades) ∨
    ∃ f : Fill α, MadeAt past bar f ∧ l'.openTrade = (l.apply f).openTrade ∧
      l'.closedTrades = (l.apply f).closedTrades

theorem execute_logs {signal : Signal α} (hpast : past ≠ [])
    (h : execute s (.ofSeries past) signal bar a = .ok a') :
    a'.points = a.points ∧ Logs past bar a.ledger a'.ledger := by
  rcases execute_cases hpast h with ⟨-, rfl⟩ | ⟨requested, signalBar, -, hlast, -, rfl⟩
  · exact ⟨rfl, .inl ⟨rfl, rfl⟩⟩
  · cases horder : orderAt s past signal requested signalBar bar a with
    | unchanged => exact ⟨rfl, .inl ⟨rfl, rfl⟩⟩
    | noOpening => exact ⟨rfl, .inl ⟨rfl, rfl⟩⟩
    | filled f =>
      obtain ⟨-, -, -, hf⟩ := Order.outcome_eq_filled horder
      refine ⟨rfl, .inr ⟨f, ⟨?_, ?_, ?_⟩, by simp [Account.carryOut], by simp [Account.carryOut]⟩⟩
      · rw [hf]
      · rw [hf]
      · rw [hf, hlast, Option.map_some]

theorem step_logs (h : step s (.ofSeries past) bar a = .ok a') :
    (∃ point, a'.points = point :: a.points) ∧ Logs past bar a.ledger a'.ledger := by
  rcases step_eq_ok_iff.1 h with ⟨-, rfl⟩ | ⟨hpast, signal, -, mid, hmid, rfl⟩
  · exact ⟨⟨_, rfl⟩, .inl ⟨rfl, rfl⟩⟩
  · obtain ⟨hpoints, hlogs⟩ := execute_logs hpast hmid
    exact ⟨⟨_, congrArg _ hpoints⟩, hlogs⟩

/-- What one bar adds to the closed trades ends at that bar. -/
theorem Logs.closedTrades {l l' : Ledger α} (h : Logs past bar l l') :
    ∃ closed, l'.closedTrades = closed ++ l.closedTrades ∧
      ∀ t ∈ closed, t.exitBar = past.length := by
  rcases h with ⟨-, hsame⟩ | ⟨f, hf, -, hclosed⟩
  · exact ⟨[], by simp [hsame]⟩
  · rcases l.apply_log f with ⟨hsame, -⟩ | ⟨o, -, t, ht, hcons, -⟩
    · exact ⟨[], by simp [hclosed, hsame]⟩
    · exact ⟨[t], by simp [hclosed, hcons], by simp [ht.exitBar, hf.bar_eq]⟩

/-- What a run adds: one point a bar, and trades that end at its bars. -/
theorem play_grows (h : play s (.ofSeries past) rest a = .ok a') :
    (∃ points, a'.points = points ++ a.points ∧ points.length = rest.length) ∧
      ∃ closed, a'.ledger.closedTrades = closed ++ a.ledger.closedTrades ∧
        ∀ t ∈ closed, past.length ≤ t.exitBar ∧ t.exitBar < past.length + rest.length := by
  induction rest generalizing past a with
  | nil =>
    cases h
    exact ⟨⟨[], by simp⟩, [], by simp⟩
  | cons bar rest ih =>
    obtain ⟨mid, hstep, hrest⟩ := play_cons.1 h
    obtain ⟨⟨point, hpoint⟩, hlogs⟩ := step_logs hstep
    obtain ⟨now, hnow, hnowBar⟩ := hlogs.closedTrades
    obtain ⟨⟨points, hpoints, hlength⟩, later, hlater, hlaterBar⟩ := ih hrest
    refine ⟨⟨points ++ [point], by simp [hpoints, hpoint], by simp [hlength]⟩, later ++ now,
      by simp [hlater, hnow], fun t ht => ?_⟩
    rw [List.length_cons]
    rcases List.mem_append.1 ht with ht | ht
    · have := hlaterBar t ht
      rw [List.length_append, List.length_singleton] at this
      omega
    · have := hnowBar t ht
      omega

theorem play_append {rest' : List (Bar α)} :
    play s (.ofSeries past) (rest ++ rest') a = .ok a' ↔
      ∃ mid, play s (.ofSeries past) rest a = .ok mid ∧
        play s (.ofSeries (past ++ rest)) rest' mid = .ok a' := by
  induction rest generalizing past a with
  | nil => simp [play]
  | cons bar rest ih =>
    simp only [List.cons_append, play_cons, ih, List.append_assoc, List.nil_append]
    constructor
    · rintro ⟨next, hstep, mid, hmid, hrest⟩
      exact ⟨mid, ⟨next, hstep, hmid⟩, hrest⟩
    · rintro ⟨mid, ⟨next, hstep, hmid⟩, hrest⟩
      exact ⟨next, hstep, mid, hmid, hrest⟩

/-- The account after one more bar is the same if no bar is left, and otherwise met that bar. -/
theorem accountAfter_succ {bars : List (Bar α)} {start k : Nat} {strategy : Strategy α}
    {assigned : Parameter.Assignment α} {costs : Costs α}
    (h : accountAfter bars start strategy assigned costs (k + 1) = .ok a') :
    (bars[start + k]? = none ∧ accountAfter bars start strategy assigned costs k = .ok a') ∨
      ∃ s bar a, prepare bars start strategy assigned costs = .ok s ∧
        bars[start + k]? = some bar ∧ accountAfter bars start strategy assigned costs k = .ok a ∧
        step s (.ofSeries (bars.take (start + k))) bar a = .ok a' := by
  obtain ⟨setup, hprepare, hplay⟩ := accountAfter_eq_ok_iff.1 h
  rw [List.take_add_one, List.getElem?_drop, play_append, ← List.take_add] at hplay
  obtain ⟨a, hbefore, hlast⟩ := hplay
  have hrun := accountAfter_eq_ok_iff.2 ⟨setup, hprepare, hbefore⟩
  cases hbar : bars[start + k]? with
  | none =>
    rw [hbar] at hlast
    cases hlast
    exact .inl ⟨rfl, hrun⟩
  | some bar =>
    rw [hbar] at hlast
    obtain ⟨mid, hstep, hnil⟩ := play_cons.1 hlast
    cases hnil
    exact .inr ⟨setup, bar, a, hprepare, rfl, hrun, hstep⟩

end Simulation

end Backtest
