import Backtest.Proofs.Scalar.Rational
import Backtest.Proofs.WalkForward.Inversion
import Backtest.Proofs.WalkForward.Isolation
import Backtest.Proofs.WalkForward.Tiling

/-!
# No window is lost

Every planned window ends in exactly one way, in whatever pattern searches are refused, stopped or
fruitless, replays fail and windows give results, and at whatever moments the run is told to stop. A
summary lists the windows by how they end; a run that crashes over the candidates of a window has
none.
-/

namespace Backtest

variable {α : Type}

namespace WalkForward

/-- How a window ends. -/
inductive Ending where
  /-- With a result. -/
  | done
  | failed
  /-- Without either, as the run had been stopped. -/
  | stopped
  /-- With the whole run. -/
  | crashed
  deriving DecidableEq

def Verdict.ending : Verdict α → Ending
  | .done _ => .done
  | .failed _ => .failed
  | .stopped => .stopped
  | .crashed _ => .crashed

variable [Scalar α] [Powers α] [Random.Uniform α] {s : Setup α} {stops : Stops} {w : Window}
  {summary : WalkForwardSummary α} {i : Nat} {ending ending' : Ending}

/-- The ending of the window of a number, by what its search and its replay come to. -/
inductive Ends (s : Setup α) (stops : Stops) (i : Nat) : Ending → Prop
  | notBegun {w : Window} (hget : s.windows[i]? = some w) (hstopped : stops.window w.index = true) :
      Ends s stops i .stopped
  | searchRefused {w : Window} {error} (hget : s.windows[i]? = some w)
      (hgoes : stops.window w.index = false) (hsearch : inSample s stops w = .error error)
      (hrefused : ∀ text, error ≠ .crashed text) : Ends s stops i .failed
  | crashed {w : Window} {text} (hget : s.windows[i]? = some w)
      (hgoes : stops.window w.index = false)
      (hsearch : inSample s stops w = .error (.crashed text)) : Ends s stops i .crashed
  | searchStopped {w : Window} {outcome} (hget : s.windows[i]? = some w)
      (hgoes : stops.window w.index = false) (hsearch : inSample s stops w = .ok outcome)
      (hcancelled : outcome.cancelled = true) : Ends s stops i .stopped
  | fruitless {w : Window} {outcome} (hget : s.windows[i]? = some w)
      (hgoes : stops.window w.index = false) (hsearch : inSample s stops w = .ok outcome)
      (hfull : outcome.cancelled = false) (hbest : outcome.best = none) : Ends s stops i .failed
  | replayFailed {w : Window} {outcome best error} (hget : s.windows[i]? = some w)
      (hgoes : stops.window w.index = false) (hsearch : inSample s stops w = .ok outcome)
      (hfull : outcome.cancelled = false) (hbest : outcome.best = some best)
      (hreplay : outOfSample s w best.parameters = .error error) : Ends s stops i .failed
  | done {w : Window} {outcome best replay} (hget : s.windows[i]? = some w)
      (hgoes : stops.window w.index = false) (hsearch : inSample s stops w = .ok outcome)
      (hfull : outcome.cancelled = false) (hbest : outcome.best = some best)
      (hreplay : outOfSample s w best.parameters = .ok replay) : Ends s stops i .done

theorem Ends.unique (h : Ends s stops i ending) (h' : Ends s stops i ending') :
    ending = ending' := by
  cases h <;> cases h' <;> grind

theorem Ends.exists_window (h : Ends s stops i ending) : ∃ w, s.windows[i]? = some w := by
  cases h <;> exact ⟨_, ‹_›⟩

theorem Judged.ends {v : Verdict α} (h : Judged s stops w v) (hget : s.windows[i]? = some w) :
    Ends s stops i v.ending := by
  cases h with
  | notBegun hstopped => exact .notBegun hget hstopped
  | searchCrashed hgoes hsearch => exact .crashed hget hgoes hsearch
  | searchRefused hgoes hsearch hrefused => exact .searchRefused hget hgoes hsearch hrefused
  | searchStopped hgoes hsearch hcancelled => exact .searchStopped hget hgoes hsearch hcancelled
  | fruitless hgoes hsearch hfull hbest => exact .fruitless hget hgoes hsearch hfull hbest
  | replayFailed hgoes hsearch hfull hbest hreplay =>
    exact .replayFailed hget hgoes hsearch hfull hbest hreplay
  | done hgoes hsearch hfull hbest hreplay => exact .done hget hgoes hsearch hfull hbest hreplay

/-- What is made of a window is what it comes to. -/
theorem ends_judge (stops : Stops) (hget : s.windows[i]? = some w) :
    Ends s stops i (judge s stops w).ending :=
  (judged s stops w).ends hget

theorem ends_iff (hget : s.windows[i]? = some w) :
    Ends s stops i ending ↔ (judge s stops w).ending = ending :=
  ⟨fun h => (ends_judge stops hget).unique h, fun h => h ▸ ends_judge stops hget⟩

/-- What is recorded of a window is recorded under its number. -/
theorem index_of_judge (s : Setup α) (stops : Stops) (w : Window) :
    (∀ r ∈ (judge s stops w).done?, r.index = w.index) ∧
      ∀ f ∈ (judge s stops w).failed?, f.index = w.index := by
  have hjudged := judged s stops w
  generalize judge s stops w = v at hjudged ⊢
  cases hjudged <;> simp [Verdict.done?, Verdict.failed?, windowResult]

/-! ## Windows of a plan -/

omit [Powers α] [Random.Uniform α] in
/-- Windows are numbered in their order. -/
theorem Setup.Ready.index_eq (h : s.Ready) (hget : s.windows[i]? = some w) : w.index = i := by
  rw [Setup.windows, Window.getElem?_placeAll_eq_some_iff
    (WalkForwardConfig.stride_pos h.config)] at hget
  rw [hget.2]
  exact Nat.zero_add i

omit [Powers α] [Random.Uniform α] in
theorem Setup.Ready.windows_ordered (h : s.Ready) :
    s.windows.Pairwise fun v w => v.index < w.index := by
  rw [List.pairwise_iff_getElem]
  intro i j hi hj hlt
  rwa [h.index_eq (List.getElem?_eq_getElem hi), h.index_eq (List.getElem?_eq_getElem hj)]

/-- What is picked from the verdicts on windows is in their order. -/
theorem filterMap_judge_ordered {β : Type} {pick : Verdict α → Option β} {position : β → Nat}
    (hposition : ∀ w, ∀ b ∈ pick (judge s stops w), position b = w.index) {ws : List Window}
    (hws : ws.Pairwise fun v w => v.index < w.index) :
    ((ws.map (judge s stops)).filterMap pick).Pairwise fun a b => position a < position b := by
  rw [List.filterMap_map]
  refine hws.filterMap _ fun v w hlt a ha b hb => ?_
  rwa [hposition v a ha, hposition w b hb]

/-- What is picked under the number of a window is what is picked from its own verdict. -/
theorem find?_filterMap_judge {β : Type} {pick : Verdict α → Option β} {position : β → Nat}
    (hposition : ∀ w, ∀ b ∈ pick (judge s stops w), position b = w.index) {ws : List Window}
    (hws : ws.Pairwise fun v w => v.index < w.index) (hw : w ∈ ws) :
    ((ws.map (judge s stops)).filterMap pick).find? (fun b => position b == w.index) =
      pick (judge s stops w) := by
  induction ws with
  | nil => cases hw
  | cons v vs ih =>
    obtain ⟨hfirst, hrest⟩ := List.pairwise_cons.1 hws
    rw [List.map_cons, List.filterMap_cons]
    rcases List.mem_cons.1 hw with rfl | hw
    · cases hpick : pick (judge s stops w) with
      | some b => simp [hposition w b hpick]
      | none =>
        -- later windows have greater numbers
        simp only [List.find?_eq_none, List.filterMap_map, List.mem_filterMap, beq_iff_eq]
        rintro b ⟨u, hu, hb⟩ hindex
        exact (hfirst u hu).ne' ((hposition u b hb).symm.trans hindex)
    · cases hpick : pick (judge s stops v) with
      | some b =>
        have hne : (position b == w.index) = false := by
          rw [hposition v b hpick]
          exact beq_false_of_ne (hfirst w hw).ne
        simp only [List.find?_cons, hne]
        exact ih hrest hw
      | none => exact ih hrest hw

/-- What a summary records under a number: a result, a failure, or neither. -/
def reportOf (summary : WalkForwardSummary α) (i : Nat) :
    Option (WindowResult α) × Option WindowFailure :=
  (summary.windows.find? fun r => r.index == i, summary.failures.find? fun f => f.index == i)

theorem reportOf_run (h : run s stops = .ok summary) (hw : w ∈ s.windows) :
    reportOf summary w.index = ((judge s stops w).done?, (judge s stops w).failed?) := by
  obtain ⟨hready, -, rfl⟩ := run_eq_ok_iff.1 h
  exact Prod.ext
    (find?_filterMap_judge (fun w => (index_of_judge s stops w).1) hready.windows_ordered hw)
    (find?_filterMap_judge (fun w => (index_of_judge s stops w).2) hready.windows_ordered hw)

/-! ## Where each ending is listed -/

theorem mem_map_index_iff {β : Type} {pick : Verdict α → Option β} {position : β → Nat}
    (hposition : ∀ w, ∀ b ∈ pick (judge s stops w), position b = w.index)
    (hpick : ∀ v : Verdict α, (pick v).isSome ↔ v.ending = ending) (hready : s.Ready) :
    i ∈ ((s.windows.map (judge s stops)).filterMap pick).map position ↔ Ends s stops i ending := by
  simp only [List.filterMap_map, List.mem_map, List.mem_filterMap, Function.comp_apply]
  constructor
  · rintro ⟨b, ⟨w, hw, hb⟩, rfl⟩
    obtain ⟨j, hget⟩ := List.mem_iff_getElem?.1 hw
    rw [hposition w b hb, hready.index_eq hget, ends_iff hget, ← hpick, hb]
    rfl
  · intro h
    obtain ⟨w, hget⟩ := h.exists_window
    obtain ⟨b, hb⟩ := Option.isSome_iff_exists.1 ((hpick _).2 ((ends_iff hget).1 h))
    exact ⟨b, ⟨w, List.mem_of_getElem? hget, hb⟩,
      (hposition w b hb).trans (hready.index_eq hget)⟩

theorem any_isStopped_iff :
    (s.windows.map (judge s stops)).any Verdict.isStopped = true ↔
      ∃ i, Ends s stops i .stopped := by
  have hstopped : ∀ v : Verdict α, v.isStopped = true ↔ v.ending = .stopped := fun v => by
    cases v <;> simp [Verdict.isStopped, Verdict.ending]
  simp only [List.any_map, List.any_eq_true, Function.comp_apply, hstopped]
  constructor
  · rintro ⟨w, hw, hending⟩
    obtain ⟨i, hget⟩ := List.mem_iff_getElem?.1 hw
    exact ⟨i, (ends_iff hget).2 hending⟩
  · rintro ⟨i, h⟩
    obtain ⟨w, hget⟩ := h.exists_window
    exact ⟨w, List.mem_of_getElem? hget, (ends_iff hget).1 h⟩

/-- No window crashes in a run that gives a summary. -/
theorem not_ends_crashed (h : run s stops = .ok summary) : ¬Ends s stops i .crashed := by
  obtain ⟨hready, hroom, -⟩ := run_eq_ok_iff.1 h
  intro hends
  cases hends with
  | @crashed w text hget hgoes hsearch =>
    have hjudge : judge s stops w = .crashed text := judge_eq_crashed_iff.2 ⟨hgoes, hsearch⟩
    have hnone := List.findSome?_eq_none_iff.1 ((findSome?_crash?_eq_none_iff hready).2 hroom) _
      (List.mem_map_of_mem (List.mem_of_getElem? hget))
    rw [hjudge] at hnone
    cases hnone

/-- Every planned window has exactly one ending; results and failures are listed in the order of
their windows, under the numbers of the windows that end so; a run counts as cancelled exactly if a
window ends by being stopped. And what is recorded of a window stays the same when the strategy
fails or crashes, or the run is stopped, in other windows: another run that does this gives a
summary too, unless there is no room for the candidates and only the other run begins a window. -/
theorem run_loses_no_window (h : run s stops = .ok summary) :
    (WindowPlan.ofBars s.bars.length s.config = .ok s.plan ∧
      summary.plannedWindows = s.plan.windows.length) ∧
    (∀ i < summary.plannedWindows, ∃! ending, Ends s stops i ending) ∧
    (∀ i, (i ∈ summary.windows.map (·.index) ↔ Ends s stops i .done) ∧
      (i ∈ summary.failures.map (·.index) ↔ Ends s stops i .failed) ∧
      ¬Ends s stops i .crashed) ∧
    (summary.windows.Pairwise (fun a b => a.index < b.index) ∧
      summary.failures.Pairwise fun a b => a.index < b.index) ∧
    (summary.cancelled = true ↔ ∃ i, Ends s stops i .stopped) ∧
    ∀ (strategy : Strategy α) (stops' : Stops), ∀ w ∈ s.windows, s.SameIn w strategy →
      SameStops stops stops' w →
        (∀ other, run (s.withStrategy strategy) stops' = .ok other →
          reportOf other w.index = reportOf summary w.index) ∧
        ((s.Begun stops' → s.Begun stops ∨ s.HasRoom) →
          ∃ other, run (s.withStrategy strategy) stops' = .ok other) := by
  obtain ⟨hready, hroom, hsummary⟩ := run_eq_ok_iff.1 h
  have hdone := fun w => (index_of_judge s stops w).1
  have hfailed := fun w => (index_of_judge s stops w).2
  refine ⟨⟨hready.plan_eq, by rw [hsummary]; rfl⟩, fun i hi => ?_,
    fun i => ⟨?_, ?_, not_ends_crashed h⟩, ⟨?_, ?_⟩, ?_,
    fun strategy stops' w hw hsame hstops => ?_⟩
  · rw [hsummary] at hi
    exact ⟨_, ends_judge stops (List.getElem?_eq_getElem hi),
      fun _ h => h.unique (ends_judge stops (List.getElem?_eq_getElem hi))⟩
  · rw [hsummary]
    exact mem_map_index_iff hdone
      (fun v => by cases v <;> simp [Verdict.done?, Verdict.ending]) hready
  · rw [hsummary]
    exact mem_map_index_iff hfailed
      (fun v => by cases v <;> simp [Verdict.failed?, Verdict.ending]) hready
  · rw [hsummary]
    exact filterMap_judge_ordered hdone hready.windows_ordered
  · rw [hsummary]
    exact filterMap_judge_ordered hfailed hready.windows_ordered
  · rw [hsummary]
    exact any_isStopped_iff
  · refine ⟨fun other hother => ?_, fun hbegun => ?_⟩
    · rw [reportOf_run hother hw, reportOf_run h hw, judge_strategy hsame hstops]
    · exact ⟨_, run_eq_ok_iff.2 ⟨⟨hready.config, hready.preflight, hready.length⟩,
        fun h => (hbegun h).elim hroom id, rfl⟩⟩

local instance coarse : Powers Extended := Extended.coarsePowers

local instance words : Random.Uniform Extended := Extended.wordDraws

def posture : Strategy Extended where
  name := "posture"
  schema := ⟨[.choice "posture" ["long", "short"] "long"]⟩
  decide _ a := (orFault "posture" (a.choice "posture")).bind fun c =>
    if c = "long" then .ok .long else .error ⟨"posture", .crashed c⟩

def brittle : Strategy Extended :=
  { posture with
    evaluate := fun history view a =>
      if history.series.any fun bar => bar.close = .finite 100 then
        .error ⟨"posture", .crashed "one hundred"⟩
      else posture.evaluate history view a }

def nineDays : Setup Extended where
  bars :=
    [.still 2 (.finite 100), .still 3 (.finite 110), .still 4 (.finite 120), .still 5 (.finite 90),
      .still 8 (.finite 95), .still 9 (.finite 80), .still 10 (.finite 85),
      .still 11 (.finite 70), .still 12 (.finite 75)]
  strategy := posture
  space := Space.ofSchema posture.schema
  costs := .standard
  search :=
    { (SearchConfig.standard : SearchConfig Extended) with
      target := .totalReturn
      barsPerYear := .finite 4 }
  config := { WalkForwardConfig.standard with trainLength := 3, testLength := 2 }

def midway : Stops := ⟨fun _ => false, fun window candidate => window == 2 && candidate == 1⟩

theorem nineDays_ready : nineDays.Ready where
  config := rfl
  preflight := Search.preflight_eq_ok_iff.2
    ⟨rfl, rfl, by decide, disorder?_eq_none_iff.1 (by decide)⟩
  length := by decide

/-- The second window never shows a close of one hundred. -/
theorem nineDays_sameIn_brittle : nineDays.SameIn (Window.place 1 2 3 2) brittle := by
  have hsame : ∀ bars : List (Bar Extended), (∀ bar ∈ bars, bar.close ≠ .finite 100) →
      posture.SameOn brittle bars
        (Search.Tries posture nineDays.space (windowSearch nineDays (Window.place 1 2 3 2))) := by
    intro bars hbars
    refine ⟨rfl, rfl, fun _ _ => rfl, fun a _ history hshown view => if_neg ?_⟩
    simpa using fun bar hbar => hbars bar (hshown.subset hbar)
  exact ⟨hsame _ (by decide +kernel), hsame _ (by decide +kernel)⟩

theorem run_loses_no_window_nineDays :
    ∃ summary other, run nineDays midway = .ok summary ∧
      run (nineDays.withStrategy brittle) midway = .ok other ∧ summary.plannedWindows = 3 ∧
      summary.windows.map (·.index) = [0, 1] ∧ other.failures.map (·.index) = [0] ∧
      Ends nineDays midway 2 .stopped ∧ summary.cancelled = true ∧
      reportOf other 1 = reportOf summary 1 := by
  have hrun : run nineDays midway =
      .ok (nineDays.summarize (nineDays.windows.map (judge nineDays midway))) :=
    run_eq_ok_iff.2 ⟨nineDays_ready, fun _ => .inr (by decide +kernel), rfl⟩
  have hwindow : Window.place 1 2 3 2 ∈ nineDays.windows := by decide +kernel
  have hlast : Ends nineDays midway 2 .stopped :=
    (ends_iff (w := Window.place 2 4 3 2) (by decide +kernel)).2 (by decide +kernel)
  obtain ⟨-, -, -, -, hcancelled, hothers⟩ := run_loses_no_window hrun
  obtain ⟨hreport, hexists⟩ :=
    hothers brittle midway _ hwindow nineDays_sameIn_brittle ⟨rfl, rfl⟩
  obtain ⟨other, hother⟩ := hexists .inl
  refine ⟨_, other, hrun, hother, by decide +kernel, by decide +kernel, ?_, hlast,
    hcancelled.2 ⟨2, hlast⟩, hreport other hother⟩
  rw [(run_eq_ok_iff.1 hother).2.2]
  decide +kernel

end WalkForward

end Backtest
