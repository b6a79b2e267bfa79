import Backtest.Proofs.Scalar.Rational
import Backtest.Proofs.WalkForward.Inversion

/-!
# No leakage between windows or from the future

What becomes of a window depends on no bar behind it, and what its search finds on no bar behind
its in-sample segment. So later bars only add outcomes to a walk-forward run, and the bars of a
test segment have no part in choosing the parameters that are replayed on it.
-/

namespace Backtest

variable {α : Type}

theorem BarRange.ofBars_congr {bars bars' : List (Bar α)} {start stop : Nat} (hlt : start < stop)
    (h : bars'.take stop = bars.take stop) : ofBars bars' start stop = ofBars bars start stop := by
  have hget {i : Nat} (hi : i < stop) : bars'[i]? = bars[i]? := by
    rw [← List.getElem?_take_of_lt hi, h, List.getElem?_take_of_lt hi]
  unfold ofBars
  rw [hget hlt, hget (by omega : stop - 1 < stop)]

theorem Search.cancelled_never [Scalar α] [Powers α] [Random.Uniform α] {bars : List (Bar α)}
    {strategy : Strategy α} {space : Space α} {costs : Costs α} {config : SearchConfig α}
    {o : SearchOutcome α} (h : run bars strategy space costs config never = .ok o) :
    o.cancelled = false := by
  rw [(run_eq_ok_iff.1 h).report]
  simp only [report, verdicts, List.any_map, List.any_eq_false, Function.comp_apply]
  intro c _
  rw [judge, if_neg (by simp [never])]
  cases Evaluation.run bars strategy c.resolved costs config.barsPerYear <;>
    simp [Verdict.isStopped]

namespace WalkForward

theorem segment_congr {bars bars' : List (Bar α)} {start stop : Nat}
    (h : bars'.take stop = bars.take stop) :
    segment bars' start stop = segment bars start stop := by
  rw [segment, h, segment]

variable {s : Setup α} {stops : Stops} {w : Window} {bars bars' : List (Bar α)}

/-- Two results record the same in-sample search. -/
structure SameSearch (r r' : WindowResult α) : Prop where
  bestParameters : r'.bestParameters = r.bestParameters
  inSampleMetrics : r'.inSampleMetrics = r.inSampleMetrics
  candidatesEvaluated : r'.candidatesEvaluated = r.candidatesEvaluated
  candidateFailures : r'.candidateFailures = r.candidateFailures

def Setup.withBars (s : Setup α) (bars : List (Bar α)) : Setup α := { s with bars }

/-- A series with other bars in the test segment of a window. -/
def replaceTest (bars : List (Bar α)) (w : Window) (test : List (Bar α)) : List (Bar α) :=
  bars.take w.testStart ++ test ++ bars.drop w.testEnd

theorem take_replaceTest (hw : w.testStart = w.trainEnd) (hle : w.testStart ≤ bars.length)
    (test : List (Bar α)) : (replaceTest bars w test).take w.trainEnd = bars.take w.trainEnd := by
  rw [replaceTest, List.append_assoc, ← hw]
  exact List.take_left' (by simpa using hle)

theorem length_replaceTest {test : List (Bar α)} (hstart : w.testStart ≤ w.testEnd)
    (hle : w.testEnd ≤ bars.length) (htest : test.length = w.testLength) :
    (replaceTest bars w test).length = bars.length := by
  simp only [replaceTest, List.length_append, List.length_take, List.length_drop, htest,
    Window.testLength]
  omega

theorem Setup.fits_of_mem (hw : w ∈ s.windows) :
    w.Fits s.config.trainLength s.config.testLength s.bars.length :=
  Window.fits_of_mem_placeAll hw

theorem Setup.windows_prefix (later : List (Bar α)) :
    s.windows <+: (s.withBars (s.bars ++ later)).windows := by
  unfold windows withBars
  rw [List.length_append]
  exact Window.placeAll_prefix later.length

variable [Scalar α] [Powers α] [Random.Uniform α]

/-! ## One window -/

/-- The search of a window reads its in-sample bars. -/
theorem inSample_congr (h : bars'.take w.trainEnd = s.bars.take w.trainEnd) :
    inSample (s.withBars bars') stops w = inSample s stops w := by
  unfold inSample
  rw [Setup.withBars, segment_congr h]
  rfl

omit [Random.Uniform α] in
theorem outOfSample_congr (h : bars'.take w.testEnd = s.bars.take w.testEnd)
    (best : Parameter.Assignment α) :
    outOfSample (s.withBars bars') w best = outOfSample s w best := by
  unfold outOfSample
  rw [Setup.withBars, segment_congr h, segment_congr h]

omit [Powers α] [Random.Uniform α] in
theorem windowResult_congr (h : bars'.take w.testEnd = s.bars.take w.testEnd)
    (htrain : w.trainStart < w.trainEnd) (htest : w.testStart < w.testEnd)
    (hle : w.trainEnd ≤ w.testEnd) (outcome : SearchOutcome α) (best replay : Evaluation α) :
    windowResult (s.withBars bars') w outcome best replay =
      windowResult s w outcome best replay := by
  have hinner : bars'.take w.trainEnd = s.bars.take w.trainEnd := by
    simpa [List.take_take, hle] using congrArg (List.take w.trainEnd) h
  unfold windowResult
  rw [Setup.withBars, BarRange.ofBars_congr htrain hinner, BarRange.ofBars_congr htest h]

/-- What becomes of a window depends on no bar behind it. -/
theorem judge_congr (h : bars'.take w.testEnd = s.bars.take w.testEnd)
    (htrain : w.trainStart < w.trainEnd) (htest : w.testStart < w.testEnd)
    (hle : w.trainEnd ≤ w.testEnd) :
    judge (s.withBars bars') stops w = judge s stops w := by
  have hinner : bars'.take w.trainEnd = s.bars.take w.trainEnd := by
    simpa [List.take_take, hle] using congrArg (List.take w.trainEnd) h
  unfold judge
  rw [inSample_congr hinner]
  simp only [outOfSample_congr h, windowResult_congr h htrain htest hle]

theorem judge_ne_stopped : judge s .never w ≠ .stopped := by
  intro h
  have hjudged := judged s .never w
  rw [h] at hjudged
  cases hjudged with
  | notBegun hstopped => cases hstopped
  | searchStopped _ hsearch hcancelled =>
    rw [Search.cancelled_never hsearch] at hcancelled
    cases hcancelled

/-- A recorded result is that of a search, its best candidate and the replay of this. -/
theorem judge_eq_done {r : WindowResult α} (h : judge s stops w = .done r) :
    ∃ outcome best replay, inSample s stops w = .ok outcome ∧ outcome.best = some best ∧
      outOfSample s w best.parameters = .ok replay ∧
      r = windowResult s w outcome best replay := by
  have hjudged := judged s stops w
  rw [h] at hjudged
  cases hjudged with
  | done _ hsearch _ hbest hreplay => exact ⟨_, _, _, hsearch, hbest, hreplay, rfl⟩

/-! ## Whole runs -/

omit [Powers α] [Random.Uniform α] in
/-- A run that is ready has a window, unless its lengths add up to more than is ever counted. -/
theorem Setup.Ready.windows_ne_nil (h : s.Ready) (hlength : s.bars.length < maxCount) :
    s.windows ≠ [] := by
  have hfits := h.length
  unfold WalkForwardConfig.windowLength at hfits
  rw [windows, Window.placeAll_of_room ⟨WalkForwardConfig.stride_pos h.config, by omega⟩]
  exact List.cons_ne_nil _ _

def Setup.verdicts (s : Setup α) : List (Verdict α) := s.windows.map (judge s .never)

omit [Powers α] [Random.Uniform α] in
theorem Setup.Ready.withBars (h : s.Ready) (hordered : Ordered bars)
    (hlength : s.bars.length ≤ bars.length) : (s.withBars bars).Ready where
  config := h.config
  preflight := by
    obtain ⟨hcosts, hsearch, hleast, -⟩ := Search.preflight_eq_ok_iff.1 h.preflight
    exact Search.preflight_eq_ok_iff.2 ⟨hcosts, hsearch, hleast.trans hlength, hordered⟩
  length := h.length.trans hlength

theorem Setup.verdicts_prefix (hconfig : s.config.validate = .ok ()) (later : List (Bar α)) :
    s.verdicts <+: (s.withBars (s.bars ++ later)).verdicts := by
  obtain ⟨added, hadded⟩ := s.windows_prefix later
  refine ⟨added.map (judge (s.withBars (s.bars ++ later)) .never), ?_⟩
  -- the windows of the shorter series end within it, so the later bars are out of their sight
  have hsame : ∀ w ∈ s.windows,
      judge s .never w = judge (s.withBars (s.bars ++ later)) .never w := by
    intro w hw
    obtain ⟨htrain, htest⟩ := WalkForwardConfig.lengths_pos hconfig
    have hfits := Setup.fits_of_mem hw
    have hend := hfits.trainEnd
    have hstart := hfits.testStart
    have hstop := hfits.testEnd
    refine (judge_congr ?_ (by omega) (by omega) (by omega)).symm
    exact List.take_append_of_le_length hfits.testEnd_le
  rw [verdicts, verdicts, ← hadded, List.map_append, List.map_congr_left hsame]

/-! ## Other bars in a test segment -/

omit [Scalar α] [Powers α] [Random.Uniform α] in
theorem Setup.testStart_le_testEnd (hw : w ∈ s.windows) : w.testStart ≤ w.testEnd := by
  rw [(Setup.fits_of_mem hw).testEnd]
  exact Nat.le_add_right _ _

theorem inSample_replaceTest (stops : Stops) (hw : w ∈ s.windows) (test : List (Bar α)) :
    inSample (s.withBars (replaceTest s.bars w test)) stops w = inSample s stops w := by
  have hfits := Setup.fits_of_mem hw
  have hle := (Setup.testStart_le_testEnd hw).trans hfits.testEnd_le
  exact inSample_congr (take_replaceTest hfits.testStart hle test)

omit [Scalar α] [Powers α] [Random.Uniform α] in
theorem Setup.length_replaceTest (hw : w ∈ s.windows) {test : List (Bar α)}
    (htest : test.length = w.testLength) : (replaceTest s.bars w test).length = s.bars.length :=
  WalkForward.length_replaceTest (Setup.testStart_le_testEnd hw)
    (Setup.fits_of_mem hw).testEnd_le htest

/-- Results that come of one in-sample search record it alike. -/
theorem sameSearch_of_inSample_eq {s' : Setup α} {r r' : WindowResult α}
    (h : inSample s' stops w = inSample s stops w) (hr : judge s stops w = .done r)
    (hr' : judge s' stops w = .done r') : SameSearch r r' := by
  obtain ⟨outcome, best, replay, hfound, hbest, -, rfl⟩ := judge_eq_done hr
  obtain ⟨outcome', best', replay', hfound', hbest', -, rfl⟩ := judge_eq_done hr'
  rw [h, hfound] at hfound'
  cases hfound'
  rw [hbest] at hbest'
  cases hbest'
  exact ⟨rfl, rfl, rfl, rfl⟩

/-! ## What a run leaks -/

/-- Walk-forward without a request to stop. Every window has a result or a failure, listed in the
order of the windows. Later bars add outcomes behind those there are, and with them the run still
gives a summary; that takes a window that has shown that there is room for the candidates, and there
is one as long as the bars can be counted. And other bars in the test segment of a window change
nothing of its in-sample search, nor of what a result records of it. -/
theorem run_leaks_nothing (s : Setup α) (summary : WalkForwardSummary α)
    (h : run s .never = .ok summary) :
    (s.verdicts.length = summary.plannedWindows ∧ .stopped ∉ s.verdicts ∧
      summary.windows = s.verdicts.filterMap Verdict.done? ∧
      summary.failures = s.verdicts.filterMap Verdict.failed? ∧
      (s.bars.length < maxCount → s.windows ≠ [])) ∧
    (∀ later, Ordered (s.bars ++ later) →
      s.verdicts <+: (s.withBars (s.bars ++ later)).verdicts ∧
      (∀ longer, run (s.withBars (s.bars ++ later)) .never = .ok longer →
        summary.windows <+: longer.windows ∧ summary.failures <+: longer.failures) ∧
      (s.windows ≠ [] → ∃ longer, run (s.withBars (s.bars ++ later)) .never = .ok longer)) ∧
    ∀ w ∈ s.windows, ∀ test,
      inSample (s.withBars (replaceTest s.bars w test)) .never w = inSample s .never w ∧
      (∀ r r', judge s .never w = .done r →
        judge (s.withBars (replaceTest s.bars w test)) .never w = .done r' → SameSearch r r') ∧
      (test.length = w.testLength → Ordered (replaceTest s.bars w test) →
        (s.withBars (replaceTest s.bars w test)).windows = s.windows ∧
          ∃ other, run (s.withBars (replaceTest s.bars w test)) .never = .ok other) := by
  obtain ⟨hready, hroom, rfl⟩ := run_eq_ok_iff.1 h
  refine ⟨⟨by simp [Setup.verdicts, Setup.summarize, Setup.plan, WalkForwardSummary.ofWindows], ?_,
    rfl, rfl, hready.windows_ne_nil⟩, ?_, ?_⟩
  · intro hstopped
    obtain ⟨w, -, hw⟩ := List.mem_map.1 hstopped
    exact judge_ne_stopped hw
  · intro later hordered
    have hlonger := hready.withBars hordered (by simp)
    have hearlier := Setup.verdicts_prefix hready.config later
    refine ⟨hearlier, fun longer hrun => ?_, fun hwindows => ?_⟩
    · rw [(run_eq_ok_iff.1 hrun).2.2]
      exact ⟨hearlier.filterMap _, hearlier.filterMap _⟩
    · obtain ⟨w, hw⟩ := List.exists_mem_of_ne_nil _ hwindows
      exact ⟨_, run_eq_ok_iff.2 ⟨hlonger, fun _ => hroom ⟨w, hw, rfl⟩, rfl⟩⟩
  · intro w hw test
    have hsearch := inSample_replaceTest .never hw test
    refine ⟨hsearch, fun r r' => sameSearch_of_inSample_eq hsearch, fun htest hordered => ?_⟩
    have hlength := Setup.length_replaceTest hw htest
    refine ⟨?_, _, run_eq_ok_iff.2
      ⟨hready.withBars hordered hlength.ge, fun _ => hroom ⟨w, hw, rfl⟩, rfl⟩⟩
    unfold Setup.windows Setup.withBars
    rw [hlength]

local instance : Powers Extended := Extended.coarsePowers

local instance : Random.Uniform Extended := Extended.wordDraws

def stance : Strategy Extended where
  name := "stance"
  schema := ⟨[.choice "stance" ["flat", "long"] "flat"]⟩
  decide _ a :=
    (orFault "stance" (a.choice "stance")).map fun c => if c = "long" then .long else .flat

def week : Setup Extended where
  bars :=
    [.still 2 (.finite 100), .still 3 (.finite 110), .still 4 (.finite 120), .still 5 (.finite 90),
      .still 8 (.finite 95), .still 9 (.finite 80), .still 10 (.finite 85)]
  strategy := stance
  space := Space.ofSchema stance.schema
  costs := .standard
  search :=
    { (SearchConfig.standard : SearchConfig Extended) with
      target := .totalReturn
      barsPerYear := .finite 4 }
  config := { WalkForwardConfig.standard with trainLength := 3, testLength := 2 }

def nextDays : List (Bar Extended) := [.still 11 (.finite 70), .still 12 (.finite 75)]

def otherDays : List (Bar Extended) := [.still 5 (.finite 200), .still 6 (.finite 300)]

theorem week_ready : week.Ready where
  config := rfl
  preflight := Search.preflight_eq_ok_iff.2
    ⟨rfl, rfl, by decide, disorder?_eq_none_iff.1 (by decide)⟩
  length := by decide

theorem run_leaks_nothing_week :
    ∃ summary, run week .never = .ok summary ∧ summary.plannedWindows = 2 ∧
      Ordered (week.bars ++ nextDays) ∧
      (∃ longer, run (week.withBars (week.bars ++ nextDays)) .never = .ok longer ∧
        longer.plannedWindows = 3 ∧ summary.windows <+: longer.windows) ∧
      Window.place 0 0 3 2 ∈ week.windows ∧
      Ordered (replaceTest week.bars (Window.place 0 0 3 2) otherDays) ∧
      inSample (week.withBars (replaceTest week.bars (Window.place 0 0 3 2) otherDays)) .never
        (Window.place 0 0 3 2) = inSample week .never (Window.place 0 0 3 2) := by
  have hrun : run week .never = .ok (week.summarize week.verdicts) :=
    run_eq_ok_iff.2 ⟨week_ready, fun _ => .inr (by decide +kernel), rfl⟩
  have hlater : Ordered (week.bars ++ nextDays) := disorder?_eq_none_iff.1 (by decide)
  have hwindow : Window.place 0 0 3 2 ∈ week.windows := by decide +kernel
  have hother : Ordered (replaceTest week.bars (Window.place 0 0 3 2) otherDays) :=
    disorder?_eq_none_iff.1 (by decide)
  obtain ⟨-, hlonger, htest⟩ := run_leaks_nothing week _ hrun
  obtain ⟨-, hearlier, hexists⟩ := hlonger nextDays hlater
  obtain ⟨longer, hlonger⟩ := hexists (List.ne_nil_of_mem hwindow)
  refine ⟨_, hrun, by decide +kernel, hlater, ⟨longer, hlonger, ?_, (hearlier longer hlonger).1⟩,
    hwindow, hother, (htest _ hwindow otherDays).1⟩
  rw [(run_eq_ok_iff.1 hlonger).2.2]
  decide +kernel

end WalkForward

end Backtest
