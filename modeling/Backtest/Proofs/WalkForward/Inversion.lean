import Backtest.Proofs.Search.Inversion
import Backtest.WalkForward.Run

/-!
# What a finished walk-forward run went through

Windows are laid from the first bar on, each within the bars there are; more bars only add windows
behind those already laid. A walk-forward run that gives a summary has passed every check made
before its windows, and the summary is that of the verdicts on the windows of its plan.
-/

namespace Backtest

namespace Window

variable {bars trainLength testLength stride index start : Nat} {w : Window}

/-- A window with segments of these lengths, one after the other, within a number of bars. -/
structure Fits (trainLength testLength bars : Nat) (w : Window) : Prop where
  trainEnd : w.trainEnd = w.trainStart + trainLength
  testStart : w.testStart = w.trainEnd
  testEnd : w.testEnd = w.testStart + testLength
  testEnd_le : w.testEnd ≤ bars

theorem placeAll_of_room (h : 0 < stride ∧ start + (trainLength + testLength) ≤ bars) :
    placeAll bars trainLength testLength stride index start =
      place index start trainLength testLength ::
        placeAll bars trainLength testLength stride (index + 1) (start + stride) := by
  rw [placeAll, dif_pos h]

theorem placeAll_of_no_room (h : ¬(0 < stride ∧ start + (trainLength + testLength) ≤ bars)) :
    placeAll bars trainLength testLength stride index start = [] := by
  rw [placeAll, dif_neg h]

theorem fits_of_mem_placeAll
    (h : w ∈ placeAll bars trainLength testLength stride index start) :
    w.Fits trainLength testLength bars := by
  induction index, start using placeAll.induct bars trainLength testLength stride with
  | case1 index start hroom ih =>
    rw [placeAll_of_room hroom] at h
    rcases List.mem_cons.1 h with rfl | h
    · exact ⟨rfl, rfl, rfl, by simp only [place]; omega⟩
    · exact ih h
  | case2 index start hroom =>
    rw [placeAll_of_no_room hroom] at h
    simp at h

/-- More bars leave the windows as they are and may add some. -/
theorem placeAll_prefix (more : Nat) :
    placeAll bars trainLength testLength stride index start <+:
      placeAll (bars + more) trainLength testLength stride index start := by
  induction index, start using placeAll.induct bars trainLength testLength stride with
  | case1 index start hroom ih =>
    have hmore : 0 < stride ∧ start + (trainLength + testLength) ≤ bars + more := by omega
    rw [placeAll_of_room hroom, placeAll_of_room hmore]
    exact (List.prefix_cons_inj _).2 ih
  | case2 index start hroom =>
    rw [placeAll_of_no_room hroom]
    exact List.nil_prefix

end Window

variable {α : Type} [Scalar α] {bars : Nat} {c : WalkForwardConfig α}

/-- A plan lays its windows from the first bar on; what is behind the last one is left over. -/
theorem WindowPlan.ofBars_eq_ok_iff {plan : WindowPlan} :
    ofBars bars c = .ok plan ↔
      c.validate = .ok () ∧ c.windowLength ≤ bars ∧
        plan.windows = Window.placeAll bars c.trainLength c.testLength c.stride 0 0 ∧
        plan.discarded = bars - (plan.windows.getLast?.map (·.testEnd)).getD 0 := by
  obtain ⟨windows, discarded⟩ := plan
  unfold ofBars
  by_cases hlength : bars < c.windowLength
  · simp [hlength, Nat.not_le.2 hlength]
  · simp [hlength, Nat.not_lt.1 hlength]
    grind

theorem WalkForwardConfig.leastBars_le (h : c.validate = .ok ()) :
    Simulation.leastBars ≤ c.trainLength ∧ Simulation.leastBars ≤ c.testLength := by
  unfold validate at h
  split at h
  · cases h
  · omega

theorem WalkForwardConfig.lengths_pos (h : c.validate = .ok ()) :
    0 < c.trainLength ∧ 0 < c.testLength := by
  have hleast := leastBars_le h
  unfold Simulation.leastBars at hleast
  omega

theorem WalkForwardConfig.stride_pos (h : c.validate = .ok ()) : 0 < c.stride := by
  obtain ⟨htrain, htest⟩ := c.lengths_pos h
  unfold stride
  cases c.mode with
  | rolling => exact htest
  | block => exact Nat.lt_min.2 ⟨by omega, by decide⟩

/-! ## Settings of a window's search -/

/-- Another seed is as good. -/
theorem SearchConfig.validate_reseeded {search : SearchConfig α} (h : search.validate = .ok ())
    (seed : UInt64) :
    ({ search with seed, threads := none } : SearchConfig α).validate = .ok () := by
  obtain ⟨hscale, hgrid, hrandom, -⟩ := validate_eq_ok_iff.1 h
  exact validate_eq_ok_iff.2 ⟨hscale, hgrid, hrandom, nofun⟩

theorem Enumeration.crash?_reseeded (space : Space α) (search : SearchConfig α) (seed : UInt64) :
    crash? space { search with seed, threads := none } = crash? space search :=
  rfl

end Backtest

namespace Backtest.WalkForward

variable {α : Type} {s : Setup α} {stops : Stops} {w : Window}

/-- The windows of a setup, as they are laid in its bars. -/
def Setup.windows (s : Setup α) : List Window :=
  Window.placeAll s.bars.length s.config.trainLength s.config.testLength s.config.stride 0 0

def Setup.plan (s : Setup α) : WindowPlan :=
  ⟨s.windows, s.bars.length - (s.windows.getLast?.map (·.testEnd)).getD 0⟩

variable [Scalar α]

def Setup.summarize [Powers α] (s : Setup α) (verdicts : List (Verdict α)) :
    WalkForwardSummary α :=
  .ofWindows s.strategy.name s.search.target s.config s.plan
    (verdicts.filterMap Verdict.done?) (verdicts.filterMap Verdict.failed?)
    (verdicts.any Verdict.isStopped)

/-- What has to hold for a run to begin. -/
structure Setup.Ready (s : Setup α) : Prop where
  config : s.config.validate = .ok ()
  preflight : Search.preflight s.bars s.costs s.search = .ok ()
  length : s.config.windowLength ≤ s.bars.length

theorem Setup.Ready.plan_eq (h : s.Ready) :
    WindowPlan.ofBars s.bars.length s.config = .ok s.plan :=
  WindowPlan.ofBars_eq_ok_iff.2 ⟨h.config, h.length, rfl, rfl⟩

/-- The searches of all windows pass the checks that the whole run has passed. -/
theorem Setup.Ready.preflight_segment (h : s.Ready) (hw : w ∈ s.windows) :
    Search.preflight (segment s.bars w.trainStart w.trainEnd) s.costs (windowSearch s w) =
      .ok () := by
  obtain ⟨hcosts, hsearch, -, hordered⟩ := Search.preflight_eq_ok_iff.1 h.preflight
  have hfits := Window.fits_of_mem_placeAll hw
  have hleast := (WalkForwardConfig.leastBars_le h.config).1
  have hend := hfits.trainEnd
  have hstart := hfits.testStart
  have hstop := hfits.testEnd
  have hle := hfits.testEnd_le
  refine Search.preflight_eq_ok_iff.2 ⟨hcosts, ?_, ?_, (hordered.take _).drop _⟩
  · exact SearchConfig.validate_reseeded hsearch _
  · rw [segment, List.length_drop, List.length_take]
    omega

/-! ## Verdicts -/

section Verdicts

variable [Powers α] [Random.Uniform α]

/-- How the verdict on a window is come to. -/
inductive Judged (s : Setup α) (stops : Stops) (w : Window) : Verdict α → Prop
  | notBegun (hstopped : stops.window w.index = true) : Judged s stops w .stopped
  | searchCrashed {text} (hgoes : stops.window w.index = false)
      (hsearch : inSample s stops w = .error (.crashed text)) : Judged s stops w (.crashed text)
  | searchRefused {error} (hgoes : stops.window w.index = false)
      (hsearch : inSample s stops w = .error error) (hrefused : ∀ text, error ≠ .crashed text) :
      Judged s stops w (.failed ⟨w.index, "in-sample search: " ++ error.message⟩)
  | searchStopped {outcome} (hgoes : stops.window w.index = false)
      (hsearch : inSample s stops w = .ok outcome) (hcancelled : outcome.cancelled = true) :
      Judged s stops w .stopped
  | fruitless {outcome} (hgoes : stops.window w.index = false)
      (hsearch : inSample s stops w = .ok outcome) (hfull : outcome.cancelled = false)
      (hbest : outcome.best = none) :
      Judged s stops w (.failed ⟨w.index, "no in-sample candidate succeeded (" ++
        toString outcome.failures.length ++ " failed)"⟩)
  | replayFailed {outcome best error} (hgoes : stops.window w.index = false)
      (hsearch : inSample s stops w = .ok outcome) (hfull : outcome.cancelled = false)
      (hbest : outcome.best = some best)
      (hreplay : outOfSample s w best.parameters = .error error) :
      Judged s stops w (.failed ⟨w.index, replayFailureText error⟩)
  | done {outcome best replay} (hgoes : stops.window w.index = false)
      (hsearch : inSample s stops w = .ok outcome) (hfull : outcome.cancelled = false)
      (hbest : outcome.best = some best) (hreplay : outOfSample s w best.parameters = .ok replay) :
      Judged s stops w (.done (windowResult s w outcome best replay))

theorem judged (s : Setup α) (stops : Stops) (w : Window) :
    Judged s stops w (judge s stops w) := by
  unfold judge
  cases hstopped : stops.window w.index with
  | true => exact .notBegun hstopped
  | false =>
    cases hsearch : inSample s stops w with
    | error e =>
      cases e with
      | crashed text => exact .searchCrashed hstopped hsearch
      | _ => exact .searchRefused hstopped hsearch nofun
    | ok outcome =>
      cases hcancelled : outcome.cancelled with
      | true => simpa [hcancelled] using .searchStopped hstopped hsearch hcancelled
      | false =>
        cases hbest : outcome.best with
        | none => simpa [hcancelled, hbest] using .fruitless hstopped hsearch hcancelled hbest
        | some best =>
          cases hreplay : outOfSample s w best.parameters with
          | error e =>
            simpa [hcancelled, hbest, hreplay] using
              .replayFailed hstopped hsearch hcancelled hbest hreplay
          | ok replay =>
            simpa [hcancelled, hbest, hreplay] using
              .done hstopped hsearch hcancelled hbest hreplay

theorem judge_eq_crashed_iff {text : String} :
    judge s stops w = .crashed text ↔
      stops.window w.index = false ∧ inSample s stops w = .error (.crashed text) := by
  constructor
  · intro h
    have hjudged := judged s stops w
    rw [h] at hjudged
    cases hjudged with
    | searchCrashed hgoes hsearch => exact ⟨hgoes, hsearch⟩
  · rintro ⟨hgoes, hsearch⟩
    simp [judge, hgoes, hsearch]

end Verdicts

/-! ## Room for candidates -/

/-- The searches of all windows can make room for their candidates. -/
def Setup.HasRoom (s : Setup α) : Prop :=
  s.space.size = 0 ∨ Enumeration.crash? s.space s.search = none

/-- Some window is begun before the run is stopped. -/
def Setup.Begun (s : Setup α) (stops : Stops) : Prop :=
  ∃ w ∈ s.windows, stops.window w.index = false

variable [Powers α] [Random.Uniform α]

omit [Scalar α] [Powers α] [Random.Uniform α] in
theorem Verdict.crash?_eq_some_iff {v : Verdict α} {text : String} :
    v.crash? = some text ↔ v = .crashed text := by
  cases v <;> simp [crash?]

/-- Every search that is begun crashes, or none does, as all are of one space. -/
theorem findSome?_crash?_eq_some_iff {text : String} (h : s.Ready) :
    (s.windows.map (judge s stops)).findSome? Verdict.crash? = some text ↔
      s.Begun stops ∧ s.space.size ≠ 0 ∧ Enumeration.crash? s.space s.search = some text := by
  have hjudge {text : String} {w : Window} (hw : w ∈ s.windows) :
      (judge s stops w).crash? = some text ↔ stops.window w.index = false ∧ s.space.size ≠ 0 ∧
        Enumeration.crash? s.space s.search = some text := by
    rw [Verdict.crash?_eq_some_iff, judge_eq_crashed_iff, inSample, Search.run_eq_crashed_iff,
      and_iff_right (h.preflight_segment hw), windowSearch,
      Enumeration.crash?_reseeded]
  rw [List.findSome?_map]
  constructor
  · intro hfound
    obtain ⟨w, hw, hcrash⟩ := List.exists_of_findSome?_eq_some hfound
    obtain ⟨hgoes, hrest⟩ := (hjudge hw).1 hcrash
    exact ⟨⟨w, hw, hgoes⟩, hrest⟩
  · rintro ⟨⟨w, hw, hgoes⟩, hrest⟩
    cases hfound : s.windows.findSome? (Verdict.crash? ∘ judge s stops) with
    | none =>
      have hnone := List.findSome?_eq_none_iff.1 hfound w hw
      cases hnone.symm.trans ((hjudge hw).2 ⟨hgoes, hrest⟩)
    | some text' =>
      obtain ⟨v, hv, hcrash⟩ := List.exists_of_findSome?_eq_some hfound
      exact ((hjudge hv).1 hcrash).2.2.symm.trans hrest.2

theorem findSome?_crash?_eq_none_iff (h : s.Ready) :
    (s.windows.map (judge s stops)).findSome? Verdict.crash? = none ↔
      (s.Begun stops → s.HasRoom) := by
  rw [Option.eq_none_iff_forall_ne_some, Setup.HasRoom, Option.eq_none_iff_forall_ne_some]
  simp only [ne_eq, findSome?_crash?_eq_some_iff h, not_and]
  constructor
  · intro hnone hbegun
    by_cases hsize : s.space.size = 0
    · exact .inl hsize
    · exact .inr fun text => hnone text hbegun hsize
  · rintro hroom text hbegun hsize
    exact (hroom hbegun).resolve_left hsize text

/-! ## Whole runs -/

theorem run_of_ready (h : s.Ready) :
    run s stops =
      match (s.windows.map (judge s stops)).findSome? Verdict.crash? with
      | some text => .error (.search (.crashed text))
      | none => .ok (s.summarize (s.windows.map (judge s stops))) := by
  rw [run, h.config, h.preflight, h.plan_eq, Setup.plan]
  cases hcrash : (s.windows.map (judge s stops)).findSome? Verdict.crash? with
  | some text => simp only [bind, Except.bind, mapError_ok, hcrash]; rfl
  | none => simp only [bind, Except.bind, mapError_ok, hcrash]; rfl

theorem ready_of_run_eq_ok {summary : WalkForwardSummary α} (h : run s stops = .ok summary) :
    s.Ready := by
  simp only [run, bind_eq_ok_iff, mapError_eq_ok_iff] at h
  obtain ⟨_, hconfig, _, hpreflight, plan, hplan, -⟩ := h
  exact ⟨hconfig, hpreflight, (WindowPlan.ofBars_eq_ok_iff.1 hplan).2.1⟩

/-- A run that is ready gives the summary of the verdicts on its windows, unless it begins a window
without room for the candidates. -/
theorem run_eq_ok_iff {summary : WalkForwardSummary α} :
    run s stops = .ok summary ↔
      s.Ready ∧ (s.Begun stops → s.HasRoom) ∧
        summary = s.summarize (s.windows.map (judge s stops)) := by
  constructor
  · intro h
    have hready := ready_of_run_eq_ok h
    rw [run_of_ready hready] at h
    cases hcrash : (s.windows.map (judge s stops)).findSome? Verdict.crash? with
    | some text => simp [hcrash] at h
    | none =>
      rw [hcrash] at h
      exact ⟨hready, (findSome?_crash?_eq_none_iff hready).1 hcrash, (Except.ok.inj h).symm⟩
  · rintro ⟨hready, hroom, rfl⟩
    rw [run_of_ready hready, (findSome?_crash?_eq_none_iff hready).2 hroom]

/-- A run that is ready gives a summary, or crashes as a search that it has begun does. -/
theorem run_cases (h : s.Ready) (stops : Stops) :
    (∃ summary, run s stops = .ok summary) ∨
      (s.space.size ≠ 0 ∧ s.Begun stops ∧
        ∃ text, Enumeration.crash? s.space s.search = some text ∧
          run s stops = .error (.search (.crashed text))) := by
  rw [run_of_ready h]
  cases hcrash : (s.windows.map (judge s stops)).findSome? Verdict.crash? with
  | none => exact .inl ⟨_, rfl⟩
  | some text =>
    obtain ⟨hbegun, hsize, hroom⟩ := (findSome?_crash?_eq_some_iff h).1 hcrash
    exact .inr ⟨hsize, hbegun, text, hroom, rfl⟩

end Backtest.WalkForward
