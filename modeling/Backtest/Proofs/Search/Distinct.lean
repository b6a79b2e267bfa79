import Backtest.Proofs.Search.Accounting
import Backtest.Proofs.Search.Drawn

/-!
# Candidates that a search repeats

A random search drops a candidate that it has drawn before, so it runs no setting twice. A grid
search relies on its points being different: it runs one setting more than once where a varied
parameter has a value twice on its own grid, and only there.
-/

namespace Backtest

open Parameter

/-! ## Random candidates -/

namespace Enumeration

variable {space : Space Float}

theorem exists_sample_of_mem_draw {c : Assignment Float} {trials duplicates : Nat}
    {kept : List (Assignment Float)} {g : Random.Generator}
    (h : c ∈ (draw space trials kept duplicates g).1) : c ∈ kept ∨ ∃ g, c = (space.sample g).1 := by
  induction trials generalizing kept duplicates g with
  | zero => exact .inl (List.mem_reverse.1 h)
  | succ trials ih =>
    simp only [draw] at h
    split at h
    · exact ih h
    · rcases ih h with hkept | hdrawn
      · rcases List.mem_cons.1 hkept with rfl | hkept
        · exact .inr ⟨g, rfl⟩
        · exact .inl hkept
      · exact .inr hdrawn

/-- A candidate is kept only if none kept before is the same. -/
theorem nodup_draw {trials duplicates : Nat} {kept : List (Assignment Float)}
    {g : Random.Generator} (h : kept.Nodup) : (draw space trials kept duplicates g).1.Nodup := by
  induction trials generalizing kept duplicates g with
  | zero => exact List.nodup_reverse.2 h
  | succ trials ih =>
    simp only [draw]
    split
    · exact ih h
    · rename_i hnew
      refine ih (List.nodup_cons.2 ⟨fun hmem => hnew ?_, h⟩)
      exact List.any_eq_true.2 ⟨_, hmem, Assignment.same_iff.2 rfl⟩

end Enumeration

/-! ## What was run -/

/-- The full parameters of the candidates that a search ran, the ranked ones first. -/
def SearchOutcome.settings {α : Type} [Scalar α] (strategy : Strategy α) (o : SearchOutcome α) :
    List (Assignment α) :=
  o.ranked.map (·.resolved) ++
    o.failures.filterMap fun f => (strategy.resolve f.parameters).toOption

namespace Search

section Run

variable {α : Type} [Scalar α] [Powers α] [Random.Uniform α] {bars : List (Bar α)}
  {strategy : Strategy α} {space : Space α} {costs : Costs α} {config : SearchConfig α}
  {stopped : Nat → Bool} {o : SearchOutcome α}

def ran (strategy : Strategy α) (space : Space α) (config : SearchConfig α)
    (stopped : Nat → Bool) : List (Candidate α) :=
  ((Enumeration.ofConfig space config).admitted strategy).filter fun c => !stopped c.index

omit [Powers α] in
theorem mem_ran_iff {c : Candidate α} :
    c ∈ ran strategy space config stopped ↔
      (Enumeration.ofConfig space config).candidates[c.index]? = some c.parameters ∧
        strategy.resolve c.parameters = .ok c.resolved ∧ stopped c.index = false := by
  simp [ran, Enumeration.mem_admitted_iff, and_assoc]

/-- Each candidate that was run is ranked or failed, with the full parameters that it resolves to. -/
theorem settings_perm (h : run bars strategy space costs config stopped = .ok o) :
    (o.settings strategy).Perm ((ran strategy space config stopped).map (·.resolved)) := by
  have ho := (run_eq_ok_iff.1 h).report
  have hjudged : ∀ cs : List (Candidate α),
      (∀ c ∈ cs, strategy.resolve c.parameters = .ok c.resolved) →
      ((cs.filterMap fun c => (judge bars strategy costs config stopped c).ranked?).map
          (·.resolved) ++
        (cs.filterMap fun c => (judge bars strategy costs config stopped c).failed?).filterMap
          fun f => (strategy.resolve f.parameters).toOption).Perm
      ((cs.filter fun c => !stopped c.index).map (·.resolved)) := by
    intro cs
    induction cs with
    | nil => simp
    | cons c cs ih =>
      intro hcs
      obtain ⟨hc, hrest⟩ := List.forall_mem_cons.1 hcs
      rcases judge_cases bars strategy costs config stopped c with
        ⟨hs, hj⟩ | ⟨hs, e, -, hj⟩ | ⟨hs, e, -, hj⟩
      · simpa [hs, hj, Verdict.ranked?, Verdict.failed?] using ih hrest
      · simpa [hs, hj, Verdict.ranked?, Verdict.failed?] using ih hrest
      · simpa [hs, hj, hc, Verdict.ranked?, Verdict.failed?, Except.toOption] using
          List.perm_middle.trans ((ih hrest).cons _)
  have hfinished := hjudged ((Enumeration.ofConfig space config).admitted strategy) fun c hc =>
    (Enumeration.mem_admitted_iff.1 hc).2
  simp only [← Function.comp_def Verdict.ranked?, ← Function.comp_def Verdict.failed?,
    ← List.filterMap_map] at hfinished
  rw [SearchOutcome.settings, ho]
  exact (((rank_perm _).map _).append_right _).trans hfinished

theorem evaluated_eq_length_settings (h : run bars strategy space costs config stopped = .ok o) :
    o.evaluated = (o.settings strategy).length := by
  have ho := (run_eq_ok_iff.1 h).report
  have hfailures : (o.failures.filterMap fun f =>
      (strategy.resolve f.parameters).toOption).length = o.failures.length := by
    refine List.filterMap_length_eq_length.2 fun f hf => ?_
    rw [ho] at hf
    obtain ⟨c, hc, hjudge⟩ := mem_filterMap_failed?.1 hf
    obtain ⟨-, e, -, rfl⟩ := judge_eq_failed_iff.1 hjudge
    rw [(Enumeration.mem_admitted_iff.1 hc).2]
    rfl
  rw [SearchOutcome.evaluated, SearchOutcome.settings, List.length_append, List.length_map,
    hfailures]

/-- No setting was run twice if and only if it belongs to one position only. -/
theorem settings_nodup_iff (h : run bars strategy space costs config stopped = .ok o) :
    (o.settings strategy).Nodup ↔
      ∀ c ∈ ran strategy space config stopped, ∀ d ∈ ran strategy space config stopped,
        c.resolved = d.resolved → c.index = d.index := by
  have hordered : (ran strategy space config stopped).Pairwise fun c d => c.index < d.index :=
    Enumeration.admitted_ordered.filter _
  rw [(settings_perm h).nodup_iff]
  constructor
  · intro hnodup c hc d hd hsame
    rw [List.inj_on_of_nodup_map hnodup hc hd hsame]
  · intro hinj
    refine List.pairwise_map.2 (hordered.imp_of_mem fun hc hd hlt hsame => ?_)
    exact hlt.ne (hinj _ hc _ hd hsame)

end Run

/-! ## What can repeat -/

variable {bars : List (Bar Float)} {strategy : Strategy Float} {space : Space Float}
  {costs : Costs Float} {config : SearchConfig Float} {stopped : Nat → Bool}
  {o : SearchOutcome Float} {c d : Candidate Float}

/-- Random candidates that resolve alike are the same, and no two kept ones are. -/
theorem index_eq_of_random (hs : space.Formed) (hnames : space.schema.names.Nodup)
    (hschema : space.schema = strategy.schema) (hmethod : config.method = .random)
    (hc : c ∈ ran strategy space config stopped) (hd : d ∈ ran strategy space config stopped)
    (hsame : c.resolved = d.resolved) : c.index = d.index := by
  obtain ⟨hgetc, hresolvec, -⟩ := mem_ran_iff.1 hc
  obtain ⟨hgetd, hresolved, -⟩ := mem_ran_iff.1 hd
  simp only [Enumeration.ofConfig, hmethod, Enumeration.ofDraws] at hgetc hgetd
  have hsampled : ∀ {x : Assignment Float} {i : Nat},
      (Enumeration.draw space config.trials [] 0 (.ofSeed config.seed)).1[i]? = some x →
        ∃ g, x = (space.sample g).1 := fun hx =>
    (Enumeration.exists_sample_of_mem_draw (List.mem_of_getElem? hx)).resolve_left List.not_mem_nil
  obtain ⟨g, hg⟩ := hsampled hgetc
  obtain ⟨g', hg'⟩ := hsampled hgetd
  have hparameters : c.parameters = d.parameters := by
    rw [hg, hg']
    apply hs.sample_eq_of_resolve_eq hnames (r := d.resolved)
    · rw [← hg, ← hsame, hschema]
      exact Strategy.schema_resolve_eq_ok hresolvec
    · rw [← hg', hschema]
      exact Strategy.schema_resolve_eq_ok hresolved
  exact (List.getElem?_inj (List.getElem?_eq_some_iff.1 hgetc).1
    (Enumeration.nodup_draw List.nodup_nil)).1 (hgetc.trans (hparameters ▸ hgetd.symm))

theorem gridPoint_of_mem_ran (hmethod : config.method = .grid)
    (hc : c ∈ ran strategy space config stopped) :
    c.index < min space.size config.maxCombinations ∧
      c.parameters =
        space.gridPoint (Enumeration.gridIndex space.size config.maxCombinations c.index) := by
  obtain ⟨hget, -, -⟩ := mem_ran_iff.1 hc
  simp only [Enumeration.ofConfig, hmethod, Enumeration.candidates_ofGrid] at hget
  obtain ⟨hlt, hvalue⟩ := List.getElem?_eq_some_iff.1 hget
  simp only [List.length_map, List.length_range] at hlt
  simp only [List.getElem_map, List.getElem_range] at hvalue
  exact ⟨hlt, hvalue.symm⟩

/-- Grid candidates that resolve alike carry the same values, which different points do not if no
parameter has a value twice. -/
theorem index_eq_of_grid (hs : space.Formed) (hnames : space.schema.names.Nodup)
    (hschema : space.schema = strategy.schema) (hmethod : config.method = .grid)
    (hsize : space.size ≠ 0) (hnodup : ∀ d ∈ space.dimensions, d.domain.gridValues.Nodup)
    (hc : c ∈ ran strategy space config stopped) (hd : d ∈ ran strategy space config stopped)
    (hsame : c.resolved = d.resolved) : c.index = d.index := by
  obtain ⟨hltc, hpointc⟩ := gridPoint_of_mem_ran hmethod hc
  obtain ⟨hltd, hpointd⟩ := gridPoint_of_mem_ran hmethod hd
  have hpoints : space.size ≤ space.points := by
    rw [Space.size_eq_min hsize]
    exact Nat.min_le_left _ _
  refine Enumeration.gridIndex_injective hltc hltd (Space.gridValues_injective hnodup
    ((Enumeration.gridIndex_lt hltc).trans_le hpoints)
    ((Enumeration.gridIndex_lt hltd).trans_le hpoints)
    (hs.gridValues_eq_of_resolve_eq hnames (r := d.resolved) ?_ ?_))
  · rw [← hpointc, ← hsame, hschema]
    exact Strategy.schema_resolve_eq_ok (mem_ran_iff.1 hc).2.1
  · rw [← hpointd, hschema]
    exact Strategy.schema_resolve_eq_ok (mem_ran_iff.1 hd).2.1

/-- If as many candidates were run as the grid has points, each point was. -/
theorem exists_mem_ran (hsize : space.size ≠ 0) (hmethod : config.method = .grid)
    (hall : (ran strategy space config stopped).length = space.points) {i : Nat}
    (hi : i < space.points) :
    ∃ c ∈ ran strategy space config stopped, c.index = i ∧ c.parameters = space.gridPoint i := by
  have hmin := Space.size_eq_min hsize
  have hordered : (ran strategy space config stopped).Pairwise fun c d => c.index < d.index :=
    Enumeration.admitted_ordered.filter _
  have hnodup : ((ran strategy space config stopped).map (·.index)).Nodup :=
    List.pairwise_map.2 (hordered.imp Nat.ne_of_lt)
  have hsubset : (ran strategy space config stopped).map (·.index) ⊆
      List.range (min space.size config.maxCombinations) := fun k hk => by
    obtain ⟨c, hc, rfl⟩ := List.mem_map.1 hk
    exact List.mem_range.2 (gridPoint_of_mem_ran hmethod hc).1
  have hsubperm := hnodup.subperm hsubset
  have hlength := hsubperm.length_le
  simp only [List.length_map, List.length_range, hall] at hlength
  -- so the grid was neither thinned nor cut off, and every index occurs
  have hperm := hsubperm.perm_of_length_le (by simp [hall]; omega)
  obtain ⟨c, hc, rfl⟩ := List.mem_map.1 (hperm.mem_iff.2 (List.mem_range.2 (hi.trans_le hlength)))
  refine ⟨c, hc, rfl, ?_⟩
  rw [(gridPoint_of_mem_ran hmethod hc).2, Enumeration.gridIndex, if_pos (by omega)]

/-- A random search runs no setting twice. A grid search runs none twice if no varied parameter has
a value twice on its own grid; if every point of the grid was run, only then. An integer range has a
value twice exactly if its steps come round, and not if its bounds are less than `2 ^ 63` apart; a
choice has one exactly if an option is listed twice. -/
theorem run_repeats_iff (hnames : strategy.schema.names.Nodup)
    (hchecks : ∀ d ∈ strategy.schema.declarations, d.check = .ok ())
    (hspace : Space.Reached strategy.schema space)
    (h : run bars strategy space costs config stopped = .ok o) :
    (config.method = .random → (o.settings strategy).Nodup) ∧
    (config.method = .grid →
      ((∀ d ∈ space.dimensions, d.domain.gridValues.Nodup) → (o.settings strategy).Nodup) ∧
      (o.evaluated = space.points → (o.settings strategy).Nodup →
        ∀ d ∈ space.dimensions, d.domain.gridValues.Nodup)) ∧
    (∀ d ∈ space.dimensions,
      (∀ low high step value, d.domain = .int low high step value →
        (d.domain.gridValues.Nodup ↔
          d.domain.gridLength * Nat.gcd (2 ^ 64) step.toInt.toNat ≤ 2 ^ 64) ∧
        (high.toInt - low.toInt < 2 ^ 63 → d.domain.gridValues.Nodup)) ∧
      ∀ options value, d.domain = .choice options value →
        (d.domain.gridValues.Nodup ↔ options.Nodup)) := by
  have hs := hspace.formed hnames hchecks
  have hschema := hspace.schema_eq
  have hdistinct : space.schema.names.Nodup := hschema ▸ hnames
  have hsize := (run_eq_ok_iff.1 h).size
  refine ⟨fun hmethod => ?_, fun hmethod => ⟨fun hnodup => ?_, fun hall hnodup d hd => ?_⟩,
    fun d _ => ⟨fun low high step value hdomain => ?_, fun options value hdomain => ?_⟩⟩
  · exact (settings_nodup_iff h).2 fun c hc d hd =>
      index_eq_of_random hs hdistinct hschema hmethod hc hd
  · exact (settings_nodup_iff h).2 fun c hc d hd =>
      index_eq_of_grid hs hdistinct hschema hmethod hsize hnodup hc hd
  · rw [evaluated_eq_length_settings h, (settings_perm h).length_eq, List.length_map] at hall
    refine List.Nodup.map_on (fun a ha b hb hvalue => ?_) List.nodup_range
    by_contra hab
    -- two points of the grid differ in this parameter's digit only, and resolve alike
    obtain ⟨i, hi, j, hj, hij, hvalues⟩ := Space.exists_gridValues_eq hd (List.mem_range.1 ha)
      (List.mem_range.1 hb) hab hvalue
    obtain ⟨x, hx, rfl, hpx⟩ := exists_mem_ran hsize hmethod hall hi
    obtain ⟨y, hy, rfl, hpy⟩ := exists_mem_ran hsize hmethod hall hj
    have hparameters : x.parameters = y.parameters := by
      rw [hpx, hpy, Space.gridPoint, Space.gridPoint, hvalues]
    have hresolved := (mem_ran_iff.1 hx).2.1
    rw [hparameters, (mem_ran_iff.1 hy).2.1] at hresolved
    exact hij ((settings_nodup_iff h).1 hnodup x hx y hy (Except.ok.inj hresolved).symm)
  · rw [hdomain]
    exact ⟨Domain.nodup_gridValues_int_iff,
      fun hspan => Domain.nodup_gridValues_int (Domain.spans_int_iff.2 hspan)⟩
  · rw [hdomain]
    exact Domain.nodup_gridValues_choice_iff

def paced : Strategy Float where
  name := "paced"
  schema := ⟨[.choice "pace" ["slow", "fast"] "slow"]⟩
  decide _ _ := .ok .long

def twice : Space Float :=
  { Space.ofSchema paced.schema with
    dimensions := [.choice "pace" ["fast", "fast"] "fast"] }

def levelDays : List (Bar Float) := [.still 2 100, .still 3 100]

/-- The pace that is listed twice is run twice. -/
theorem run_repeats_iff_twice :
    ∃ o, run levelDays paced twice .standard .standard never = .ok o ∧
      ¬(o.settings paced).Nodup := by
  have hspace : Space.Reached paced.schema twice :=
    .override .start (o := ⟨"pace", .choice ["fast", "fast"]⟩) rfl
  have hchecks : ∀ d ∈ paced.schema.declarations, d.check = .ok () := fun d hd => by
    obtain rfl := List.mem_singleton.1 hd
    rfl
  obtain ⟨o, h⟩ : ∃ o, run levelDays paced twice .standard .standard never = .ok o :=
    exists_run_eq_ok_iff.2 ⟨exists_unit_eq_ok_iff.1 (exists_eq_ok (by decide +kernel)),
      by decide, by decide, by decide⟩
  have hall : o.evaluated = twice.points := by
    rw [evaluated_eq_length_settings h, (settings_perm h).length_eq]
    decide
  refine ⟨o, h, fun hnodup => ?_⟩
  obtain ⟨-, hgrid, hdomains⟩ := run_repeats_iff (by decide) hchecks hspace h
  have hpace := (hgrid rfl).2 hall hnodup _ List.mem_cons_self
  exact absurd (((hdomains _ List.mem_cons_self).2 _ _ rfl).1 hpace) (by decide)

end Search

end Backtest
