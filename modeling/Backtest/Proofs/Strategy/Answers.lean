import Backtest.Proofs.Parameter.Acceptance
import Backtest.Proofs.Simulation.Neutrality
import Backtest.Scalar.Double

/-!
# Registered strategies always answer

The registered strategies read nothing but their declared parameters, each as what it is declared
to be. What they resolve has an admitted value for each of them, so every reading succeeds: periods
are not negative, and names of averages are known.
-/

namespace Backtest

open Scalar (nat decimal)

namespace Parameter

variable {α : Type} [Scalar α] {a : Assignment α} {name : String}

/-! ## Reading parameters -/

namespace Assignment

theorem int_of_get? {n : Int64} (h : a.get? name = some (.int n)) : a.int name = .ok n := by
  simp [int, read, h, Value.int?]

theorem count_of_get? {n : Int64} (h : a.get? name = some (.int n)) (hn : ¬n < 0) :
    a.count name = .ok n.toInt.toNat := by
  have hnonneg : 0 ≤ n.toInt := by
    rwa [Int64.not_lt, Int64.le_iff_toInt_le, Int64.toInt_zero] at hn
  simp only [count, bind_eq_ok_iff]
  exact ⟨n, int_of_get? h, if_pos hnonneg⟩

theorem float_of_get? {x : α} (h : a.get? name = some (.float x)) : a.float name = .ok x := by
  simp [float, read, h, Value.number?]

omit [Scalar α] in
theorem choice_of_get? {c : String} (h : a.get? name = some (.choice c)) :
    a.choice name = .ok c := by
  simp [choice, read, h]

end Assignment

/-! ## Declared parameters of what was resolved -/

namespace Schema.Sound

variable {s : Schema α} {r : Assignment α}

theorem exists_int (hs : s.Sound) (h : s.resolve a = .ok r) {low high step value : Int64}
    (hd : .int name low high step value ∈ s.declarations) :
    ∃ n, r.get? name = some (.int n) ∧ ¬n < low := by
  obtain ⟨v, hget, hadmits⟩ := hs.exists_get? h hd
  cases v with
  | int n => exact ⟨n, hget, hadmits.1⟩
  | float x => exact hadmits.elim
  | choice c => exact hadmits.elim

theorem exists_count (hs : s.Sound) (h : s.resolve a = .ok r) {low high step value : Int64}
    (hd : .int name low high step value ∈ s.declarations) (hlow : 0 ≤ low) :
    ∃ n, r.count name = .ok n := by
  obtain ⟨n, hget, hn⟩ := hs.exists_int h hd
  exact ⟨_, Assignment.count_of_get? hget fun hneg => hn (Int64.lt_of_lt_of_le hneg hlow)⟩

theorem exists_float (hs : s.Sound) (h : s.resolve a = .ok r) {low high step value : α}
    (hd : .float name low high step value ∈ s.declarations) : ∃ x, r.float name = .ok x := by
  obtain ⟨v, hget, hadmits⟩ := hs.exists_get? h hd
  cases v with
  | int n => exact hadmits.elim
  | float x => exact ⟨x, Assignment.float_of_get? hget⟩
  | choice c => exact hadmits.elim

theorem exists_choice (hs : s.Sound) (h : s.resolve a = .ok r) {options : List String}
    {value : String} (hd : .choice name options value ∈ s.declarations) :
    ∃ c ∈ options, r.choice name = .ok c := by
  obtain ⟨v, hget, hadmits⟩ := hs.exists_get? h hd
  cases v with
  | int n => exact hadmits.elim
  | float x => exact hadmits.elim
  | choice c => exact ⟨c, hadmits, Assignment.choice_of_get? hget⟩

end Schema.Sound

end Parameter

variable {a full : Parameter.Assignment Float}

/-! ## The strategies -/

theorem buyAndHold_answers (h : (buyAndHold : Strategy Float).resolve a = .ok full) :
    (buyAndHold : Strategy Float).Answers a :=
  ⟨full, h, ⟨[], rfl⟩, fun _ _ => ⟨.long, rfl⟩⟩

namespace Crossover

variable {α : Type} [Scalar α] {a full : Parameter.Assignment α}

theorem schema_sound : (schema : Parameter.Schema α).Sound := by
  have hnames : ["fast", "slow", "ma_type"].Nodup := by decide
  have hfast : ¬(10 : Int64) < 2 ∧ ¬(50 : Int64) < 10 := by decide
  have hslow : ¬(50 : Int64) < 10 ∧ ¬(200 : Int64) < 50 := by decide
  refine ⟨hnames, ?_⟩
  simp only [schema, List.forall_mem_cons]
  exact ⟨hfast, hslow, List.mem_cons_self, List.forall_mem_nil _⟩

/-- What resolves has a kind of average, and two periods of which the fast one is shorter. -/
theorem exists_settings (h : (strategy : Strategy α).resolve a = .ok full) :
    ∃ s, settings full = .ok s ∧ 1 < s.fast ∧ s.fast < s.slow := by
  have hresolve := Strategy.schema_resolve_eq_ok h
  have hconstrain : constrain full = .ok () := Strategy.constrain_eq_ok h
  obtain ⟨fast, hfast, hfastLeast⟩ := schema_sound.exists_int hresolve
    (.head _ : .int "fast" 2 50 1 10 ∈ schema.declarations)
  obtain ⟨slow, hslow, hslowLeast⟩ := schema_sound.exists_int hresolve
    (.tail _ (.head _) : .int "slow" 10 200 10 50 ∈ schema.declarations)
  obtain ⟨kind, hkind, hchoice⟩ := schema_sound.exists_choice hresolve
    (.tail _ (.tail _ (.head _)) :
      .choice "ma_type" ["sma", "ema"] "sma" ∈ schema.declarations)
  have hless : fast < slow := by
    rw [constrain, Parameter.Assignment.int_of_get? hfast,
      Parameter.Assignment.int_of_get? hslow] at hconstrain
    by_contra hnot
    exact nomatch (if_pos (Int64.not_lt.1 hnot)).symm.trans hconstrain
  have htwo : (2 : Int64).toInt = 2 := rfl
  have hzero : (0 : Int64).toInt = 0 := rfl
  rw [Int64.lt_iff_toInt_lt] at hfastLeast hless
  have hfastCount := Parameter.Assignment.count_of_get? hfast
    (by rw [Int64.lt_iff_toInt_lt]; omega)
  have hslowCount := Parameter.Assignment.count_of_get? hslow
    (by rw [Int64.lt_iff_toInt_lt]; omega)
  have hknown : ∃ average, AverageKind.ofName? kind = some average := by
    rcases List.mem_pair.1 hkind with rfl | rfl
    · exact ⟨.simple, by decide⟩
    · exact ⟨.exponential, by decide⟩
  obtain ⟨average, haverage⟩ := hknown
  refine ⟨⟨fast.toInt.toNat, slow.toInt.toNat, average⟩, ?_, ?_, ?_⟩
  · simp [settings, orFault, hfastCount, hslowCount, hchoice, haverage]
  · simp only
    omega
  · simp only
    omega

theorem answers (h : (strategy : Strategy α).resolve a = .ok full) :
    (strategy : Strategy α).Answers a := by
  obtain ⟨s, hs, -⟩ := exists_settings h
  refine ⟨full, h, ⟨[s.kind.indicator s.fast, s.kind.indicator s.slow], ?_⟩, fun history view => ?_⟩
  · simp [strategy, indicators, hs]
  · simp only [strategy, evaluate, hs, bind_eq_ok_iff, Except.ok.injEq, exists_eq_left']
    split
    · exact ⟨.flat, rfl⟩
    · split
      · exact ⟨_, rfl⟩
      · exact ⟨.flat, rfl⟩

/-- Parameters that resolve can only break the condition itself. -/
theorem constrain_cases (h : schema.resolve a = .ok full) :
    constrain full = .ok () ∨ ∃ fast slow,
      constrain full = .error (.notLess "fast" (.int fast) "slow" (.int slow)) := by
  obtain ⟨fast, hfast, -⟩ := schema_sound.exists_int h
    (.head _ : .int "fast" 2 50 1 10 ∈ schema.declarations)
  obtain ⟨slow, hslow, -⟩ := schema_sound.exists_int h
    (.tail _ (.head _) : .int "slow" 10 200 10 50 ∈ schema.declarations)
  unfold constrain
  rw [Parameter.Assignment.int_of_get? hfast, Parameter.Assignment.int_of_get? hslow]
  by_cases hle : slow ≤ fast
  · exact .inr ⟨fast, slow, if_pos hle⟩
  · exact .inl (if_neg hle)

end Crossover

namespace Momentum

theorem schema_sound : (schema : Parameter.Schema Float).Sound := ⟨by decide, by decide +kernel⟩

theorem answers (h : (strategy : Strategy Float).resolve a = .ok full) :
    (strategy : Strategy Float).Answers a := by
  have hresolve := Strategy.schema_resolve_eq_ok h
  obtain ⟨lookback, hlookback⟩ := schema_sound.exists_count hresolve
    (.head _ : .int "lookback" 5 120 5 20 ∈ schema.declarations) (by decide)
  obtain ⟨threshold, hthreshold⟩ := schema_sound.exists_float hresolve
    (.tail _ (.head _) : .float "threshold" (nat 0) (decimal 1 1) (decimal 1 2) (nat 0) ∈
      schema.declarations)
  obtain ⟨allowShort, -, hshort⟩ := schema_sound.exists_choice hresolve
    (.tail _ (.tail _ (.head _)) :
      .choice "allow_short" ["no", "yes"] "no" ∈ schema.declarations)
  refine ⟨full, h, ⟨[], rfl⟩, fun history view => ?_⟩
  change ∃ signal, Momentum.decide history full = .ok signal
  simp only [Momentum.decide, orFault, hlookback, hthreshold, hshort, bind_eq_ok_iff,
    mapError_eq_ok_iff, Except.ok.injEq, exists_eq_left']
  cases (RateOfChange.indicator lookback).latest history with
  | none => exact ⟨.flat, rfl⟩
  | some change => exact ⟨_, rfl⟩

end Momentum

namespace Threshold

theorem schema_sound : (schema : Parameter.Schema Float).Sound := ⟨by decide, by decide +kernel⟩

theorem answers (h : (strategy : Strategy Float).resolve a = .ok full) :
    (strategy : Strategy Float).Answers a := by
  have hresolve := Strategy.schema_resolve_eq_ok h
  obtain ⟨period, hperiod⟩ := schema_sound.exists_count hresolve
    (.head _ : .int "period" 2 30 2 14 ∈ schema.declarations) (by decide)
  obtain ⟨lower, hlower⟩ := schema_sound.exists_float hresolve
    (.tail _ (.head _) : .float "lower" (nat 10) (nat 45) (nat 5) (nat 30) ∈ schema.declarations)
  obtain ⟨upper, hupper⟩ := schema_sound.exists_float hresolve
    (.tail _ (.tail _ (.head _)) :
      .float "upper" (nat 55) (nat 90) (nat 5) (nat 70) ∈ schema.declarations)
  refine ⟨full, h, ⟨[RelativeStrength.indicator period], ?_⟩, fun history view => ?_⟩
  · simp only [strategy, indicators, orFault, hperiod]
    rfl
  · simp only [strategy, evaluate, orFault, hperiod, hlower, hupper, bind_eq_ok_iff,
      mapError_eq_ok_iff, Except.ok.injEq, exists_eq_left']
    cases view.latest? (RelativeStrength.name period) with
    | none => exact ⟨.flat, rfl⟩
    | some strength => exact ⟨_, rfl⟩

/-- Parameters that resolve can only break the condition itself. -/
theorem constrain_cases (h : schema.resolve a = .ok full) :
    constrain full = .ok () ∨ ∃ lower upper,
      constrain full = .error (.notLess "lower" (.float lower) "upper" (.float upper)) := by
  obtain ⟨lower, hlower⟩ := schema_sound.exists_float h
    (.tail _ (.head _) : .float "lower" (nat 10) (nat 45) (nat 5) (nat 30) ∈ schema.declarations)
  obtain ⟨upper, hupper⟩ := schema_sound.exists_float h
    (.tail _ (.tail _ (.head _)) :
      .float "upper" (nat 55) (nat 90) (nat 5) (nat 70) ∈ schema.declarations)
  unfold constrain
  rw [hlower, hupper]
  by_cases hle : upper ≤ lower
  · exact .inr ⟨lower, upper, if_pos hle⟩
  · exact .inl (if_neg hle)

end Threshold

namespace Registry

variable {strategy : Strategy Float}

theorem sound_of_mem_builtins (h : strategy ∈ (builtins : Registry Float).list) :
    strategy.schema.Sound := by
  rcases mem_builtins_iff.1 h with rfl | rfl | rfl | rfl
  · exact ⟨List.nodup_nil, nofun⟩
  · exact Crossover.schema_sound
  · exact Momentum.schema_sound
  · exact Threshold.schema_sound

theorem check_of_mem_builtins (h : strategy ∈ (builtins : Registry Float).list) :
    ∀ d ∈ strategy.schema.declarations, d.check = .ok () := by
  rcases mem_builtins_iff.1 h with rfl | rfl | rfl | rfl
  · exact List.forall_mem_nil _
  · simp only [Crossover.strategy, Crossover.schema, List.forall_mem_cons]
    exact ⟨rfl, rfl, rfl, List.forall_mem_nil _⟩
  · simp only [Momentum.strategy, Momentum.schema, List.forall_mem_cons]
    exact ⟨rfl, rfl, rfl, List.forall_mem_nil _⟩
  · simp only [Threshold.strategy, Threshold.schema, List.forall_mem_cons]
    exact ⟨rfl, rfl, rfl, List.forall_mem_nil _⟩

theorem spans_of_mem_builtins (h : strategy ∈ (builtins : Registry Float).list) :
    ∀ d ∈ strategy.schema.declarations, d.domain.Spans := by
  rcases mem_builtins_iff.1 h with rfl | rfl | rfl | rfl <;> decide

theorem answers_of_mem_builtins (h : strategy ∈ (builtins : Registry Float).list)
    (hresolve : strategy.resolve a = .ok full) : strategy.Answers a := by
  rcases mem_builtins_iff.1 h with rfl | rfl | rfl | rfl
  · exact buyAndHold_answers hresolve
  · exact Crossover.answers hresolve
  · exact Momentum.answers hresolve
  · exact Threshold.answers hresolve

theorem constrain_of_mem_builtins (h : strategy ∈ (builtins : Registry Float).list)
    (hresolve : strategy.schema.resolve a = .ok full) :
    strategy.constrain full = .ok () ∨ ∃ small smallValue large largeValue,
      strategy.constrain full = .error (.notLess small smallValue large largeValue) := by
  rcases mem_builtins_iff.1 h with rfl | rfl | rfl | rfl
  · exact .inl rfl
  · exact (Crossover.constrain_cases hresolve).imp_right fun ⟨_, _, h⟩ => ⟨_, _, _, _, h⟩
  · exact .inl rfl
  · exact (Threshold.constrain_cases hresolve).imp_right fun ⟨_, _, h⟩ => ⟨_, _, _, _, h⟩

end Registry

end Backtest
