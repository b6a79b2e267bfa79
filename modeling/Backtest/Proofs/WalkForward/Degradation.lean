import Backtest.Proofs.Scalar.Division
import Backtest.Proofs.Scalar.Total
import Backtest.Proofs.WalkForward.Accounting
import Backtest.Proofs.WalkForward.Leakage

/-!
# What degradation is measured against

Over a positive in-sample figure the degradation is the quotient of the figures, held within the
cap; over a negative one there is none. A figure of zero is kept out by the least figure that is
divided by, unless this is itself zero: then the quotient by zero counts as a ratio beyond the cap.
A summary averages the ratios of its windows.
-/

namespace Backtest

open Scalar

variable {α : Type} [Scalar α]

namespace WalkForwardConfig

variable {c : WalkForwardConfig α}

theorem bounds_of_validate (h : c.validate = .ok ()) :
    isFinite c.ratioCap = true ∧ nat 0 < c.ratioCap ∧ isFinite c.nearZero = true := by
  simp only [validate] at h
  split at h
  · cases h
  · split at h
    · cases h
    · split at h
      · cases h
      · rename_i hcap
        split at h
        · cases h
        · rename_i hnear
          simp only [Bool.not_eq_true', Bool.not_eq_false, Bool.and_eq_true,
            decide_eq_true_eq] at hcap hnear
          exact ⟨hcap.1, hcap.2, hnear.1⟩

/-- A number, neither beyond the cap nor beyond its opposite. -/
def Caps (c : WalkForwardConfig α) (ratio : α) : Prop :=
  isNaN ratio = false ∧ ¬ratio < -c.ratioCap ∧ ¬c.ratioCap < ratio

variable [Reading α]

/-- Zero lies between the cap and its opposite. -/
theorem cap_around_zero (h : c.validate = .ok ()) :
    isNaN (-c.ratioCap) = false ∧ isNaN c.ratioCap = false ∧
      Reading.value (-c.ratioCap) ≤ 0 ∧ 0 ≤ Reading.value c.ratioCap := by
  obtain ⟨hfinite, hpos, -⟩ := bounds_of_validate h
  have hcap := Reading.isNaN_of_isFinite hfinite
  rw [Reading.lt_iff Reading.isNaN_zero hcap, Reading.value_zero] at hpos
  rw [Reading.isNaN_neg, Reading.value_neg]
  exact ⟨hcap, hcap, EReal.neg_le_of_neg_le (by simpa using hpos.le), hpos.le⟩

theorem caps_clamp (h : c.validate = .ok ()) {ratio : α} (hratio : isNaN ratio = false) :
    c.Caps (clamp ratio (-c.ratioCap) c.ratioCap) := by
  obtain ⟨hneg, hcap, hlow, hhigh⟩ := cap_around_zero h
  exact Reading.clamp_inside hratio hneg hcap ((Reading.not_lt_iff hcap hneg).2 (hlow.trans hhigh))

theorem caps_zero (h : c.validate = .ok ()) : c.Caps (nat 0) := by
  obtain ⟨hneg, hcap, hlow, hhigh⟩ := cap_around_zero h
  rw [← Reading.value_zero (α := α)] at hlow hhigh
  exact ⟨Reading.isNaN_zero, (Reading.not_lt_iff Reading.isNaN_zero hneg).2 hlow,
    (Reading.not_lt_iff hcap Reading.isNaN_zero).2 hhigh⟩

theorem Caps.isFinite {ratio : α} (h : c.Caps ratio) (hcap : isFinite c.ratioCap = true) :
    Scalar.isFinite ratio = true := by
  have hneg := Reading.isFinite_neg hcap
  exact Reading.isFinite_of_between h.1 hneg hcap
    ((Reading.not_lt_iff h.1 (Reading.isNaN_of_isFinite hneg)).1 h.2.1)
    ((Reading.not_lt_iff (Reading.isNaN_of_isFinite hcap) h.1).1 h.2.2)

end WalkForwardConfig

namespace WalkForward

/-! ## One ratio -/

section

variable {c : WalkForwardConfig α} {x y ratio : α}

theorem degradation_of_near (h : isFinite x = false ∨ abs x < c.nearZero) :
    degradation c x y = (none, .nearZeroInSample) := by
  refine if_pos ?_
  rcases h with h | h <;> simp [h]

theorem degradation_of_neg (hneg : x < nat 0) : (degradation c x y).1 = none := by
  by_cases h : isFinite x = false ∨ abs x < c.nearZero
  · rw [degradation_of_near h]
  · obtain ⟨hfinite, hfar⟩ := not_or.1 h
    simp [degradation, hfinite, hfar, hneg]

/-- A ratio beyond the cap, or that is not finite, counts as capped. -/
theorem degradation_of_far (hx : isFinite x = true) (hfar : ¬abs x < c.nearZero)
    (hneg : ¬x < nat 0) :
    degradation c x y =
      if isFinite (y / x) = true ∧ ¬c.ratioCap < abs (y / x) then (some (y / x), .normal)
      else (some (if isNaN (y / x) then nat 0 else clamp (y / x) (-c.ratioCap) c.ratioCap),
        .capped) := by
  by_cases h : isFinite (y / x) = true ∧ ¬c.ratioCap < abs (y / x)
  · simp [degradation, hx, hfar, hneg, h]
  · have hbeyond : (!isFinite (y / x) || decide (c.ratioCap < abs (y / x))) = true := by
      simpa [or_iff_not_imp_left] using h
    simp [degradation, hx, hfar, hneg, h, hbeyond]

/-- What is divided by is finite, not too close to zero, and not negative. -/
theorem far_of_degradation_eq_some (h : (degradation c x y).1 = some ratio) :
    isFinite x = true ∧ ¬abs x < c.nearZero ∧ ¬x < nat 0 := by
  have hfar : ¬(isFinite x = false ∨ abs x < c.nearZero) := fun hnear => by
    rw [degradation_of_near hnear] at h
    cases h
  have hneg : ¬x < nat 0 := fun hneg => by
    rw [degradation_of_neg hneg] at h
    cases h
  obtain ⟨hfinite, hfar⟩ := not_or.1 hfar
  exact ⟨Bool.eq_true_of_not_eq_false hfinite, hfar, hneg⟩

variable [Reading α]

theorem sign_cases (hx : isNaN x = false) :
    nat 0 < x ∨ x < nat 0 ∨ (x == nat 0) = true := by
  rw [Reading.lt_iff Reading.isNaN_zero hx, Reading.lt_iff hx Reading.isNaN_zero,
    Reading.beq_iff hx Reading.isNaN_zero]
  rcases lt_trichotomy (Reading.value x) (Reading.value (nat 0 : α)) with h | h | h
  · exact .inr (.inl h)
  · exact .inr (.inr h)
  · exact .inl h

/-- Zero is too close to itself unless nothing is. -/
theorem abs_lt_nearZero_iff (hc : c.validate = .ok ()) (hx : isNaN x = false)
    (hzero : (x == nat 0) = true) : abs x < c.nearZero ↔ nat 0 < c.nearZero := by
  obtain ⟨-, -, hnear⟩ := WalkForwardConfig.bounds_of_validate hc
  have hn := Reading.isNaN_of_isFinite hnear
  rw [Reading.beq_iff hx Reading.isNaN_zero, Reading.value_zero] at hzero
  rw [Reading.lt_iff (by rw [Reading.isNaN_abs, hx]) hn, Reading.lt_iff Reading.isNaN_zero hn,
    Reading.value_abs, hzero, neg_zero, max_self, Reading.value_zero]

/-- What is divided by is positive, or zero where nothing is too close to zero. -/
theorem divisor_of_degradation_eq_some (hc : c.validate = .ok ())
    (h : (degradation c x y).1 = some ratio) :
    nat 0 < x ∨ (x == nat 0) = true ∧ ¬nat 0 < c.nearZero := by
  obtain ⟨hfinite, hfar, hneg⟩ := far_of_degradation_eq_some h
  have hx := Reading.isNaN_of_isFinite hfinite
  obtain hpos | hlt | hzero := sign_cases hx
  · exact .inl hpos
  · exact absurd hlt hneg
  · exact .inr ⟨hzero, fun hpos => hfar ((abs_lt_nearZero_iff hc hx hzero).2 hpos)⟩

/-- A ratio is within the cap, whatever the figures are. -/
theorem caps_of_degradation_eq_some (hc : c.validate = .ok ())
    (h : (degradation c x y).1 = some ratio) : c.Caps ratio := by
  obtain ⟨hcap, -, -⟩ := WalkForwardConfig.bounds_of_validate hc
  obtain ⟨hfinite, hfar, hneg⟩ := far_of_degradation_eq_some h
  rw [degradation_of_far hfinite hfar hneg] at h
  split at h
  · rename_i hinside
    obtain rfl := Option.some.inj h
    have hratio := Reading.isNaN_of_isFinite hinside.1
    rw [← Reading.clamp_of_abs_le hratio (Reading.isNaN_of_isFinite hcap) hinside.2]
    exact WalkForwardConfig.caps_clamp hc hratio
  · obtain rfl := Option.some.inj h
    split
    · exact WalkForwardConfig.caps_zero hc
    · rename_i hnan
      exact WalkForwardConfig.caps_clamp hc (Bool.eq_false_of_not_eq_true hnan)

variable [Dividing α]

/-- Over a positive figure, a ratio beyond the cap is one whose magnitude is. -/
theorem degradation_of_pos (hc : c.validate = .ok ()) (hx : isFinite x = true)
    (hy : isFinite y = true) (hpos : nat 0 < x) :
    degradation c x y =
      if abs x < c.nearZero then (none, .nearZeroInSample)
      else (some (clamp (y / x) (-c.ratioCap) c.ratioCap),
        if c.ratioCap < abs (y / x) then .capped else .normal) := by
  obtain ⟨hcap, -, -⟩ := WalkForwardConfig.bounds_of_validate hc
  have hxnum := Reading.isNaN_of_isFinite hx
  rw [Reading.lt_iff Reading.isNaN_zero hxnum] at hpos
  have hneg : ¬x < nat 0 := (Reading.not_lt_iff hxnum Reading.isNaN_zero).2 hpos.le
  have hne : (x == nat 0) = false := Bool.eq_false_iff.2 fun hzero =>
    hpos.ne' ((Reading.beq_iff hxnum Reading.isNaN_zero).1 hzero)
  have hratio := Dividing.isNaN_div hy hx hne
  by_cases hnear : abs x < c.nearZero
  · rw [degradation_of_near (.inr hnear), if_pos hnear]
  · rw [degradation_of_far hx hnear hneg, if_neg hnear]
    by_cases hbeyond : c.ratioCap < abs (y / x)
    · rw [if_neg fun h => h.2 hbeyond, if_neg (Bool.eq_false_iff.1 hratio), if_pos hbeyond]
    · have hfinite := Reading.isFinite_of_abs_le hratio hcap hbeyond
      rw [if_pos ⟨hfinite, hbeyond⟩, if_neg hbeyond,
        Reading.clamp_of_abs_le hratio (Reading.isNaN_of_isFinite hcap) hbeyond]

theorem degradation_of_zero (hc : c.validate = .ok ()) (hx : isFinite x = true)
    (hzero : (x == nat 0) = true) :
    degradation c x y =
      if nat 0 < c.nearZero then (none, .nearZeroInSample)
      else (some (if isNaN (y / x) then nat 0 else clamp (y / x) (-c.ratioCap) c.ratioCap),
        .capped) := by
  have hxnum := Reading.isNaN_of_isFinite hx
  have hneg : ¬x < nat 0 := by
    rw [Reading.not_lt_iff hxnum Reading.isNaN_zero]
    exact ((Reading.beq_iff hxnum Reading.isNaN_zero).1 hzero).ge
  by_cases hnear : abs x < c.nearZero
  · rw [degradation_of_near (.inr hnear), if_pos ((abs_lt_nearZero_iff hc hxnum hzero).1 hnear)]
  · have hunguarded : ¬nat 0 < c.nearZero := fun h =>
      hnear ((abs_lt_nearZero_iff hc hxnum hzero).2 h)
    rw [degradation_of_far hx hnear hneg, if_neg hunguarded, if_neg fun h => ?_]
    rw [Dividing.isFinite_div_zero hzero] at h
    exact Bool.false_ne_true h.1

/-- What is made of two figures, by the sign of the in-sample one. -/
structure Guarded (c : WalkForwardConfig α) (inSample outOfSample : α) : Prop where
  sign : nat 0 < inSample ∨ inSample < nat 0 ∨ (inSample == nat 0) = true
  positive : nat 0 < inSample →
    degradation c inSample outOfSample =
      if abs inSample < c.nearZero then (none, .nearZeroInSample)
      else (some (clamp (outOfSample / inSample) (-c.ratioCap) c.ratioCap),
        if c.ratioCap < abs (outOfSample / inSample) then .capped else .normal)
  negative : inSample < nat 0 → (degradation c inSample outOfSample).1 = none
  zero : (inSample == nat 0) = true →
    degradation c inSample outOfSample =
      if nat 0 < c.nearZero then (none, .nearZeroInSample)
      else
        (some (if isNaN (outOfSample / inSample) then nat 0
          else clamp (outOfSample / inSample) (-c.ratioCap) c.ratioCap), .capped)

theorem guarded (hc : c.validate = .ok ()) (hx : isFinite x = true) (hy : isFinite y = true) :
    Guarded c x y where
  sign := sign_cases (Reading.isNaN_of_isFinite hx)
  positive := degradation_of_pos hc hx hy
  negative := degradation_of_neg
  zero := degradation_of_zero hc hx

end

/-! ## Summaries -/

/-- The ratio and the flag of a window are made of its own figures. -/
theorem degradation_of_mem_windows [Powers α] [Random.Uniform α] {s : Setup α} {stops : Stops}
    {summary : WalkForwardSummary α} (h : run s stops = .ok summary) {r : WindowResult α}
    (hr : r ∈ summary.windows) :
    (r.degradation, r.flag) =
      degradation s.config r.inSampleMetrics.sharpe r.outOfSampleMetrics.sharpe := by
  obtain ⟨-, -, rfl⟩ := run_eq_ok_iff.1 h
  obtain ⟨verdict, hverdict, hdone⟩ := List.mem_filterMap.1 hr
  obtain ⟨w, -, rfl⟩ := List.mem_map.1 hverdict
  cases hjudge : judge s stops w with
  | done r' =>
    rw [hjudge] at hdone
    obtain rfl := Option.some.inj hdone
    obtain ⟨outcome, best, replay, -, -, -, rfl⟩ := judge_eq_done hjudge
    rfl
  | failed f =>
    rw [hjudge] at hdone
    cases hdone
  | stopped =>
    rw [hjudge] at hdone
    cases hdone
  | crashed text =>
    rw [hjudge] at hdone
    cases hdone

/-- The mean of exact ratios within the cap is within the cap. -/
theorem mean_within_cap {c : WalkForwardConfig Extended} (hc : c.validate = .ok ())
    {ratios : List Extended} (hne : ratios ≠ []) (h : ∀ x ∈ ratios, c.Caps x) :
    -c.ratioCap ≤ Metrics.mean ratios ∧ Metrics.mean ratios ≤ c.ratioCap := by
  obtain ⟨hfinite, -, -⟩ := WalkForwardConfig.bounds_of_validate hc
  obtain ⟨qs, rfl⟩ := Extended.exists_map_finite fun x hx => (h x hx).isFinite hfinite
  obtain ⟨cap, hcap⟩ := Extended.isFinite_iff.1 hfinite
  have hqs : qs ≠ [] := fun hnil => hne (by rw [hnil, List.map_nil])
  have hlength : ((qs.length : ℕ) : ℚ) ≠ 0 := Nat.cast_ne_zero.2 (List.length_pos_iff.2 hqs).ne'
  have hmean : Metrics.mean (qs.map Extended.finite) = .finite (qs.sum / qs.length) := by
    rw [Metrics.mean, List.isEmpty_eq_false_iff.2 hne, Extended.total_finite, List.length_map,
      Extended.nat_eq_finite]
    exact Extended.finite_div hlength
  have hinside : ∀ q ∈ qs, -cap ≤ q ∧ q ≤ cap := fun q hq => by
    obtain ⟨-, hlow, hhigh⟩ := h _ (List.mem_map_of_mem hq)
    rw [hcap, Extended.finite_neg, Extended.finite_lt, not_lt] at hlow
    rw [hcap, Extended.finite_lt, not_lt] at hhigh
    exact ⟨hlow, hhigh⟩
  rw [hmean, hcap, Extended.finite_neg, Extended.finite_le, Extended.finite_le]
  exact ⟨Rational.le_mean hqs fun q hq => (hinside q hq).1,
    Rational.mean_le hqs fun q hq => (hinside q hq).2⟩

/-- What a summary averages: ratios of its windows' own figures, each within the cap, and each over
a positive in-sample figure, or over zero where nothing is too close to zero. -/
structure Averages [Reading α] (c : WalkForwardConfig α) (summary : WalkForwardSummary α) :
    Prop where
  own : ∀ r ∈ summary.windows,
    (r.degradation, r.flag) = degradation c r.inSampleMetrics.sharpe r.outOfSampleMetrics.sharpe
  divisor : ∀ r ∈ summary.windows, r.degradation.isSome →
    nat 0 < r.inSampleMetrics.sharpe ∨
      (r.inSampleMetrics.sharpe == nat 0) = true ∧ ¬nat 0 < c.nearZero
  within : ∀ r ∈ summary.windows, ∀ ratio, r.degradation = some ratio → c.Caps ratio
  mean : summary.meanDegradation =
    if summary.windows.filterMap (·.degradation) = [] then none
    else some (Metrics.mean (summary.windows.filterMap (·.degradation)))

theorem averages_of_run [Reading α] [Powers α] [Random.Uniform α] {s : Setup α} {stops : Stops}
    {summary : WalkForwardSummary α} (h : run s stops = .ok summary) :
    Averages s.config summary where
  own _ hr := degradation_of_mem_windows h hr
  divisor _ hr hsome := by
    obtain ⟨ratio, hratio⟩ := Option.isSome_iff_exists.1 hsome
    have hown := congrArg Prod.fst (degradation_of_mem_windows h hr)
    exact divisor_of_degradation_eq_some (run_eq_ok_iff.1 h).1.config (hown.symm.trans hratio)
  within _ hr _ hratio := by
    have hown := congrArg Prod.fst (degradation_of_mem_windows h hr)
    exact caps_of_degradation_eq_some (run_eq_ok_iff.1 h).1.config (hown.symm.trans hratio)
  mean := by
    obtain ⟨-, -, rfl⟩ := run_eq_ok_iff.1 h
    simp only [Setup.summarize, WalkForwardSummary.ofWindows, List.isEmpty_iff]

/-- Without rounding, the mean of a summary is within the cap. -/
theorem meanDegradation_within_cap [Powers Extended] [Random.Uniform Extended] {s : Setup Extended}
    {stops : Stops} {summary : WalkForwardSummary Extended} (h : run s stops = .ok summary)
    {mean : Extended} (hmean : summary.meanDegradation = some mean) :
    -s.config.ratioCap ≤ mean ∧ mean ≤ s.config.ratioCap := by
  have haverages := averages_of_run h
  rw [haverages.mean] at hmean
  split at hmean
  · cases hmean
  · rename_i hne
    obtain rfl := Option.some.inj hmean
    refine mean_within_cap (run_eq_ok_iff.1 h).1.config hne fun ratio hratio => ?_
    obtain ⟨r, hr, hformed⟩ := List.mem_filterMap.1 hratio
    exact haverages.within r hr ratio hformed

/-- If no figure is too close to zero to be divided by, zero is not either. -/
theorem positive_iff [Reading α] [Dividing α] {c : WalkForwardConfig α}
    (hc : c.validate = .ok ()) :
    (∀ x y : α, isFinite x = true → isFinite y = true → (degradation c x y).1.isSome → nat 0 < x) ↔
      nat 0 < c.nearZero := by
  constructor
  · intro h
    by_contra hunguarded
    have hzero : (nat 0 == (nat 0 : α)) = true :=
      (Reading.beq_iff Reading.isNaN_zero Reading.isNaN_zero).2 rfl
    have hsome : (degradation c (nat 0) (nat 0)).1.isSome := by
      rw [degradation_of_zero hc Reading.isFinite_zero hzero, if_neg hunguarded]
      rfl
    have hpos := h _ _ Reading.isFinite_zero Reading.isFinite_zero hsome
    exact (Reading.not_lt_iff Reading.isNaN_zero Reading.isNaN_zero).2 le_rfl hpos
  · intro hguarded x y _ _ hsome
    obtain ⟨ratio, hratio⟩ := Option.isSome_iff_exists.1 hsome
    obtain hpos | ⟨-, hunguarded⟩ := divisor_of_degradation_eq_some hc hratio
    · exact hpos
    · exact absurd hguarded hunguarded

/-- Only positive in-sample figures are divided by, if and only if some figure is too close to zero.
Over a positive one the ratio is the quotient, held within the cap, over a negative one there is
none, and over zero there is none either or it counts as capped. A summary averages such ratios.
Without rounding its mean is within the cap; the mean of doubles can come to lie beyond it, as their
sum is rounded. -/
theorem ratios_guarded_iff [Reading α] [Dividing α] {c : WalkForwardConfig α}
    (hc : c.validate = .ok ()) :
    ((∀ x y : α, isFinite x = true → isFinite y = true →
        (degradation c x y).1.isSome → nat 0 < x) ↔ nat 0 < c.nearZero) ∧
    (∀ x y : α, isFinite x = true → isFinite y = true → Guarded c x y) ∧
    (∀ [Powers α] [Random.Uniform α] (s : Setup α) (stops : Stops)
      (summary : WalkForwardSummary α), s.config = c → run s stops = .ok summary →
        Averages c summary) ∧
    ∀ [Powers Extended] [Random.Uniform Extended] (s : Setup Extended) (stops : Stops)
      (summary : WalkForwardSummary Extended), run s stops = .ok summary →
        ∀ mean, summary.meanDegradation = some mean →
          -s.config.ratioCap ≤ mean ∧ mean ≤ s.config.ratioCap := by
  refine ⟨positive_iff hc, fun x y hx hy => guarded hc hx hy, ?_, ?_⟩
  · rintro _ _ s stops summary rfl h
    exact averages_of_run h
  · intro _ _ s stops summary h mean hmean
    exact meanDegradation_within_cap h hmean

/-- Three ratios at a cap of 0.1 have a mean beyond it. -/
example : Metrics.mean [0.1, 0.1, (0.1 : Float)] = 0.10000000000000002 := by decide +kernel

local instance coarseRoots : Powers Extended := Extended.coarsePowers

local instance spreadDraws : Random.Uniform Extended := Extended.wordDraws

def unguarded : WalkForwardConfig Float := { WalkForwardConfig.standard with nearZero := 0 }

/-- A quotient by zero counts as capped if nothing is too close to zero, and the mean over three
windows is within the cap. -/
theorem ratios_guarded_iff_unguarded_nineDays :
    (unguarded.validate = .ok () ∧ (degradation unguarded 0 1).1.isSome ∧
      (degradation unguarded 0 1).2 = .capped) ∧
    ∃ summary mean, run nineDays .never = .ok summary ∧ summary.meanDegradation = some mean ∧
      -nineDays.config.ratioCap ≤ mean ∧ mean ≤ nineDays.config.ratioCap := by
  have hvalid : unguarded.validate = .ok () := eq_ok_of_isSome (by decide +kernel)
  obtain ⟨-, hguarded, -, hexact⟩ := ratios_guarded_iff hvalid
  constructor
  · have hzero := (hguarded 0 1 (by decide) (by decide)).zero (by decide)
    rw [if_neg (by decide)] at hzero
    exact ⟨hvalid, by rw [hzero]; rfl, by rw [hzero]⟩
  · have hrun : run nineDays .never =
        .ok (nineDays.summarize (nineDays.windows.map (judge nineDays .never))) :=
      run_eq_ok_iff.2 ⟨nineDays_ready, fun _ => .inr (by decide +kernel), rfl⟩
    obtain ⟨mean, hmean⟩ : ∃ mean,
        (nineDays.summarize (nineDays.windows.map (judge nineDays .never))).meanDegradation =
          some mean :=
      Option.isSome_iff_exists.1 (by decide +kernel)
    exact ⟨_, mean, hrun, hmean, hexact nineDays .never _ hrun mean hmean⟩

end WalkForward

end Backtest
