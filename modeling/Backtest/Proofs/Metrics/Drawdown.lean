import Mathlib.Data.Finite.Prod
import Mathlib.Data.Set.Finite.Lemmas
import Backtest.Metrics.Basic
import Backtest.Proofs.Scalar.Total

/-!
# The largest fall

A fall leads from a positive value of an equity curve to the same value or a later one. Drawdown is
the largest of them, at most 1, though a single pass compares each value with the peak before it
and nothing else. A value that is not negative falls farthest from the peak. One that is negative
need not, but from the peak as from anywhere it falls by more than the whole.
-/

namespace Backtest.Metrics

open Scalar
open Extended (finite)

/-- The falls of an equity curve, as fractions of the values they start from. -/
def falls {α : Type} [Scalar α] (equity : List α) : Set α :=
  {fall | ∃ (i j : ℕ) (x y : α), i ≤ j ∧ equity[i]? = some x ∧ equity[j]? = some y ∧ nat 0 < x ∧
    fall = (x - y) / x}

section

variable {equity xs : List ℚ} {f : Fall ℚ} {fall largest first : ℚ}

theorem falls_nil : falls ([] : List ℚ) = ∅ := by
  simp [falls]

/-- One more value adds the falls that end there. -/
theorem mem_falls_append_singleton {z : ℚ} :
    fall ∈ falls (xs ++ [z]) ↔
      fall ∈ falls xs ∨ ∃ x ∈ xs ++ [z], 0 < x ∧ fall = (x - z) / x := by
  constructor
  · rintro ⟨i, j, x, y, hij, hi, hj, hx, rfl⟩
    by_cases hlast : j < xs.length
    · rw [List.getElem?_append_left (hij.trans_lt hlast)] at hi
      rw [List.getElem?_append_left hlast] at hj
      exact .inl ⟨i, j, x, y, hij, hi, hj, hx, rfl⟩
    · obtain ⟨hlength, -⟩ := List.getElem?_eq_some_iff.1 hj
      obtain rfl : j = xs.length := by simp at hlength; omega
      obtain rfl : z = y := by simpa using hj
      exact .inr ⟨x, List.mem_of_getElem? hi, hx, rfl⟩
  · rintro (⟨i, j, x, y, hij, hi, hj, hx, rfl⟩ | ⟨x, hmem, hx, rfl⟩)
    · have hleft {i : ℕ} {x : ℚ} (h : xs[i]? = some x) : (xs ++ [z])[i]? = some x := by
        rw [List.getElem?_append_left (List.getElem?_eq_some_iff.1 h).1, h]
      exact ⟨i, j, x, y, hij, hleft hi, hleft hj, hx, rfl⟩
    · obtain ⟨i, hi⟩ := List.mem_iff_getElem?.1 hmem
      have hlength := (List.getElem?_eq_some_iff.1 hi).1
      refine ⟨i, xs.length, x, z, ?_, hi, by simp, hx, rfl⟩
      simpa [Nat.lt_succ_iff] using hlength

/-! ## The single pass -/

/-- What the pass has found of the values it has met. -/
structure Tracks (xs : List ℚ) (f : Fall ℚ) : Prop where
  peak_mem : f.peak ∈ xs
  le_peak : ∀ x ∈ xs, x ≤ f.peak
  worst_mem : f.worst ∈ insert 0 (falls xs)
  worst_nonneg : 0 ≤ f.worst
  /-- Larger falls can have been missed only where all has been lost. -/
  le_worst : ∀ fall ∈ falls xs, fall ≤ f.worst ∨ 1 ≤ f.worst

theorem Fall.step_eq (f : Fall ℚ) (z : ℚ) :
    f.step z =
      ⟨max f.peak z, if 0 < max f.peak z then max f.worst ((max f.peak z - z) / max f.peak z)
        else f.worst⟩ := by
  have hpeak : (if f.peak < z then z else f.peak) = max f.peak z := by
    rcases lt_or_ge f.peak z with h | h
    · rw [if_pos h, max_eq_right h.le]
    · rw [if_neg h.not_gt, max_eq_left h]
  simp only [step, hpeak, Rational.larger_eq_max, Rational.nat_eq, Nat.cast_zero]

/-- A fall to a value that is not negative is no larger than from the peak; one to a negative value
exceeds the whole from there too. -/
theorem fall_le_from_peak {x z peak : ℚ} (hx : 0 < x) (hpeak : x ≤ peak) :
    (x - z) / x ≤ (peak - z) / peak ∨ 1 ≤ (peak - z) / peak := by
  have hpos := hx.trans_le hpeak
  rcases le_or_gt 0 z with hz | hz
  · left
    rw [sub_div, sub_div, div_self hx.ne', div_self hpos.ne']
    gcongr
  · right
    rw [le_div_iff₀ hpos]
    linarith

theorem Tracks.step (h : Tracks xs f) (z : ℚ) : Tracks (xs ++ [z]) (f.step z) := by
  rw [Fall.step_eq]
  have hpeak : max f.peak z ∈ xs ++ [z] := by
    rcases max_choice f.peak z with hmax | hmax
    · rw [hmax]
      exact List.mem_append_left _ h.peak_mem
    · rw [hmax]
      exact List.mem_append_right _ List.mem_cons_self
  have hle : ∀ x ∈ xs ++ [z], x ≤ max f.peak z := by
    intro x hx
    rcases List.mem_append.1 hx with hx | hx
    · exact (h.le_peak x hx).trans (le_max_left _ _)
    · exact List.mem_singleton.1 hx ▸ le_max_right _ _
  generalize max f.peak z = peak at hpeak hle ⊢
  have hworst : f.worst ∈ insert 0 (falls (xs ++ [z])) :=
    h.worst_mem.imp_right fun hmem => mem_falls_append_singleton.2 (.inl hmem)
  have hold : f.worst ≤ if 0 < peak then max f.worst ((peak - z) / peak) else f.worst := by
    split
    · exact le_max_left _ _
    · exact le_rfl
  refine ⟨hpeak, hle, ?_, h.worst_nonneg.trans hold, fun fall hfall => ?_⟩
  · dsimp only
    split
    · rename_i hpos
      rcases max_choice f.worst ((peak - z) / peak) with hmax | hmax
      · rwa [hmax]
      · rw [hmax]
        exact .inr (mem_falls_append_singleton.2 (.inr ⟨peak, hpeak, hpos, rfl⟩))
    · exact hworst
  · rcases mem_falls_append_singleton.1 hfall with hmem | ⟨x, hx, hpos, rfl⟩
    · exact (h.le_worst fall hmem).imp (·.trans hold) (·.trans hold)
    · simp only [if_pos (hpos.trans_le (hle x hx))]
      exact (fall_le_from_peak hpos (hle x hx)).imp (·.trans (le_max_right _ _))
        (·.trans (le_max_right _ _))

theorem tracks_singleton (x : ℚ) : Tracks [x] ⟨x, 0⟩ := by
  refine ⟨List.mem_cons_self, by simp, .inl rfl, le_rfl, fun fall hfall => ?_⟩
  rw [← List.nil_append [x]] at hfall
  rcases mem_falls_append_singleton.1 hfall with hmem | ⟨y, hy, -, rfl⟩
  · rw [falls_nil] at hmem
    exact absurd hmem (Set.notMem_empty _)
  · obtain rfl := List.mem_singleton.1 hy
    simp

theorem Tracks.foldl (h : Tracks xs f) (ys : List ℚ) :
    Tracks (xs ++ ys) (ys.foldl Fall.step f) := by
  induction ys generalizing xs f with
  | nil => simpa using h
  | cons y ys ih => simpa using ih (h.step y)

/-- The pass meets the first value twice, the second time without effect. -/
theorem tracks_foldl (first : ℚ) (rest : List ℚ) :
    Tracks (first :: rest) ((first :: rest).foldl Fall.step ⟨first, 0⟩) := by
  have hfirst : Fall.step ⟨first, 0⟩ first = ⟨first, 0⟩ := by simp [Fall.step_eq]
  rw [List.foldl_cons, hfirst]
  exact (tracks_singleton first).foldl rest

/-! ## Drawdown of a rational curve -/

theorem exists_isGreatest_falls (equity : List ℚ) :
    ∃ largest, IsGreatest (insert 0 (falls equity)) largest := by
  have hfalls : (falls equity).Finite := by
    refine (Set.Finite.image2 (fun x y => (x - y) / x) equity.finite_toSet
      equity.finite_toSet).subset ?_
    rintro fall ⟨i, j, x, y, -, hi, hj, -, rfl⟩
    exact ⟨x, List.mem_of_getElem? hi, y, List.mem_of_getElem? hj, rfl⟩
  obtain ⟨largest, hmem, hle⟩ :=
    Set.exists_max_image _ id (hfalls.insert 0) (Set.insert_nonempty 0 _)
  exact ⟨largest, hmem, hle⟩

theorem maxDrawdownOf_eq_min (h : IsGreatest (insert 0 (falls equity)) largest) :
    maxDrawdownOf equity = min largest 1 := by
  cases equity with
  | nil =>
    rw [falls_nil] at h
    obtain rfl : largest = 0 := by simpa using h.1
    simp [maxDrawdownOf]
  | cons first rest =>
    have htracks := tracks_foldl first rest
    have hworst := h.2 htracks.worst_mem
    rw [maxDrawdownOf, Rational.nat_eq, Rational.nat_eq, Nat.cast_zero, Nat.cast_one,
      Rational.clamp_eq_min htracks.worst_nonneg]
    rcases h.1 with hzero | hfall
    · rw [le_antisymm hworst (hzero.le.trans htracks.worst_nonneg)]
    · rcases htracks.le_worst largest hfall with hle | hall
      · rw [le_antisymm hworst hle]
      · rw [min_eq_right hall, min_eq_right (hall.trans hworst)]

theorem maxDrawdownOf_nonneg : 0 ≤ maxDrawdownOf equity := by
  obtain ⟨largest, h⟩ := exists_isGreatest_falls equity
  rw [maxDrawdownOf_eq_min h]
  exact le_min (h.2 (.inl rfl)) zero_le_one

theorem min_le_maxDrawdownOf (hfall : fall ∈ falls equity) : min fall 1 ≤ maxDrawdownOf equity := by
  obtain ⟨largest, h⟩ := exists_isGreatest_falls equity
  rw [maxDrawdownOf_eq_min h]
  exact min_le_min_right 1 (h.2 (.inr hfall))

theorem maxDrawdownOf_eq_zero_iff :
    maxDrawdownOf equity = 0 ↔ ∀ fall ∈ falls equity, fall ≤ 0 := by
  constructor
  · intro hzero fall hfall
    by_contra hpos
    have hless := (min_le_maxDrawdownOf hfall).trans hzero.le
    exact (lt_min (not_le.1 hpos) one_pos).not_ge hless
  · intro hnone
    obtain ⟨largest, h⟩ := exists_isGreatest_falls equity
    rw [maxDrawdownOf_eq_min h]
    obtain rfl : largest = 0 := by
      refine le_antisymm ?_ (h.2 (.inl rfl))
      exact h.1.elim (·.le) (hnone largest)
    exact min_eq_left zero_le_one

/-- A curve without negative values has no fall above zero if and only if it never decreases. -/
theorem falls_nonpos_iff (hnonneg : ∀ x ∈ equity, 0 ≤ x) :
    (∀ fall ∈ falls equity, fall ≤ 0) ↔ equity.Pairwise (· ≤ ·) := by
  rw [List.pairwise_iff_getElem]
  constructor
  · intro hnone i j hi hj hij
    rcases (hnonneg _ (List.getElem_mem hi)).eq_or_lt with hzero | hpos
    · exact hzero ▸ hnonneg _ (List.getElem_mem hj)
    · have hfall := hnone ((equity[i] - equity[j]) / equity[i]) ⟨i, j, equity[i], equity[j],
        hij.le, List.getElem?_eq_getElem hi, List.getElem?_eq_getElem hj, hpos, rfl⟩
      rwa [div_le_iff₀ hpos, zero_mul, sub_nonpos] at hfall
  · rintro hgrows fall ⟨i, j, x, y, hij, hi, hj, hx, rfl⟩
    obtain ⟨hi', rfl⟩ := List.getElem?_eq_some_iff.1 hi
    obtain ⟨hj', rfl⟩ := List.getElem?_eq_some_iff.1 hj
    refine div_nonpos_of_nonpos_of_nonneg (sub_nonpos.2 ?_) hx.le
    rcases hij.eq_or_lt with rfl | hlt
    · exact le_rfl
    · exact hgrows i j hi' hj' hlt

/-- From the first value to the last is a fall. -/
theorem neg_totalReturnOf_le (hfirst : equity.head? = some first) (hpos : 0 < first)
    (hnonneg : ∀ x ∈ equity, 0 ≤ x) : -totalReturnOf equity ≤ maxDrawdownOf equity := by
  obtain ⟨rest, rfl⟩ := List.head?_eq_some_iff.1 hfirst
  unfold totalReturnOf
  split
  · rename_i a last ha hlast
    obtain rfl : first = a := Option.some.inj ha
    split
    · have hlastMem := List.mem_of_getLast? hlast
      have hfall : -(last / first - nat 1) = (first - last) / first := by
        rw [sub_div, div_self hpos.ne']
        simp
      rw [hfall]
      have hindex : (first :: rest)[rest.length]? = some last := by
        simpa [List.getLast?_eq_getElem?] using hlast
      have hone : (first - last) / first ≤ 1 := by
        rw [div_le_one hpos]
        linarith [hnonneg last hlastMem]
      have hless := min_le_maxDrawdownOf
        ⟨0, rest.length, first, last, Nat.zero_le _, rfl, hindex, hpos, rfl⟩
      rwa [min_eq_left hone] at hless
    · simpa using maxDrawdownOf_nonneg
  · simpa using maxDrawdownOf_nonneg

end

/-! ## Exact curves of finite values -/

def Fall.exact (f : Fall ℚ) : Fall Extended := ⟨finite f.peak, finite f.worst⟩

theorem Fall.step_exact (f : Fall ℚ) (x : ℚ) : f.exact.step (finite x) = (f.step x).exact := by
  simp only [step, exact, Extended.finite_lt, ← apply_ite finite, Extended.nat_eq_finite,
    Extended.finite_sub]
  generalize (if f.peak < x then x else f.peak) = peak
  by_cases hpeak : nat 0 < peak
  · have hne : peak ≠ 0 := (show (0 : ℚ) < peak from hpeak).ne'
    simp only [if_pos hpeak, Extended.finite_div hne, Extended.larger_finite]
  · simp only [if_neg hpeak]

theorem maxDrawdownOf_exact (equity : List ℚ) :
    maxDrawdownOf (equity.map finite) = finite (maxDrawdownOf equity) := by
  cases equity with
  | nil => rfl
  | cons first rest =>
    have hfold : ((first :: rest).map finite).foldl Fall.step (Fall.exact ⟨first, nat 0⟩) =
        ((first :: rest).foldl Fall.step ⟨first, nat 0⟩).exact := by
      rw [List.foldl_map]
      exact List.foldl_hom Fall.exact fun f x => f.step_exact x
    simp only [List.map_cons, maxDrawdownOf, Extended.nat_eq_finite] at hfold ⊢
    rw [← Extended.clamp_finite, ← List.map_cons]
    exact congrArg (fun f => clamp f.worst _ _) hfold

theorem totalReturnOf_exact (equity : List ℚ) :
    totalReturnOf (equity.map finite) = finite (totalReturnOf equity) := by
  simp only [totalReturnOf, List.head?_map, List.getLast?_map, List.length_map]
  cases equity.head? with
  | none => rfl
  | some first =>
    cases equity.getLast? with
    | none => rfl
    | some last =>
      simp only [Option.map_some, Extended.nat_eq_finite, Extended.finite_lt]
      by_cases h : 2 ≤ equity.length ∧ nat 0 < first
      · have hne : first ≠ 0 := (show (0 : ℚ) < first from h.2).ne'
        rw [if_pos h, if_pos h, Extended.finite_div hne, Extended.finite_sub]
      · rw [if_neg h, if_neg h]

theorem falls_exact (equity : List ℚ) : falls (equity.map finite) = finite '' falls equity := by
  ext fall
  constructor
  · rintro ⟨i, j, x, y, hij, hi, hj, hx, rfl⟩
    rw [List.getElem?_map] at hi hj
    obtain ⟨x, hi', rfl⟩ := Option.map_eq_some_iff.1 hi
    obtain ⟨y, hj', rfl⟩ := Option.map_eq_some_iff.1 hj
    have hx : 0 < x := by simpa using hx
    refine ⟨(x - y) / x, ⟨i, j, x, y, hij, hi', hj', hx, rfl⟩, ?_⟩
    rw [Extended.finite_sub, Extended.finite_div hx.ne']
  · rintro ⟨fall, ⟨i, j, x, y, hij, hi, hj, hx, rfl⟩, rfl⟩
    have hne : x ≠ 0 := (show (0 : ℚ) < x from hx).ne'
    refine ⟨i, j, finite x, finite y, hij, by simp [hi], by simp [hj], by simpa using hx, ?_⟩
    rw [Extended.finite_sub, Extended.finite_div hne]

theorem isGreatest_falls_exact {equity : List ℚ} {largest : ℚ}
    (h : IsGreatest (insert 0 (falls equity)) largest) :
    IsGreatest (insert (nat 0) (falls (equity.map finite))) (finite largest) := by
  have hset : insert (nat 0) (falls (equity.map finite)) = finite '' insert 0 (falls equity) := by
    rw [falls_exact, Set.image_insert_eq]
    rfl
  rw [hset]
  refine ⟨Set.mem_image_of_mem finite h.1, ?_⟩
  rintro - ⟨fall, hfall, rfl⟩
  exact Extended.finite_le.2 (h.2 hfall)

/-- In exact arithmetic, for every equity curve of finite values: drawdown is the largest of zero
and all falls of the curve, or 1 if that is more. If the curve starts above zero and has no negative
value, its drawdown is zero if and only if it never decreases, and at least the total loss. -/
theorem maxDrawdownOf_is_largest_fall (equity : List Extended)
    (hfinite : ∀ x ∈ equity, isFinite x = true) :
    (∃ largest, IsGreatest (insert (nat 0) (falls equity)) largest ∧
      maxDrawdownOf equity = smaller largest (nat 1)) ∧
    ∀ first, equity.head? = some first → nat 0 < first → (∀ x ∈ equity, nat 0 ≤ x) →
      (maxDrawdownOf equity = nat 0 ↔ equity.Pairwise (· ≤ ·)) ∧
        -totalReturnOf equity ≤ maxDrawdownOf equity := by
  obtain ⟨equity, rfl⟩ := Extended.exists_map_finite hfinite
  rw [maxDrawdownOf_exact, totalReturnOf_exact]
  constructor
  · obtain ⟨largest, h⟩ := exists_isGreatest_falls equity
    refine ⟨finite largest, isGreatest_falls_exact h, ?_⟩
    rw [maxDrawdownOf_eq_min h, Extended.nat_eq_finite, Extended.smaller_finite,
      Rational.smaller_eq_min]
    simp
  · intro first hfirst hpos hnonneg
    rw [List.head?_map] at hfirst
    obtain ⟨first, hfirst', rfl⟩ := Option.map_eq_some_iff.1 hfirst
    have hnonneg : ∀ x ∈ equity, 0 ≤ x := by simpa using hnonneg
    constructor
    · rw [List.pairwise_map]
      simpa [maxDrawdownOf_eq_zero_iff] using falls_nonpos_iff hnonneg
    · rw [Extended.finite_neg, Extended.finite_le]
      exact neg_totalReturnOf_le hfirst' (by simpa using hpos) hnonneg

def waves : List Extended := [finite 100, finite 120, finite 90, finite 130, finite 117]

def overdrawn : List Extended := [finite 10, finite 100, finite (-5)]

theorem maxDrawdownOf_is_largest_fall_waves :
    (∀ x ∈ waves, isFinite x = true) ∧ (∀ x ∈ overdrawn, isFinite x = true) ∧
      waves.head? = some (finite 100) ∧ nat 0 < finite 100 ∧ (∀ x ∈ waves, nat 0 ≤ x) ∧
      (∃ largest, IsGreatest (insert (nat 0) (falls waves)) largest ∧
        finite (1 / 4) = smaller largest (nat 1)) ∧
      (∃ largest, IsGreatest (insert (nat 0) (falls overdrawn)) largest ∧
        nat 1 = smaller largest (nat 1)) ∧
      ¬waves.Pairwise (· ≤ ·) ∧ finite (-17 / 100) ≤ maxDrawdownOf waves := by
  have hwaves : ∀ x ∈ waves, isFinite x = true := by decide
  have hoverdrawn : ∀ x ∈ overdrawn, isFinite x = true := by decide
  have hnonneg : ∀ x ∈ waves, nat 0 ≤ x := by decide
  have hpositive : nat 0 < finite 100 := by decide
  obtain ⟨hlargest, hrest⟩ := maxDrawdownOf_is_largest_fall waves hwaves
  obtain ⟨hgrows, hloss⟩ := hrest _ rfl hpositive hnonneg
  have hmost := (maxDrawdownOf_is_largest_fall overdrawn hoverdrawn).1
  have hfalls : ¬maxDrawdownOf waves = nat 0 := by decide +kernel
  rw [show maxDrawdownOf waves = finite (1 / 4) by decide +kernel] at hlargest
  rw [show -totalReturnOf waves = finite (-17 / 100) by decide +kernel] at hloss
  rw [show maxDrawdownOf overdrawn = nat 1 by decide +kernel] at hmost
  exact ⟨hwaves, hoverdrawn, rfl, hpositive, hnonneg, hlargest, hmost, mt hgrows.2 hfalls, hloss⟩

end Backtest.Metrics
