import Mathlib.Algebra.BigOperators.Group.List.Basic
import Backtest.Proofs.Parameter.Domain
import Backtest.Proofs.Search.Reach
import Backtest.Search.Candidates

/-!
# Grid points

A grid index is written in mixed radix, one digit for each varied parameter. As long as an index
stays below the product of the lengths, its digits determine it and every choice of digits occurs;
so two grid points carry the same values only where a parameter repeats a value on its own grid. An
even stride takes no index twice.
-/

namespace Backtest

open Parameter

namespace Space

/-! ## Digits -/

def radix (ns : List Nat) : Nat := (ns.map (max · 1)).prod

theorem radix_cons (n : Nat) (ns : List Nat) : radix (n :: ns) = max n 1 * radix ns := by
  simp only [radix, List.map_cons, List.prod_cons]

theorem radix_pos (ns : List Nat) : 0 < radix ns := by
  induction ns with
  | nil => decide
  | cons n ns ih =>
    rw [radix_cons]
    exact Nat.mul_pos (by omega) ih

@[simp] theorem digits_snd (ns : List Nat) (i : Nat) : (digits ns i).2 = i / radix ns := by
  induction ns with
  | nil => simp [digits, radix]
  | cons n ns ih =>
    simp only [digits, ih, radix, List.map_cons, List.prod_cons]
    rw [Nat.div_div_eq_div_mul, Nat.mul_comm]

theorem digits_lt (ns : List Nat) (i : Nat) :
    List.Forall₂ (fun k n => k < max n 1) (digits ns i).1 ns := by
  induction ns with
  | nil => exact .nil
  | cons n ns ih => exact .cons (Nat.mod_lt _ (by omega)) ih

/-- The digits with what is left above them determine the number. -/
theorem digits_injective (ns : List Nat) : Function.Injective (digits ns) := by
  induction ns with
  | nil => exact fun i j h => congrArg Prod.snd h
  | cons n ns ih =>
    intro i j h
    obtain ⟨hdigits, hrest⟩ := Prod.ext_iff.1 h
    obtain ⟨hmod, htail⟩ := List.cons.inj hdigits
    refine ih (Prod.ext htail ?_)
    rw [← Nat.div_add_mod (digits ns i).2 (max n 1), ← Nat.div_add_mod (digits ns j).2 (max n 1),
      hmod]
    exact congrArg (max n 1 * · + _) hrest

/-- Numbers below the product are determined by their digits alone. -/
theorem eq_of_digits_eq {ns : List Nat} {i j : Nat} (hi : i < radix ns) (hj : j < radix ns)
    (h : (digits ns i).1 = (digits ns j).1) : i = j :=
  digits_injective ns <| Prod.ext h <| by
    rw [digits_snd, digits_snd, Nat.div_eq_of_lt hi, Nat.div_eq_of_lt hj]

theorem digits_add_mul (ns : List Nat) (i k : Nat) :
    digits ns (i + k * radix ns) = ((digits ns i).1, (digits ns i).2 + k) := by
  induction ns generalizing k with
  | nil => simp [digits, radix]
  | cons n ns ih =>
    have hpos : 0 < max n 1 := by omega
    have hindex : i + k * radix (n :: ns) = i + k * max n 1 * radix ns := by
      simp only [radix, List.map_cons, List.prod_cons, Nat.mul_assoc]
    simp only [digits, hindex, ih, Nat.add_mul_mod_self_right, Nat.add_mul_div_right _ _ hpos]

/-- Every choice of digits occurs. -/
theorem exists_digits_eq {ks ns : List Nat} (h : List.Forall₂ (fun k n => k < max n 1) ks ns) :
    ∃ i < radix ns, (digits ns i).1 = ks := by
  induction h with
  | nil => exact ⟨0, by decide, rfl⟩
  | @cons k n ks ns hlt _ ih =>
    obtain ⟨i, hi, hdigits⟩ := ih
    refine ⟨i + k * radix ns, ?_, ?_⟩
    · calc i + k * radix ns < (k + 1) * radix ns := by rw [Nat.succ_mul]; omega
        _ ≤ max n 1 * radix ns := Nat.mul_le_mul_right _ hlt
        _ = radix (n :: ns) := (radix_cons n ns).symm
    · have hrest : (digits ns i).2 = 0 := by rw [digits_snd, Nat.div_eq_of_lt hi]
      simp only [digits, digits_add_mul, hdigits, hrest, Nat.zero_add, Nat.mod_eq_of_lt hlt]

example : (List.range 6).map (fun i => (digits [2, 3] i).1) =
    [[0, 0], [0, 1], [0, 2], [1, 0], [1, 1], [1, 2]] := by decide

/-! ## Values at a grid index -/

variable {α : Type} [Scalar α] {s : Space α} {i j : Nat}

def points (s : Space α) : Nat := radix (s.dimensions.map fun d => d.domain.gridLength)

/-- One more length in a product that is cut off once it leads beyond the largest count. -/
def grow (acc : Option Nat) (m : Nat) : Option Nat :=
  acc.bind fun n => if n * m ≤ maxCount then some (n * m) else none

theorem foldl_grow_zero (ms : List Nat) : ms.foldl grow (some 0) = some 0 := by
  induction ms with
  | nil => rfl
  | cons m ms ih => simpa [grow] using ih

theorem foldl_grow_none (ms : List Nat) : ms.foldl grow none = none := by
  induction ms with
  | nil => rfl
  | cons m ms ih => exact ih

/-- The product is 0, or what it would be if every length of 0 were 1. -/
theorem foldl_grow (ms : List Nat) {n : Nat} (hn : n ≤ maxCount) :
    ms.foldl grow (some n) = some 0 ∨
      (ms.foldl grow (some n)).getD maxCount = min (n * radix ms) maxCount := by
  induction ms generalizing n with
  | nil => exact .inr (by simp [radix, hn])
  | cons m ms ih =>
    rw [List.foldl_cons]
    rcases Nat.eq_zero_or_pos m with rfl | hm
    · exact .inl (foldl_grow_zero ms)
    · rw [radix_cons, Nat.max_eq_left hm, ← Nat.mul_assoc]
      by_cases hfits : n * m ≤ maxCount
      · simp only [grow, Option.bind_some, if_pos hfits]
        exact ih hfits
      · right
        have hbeyond : n * m ≤ n * m * radix ms := Nat.le_mul_of_pos_right _ (radix_pos ms)
        simp only [grow, Option.bind_some, if_neg hfits]
        rw [foldl_grow_none, Option.getD_none, Nat.min_eq_right (by omega)]

theorem size_eq (s : Space α) :
    s.size = ((s.dimensions.map fun d => d.domain.gridLength).foldl grow (some 1)).getD
      maxCount := by
  rw [List.foldl_map]
  rfl

theorem size_eq_min (h : s.size ≠ 0) : s.size = min s.points maxCount := by
  rw [size_eq] at h ⊢
  rcases foldl_grow (s.dimensions.map fun d => d.domain.gridLength)
    (show 1 ≤ maxCount by decide) with hzero | hmin
  · rw [hzero] at h
    exact absurd rfl h
  · rw [hmin, Nat.one_mul]
    rfl

theorem zero_mem_of_foldl_grow {ms : List Nat} {n : Nat} (hn : 0 < n)
    (h : ms.foldl grow (some n) = some 0) : 0 ∈ ms := by
  induction ms generalizing n with
  | nil => exact absurd (Option.some.inj h) hn.ne'
  | cons m ms ih =>
    rcases Nat.eq_zero_or_pos m with rfl | hm
    · exact List.mem_cons_self
    · rw [List.foldl_cons, grow, Option.bind_some] at h
      split at h
      · exact List.mem_cons_of_mem _ (ih (Nat.mul_pos hn hm) h)
      · rw [foldl_grow_none] at h
        cases h

/-- A space without a size has a parameter without a grid point. -/
theorem exists_gridLength_eq_zero (h : s.size = 0) :
    ∃ d ∈ s.dimensions, d.domain.gridLength = 0 := by
  rw [size_eq] at h
  rcases foldl_grow (s.dimensions.map fun d => d.domain.gridLength)
    (show 1 ≤ maxCount by decide) with hzero | hmin
  · exact List.mem_map.1 (zero_mem_of_foldl_grow one_pos hzero)
  · have hpos := radix_pos (s.dimensions.map fun d => d.domain.gridLength)
    rw [hmin, Nat.one_mul, maxCount, UInt64.size] at h
    omega

theorem digits_lt_gridLength (s : Space α) (i : Nat) :
    List.Forall₂ (fun k (d : Declaration α) => k < max d.domain.gridLength 1)
      (digits (s.dimensions.map fun d => d.domain.gridLength) i).1 s.dimensions := by
  have hlt := digits_lt (s.dimensions.map fun d => d.domain.gridLength) i
  rwa [List.forall₂_map_right_iff] at hlt

/-- Digits are told apart by the values that they stand for, if no parameter has a value twice on
its grid. -/
theorem eq_of_zipWith_gridValue_eq {ds : List (Declaration α)} {ks ks' : List Nat}
    (hks : List.Forall₂ (fun k d => k < max d.domain.gridLength 1) ks ds)
    (hks' : List.Forall₂ (fun k d => k < max d.domain.gridLength 1) ks' ds)
    (hnodup : ∀ d ∈ ds, d.domain.gridValues.Nodup)
    (h : List.zipWith (fun d k => (d.name, d.domain.gridValue k)) ds ks =
      List.zipWith (fun d k => (d.name, d.domain.gridValue k)) ds ks') : ks = ks' := by
  induction hks generalizing ks' with
  | nil => exact (List.forall₂_nil_right_iff.1 hks').symm
  | @cons k d ks ds hk _ ih =>
    obtain ⟨k', ks', hk', htail', rfl⟩ := List.forall₂_cons_right_iff.1 hks'
    obtain ⟨hd, hds⟩ := List.forall_mem_cons.1 hnodup
    obtain ⟨hvalue, htail⟩ := List.cons.inj h
    have hkk : k = k' := by
      rcases Nat.eq_zero_or_pos d.domain.gridLength with hzero | hpos
      · omega
      · exact List.inj_on_of_nodup_map hd (List.mem_range.2 (by omega))
          (List.mem_range.2 (by omega)) (congrArg Prod.snd hvalue)
    rw [hkk, ih htail' hds htail]

/-- Different points of a grid carry different values if no parameter has a value twice on its own
grid. -/
theorem gridValues_injective (hnodup : ∀ d ∈ s.dimensions, d.domain.gridValues.Nodup)
    (hi : i < s.points) (hj : j < s.points) (h : s.gridValues i = s.gridValues j) : i = j :=
  eq_of_digits_eq hi hj
    (eq_of_zipWith_gridValue_eq (digits_lt_gridLength s i) (digits_lt_gridLength s j) hnodup h)

/-- A value that a parameter has twice on its grid makes two points of the whole grid the same. -/
theorem exists_gridValues_eq {d : Declaration α} (hd : d ∈ s.dimensions) {a b : Nat}
    (ha : a < d.domain.gridLength) (hb : b < d.domain.gridLength) (hab : a ≠ b)
    (hvalue : d.domain.gridValue a = d.domain.gridValue b) :
    ∃ i < s.points, ∃ j < s.points, i ≠ j ∧ s.gridValues i = s.gridValues j := by
  obtain ⟨before, after, hsplit⟩ := List.append_of_mem hd
  -- every other parameter stays at its first value
  have hdigits : ∀ k < d.domain.gridLength, ∃ i < s.points,
      (digits (s.dimensions.map fun d => d.domain.gridLength) i).1 =
        before.map (fun _ => 0) ++ k :: after.map fun _ => 0 := by
    intro k hk
    refine exists_digits_eq ?_
    have hzero : ∀ l : List (Declaration α), List.Forall₂ (fun k n => k < max n 1)
        (l.map fun _ => 0) (l.map fun d => d.domain.gridLength) := by
      intro l
      rw [List.forall₂_map_left_iff, List.forall₂_map_right_iff, List.forall₂_same]
      exact fun d _ => Nat.lt_of_lt_of_le Nat.one_pos (Nat.le_max_right _ 1)
    rw [hsplit, List.map_append, List.map_cons]
    exact List.rel_append (hzero before) (.cons (by omega) (hzero after))
  obtain ⟨i, hi, hdi⟩ := hdigits a ha
  obtain ⟨j, hj, hdj⟩ := hdigits b hb
  refine ⟨i, hi, j, hj, ?_, ?_⟩
  · rintro rfl
    have := List.append_cancel_left (hdi.symm.trans hdj)
    exact hab (List.cons.inj this).1
  · rw [gridValues, gridValues, hdi, hdj, hsplit,
      List.zipWith_append (by simp), List.zipWith_append (by simp), List.zipWith_cons_cons,
      List.zipWith_cons_cons, hvalue]

end Space

/-! ## Strides -/

namespace Enumeration

variable {total cap i j : Nat}

theorem stride_lt (hcap : cap < total) (hi : i < cap) : stride total cap i < total :=
  Nat.div_lt_of_lt_mul (Nat.mul_lt_mul_of_pos_right hi (by omega))

theorem stride_lt_stride (hcap : cap < total) (hi : i < cap) (hij : i < j) :
    stride total cap i < stride total cap j :=
  calc i * total / cap < i * total / cap + 1 := Nat.lt_succ_self _
    _ = (i * total + cap) / cap := (Nat.add_div_right _ (by omega)).symm
    _ ≤ (i * total + total) / cap := Nat.div_le_div_right (by omega)
    _ ≤ j * total / cap := Nat.div_le_div_right (by
        rw [← Nat.succ_mul]; exact Nat.mul_le_mul_right _ hij)

def gridIndex (total cap i : Nat) : Nat := if total ≤ cap then i else stride total cap i

theorem gridIndex_lt (hi : i < min total cap) : gridIndex total cap i < total := by
  unfold gridIndex
  split
  · omega
  · exact stride_lt (by omega) (by omega)

/-- No grid index is taken twice. -/
theorem gridIndex_injective (hi : i < min total cap) (hj : j < min total cap)
    (h : gridIndex total cap i = gridIndex total cap j) : i = j := by
  unfold gridIndex at h
  split at h
  · exact h
  · rcases Nat.lt_trichotomy i j with hlt | heq | hgt
    · exact absurd h (stride_lt_stride (by omega) (by omega) hlt).ne
    · exact heq
    · exact absurd h (stride_lt_stride (by omega) (by omega) hgt).ne'

theorem candidates_ofGrid {α : Type} [Scalar α] (space : Space α) (cap : Nat) :
    (ofGrid space cap).candidates =
      (List.range (min space.size cap)).map fun i =>
        space.gridPoint (gridIndex space.size cap i) := by
  unfold ofGrid gridIndex
  by_cases h : space.size ≤ cap
  · simp [h]
  · simp [h, Nat.le_of_not_le h]

end Enumeration

end Backtest
