import Mathlib.Algebra.Order.BigOperators.Group.List
import Mathlib.Data.List.MinMax
import Mathlib.Data.Set.List
import Backtest.Proofs.Scalar.Rational

/-!
# Sums and means of exact numbers

Rational numbers have a rational sum, and a missing number makes the sum missing. A number that
every bound of some rational numbers bounds lies between the least and the greatest of them; their
mean does.
-/

namespace Backtest

open Scalar

def Between {α : Type} [Scalar α] (xs : List α) (x : α) : Prop :=
  ∃ low ∈ xs, ∃ high ∈ xs, (∀ y ∈ xs, low ≤ y ∧ y ≤ high) ∧ low ≤ x ∧ x ≤ high

namespace Extended

theorem exists_map_finite {xs : List Extended} (h : ∀ x ∈ xs, isFinite x = true) :
    ∃ qs : List ℚ, qs.map finite = xs := by
  have hrange : xs ∈ Set.range (List.map finite) := by
    rw [Set.range_list_map]
    intro x hx
    obtain ⟨q, rfl⟩ := isFinite_iff.1 (h x hx)
    exact ⟨q, rfl⟩
  exact hrange

/-- Of numbers that are rational or missing, all are rational or one is missing. -/
theorem forall_isFinite_or_nan_mem {xs : List Extended}
    (h : ∀ x ∈ xs, isFinite x = true ∨ isNaN x = true) :
    (∀ x ∈ xs, isFinite x = true) ∨ nan ∈ xs := by
  refine or_iff_not_imp_right.2 fun hnone x hx => (h x hx).resolve_right fun hnan => ?_
  exact hnone (of_decide_eq_true hnan ▸ hx)

theorem foldl_add_finite (qs : List ℚ) (a : ℚ) :
    (qs.map finite).foldl (· + ·) (finite a) = finite (a + qs.sum) := by
  induction qs generalizing a with
  | nil => simp
  | cons q qs ih => rw [List.map_cons, List.foldl_cons, finite_add, ih, List.sum_cons, add_assoc]

@[simp] theorem total_finite (qs : List ℚ) : total (qs.map finite) = finite qs.sum := by
  rw [total, nat_eq_finite, finite_neg, foldl_add_finite]
  simp

theorem nan_add (x : Extended) : nan + x = nan := rfl

theorem add_nan (x : Extended) : x + nan = nan := by
  cases x <;> rfl

theorem foldl_add_nan (xs : List Extended) : xs.foldl (· + ·) nan = nan := by
  induction xs with
  | nil => rfl
  | cons x xs ih => rw [List.foldl_cons, nan_add, ih]

theorem total_of_nan_mem {xs : List Extended} (h : nan ∈ xs) : total xs = nan := by
  obtain ⟨before, after, rfl⟩ := List.append_of_mem h
  rw [total, List.foldl_append, List.foldl_cons, add_nan, foldl_add_nan]

/-- Infinities of different sign have no sum, in whatever order they are added. -/
instance : Std.Commutative (α := Extended) fun x y => x + y where
  comm
    | finite a, finite b => congrArg finite (add_comm a b)
    | infinite s, infinite t => by revert s t; decide
    | finite _, infinite _ => rfl
    | infinite _, finite _ => rfl
    | nan, y => (add_nan y).symm
    | x, nan => add_nan x

instance : Std.Associative (α := Extended) fun x y => x + y where
  assoc
    | finite a, finite b, finite c => congrArg finite (add_assoc a b c)
    | infinite s, infinite t, infinite u => by revert s t u; decide
    | finite _, infinite s, infinite t => by cases s <;> cases t <;> rfl
    | infinite s, infinite t, finite _ => by cases s <;> cases t <;> rfl
    | infinite _, finite _, infinite _ => rfl
    | infinite _, finite _, finite _ => rfl
    | finite _, infinite _, finite _ => rfl
    | finite _, finite _, infinite _ => rfl
    | nan, _, _ => rfl
    | x, nan, z => by rw [add_nan, nan_add, add_nan]
    | x, y, nan => by rw [add_nan, add_nan, add_nan]

theorem total_cons (x : Extended) (xs : List Extended) : total (x :: xs) = x + total xs := by
  have hstart : -nat 0 + x = x + -nat 0 := by ac_rfl
  rw [total, total, List.foldl_cons, hstart]
  exact List.foldl_assoc

theorem total_concat (xs : List Extended) (x : Extended) :
    total (xs ++ [x]) = total xs + x := by
  rw [total, List.foldl_append]
  rfl

/-- A rational number that is added and taken away again leaves no trace. -/
theorem finite_add_add_sub (a : ℚ) (x y : Extended) : finite a + x + (y - finite a) = x + y := by
  have hzero : x + y + finite 0 = x + y := by
    cases x + y with
    | finite b => rw [finite_add, add_zero]
    | _ => rfl
  calc finite a + x + (y - finite a) = finite a + x + (y + finite (-a)) := rfl
    _ = x + y + (finite a + finite (-a)) := by ac_rfl
    _ = x + y := by rw [finite_add, add_neg_cancel, hzero]

/-- An infinity that is added and taken away again leaves NaN. -/
theorem infinite_add_add_sub (s : Bool) (x y : Extended) :
    infinite s + x + (y - infinite s) = nan := by
  have hcancel : infinite s + infinite (!s) = nan := by cases s <;> rfl
  calc infinite s + x + (y - infinite s) = infinite s + x + (y + infinite (!s)) := rfl
    _ = infinite s + infinite (!s) + (x + y) := by ac_rfl
    _ = nan := by rw [hcancel, nan_add]

theorem negative_add {x y : Extended} (hx : x.negative = false) (hy : y.negative = false) :
    (x + y).negative = false := by
  cases x with
  | finite a =>
    cases y with
    | finite b =>
      simp only [negative, decide_eq_false_iff_not, not_lt] at hx hy
      simpa [negative] using add_nonneg hx hy
    | infinite t => exact hy
    | nan => rfl
  | infinite s =>
    cases y with
    | finite b => exact hx
    | infinite t =>
      cases hx
      cases hy
      rfl
    | nan => rfl
  | nan => rfl

theorem negative_total {xs : List Extended} (h : ∀ x ∈ xs, x.negative = false) :
    (total xs).negative = false :=
  List.foldlRecOn (motive := fun s => s.negative = false) xs (· + ·) rfl
    fun _ hs x hx => negative_add hs (h x hx)

theorem zero_lt_iff {x : Extended} : nat 0 < x ↔ (∃ a > 0, x = finite a) ∨ x = infinite false := by
  cases x with
  | finite a => simp
  | infinite s => cases s <;> simp <;> decide
  | nan => simp; decide

theorem zero_lt_add {x y : Extended} (hx : nat 0 < x) (hy : nat 0 < y) : nat 0 < x + y := by
  rcases zero_lt_iff.1 hx with ⟨a, ha, rfl⟩ | rfl
  · rcases zero_lt_iff.1 hy with ⟨b, hb, rfl⟩ | rfl
    · exact zero_lt_iff.2 (.inl ⟨a + b, add_pos ha hb, rfl⟩)
    · rfl
  · rcases zero_lt_iff.1 hy with ⟨b, hb, rfl⟩ | rfl <;> rfl

theorem zero_lt_total {xs : List Extended} (hne : xs ≠ []) (h : ∀ x ∈ xs, nat 0 < x) :
    nat 0 < total xs := by
  cases xs with
  | nil => exact absurd rfl hne
  | cons x xs =>
    have hstart : -nat 0 + x = x := by cases x <;> simp <;> rfl
    rw [total, List.foldl_cons, hstart]
    exact List.foldlRecOn (motive := fun s => nat 0 < s) xs (· + ·) (h x List.mem_cons_self)
      fun _ hs y hy => zero_lt_add hs (h y (List.mem_cons_of_mem x hy))

theorem between_finite {qs : List ℚ} {q : ℚ} (hne : qs ≠ [])
    (hlow : ∀ b, (∀ y ∈ qs, b ≤ y) → b ≤ q) (hhigh : ∀ b, (∀ y ∈ qs, y ≤ b) → q ≤ b) :
    Between (qs.map finite) (finite q) := by
  have hpos := List.length_pos_iff.2 hne
  refine ⟨_, List.mem_map_of_mem (List.minimum_of_length_pos_mem hpos), _,
    List.mem_map_of_mem (List.maximum_of_length_pos_mem hpos), List.forall_mem_map.2 fun y hy => ?_,
    finite_le.2 (hlow _ fun y hy => ?_), finite_le.2 (hhigh _ fun y hy => ?_)⟩
  · exact ⟨finite_le.2 (List.minimum_of_length_pos_le_of_mem hy hpos),
      finite_le.2 (List.le_maximum_of_length_pos_of_mem hy hpos)⟩
  · exact List.minimum_of_length_pos_le_of_mem hy hpos
  · exact List.le_maximum_of_length_pos_of_mem hy hpos

end Extended

namespace Rational

variable {qs : List ℚ} {b : ℚ}

theorem le_mean (hne : qs ≠ []) (h : ∀ q ∈ qs, b ≤ q) : b ≤ qs.sum / qs.length := by
  have hpos : (0 : ℚ) < qs.length := Nat.cast_pos.2 (List.length_pos_iff.2 hne)
  rw [le_div_iff₀ hpos, mul_comm, ← nsmul_eq_mul]
  exact List.card_nsmul_le_sum qs b h

theorem mean_le (hne : qs ≠ []) (h : ∀ q ∈ qs, q ≤ b) : qs.sum / qs.length ≤ b := by
  have hpos : (0 : ℚ) < qs.length := Nat.cast_pos.2 (List.length_pos_iff.2 hne)
  rw [div_le_iff₀ hpos, mul_comm, ← nsmul_eq_mul]
  exact List.sum_le_card_nsmul qs b h

theorem lt_mean (hne : qs ≠ []) (h : ∀ q ∈ qs, b < q) : b < qs.sum / qs.length := by
  have hpos := List.length_pos_iff.2 hne
  exact (h _ (List.minimum_of_length_pos_mem hpos)).trans_le
    (le_mean hne fun q hq => List.minimum_of_length_pos_le_of_mem hq hpos)

theorem mean_lt (hne : qs ≠ []) (h : ∀ q ∈ qs, q < b) : qs.sum / qs.length < b := by
  have hpos := List.length_pos_iff.2 hne
  exact (mean_le hne fun q hq => List.le_maximum_of_length_pos_of_mem hq hpos).trans_lt
    (h _ (List.maximum_of_length_pos_mem hpos))

/-- Numbers that are smaller than all others pull the mean of the others down. -/
theorem mean_append_lt {xs ys : List ℚ} (hxs : xs ≠ []) (hys : ys ≠ [])
    (h : ∀ x ∈ xs, ∀ y ∈ ys, x < y) :
    (xs ++ ys).sum / (xs ++ ys).length < ys.sum / ys.length := by
  have hleft : (0 : ℚ) < xs.length := Nat.cast_pos.2 (List.length_pos_iff.2 hxs)
  have hright : (0 : ℚ) < ys.length := Nat.cast_pos.2 (List.length_pos_iff.2 hys)
  have hbelow := mean_lt hxs fun x hx => lt_mean hys (h x hx)
  rw [div_lt_iff₀ hleft] at hbelow
  rw [List.sum_append, List.length_append, Nat.cast_add, div_lt_iff₀ (add_pos hleft hright),
    mul_add, div_mul_cancel₀ _ hright.ne']
  gcongr

end Rational

end Backtest
