import Mathlib.Tactic.Linarith
import Backtest.Proofs.Account.Exact

/-!
# How a rational fill divides

A fill from flat or on the side of the position only opens. A fill against the position closes what
it can, and if it is the larger one it opens the rest on the other side. What is left as a position
is less than dust nowhere.
-/

namespace Backtest

open Scalar

namespace Ledger

variable {q d : ℚ}

theorem sameSide_iff_mul_pos : sameSide q d = true ↔ 0 < q * d := by
  simp [sameSide, mul_pos_iff]

theorem sameSide_eq_false_iff : sameSide q d = false ↔ q * d ≤ 0 := by
  rw [← Bool.not_eq_true, sameSide_iff_mul_pos, not_lt]

theorem abs_add_of_along (h : 0 ≤ q * d) : |q + d| = |q| + |d| :=
  (abs_add_eq_add_abs_iff q d).2 (mul_nonneg_iff.1 h)

/-- Opposite quantities take off each other. -/
theorem abs_add_of_against (h : q * d ≤ 0) (hle : |q| ≤ |d|) : |q + d| = |d| - |q| := by
  rcases mul_nonpos_iff.1 h with ⟨hq, hd⟩ | ⟨hq, hd⟩
  · rw [abs_of_nonneg hq, abs_of_nonpos hd] at hle ⊢
    rw [abs_of_nonpos (by linarith)]
    ring
  · rw [abs_of_nonpos hq, abs_of_nonneg hd] at hle ⊢
    rw [abs_of_nonneg (by linarith)]
    ring

def settled (sum : ℚ) : ℚ := if |sum| < dust then 0 else sum

theorem settled_cases (sum : ℚ) : settled sum = 0 ∨ settled sum = sum := by
  unfold settled
  split
  · exact .inl rfl
  · exact .inr rfl

/-- The ways in which a fill of `d` divides against a position of `q`. -/
inductive Divides (q d : ℚ) : Split ℚ → Prop
  | along (h : 0 ≤ q * d) : Divides q d ⟨0, |d|, 0, q + d⟩
  | within (h : q * d < 0) (hle : |d| ≤ |q|) : Divides q d ⟨|d|, 0, 1, settled (q + d)⟩
  | past (h : q * d < 0) (hlt : |q| < |d|) :
      Divides q d ⟨|q|, |q + d|, |q| / |d|, settled (q + d)⟩

theorem split_divides (hd : ¬|d| < dust) : Divides q d (split q d) := by
  have hpos : 0 < |d| := dust_pos.trans_le (not_lt.1 hd)
  rcases le_or_gt 0 (q * d) with h | h
  · have hfar : ¬|q + d| < dust := by
      rw [abs_add_of_along h]
      linarith [abs_nonneg q]
    convert Divides.along h using 1
    by_cases hq : q = 0
    · simp [split, hq, hd]
    · have hside : sameSide q d = true :=
        sameSide_iff_mul_pos.2 (h.lt_of_ne' (mul_ne_zero hq (abs_pos.1 hpos)))
      simp [split, hside, hfar]
  · have hq : q ≠ 0 := (mul_ne_zero_iff.1 h.ne).1
    have hside : sameSide q d = false := sameSide_eq_false_iff.2 h.le
    rcases le_or_gt |d| |q| with hle | hlt
    · convert Divides.within h hle using 1
      simp [split, hq, hside, Rational.smaller_eq_min, hle, hpos.ne', settled]
    · convert Divides.past h hlt using 1
      simp [split, hq, hside, Rational.smaller_eq_min, hlt.le, settled,
        abs_add_of_against h.le hlt.le]

/-- What a fill within the position leaves is nothing, or on the side of the position. -/
theorem settled_within (h : q * d < 0) (hle : |d| ≤ |q|) (hne : settled (q + d) ≠ 0) :
    0 < q * settled (q + d) ∧ |settled (q + d)| ≤ |q| := by
  have hsum := (settled_cases (q + d)).resolve_left hne
  rw [hsum] at hne ⊢
  rcases mul_neg_iff.1 h with ⟨hq, hd⟩ | ⟨hq, hd⟩
  · rw [abs_of_pos hq, abs_of_neg hd] at *
    have hleft : 0 < q + d := lt_of_le_of_ne (by linarith) hne.symm
    exact ⟨mul_pos hq hleft, by rw [abs_of_pos hleft]; linarith⟩
  · rw [abs_of_neg hq, abs_of_pos hd] at *
    have hleft : q + d < 0 := lt_of_le_of_ne (by linarith) hne
    exact ⟨mul_pos_of_neg_of_neg hq hleft, by rw [abs_of_neg hleft]; linarith⟩

/-- Past a position there is the side of the fill. -/
theorem add_past (h : q * d < 0) (hlt : |q| < |d|) : q * (q + d) < 0 ∧ 0 < d * (q + d) := by
  rcases mul_neg_iff.1 h with ⟨hq, hd⟩ | ⟨hq, hd⟩
  · rw [abs_of_pos hq, abs_of_neg hd] at hlt
    have hleft : q + d < 0 := by linarith
    exact ⟨mul_neg_of_pos_of_neg hq hleft, mul_pos_of_neg_of_neg hd hleft⟩
  · rw [abs_of_neg hq, abs_of_pos hd] at hlt
    have hleft : 0 < q + d := by linarith
    exact ⟨mul_neg_of_neg_of_pos hq hleft, mul_pos hd hleft⟩

/-- What a fill past the position leaves is nothing, or on the side of the fill. -/
theorem settled_past (h : q * d < 0) (hlt : |q| < |d|) (hne : settled (q + d) ≠ 0) :
    q * settled (q + d) < 0 ∧ 0 < d * settled (q + d) := by
  rw [(settled_cases (q + d)).resolve_left hne]
  exact add_past h hlt

end Ledger

end Backtest
