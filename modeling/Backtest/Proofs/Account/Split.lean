import Backtest.Proofs.Account.Log
import Backtest.Proofs.Scalar.Reading

/-!
# How a fill divides

What a fill closes and opens, and the position it leaves, by the side of the position it meets. The
arithmetic may round, and sums may exceed its range.
-/

namespace Backtest

open Scalar Reading

namespace Ledger

variable {α : Type} [Scalar α] [Reading α] {q d : α} {s : Side}

theorem isNaN_dust : isNaN (dust : α) = false := isNaN_of_isFinite isFinite_billionth

theorem dust_lt_iff (hq : isNaN q = false) : dust < q ↔ value (dust : α) < value q :=
  lt_iff isNaN_dust hq

theorem beq_dust_iff (hq : isNaN q = false) :
    (q == dust) = true ↔ value q = value (dust : α) :=
  beq_iff hq isNaN_dust

theorem exists_along_pos (h : value (dust : α) ≤ value (abs d)) : ∃ s, 0 < along s d := by
  have hpos := billionth_pos.trans_le h
  rcases le_total 0 (along .long d) with hlong | hlong
  · rw [value_abs_of_nonneg hlong] at hpos
    exact ⟨.long, hpos⟩
  · rw [value_abs_of_nonpos hlong, ← along_of_ne (by decide : Side.short ≠ .long)] at hpos
    exact ⟨.short, hpos⟩

/-- A fill on the side of the position, or from flat, closes nothing. -/
theorem split_closing_of_along (hq : isNaN q = false) (hd : isFinite d = true)
    (hs : 0 < along s d) (h : 0 ≤ along s q) : (split q d).closing = nat 0 := by
  have hstay : (!(q == nat 0) && !sameSide q d) = false := by
    rcases h.eq_or_lt with h | h
    · rw [(beq_zero_iff hq s).2 h.symm]
      rfl
    · rw [(sameSide_iff hq (isNaN_of_isFinite hd) hs).2 h, Bool.not_true, Bool.and_false]
  unfold split
  simp [hstay]

/-- A fill against the position closes as much of it as it can. -/
theorem split_closing_of_against (hq : isNaN q = false) (hd : isFinite d = true)
    (hs : 0 < along s d) (h : along s q < 0) :
    (split q d).closing = if abs d < abs q then abs d else abs q := by
  have hzero : (q == nat 0) = false := by
    rw [← Bool.not_eq_true, beq_zero_iff hq s]
    exact h.ne
  have hside : sameSide q d = false := by
    rw [← Bool.not_eq_true, sameSide_iff hq (isNaN_of_isFinite hd) hs]
    exact not_lt.2 h.le
  unfold split
  simp [hzero, hside, smaller, isNaN_abs, hq]

theorem closing_pos_iff (hq : isNaN q = false) (hd : isFinite d = true)
    (hs : 0 < along s d) : nat 0 < (split q d).closing ↔ along s q < 0 := by
  constructor
  · intro hclosing
    by_contra h
    rw [split_closing_of_along hq hd hs (not_lt.1 h), lt_iff isNaN_zero isNaN_zero] at hclosing
    exact lt_irrefl _ hclosing
  · intro h
    obtain ⟨t, ht⟩ := exists_other s
    have hheld := (along_neg_iff ht).1 h
    rw [split_closing_of_against hq hd hs h]
    split
    · rw [lt_iff isNaN_zero (isNaN_of_isFinite (isFinite_abs hd)), value_zero,
        value_abs_of_nonneg hs.le]
      exact hs
    · rw [lt_iff isNaN_zero (by rw [isNaN_abs, hq]), value_zero, value_abs_of_nonneg hheld.le]
      exact hheld

theorem split_opening_of_along (hq : isNaN q = false) (hd : isFinite d = true)
    (hs : 0 < along s d) (h : 0 ≤ along s q) :
    isNaN (split q d).opening = false ∧ value (split q d).opening = along s d := by
  have hnum : isNaN (abs d) = false := isNaN_of_isFinite (isFinite_abs hd)
  rw [split_opening, split_closing_of_along hq hd hs h]
  refine ⟨isNaN_sub (isFinite_abs hd) isFinite_zero, ?_⟩
  rw [value_sub (isFinite_abs hd) isFinite_zero, value_zero, sub_zero, round_value hnum,
    value_abs_of_nonneg hs.le]

theorem split_opening_of_smaller (hq : isNaN q = false) (hd : isFinite d = true)
    (hs : 0 < along s d) (h : along s q < 0) (hlt : abs d < abs q) :
    isNaN (split q d).opening = false ∧ value (split q d).opening = 0 := by
  obtain ⟨-, r, hr⟩ := isFinite_iff.1 (isFinite_abs hd)
  rw [split_opening, split_closing_of_against hq hd hs h, if_pos hlt]
  refine ⟨isNaN_sub (isFinite_abs hd) (isFinite_abs hd), ?_⟩
  rw [value_sub (isFinite_abs hd) (isFinite_abs hd), hr, ← EReal.coe_sub, sub_self,
    EReal.coe_zero, ← value_zero (α := α), round_value isNaN_zero]

/-- What a reversing fill opens is what the position becomes. -/
theorem split_opening_of_larger (hq : isNaN q = false) (hd : isFinite d = true)
    (hs : 0 < along s d) (h : along s q < 0) (hle : ¬abs d < abs q) :
    isNaN (split q d).opening = false ∧ value (split q d).opening = along s (q + d) ∧
      0 ≤ along s (q + d) := by
  have hnum : isNaN (abs d) = false := isNaN_of_isFinite (isFinite_abs hd)
  obtain ⟨-, r, hr⟩ := isFinite_iff.1 (isFinite_abs hd)
  rw [lt_iff hnum (by rw [isNaN_abs, hq]), not_lt] at hle
  have hqfin : isFinite (abs q) = true := isFinite_abs_of_le hq (hr ▸ hle)
  obtain ⟨-, c, hc⟩ := isFinite_iff.1 hqfin
  have hdalong : along s d = r := by rw [← hr, value_abs_of_nonneg hs.le]
  have hqalong : along s q = ((-c : ℝ) : EReal) := by
    rw [EReal.coe_neg, ← hc, value_abs_of_nonpos h.le, neg_neg]
  have hsum : along s (q + d) = round α ((r - c : ℝ) : EReal) := by
    rw [along_add hq hd, hdalong, hqalong, ← EReal.coe_add, neg_add_eq_sub]
  rw [split_opening, split_closing_of_against hq hd hs h,
    if_neg (by rwa [lt_iff hnum (by rw [isNaN_abs, hq]), not_lt])]
  refine ⟨isNaN_sub (isFinite_abs hd) hqfin, ?_, ?_⟩
  · rw [value_sub (isFinite_abs hd) hqfin, hr, hc, ← EReal.coe_sub, hsum]
  · rw [hr, hc, EReal.coe_le_coe_iff] at hle
    rw [hsum]
    exact zero_le_round (EReal.coe_nonneg.2 (sub_nonneg.2 hle))

theorem not_abs_lt_dust_iff (hq : isNaN q = false) (h : 0 ≤ along s q) :
    ¬abs q < dust ↔ value (dust : α) ≤ along s q := by
  rw [lt_iff (by rw [isNaN_abs, hq]) isNaN_dust, not_lt, value_abs_of_nonneg h]

/-- A fill of more than dust on the side of the position, or from flat, leaves a position of at
least dust on that side. -/
theorem split_after_of_along (hq : isNaN q = false) (hd : isFinite d = true)
    (hs : 0 < along s d) (h : 0 ≤ along s q) (hdust : ¬abs d < dust) :
    0 < along s (split q d).after := by
  have hle := along_le_along_add hq hd h
  have hfar : value (dust : α) ≤ along s (q + d) :=
    ((not_abs_lt_dust_iff (isNaN_of_isFinite hd) hs.le).1 hdust).trans hle
  rw [split_after,
    if_neg ((not_abs_lt_dust_iff (isNaN_add hq hd) (hs.le.trans hle)).2 hfar)]
  exact hs.trans_le hle

/-- A fill smaller than the position it meets leaves nothing or a position on the same side. -/
theorem split_after_of_smaller (hq : isNaN q = false) (hd : isFinite d = true)
    (hs : 0 < along s d) (h : along s q < 0) (hlt : abs d < abs q) :
    along s (split q d).after ≤ 0 := by
  obtain ⟨-, r, hr⟩ := isFinite_iff.1 (isFinite_abs hd)
  have hdalong : along s d = r := by rw [← hr, value_abs_of_nonneg hs.le]
  rw [lt_iff (isNaN_of_isFinite (isFinite_abs hd)) (by rw [isNaN_abs, hq]), hr,
    value_abs_of_nonpos h.le, EReal.lt_neg_comm] at hlt
  rw [split_after]
  split
  · exact along_zero.le
  · rw [along_add hq hd, hdalong]
    refine round_le_zero ?_
    calc along s q + r ≤ ((-r : ℝ) : EReal) + r := by gcongr; exact hlt.le
      _ = 0 := by rw [← EReal.coe_add, neg_add_cancel, EReal.coe_zero]

/-- A fill at least as large as the position against it leaves what it opens, without dust. -/
theorem split_after_of_larger (hq : isNaN q = false) (hd : isFinite d = true)
    (hs : 0 < along s d) (h : along s q < 0) (hle : ¬abs d < abs q) :
    along s (split q d).after =
      if value (split q d).opening < value (dust : α) then 0 else value (split q d).opening := by
  obtain ⟨-, hval, hpos⟩ := split_opening_of_larger hq hd hs h hle
  have hiff : abs (q + d) < dust ↔ along s (q + d) < value (dust : α) := by
    rw [lt_iff (by rw [isNaN_abs, isNaN_add hq hd]) isNaN_dust, value_abs_of_nonneg hpos]
  rw [split_after, hval]
  by_cases hsmall : abs (q + d) < dust
  · rw [if_pos hsmall, if_pos (hiff.1 hsmall), along_zero]
  · rw [if_neg hsmall, if_neg fun h => hsmall (hiff.2 h)]

theorem isNaN_split_after (hq : isNaN q = false) (hd : isFinite d = true) :
    isNaN (split q d).after = false := by
  rw [split_after]
  split
  · exact isNaN_zero
  · exact isNaN_add hq hd

end Ledger

end Backtest
