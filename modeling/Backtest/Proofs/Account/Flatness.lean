import Backtest.Proofs.Account.Split

/-!
# Flat accounts

A fill leaves a position of at least `dust` or none at all, and where it leaves none it has ended
the open trade. The arithmetic may round, and this holds of fills out of range too, since a position
that has left the range never becomes flat again.
-/

namespace Backtest

open Scalar Reading

namespace Ledger

variable {α : Type} [Scalar α] [Reading α] {l : Ledger α} {f : Fill α} {q : α} {s : Side}

omit [Reading α] in
/-- The position is zero or no dust, and no trade is open while it is zero. -/
structure Cleared (l : Ledger α) : Prop where
  no_dust : l.portfolio.quantity = nat 0 ∨ ¬abs l.portfolio.quantity < dust
  no_trade : l.portfolio.isFlat = true → l.openTrade = none

theorem abs_lt_dust_of_value_eq_zero (hq : isNaN q = false) (h : value q = 0) : abs q < dust := by
  have hzero : along .long q = 0 := h
  rw [lt_iff (by rw [isNaN_abs, hq]) isNaN_dust, value_abs_of_nonneg hzero.ge, hzero]
  exact billionth_pos

theorem zero_beq_zero : (nat 0 == (nat 0 : α)) = true := (beq_iff isNaN_zero isNaN_zero).2 rfl

/-- A fill of more than dust that leaves nothing was made against the position. -/
theorem against_of_after_eq_zero (hq : isNaN l.portfolio.quantity = false)
    (hf : isFinite f.quantity = true) (hdust : ¬abs f.quantity < dust)
    (hs : 0 < along s f.quantity) (hafter : (l.splitOf f).after = nat 0) :
    along s l.portfolio.quantity < 0 := by
  by_contra h
  have hpos : 0 < along s (l.splitOf f).after :=
    split_after_of_along hq hf hs (not_lt.1 h) hdust
  rw [hafter, along_zero] at hpos
  exact lt_irrefl _ hpos

/-- A fill that leaves nothing opens nothing. -/
theorem not_dust_lt_opening_of_after_eq_zero (hq : isNaN l.portfolio.quantity = false)
    (hf : isFinite f.quantity = true) (hs : 0 < along s f.quantity)
    (h : along s l.portfolio.quantity < 0) (hafter : (l.splitOf f).after = nat 0) :
    ¬dust < (l.splitOf f).opening := by
  by_cases hlt : abs f.quantity < abs l.portfolio.quantity
  · obtain ⟨hnum, hval⟩ : isNaN (l.splitOf f).opening = false ∧
        value (l.splitOf f).opening = 0 := split_opening_of_smaller hq hf hs h hlt
    rw [dust_lt_iff hnum, hval]
    exact not_lt.2 billionth_pos.le
  · obtain ⟨hnum, -⟩ : isNaN (l.splitOf f).opening = false ∧ _ :=
      split_opening_of_larger hq hf hs h hlt
    have hleft : along s (l.splitOf f).after =
        if value (l.splitOf f).opening < value (dust : α) then 0
        else value (l.splitOf f).opening := split_after_of_larger hq hf hs h hlt
    rw [hafter, along_zero] at hleft
    rw [dust_lt_iff hnum, not_lt]
    split at hleft
    · exact le_of_lt ‹_›
    · rw [← hleft]
      exact billionth_pos.le

theorem openTrade_apply_of_after_eq_zero (hq : isNaN l.portfolio.quantity = false)
    (hf : isFinite f.quantity = true) (hdust : ¬abs f.quantity < dust)
    (hafter : (l.splitOf f).after = nat 0) : (l.apply f).openTrade = none := by
  have hfar : value (dust : α) ≤ value (abs f.quantity) := by
    rwa [lt_iff (isNaN_of_isFinite (isFinite_abs hf)) isNaN_dust, not_lt] at hdust
  obtain ⟨s, hs⟩ := exists_along_pos hfar
  have hagainst := against_of_after_eq_zero hq hf hdust hs hafter
  have hclosing : nat 0 < (l.splitOf f).closing := (closing_pos_iff hq hf hs).2 hagainst
  have hopening := not_dust_lt_opening_of_after_eq_zero hq hf hs hagainst hafter
  have hremaining : (l.closePart (l.splitOf f) f).1.map (·.side) = none := by
    rw [map_side_closePart, if_pos]
    rw [hafter, zero_beq_zero, Bool.true_or]
    exact ⟨hclosing, rfl⟩
  rw [← Option.map_eq_none_iff (f := (·.side)), apply_of_not_dust hdust, map_side_openPart,
    if_neg hopening, hremaining]

omit [Reading α] in
theorem cleared_ofCash (cash : α) : (ofCash cash).Cleared := ⟨.inl rfl, fun _ => rfl⟩

variable [Saturating α]

theorem isFinite_of_abs_lt_dust (h : abs q < dust) : isFinite q = true := by
  have hnum := Saturating.isNaN_of_lt h
  obtain ⟨-, r, hr⟩ := isFinite_iff.1 (isFinite_billionth (α := α))
  rw [lt_iff hnum isNaN_dust] at h
  rw [isNaN_abs] at hnum
  exact isFinite_of_isFinite_abs (isFinite_abs_of_le hnum (hr ▸ h.le : value (abs q) ≤ r))

theorem abs_lt_dust_of_beq_zero (h : (q == nat 0) = true) : abs q < dust := by
  have hnum := Saturating.isNaN_of_beq h
  exact abs_lt_dust_of_value_eq_zero hnum ((beq_zero_iff hnum .long).1 h)

theorem Cleared.isFlat_iff (h : l.Cleared) :
    l.portfolio.isFlat = true ↔ abs l.portfolio.quantity < dust := by
  refine ⟨abs_lt_dust_of_beq_zero, fun hsmall => ?_⟩
  rw [Portfolio.isFlat, h.no_dust.resolve_right (not_not_intro hsmall)]
  exact zero_beq_zero

theorem isFlat_apply_iff (hdust : ¬abs f.quantity < dust) :
    (l.apply f).portfolio.isFlat = true ↔ abs (l.portfolio.quantity + f.quantity) < dust := by
  rw [Portfolio.isFlat, quantity_apply hdust]
  split
  · exact iff_of_true zero_beq_zero ‹_›
  · exact iff_of_false (fun h => absurd (abs_lt_dust_of_beq_zero h) ‹_›) ‹_›

/-- Booking any fill leaves dust nowhere and no trade without a position. -/
theorem Cleared.apply (h : l.Cleared) (f : Fill α) : (l.apply f).Cleared := by
  by_cases hdust : abs f.quantity < dust
  · rwa [apply_of_dust hdust]
  · have hquantity := quantity_apply (l := l) hdust
    by_cases hsmall : abs (l.portfolio.quantity + f.quantity) < dust
    · have hafter : (l.splitOf f).after = nat 0 := by rw [splitOf, split_after, if_pos hsmall]
      obtain ⟨hq, hf⟩ := Saturating.isFinite_of_add (isFinite_of_abs_lt_dust hsmall)
      rw [if_pos hsmall] at hquantity
      exact ⟨.inl hquantity, fun _ =>
        openTrade_apply_of_after_eq_zero (isNaN_of_isFinite hq) hf hdust hafter⟩
    · rw [if_neg hsmall] at hquantity
      exact ⟨.inr (hquantity ▸ hsmall), fun hflat =>
        absurd ((isFlat_apply_iff hdust).1 hflat) hsmall⟩

end Ledger

end Backtest
