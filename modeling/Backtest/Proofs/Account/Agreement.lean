import Backtest.Proofs.Account.Split
import Backtest.Proofs.Scalar.Double

/-!
# Open trade and position

An open trade belongs to a position on its side, and a position to an open trade. A fill keeps this
agreement, with one exception: where it begins a position of exactly `dust`, which is too large to
be dropped and too small to open a trade. The arithmetic may round, and sums may exceed its range.
-/

namespace Backtest

open Scalar Reading

namespace Ledger

variable {α : Type} [Scalar α] [Reading α] {l : Ledger α} {f : Fill α} {s : Side}

omit [Reading α] in
/-- An open trade exists exactly when the position is not flat, and then has its side. -/
structure Agrees (l : Ledger α) : Prop where
  isSome_eq : l.openTrade.isSome = !l.portfolio.isFlat
  side : ∀ o ∈ l.openTrade, Side.ofQuantity? l.portfolio.quantity = some o.side

/-- The fill begins a position, from flat or past it, of exactly `dust`. -/
structure BeginsDust (l : Ledger α) (f : Fill α) : Prop where
  booked : ¬abs f.quantity < dust
  begins : sameSide l.portfolio.quantity f.quantity = false
  opening : ((l.splitOf f).opening == dust) = true

theorem agrees_iff (hq : isNaN l.portfolio.quantity = false) :
    l.Agrees ↔ l.openTrade.map (·.side) = Side.ofQuantity? l.portfolio.quantity := by
  have hflat := ofQuantity?_eq_none_iff hq
  constructor
  · rintro ⟨hsome, hside⟩
    cases ho : l.openTrade with
    | none =>
      rw [ho, Option.isSome_none, Portfolio.isFlat, eq_comm, Bool.not_eq_false'] at hsome
      exact (hflat.2 hsome).symm
    | some o => exact (hside o ho).symm
  · intro h
    cases ho : l.openTrade with
    | none =>
      rw [ho, Option.map_none, eq_comm, hflat] at h
      exact ⟨by simp [ho, Portfolio.isFlat, h], by simp [ho]⟩
    | some o =>
      rw [ho, Option.map_some, eq_comm] at h
      have hne : ¬(l.portfolio.quantity == nat 0) = true := fun hzero => by
        rw [hflat.2 hzero] at h
        cases h
      exact ⟨by simp [ho, Portfolio.isFlat, hne], by simp [ho, h]⟩

theorem openedSide_eq (hf : isFinite f.quantity = true) (hs : 0 < along s f.quantity) :
    openedSide f = s := by
  unfold openedSide
  by_cases h : nat 0 < f.quantity
  · rw [if_pos h]
    exact eq_of_along_pos ((zero_lt_iff (isNaN_of_isFinite hf)).1 h) hs
  · rw [if_neg h]
    cases s with
    | long => exact absurd ((zero_lt_iff (isNaN_of_isFinite hf)).2 hs) h
    | short => rfl

theorem beginsDust_iff (hdust : ¬abs f.quantity < dust)
    (hside : sameSide l.portfolio.quantity f.quantity = false)
    (hnum : isNaN (l.splitOf f).opening = false) :
    l.BeginsDust f ↔ value (l.splitOf f).opening = value (dust : α) := by
  rw [← beq_dust_iff hnum]
  exact ⟨fun h => h.opening, fun h => ⟨hdust, hside, h⟩⟩

/-! ## One fill -/

theorem map_side_remaining_of_along (hq : isNaN l.portfolio.quantity = false)
    (hf : isFinite f.quantity = true) (hs : 0 < along s f.quantity)
    (h : 0 ≤ along s l.portfolio.quantity) :
    (l.closePart (l.splitOf f) f).1.map (·.side) = l.openTrade.map (·.side) := by
  rw [map_side_closePart, if_neg]
  rintro ⟨hclosing, -⟩
  exact absurd ((closing_pos_iff hq hf hs).1 hclosing) (not_lt.2 h)

theorem map_side_remaining_of_larger (hq : isNaN l.portfolio.quantity = false)
    (hf : isFinite f.quantity = true) (hs : 0 < along s f.quantity)
    (h : along s l.portfolio.quantity < 0)
    (hle : ¬abs f.quantity < abs l.portfolio.quantity) :
    (l.closePart (l.splitOf f) f).1.map (·.side) = none := by
  obtain ⟨t, ht⟩ := exists_other s
  have hleft : sameSide (l.splitOf f).after l.portfolio.quantity = false := by
    rw [splitOf, ← Bool.not_eq_true,
      sameSide_iff (isNaN_split_after hq hf) hq ((along_neg_iff ht).1 h), ← along_neg_iff ht,
      not_lt, split_after_of_larger hq hf hs h hle]
    split
    · exact le_rfl
    · exact (billionth_pos.trans_le (not_lt.1 ‹_›)).le
  rw [map_side_closePart, if_pos]
  exact ⟨(closing_pos_iff hq hf hs).2 h, by rw [hleft, Bool.not_false, Bool.or_true]⟩

/-- What a fill closes belongs to an open trade of the other side. -/
theorem exists_open_of_closing (hl : l.Agrees) (hq : isNaN l.portfolio.quantity = false)
    (hf : isFinite f.quantity = true) (hs : 0 < along s f.quantity)
    (hclosing : nat 0 < (l.splitOf f).closing) : ∃ o, l.openTrade = some o ∧ s ≠ o.side := by
  obtain ⟨t, ht⟩ := exists_other s
  have hheld := (along_neg_iff ht).1 ((closing_pos_iff hq hf hs).1 hclosing)
  rw [agrees_iff hq, (ofQuantity?_eq_some_iff hq).2 hheld, Option.map_eq_some_iff] at hl
  obtain ⟨o, ho, rfl⟩ := hl
  exact ⟨o, ho, ht⟩

/-- What a fill opens adds to an open trade of its own side, if there is one left. -/
theorem side_of_remaining (hl : l.Agrees) (hq : isNaN l.portfolio.quantity = false)
    (hf : isFinite f.quantity = true) (hs : 0 < along s f.quantity)
    (hopens : dust < (l.splitOf f).opening) {o : OpenTrade α}
    (ho : (l.closePart (l.splitOf f) f).1 = some o) : o.side = s := by
  rcases le_or_gt 0 (along s l.portfolio.quantity) with h | h
  · have hside := map_side_remaining_of_along hq hf hs h
    rw [ho, (agrees_iff hq).1 hl, Option.map_some, eq_comm, ofQuantity?_eq_some_iff hq] at hside
    by_contra hne
    exact absurd ((along_neg_iff (Ne.symm hne)).2 hside) (not_lt.2 h)
  · by_cases hlt : abs f.quantity < abs l.portfolio.quantity
    · obtain ⟨hnum, hval⟩ := split_opening_of_smaller hq hf hs h hlt
      rw [splitOf, dust_lt_iff hnum, hval] at hopens
      exact absurd hopens (not_lt.2 billionth_pos.le)
    · have hnone := map_side_remaining_of_larger hq hf hs h hlt
      rw [ho] at hnone
      cases hnone

/-- From flat, or on the side of the position. -/
theorem agrees_apply_of_along (hl : l.Agrees) (hq : isNaN l.portfolio.quantity = false)
    (hf : isFinite f.quantity = true) (hdust : ¬abs f.quantity < dust)
    (hs : 0 < along s f.quantity) (h : 0 ≤ along s l.portfolio.quantity) :
    (l.apply f).Agrees ↔ ¬l.BeginsDust f := by
  obtain ⟨hnum, hval⟩ : isNaN (l.splitOf f).opening = false ∧
      value (l.splitOf f).opening = along s f.quantity := split_opening_of_along hq hf hs h
  have hfar := (not_abs_lt_dust_iff (isNaN_of_isFinite hf) hs.le).1 hdust
  have hafter : Side.ofQuantity? (l.splitOf f).after = some s :=
    (ofQuantity?_eq_some_iff (isNaN_split_after hq hf)).2 (split_after_of_along hq hf hs h hdust)
  rw [agrees_iff hq] at hl
  rw [apply_of_not_dust hdust, agrees_iff (isNaN_split_after hq hf)]
  simp only
  rw [map_side_openPart, map_side_remaining_of_along hq hf hs h, hafter, hl, openedSide_eq hf hs]
  rcases h.eq_or_lt with hflat | hheld
  · have hnone : Side.ofQuantity? l.portfolio.quantity = none :=
      (ofQuantity?_eq_none_iff hq).2 ((beq_zero_iff hq s).2 hflat.symm)
    have hside : sameSide l.portfolio.quantity f.quantity = false := by
      rw [← Bool.not_eq_true, sameSide_iff hq (isNaN_of_isFinite hf) hs, ← hflat]
      exact lt_irrefl _
    have hlt : dust < (l.splitOf f).opening ↔ value (dust : α) ≠ along s f.quantity := by
      rw [dust_lt_iff hnum, hval, hfar.lt_iff_ne]
    rw [beginsDust_iff hdust hside hnum, hval, hnone]
    by_cases heq : value (dust : α) = along s f.quantity
    · simp [hlt, heq]
    · simp [hlt, heq, Ne.symm heq]
  · have hsome : Side.ofQuantity? l.portfolio.quantity = some s :=
      (ofQuantity?_eq_some_iff hq).2 hheld
    have hbegins : ¬l.BeginsDust f := fun hbad => by
      have hside := hbad.begins
      rw [(sameSide_iff hq (isNaN_of_isFinite hf) hs).2 hheld] at hside
      cases hside
    simp [hsome, hbegins]

/-- Against a larger position. -/
theorem agrees_apply_of_smaller (hl : l.Agrees) (hq : isNaN l.portfolio.quantity = false)
    (hf : isFinite f.quantity = true) (hdust : ¬abs f.quantity < dust)
    (hs : 0 < along s f.quantity) (h : along s l.portfolio.quantity < 0)
    (hlt : abs f.quantity < abs l.portfolio.quantity) :
    (l.apply f).Agrees ∧ ¬l.BeginsDust f := by
  obtain ⟨hnum, hval⟩ : isNaN (l.splitOf f).opening = false ∧
      value (l.splitOf f).opening = 0 := split_opening_of_smaller hq hf hs h hlt
  have hnumAfter : isNaN (l.splitOf f).after = false := isNaN_split_after hq hf
  have hle : along s (l.splitOf f).after ≤ 0 := split_after_of_smaller hq hf hs h hlt
  have hopening : ¬dust < (l.splitOf f).opening := by
    rw [dust_lt_iff hnum, hval]
    exact not_lt.2 billionth_pos.le
  constructor
  · rw [agrees_iff hq] at hl
    rw [apply_of_not_dust hdust, agrees_iff hnumAfter]
    simp only
    rw [map_side_openPart, if_neg hopening, map_side_closePart, hl]
    obtain ⟨t, ht⟩ := exists_other s
    have hclosing : nat 0 < (l.splitOf f).closing := (closing_pos_iff hq hf hs).2 h
    by_cases hzero : ((l.splitOf f).after == nat 0) = true
    · rw [if_pos ⟨hclosing, by rw [hzero, Bool.true_or]⟩]
      exact ((ofQuantity?_eq_none_iff hnumAfter).2 hzero).symm
    · have hheld := (along_neg_iff ht).1 h
      have hleft : 0 < along t (l.splitOf f).after :=
        (along_neg_iff ht).1 (lt_of_le_of_ne hle fun heq =>
          hzero ((beq_zero_iff hnumAfter s).2 heq))
      have hstay := (sameSide_iff hnumAfter hq hheld).2 hleft
      rw [if_neg fun hend => by simp [hzero, hstay] at hend,
        (ofQuantity?_eq_some_iff hq).2 hheld, (ofQuantity?_eq_some_iff hnumAfter).2 hleft]
  · intro hbad
    have heq := (beq_dust_iff hnum).1 hbad.opening
    rw [hval] at heq
    exact billionth_pos.ne heq

/-- Against a position that is not larger. -/
theorem agrees_apply_of_larger (hq : isNaN l.portfolio.quantity = false)
    (hf : isFinite f.quantity = true) (hdust : ¬abs f.quantity < dust)
    (hs : 0 < along s f.quantity) (h : along s l.portfolio.quantity < 0)
    (hle : ¬abs f.quantity < abs l.portfolio.quantity) :
    (l.apply f).Agrees ↔ ¬l.BeginsDust f := by
  obtain ⟨hnum, -⟩ : isNaN (l.splitOf f).opening = false ∧ _ :=
    split_opening_of_larger hq hf hs h hle
  have hnumAfter : isNaN (l.splitOf f).after = false := isNaN_split_after hq hf
  have hafter : along s (l.splitOf f).after =
      if value (l.splitOf f).opening < value (dust : α) then 0
      else value (l.splitOf f).opening := split_after_of_larger hq hf hs h hle
  have hside : sameSide l.portfolio.quantity f.quantity = false := by
    rw [← Bool.not_eq_true, sameSide_iff hq (isNaN_of_isFinite hf) hs]
    exact not_lt.2 h.le
  rw [apply_of_not_dust hdust, agrees_iff hnumAfter]
  simp only
  rw [map_side_openPart, map_side_remaining_of_larger hq hf hs h hle, openedSide_eq hf hs,
    beginsDust_iff hdust hside hnum]
  have hopens := dust_lt_iff hnum
  rcases lt_trichotomy (value (l.splitOf f).opening) (value (dust : α)) with hlt | heq | hgt
  · rw [if_pos hlt] at hafter
    have hnone := (ofQuantity?_eq_none_iff hnumAfter).2 ((beq_zero_iff hnumAfter s).2 hafter)
    simp [hopens, hlt.not_gt, hnone, hlt.ne]
  · rw [heq, if_neg (lt_irrefl _)] at hafter
    have hsome := (ofQuantity?_eq_some_iff hnumAfter).2 (hafter ▸ billionth_pos)
    simp [hopens, heq, hsome]
  · rw [if_neg hgt.not_gt] at hafter
    have hsome :=
      (ofQuantity?_eq_some_iff hnumAfter).2 (hafter ▸ billionth_pos.trans hgt)
    simp [hopens, hgt, hsome, hgt.ne']

/-- A fill keeps the agreement of open trade and position unless it begins a position of dust. -/
theorem agrees_apply_iff (hl : l.Agrees) (hq : isNaN l.portfolio.quantity = false)
    (hf : isFinite f.quantity = true) : (l.apply f).Agrees ↔ ¬l.BeginsDust f := by
  by_cases hdust : abs f.quantity < dust
  · rw [apply_of_dust hdust]
    exact ⟨fun _ hbad => hbad.booked hdust, fun _ => hl⟩
  · have hfar : value (dust : α) ≤ value (abs f.quantity) := by
      rwa [lt_iff (isNaN_of_isFinite (isFinite_abs hf)) isNaN_dust, not_lt] at hdust
    obtain ⟨s, hs⟩ := exists_along_pos hfar
    rcases le_or_gt 0 (along s l.portfolio.quantity) with h | h
    · exact agrees_apply_of_along hl hq hf hdust hs h
    · by_cases hlt : abs f.quantity < abs l.portfolio.quantity
      · obtain ⟨hagrees, hgood⟩ := agrees_apply_of_smaller hl hq hf hdust hs h hlt
        exact iff_of_true hagrees hgood
      · exact agrees_apply_of_larger hq hf hdust hs h hlt

theorem isNaN_apply (hq : isNaN l.portfolio.quantity = false)
    (hf : isFinite f.quantity = true) : isNaN (l.apply f).portfolio.quantity = false := by
  by_cases hdust : abs f.quantity < dust
  · rwa [apply_of_dust hdust]
  · rw [apply_of_not_dust hdust]
    exact isNaN_split_after hq hf

theorem agrees_ofCash (cash : α) : (ofCash cash).Agrees := by
  rw [agrees_iff (l := ofCash cash) isNaN_zero]
  refine ((ofQuantity?_eq_none_iff isNaN_zero).2 ?_).symm
  exact (beq_iff isNaN_zero isNaN_zero).2 rfl

/-- Open trade and position agree after every fill exactly if no fill begins a position of dust. -/
theorem agrees_applyAll_iff (fills : List (Fill α)) (hl : l.Agrees)
    (hq : isNaN l.portfolio.quantity = false) (hf : ∀ f ∈ fills, isFinite f.quantity = true) :
    (∀ k, (l.applyAll (fills.take k)).Agrees) ↔
      ∀ k f, fills[k]? = some f → ¬(l.applyAll (fills.take k)).BeginsDust f := by
  induction fills generalizing l with
  | nil => exact iff_of_true (fun k => by simpa using hl) fun k f hkf => by simp at hkf
  | cons f fills ih =>
    have hfinite := hf f List.mem_cons_self
    have hstep := agrees_apply_iff hl hq hfinite
    have hrest (h : (l.apply f).Agrees) :=
      ih h (isNaN_apply hq hfinite) fun g hg => hf g (List.mem_cons_of_mem f hg)
    constructor
    · intro h k g hg
      have hnext : (l.apply f).Agrees := h 1
      cases k with
      | zero =>
        cases hg
        exact hstep.1 hnext
      | succ k => exact (hrest hnext).1 (fun k => h (k + 1)) k g hg
    · intro h k
      cases k with
      | zero => exact hl
      | succ k =>
        exact (hrest (hstep.2 (h 0 f rfl))).2 (fun k g hg => h (k + 1) g hg) k

/-- On doubles, from any cash and for any fills of finite quantity: after every fill an open trade
exists exactly when the position is not flat, and has its side, if and only if no fill begins a
position of exactly `dust`. -/
theorem openTrade_agrees_iff (cash : Float) (fills : List (Fill Float))
    (hf : ∀ f ∈ fills, isFinite f.quantity = true) :
    (∀ k, ((ofCash cash).applyAll (fills.take k)).Agrees) ↔
      ∀ k f, fills[k]? = some f → ¬((ofCash cash).applyAll (fills.take k)).BeginsDust f :=
  agrees_applyAll_iff fills (agrees_ofCash cash) isNaN_zero hf

def turn : List (Fill Float) := [.plain 3 2 100, .plain 4 (-5) 110, .plain 5 3 90]

/-- A turn keeps the agreement; one billionth bought from flat is held without an open trade. -/
theorem openTrade_agrees_iff_turn :
    (∀ f ∈ turn, isFinite f.quantity = true) ∧
      (∀ k, ((ofCash (10000 : Float)).applyAll (turn.take k)).Agrees) ∧
      (∀ f ∈ [Fill.plain 3 (1e-9 : Float) 100], isFinite f.quantity = true) ∧
      ¬∀ k, ((ofCash (10000 : Float)).applyAll ([Fill.plain 3 1e-9 100].take k)).Agrees := by
  have hturn : ∀ f ∈ turn, isFinite f.quantity = true := by decide
  have hone : ∀ f ∈ [Fill.plain 3 (1e-9 : Float) 100], isFinite f.quantity = true := by
    intro f hf
    rw [List.mem_singleton.1 hf]
    rfl
  refine ⟨hturn, (openTrade_agrees_iff 10000 turn hturn).2 fun k f hk hbad => ?_, hone, fun h => ?_⟩
  · match k, hk with
    | 0, rfl => exact absurd hbad.opening (by decide +kernel)
    | 1, rfl => exact absurd hbad.opening (by decide +kernel)
    | 2, rfl => exact absurd hbad.opening (by decide +kernel)
  · exact (openTrade_agrees_iff 10000 [Fill.plain 3 1e-9 100] hone).1 h 0 _ rfl
      ⟨by decide, by decide, by decide⟩

end Ledger

end Backtest
