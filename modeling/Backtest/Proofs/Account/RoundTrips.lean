import Backtest.Proofs.Account.Division
import Backtest.Proofs.Account.Journal

/-!
# Round trips

A round trip is entered by fills on its side and left by fills on the other, in quantities above
zero, and what has not ended is on the side of the position.
-/

namespace Backtest

open Scalar

theorem Side.sign_mul_sign (t : Side) (a b : ℚ) : t.sign * a * (t.sign * b) = a * b := by
  cases t <;> simp [Side.sign]

/-- A round trip was entered on its side and left on the other. -/
structure RoundTrip.Sound (r : RoundTrip ℚ) : Prop where
  entered : r.entries ≠ []
  entries : ∀ b ∈ r.entries, 0 < b.quantity ∧ 0 < r.side.sign * b.fill.quantity
  exits : ∀ b ∈ r.exits, 0 < b.quantity ∧ r.side.sign * b.fill.quantity < 0

/-- Every round trip is sound, and the current one is on the side of the position. -/
structure Journal.Sound (j : Journal ℚ) : Prop where
  current : ∀ r ∈ j.current, r.Sound ∧ 0 < r.side.sign * j.held
  ended : ∀ r ∈ j.ended, r.Sound

namespace RoundTrip

variable {r : RoundTrip ℚ} {f : Fill ℚ} {quantity : ℚ}

theorem Sound.leave (h : r.Sound) (hpos : 0 < quantity) (hf : r.side.sign * f.quantity < 0) :
    (r.leave f quantity).Sound where
  entered := h.entered
  entries := h.entries
  exits := List.forall_mem_cons.2 ⟨⟨hpos, hf⟩, h.exits⟩

theorem openedSide_sign_pos (hf : f.quantity ≠ 0) :
    0 < (Ledger.openedSide f).sign * f.quantity := by
  unfold Ledger.openedSide
  by_cases hbuy : nat 0 < f.quantity
  · rw [if_pos hbuy]
    simpa [Side.sign] using hbuy
  · have hsell : f.quantity < 0 := lt_of_le_of_ne (not_lt.1 hbuy) hf
    rw [if_neg hbuy]
    simpa [Side.sign] using hsell

theorem sound_enter (current : Option (RoundTrip ℚ)) (hpos : 0 < quantity) (hf : f.quantity ≠ 0)
    (h : ∀ r ∈ current, r.Sound ∧ 0 < r.side.sign * f.quantity) :
    (enter f quantity current).Sound ∧ 0 < (enter f quantity current).side.sign * f.quantity := by
  cases current with
  | none =>
    have hside := openedSide_sign_pos hf
    exact ⟨⟨List.cons_ne_nil _ _, by simpa [enter] using ⟨hpos, hside⟩, List.forall_mem_nil _⟩,
      hside⟩
  | some r =>
    obtain ⟨hr, hside⟩ := h r rfl
    exact ⟨⟨List.cons_ne_nil _ _, List.forall_mem_cons.2 ⟨⟨hpos, hside⟩, hr.entries⟩, hr.exits⟩,
      hside⟩

end RoundTrip

namespace Journal

open Ledger (dust dust_pos Divides settled)

variable {j : Journal ℚ} {f : Fill ℚ}

theorem leavePart_of_none {s : Ledger.Split ℚ} (h : s.closing = 0) :
    j.leavePart s f = (j.current, j.ended) :=
  if_neg (by simp [h])

theorem leavePart_of_ends {s : Ledger.Split ℚ} (h : 0 < s.closing)
    (hend : s.after ≠ 0 → j.held * s.after ≤ 0) :
    j.leavePart s f = (none, (j.current.map (·.leave f s.closing)).toList ++ j.ended) := by
  have hgone : (s.after == nat 0 || !sameSide s.after j.held) = true := by
    by_cases hzero : s.after = 0
    · simp [hzero]
    · simp [Ledger.sameSide_eq_false_iff.2 (mul_comm j.held _ ▸ hend hzero)]
  rw [leavePart, if_pos (show nat 0 < s.closing from h), if_pos hgone]

theorem leavePart_of_stays {s : Ledger.Split ℚ} (h : 0 < s.closing) (hstay : 0 < j.held * s.after) :
    j.leavePart s f = (j.current.map (·.leave f s.closing), j.ended) := by
  have hsome : (s.after == nat 0 || !sameSide s.after j.held) = false := by
    simp [right_ne_zero_of_mul hstay.ne',
      Ledger.sameSide_iff_mul_pos.2 (mul_comm j.held _ ▸ hstay)]
  rw [leavePart, if_pos (show nat 0 < s.closing from h), hsome]
  rfl

/-- Of a fill past the position, as much as is held leaves the round trip, which ends, and the rest
enters the next one, unless it is dust. -/
theorem bookParts_of_past (hagainst : j.held * f.quantity < 0) (hlt : |j.held| < |f.quantity|) :
    j.bookParts ⟨|j.held|, |j.held + f.quantity|, |j.held| / |f.quantity|,
        settled (j.held + f.quantity)⟩ f =
      ⟨settled (j.held + f.quantity), j.builtAfter f (settled (j.held + f.quantity)),
        if dust < |j.held + f.quantity| then some (.enter f |j.held + f.quantity| none) else none,
        (j.current.map (·.leave f |j.held|)).toList ++ j.ended⟩ := by
  have hpos : 0 < |j.held| := abs_pos.2 (left_ne_zero_of_mul hagainst.ne)
  rw [bookParts, leavePart_of_ends hpos fun hne => (Ledger.settled_past hagainst hlt hne).1.le]
  rfl

/-- From flat, or on the side of the position. -/
theorem Sound.enterPart_along (h : j.Sound) (hf : f.quantity ≠ 0)
    (halong : 0 ≤ j.held * f.quantity) :
    ∀ r ∈ enterPart ⟨0, |f.quantity|, 0, j.held + f.quantity⟩ f j.current,
      r.Sound ∧ 0 < r.side.sign * (j.held + f.quantity) := by
  have hcurrent : ∀ r ∈ j.current, r.Sound ∧ 0 < r.side.sign * f.quantity := by
    intro r hr
    obtain ⟨hsound, hheld⟩ := h.current r hr
    have hne : j.held ≠ 0 := right_ne_zero_of_mul hheld.ne'
    have hpos := halong.lt_of_ne' (mul_ne_zero hne hf)
    rw [← r.side.sign_mul_sign] at hpos
    exact ⟨hsound, (pos_iff_pos_of_mul_pos hpos).1 hheld⟩
  -- on the side of the fill the position is not negative
  have hafter {t : Side} (ht : 0 < t.sign * f.quantity) : 0 < t.sign * (j.held + f.quantity) := by
    rw [← t.sign_mul_sign] at halong
    rw [mul_add]
    exact add_pos_of_nonneg_of_pos (nonneg_of_mul_nonneg_left halong ht) ht
  intro r hr
  unfold enterPart at hr
  split at hr
  · cases hr
    obtain ⟨hsound, hside⟩ := RoundTrip.sound_enter j.current (abs_pos.2 hf) hf hcurrent
    exact ⟨hsound, hafter hside⟩
  · obtain ⟨hsound, hside⟩ := hcurrent r hr
    exact ⟨hsound, hafter hside⟩

/-- A fill against the position leaves its round trip. -/
theorem Sound.leave (h : j.Sound) {closing : ℚ} (hpos : 0 < closing)
    (hagainst : j.held * f.quantity < 0) :
    ∀ r ∈ j.current.map (·.leave f closing), r.Sound ∧ 0 < r.side.sign * j.held := by
  intro left hleft
  obtain ⟨r, hr, rfl⟩ := Option.map_eq_some_iff.1 hleft
  obtain ⟨hsound, hheld⟩ := h.current r hr
  have hside : r.side.sign * f.quantity < 0 := by
    rw [← r.side.sign_mul_sign] at hagainst
    exact (pos_iff_neg_of_mul_neg hagainst).1 hheld
  exact ⟨hsound.leave hpos hside, hheld⟩

theorem Sound.ended_of_leave (h : j.Sound) {closing : ℚ} (hpos : 0 < closing)
    (hagainst : j.held * f.quantity < 0) :
    ∀ r ∈ (j.current.map (·.leave f closing)).toList ++ j.ended, r.Sound := by
  intro r hr
  rcases List.mem_append.1 hr with hleft | hbefore
  · exact (h.leave hpos hagainst r (Option.mem_toList.1 hleft)).1
  · exact h.ended r hbefore

theorem Sound.bookParts_within (h : j.Sound) (hf : f.quantity ≠ 0)
    (hagainst : j.held * f.quantity < 0) (hle : |f.quantity| ≤ |j.held|) :
    (j.bookParts ⟨|f.quantity|, 0, 1, settled (j.held + f.quantity)⟩ f).Sound := by
  have hpos := abs_pos.2 hf
  have hnothing (share after : ℚ) (current : Option (RoundTrip ℚ)) :
      enterPart ⟨|f.quantity|, 0, share, after⟩ f current = current :=
    if_neg dust_pos.le.not_gt
  unfold bookParts
  by_cases hgone : settled (j.held + f.quantity) = 0
  · rw [leavePart_of_ends hpos (absurd hgone), hnothing]
    exact ⟨nofun, h.ended_of_leave hpos hagainst⟩
  · obtain ⟨hstay, -⟩ := Ledger.settled_within hagainst hle hgone
    rw [leavePart_of_stays hpos hstay, hnothing]
    refine ⟨fun r hr => ?_, h.ended⟩
    obtain ⟨hsound, hheld⟩ := h.leave hpos hagainst r hr
    rw [← r.side.sign_mul_sign] at hstay
    exact ⟨hsound, (pos_iff_pos_of_mul_pos hstay).1 hheld⟩

theorem Sound.bookParts_past (h : j.Sound) (hf : f.quantity ≠ 0)
    (hagainst : j.held * f.quantity < 0) (hlt : |j.held| < |f.quantity|) :
    (j.bookParts ⟨|j.held|, |j.held + f.quantity|, |j.held| / |f.quantity|,
      settled (j.held + f.quantity)⟩ f).Sound := by
  have hpos : 0 < |j.held| := abs_pos.2 (left_ne_zero_of_mul hagainst.ne)
  rw [bookParts_of_past hagainst hlt]
  refine ⟨fun r hr => ?_, h.ended_of_leave hpos hagainst⟩
  dsimp only at hr
  split at hr
  · rename_i hmore
    cases hr
    -- what is more than dust stays as a position, on the side of the fill
    have hne : settled (j.held + f.quantity) ≠ 0 := by
      rw [settled, if_neg (not_lt.2 (le_of_lt hmore))]
      exact abs_pos.1 (dust_pos.trans hmore)
    obtain ⟨hsound, hside⟩ :=
      RoundTrip.sound_enter none (dust_pos.trans hmore) hf (by simp)
    obtain ⟨-, hafter⟩ := Ledger.settled_past hagainst hlt hne
    rw [← Side.sign_mul_sign (RoundTrip.enter f _ none).side] at hafter
    exact ⟨hsound, (pos_iff_pos_of_mul_pos hafter).1 hside⟩
  · cases hr

/-- Booking any fill keeps the round trips sound. -/
theorem Sound.book (h : j.Sound) (f : Fill ℚ) : (j.book f).Sound := by
  by_cases hdust : Scalar.abs f.quantity < dust
  · rwa [book_of_dust hdust]
  · have hf := Ledger.quantity_ne_zero hdust
    have hdivides := Ledger.split_divides (q := j.held) hdust
    rw [book_of_not_dust hdust]
    generalize Ledger.split j.held f.quantity = s at hdivides
    cases hdivides with
    | along halong =>
      rw [bookParts, leavePart_of_none rfl]
      exact ⟨h.enterPart_along hf halong, h.ended⟩
    | within hagainst hle => exact h.bookParts_within hf hagainst hle
    | past hagainst hlt => exact h.bookParts_past hf hagainst hlt

theorem sound_empty : (empty : Journal ℚ).Sound := ⟨nofun, nofun⟩

theorem sound_ofFills (fills : List (Fill ℚ)) : (ofFills fills).Sound :=
  List.foldlRecOn fills book sound_empty fun _ h f _ => h.book f

end Journal

/-- After any fills the trades of a ledger are sound round trips summed up, in order. -/
theorem Ledger.sound_trades (cash : ℚ) (fills : List (Fill ℚ)) :
    List.Forall₂ (fun t r => t.Sums r ∧ r.Sound ∧ r.MadeOf fills)
      ((ofCash cash).applyAll fills).trades (Journal.ofFills fills).trips := by
  have hsound (r : RoundTrip ℚ) (hr : r ∈ (Journal.ofFills fills).trips) :
      r.Sound ∧ r.MadeOf fills := by
    have hended := List.mem_reverse.1 hr
    exact ⟨(Journal.sound_ofFills fills).ended r hended,
      (Journal.madeOf_ofFills fills).ended r hended⟩
  have hboth := (List.forall₂_and_left _ _).2 ⟨hsound, (sums_trades cash fills).flip⟩
  exact (hboth.imp fun _ _ h => ⟨h.2, h.1⟩).flip

end Backtest
