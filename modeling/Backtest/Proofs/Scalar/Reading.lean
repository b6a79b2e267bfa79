import Mathlib.Data.EReal.Operations
import Backtest.Account.Position
import Backtest.Scalar.Extended

/-!
# Numbers on a line

A reading places the numbers of an arithmetic on the extended real line, where a sum is rounded: the
result depends on the exact sum alone, rounds opposite sums to opposite numbers, and never passes a
number. Nothing more is asked of an arithmetic to decide on which side of zero a position lies.
-/

namespace Backtest

open Scalar

/-- Numbers placed on the extended real line, with rounded sums and differences. -/
class Reading (α : Type) [Scalar α] where
  value : α → EReal
  /-- The place of a sum whose exact value is given. -/
  round : EReal → EReal
  isFinite_iff {x : α} : isFinite x = true ↔ isNaN x = false ∧ ∃ r : ℝ, value x = r
  lt_iff {x y : α} : isNaN x = false → isNaN y = false → (x < y ↔ value x < value y)
  beq_iff {x y : α} : isNaN x = false → isNaN y = false → ((x == y) = true ↔ value x = value y)
  isFinite_zero : isFinite (nat 0 : α) = true
  value_zero : value (nat 0 : α) = 0
  isFinite_billionth : isFinite (decimal 1 9 : α) = true
  billionth_pos : 0 < value (decimal 1 9 : α)
  isNaN_neg (x : α) : isNaN (-x) = isNaN x
  value_neg (x : α) : value (-x) = -value x
  isNaN_abs (x : α) : isNaN (abs x) = isNaN x
  value_abs (x : α) : value (abs x) = max (value x) (-value x)
  isNaN_add {x y : α} : isNaN x = false → isFinite y = true → isNaN (x + y) = false
  value_add {x y : α} : isNaN x = false → isFinite y = true →
    value (x + y) = round (value x + value y)
  isNaN_sub {x y : α} : isFinite x = true → isFinite y = true → isNaN (x - y) = false
  value_sub {x y : α} : isFinite x = true → isFinite y = true →
    value (x - y) = round (value x - value y)
  round_neg (a : EReal) : round (-a) = -round a
  le_round {x : α} {a : EReal} : isNaN x = false → value x ≤ a → value x ≤ round a

/-- Comparisons with NaN fail, and no summand brings a number back that has left the range. -/
class Saturating (α : Type) [Scalar α] : Prop where
  isNaN_of_lt {x y : α} : x < y → isNaN x = false
  isNaN_of_beq {x y : α} : (x == y) = true → isNaN x = false
  isFinite_of_add {x y : α} : isFinite (x + y) = true → isFinite x = true ∧ isFinite y = true

namespace Reading

variable {α : Type} [Scalar α] [Reading α] {x y : α} {a : EReal} {s t : Side}

theorem round_le (hx : isNaN x = false) (h : a ≤ value x) : round α a ≤ value x := by
  have hneg : value (-x) ≤ round α (-a) :=
    le_round (by rw [isNaN_neg, hx]) (by rw [value_neg]; exact EReal.neg_le_neg_iff.2 h)
  rw [value_neg, round_neg] at hneg
  exact EReal.neg_le_neg_iff.1 hneg

theorem round_value (hx : isNaN x = false) : round α (value x) = value x :=
  le_antisymm (round_le hx le_rfl) (le_round hx le_rfl)

theorem isNaN_of_isFinite (hx : isFinite x = true) : isNaN x = false := (isFinite_iff.1 hx).1

theorem isNaN_zero : isNaN (nat 0 : α) = false := isNaN_of_isFinite isFinite_zero

theorem isFinite_abs (hx : isFinite x = true) : isFinite (abs x) = true := by
  obtain ⟨hn, r, hr⟩ := isFinite_iff.1 hx
  refine isFinite_iff.2 ⟨by rw [isNaN_abs, hn], max r (-r), ?_⟩
  rw [value_abs, hr]
  exact_mod_cast rfl

theorem isFinite_neg (hx : isFinite x = true) : isFinite (-x) = true := by
  obtain ⟨hn, r, hr⟩ := isFinite_iff.1 hx
  refine isFinite_iff.2 ⟨by rw [isNaN_neg, hn], -r, ?_⟩
  rw [value_neg, hr, EReal.coe_neg]

theorem not_lt_iff (hx : isNaN x = false) (hy : isNaN y = false) : ¬x < y ↔ value y ≤ value x := by
  rw [lt_iff hx hy, not_lt]

/-- Between two numbers there is no room for an infinity. -/
theorem isFinite_of_between {low high : α} (hx : isNaN x = false) (hlow : isFinite low = true)
    (hhigh : isFinite high = true) (hlow' : value low ≤ value x) (hhigh' : value x ≤ value high) :
    isFinite x = true := by
  obtain ⟨-, a, ha⟩ := isFinite_iff.1 hlow
  obtain ⟨-, b, hb⟩ := isFinite_iff.1 hhigh
  rw [ha] at hlow'
  rw [hb] at hhigh'
  have hbot : value x ≠ ⊥ := ((EReal.bot_lt_coe a).trans_le hlow').ne'
  have htop : value x ≠ ⊤ := (hhigh'.trans_lt (EReal.coe_lt_top b)).ne
  exact isFinite_iff.2 ⟨hx, (value x).toReal, (EReal.coe_toReal htop hbot).symm⟩

/-! ## Reading along a side -/

omit [Scalar α] [Reading α] in
theorem exists_other (s : Side) : ∃ t, s ≠ t := by
  cases s with
  | long => exact ⟨.short, nofun⟩
  | short => exact ⟨.long, nofun⟩

noncomputable def along (s : Side) (x : α) : EReal :=
  match s with
  | .long => value x
  | .short => -value x

theorem along_of_ne (h : s ≠ t) : along s x = -along t x := by
  cases s <;> cases t <;> first | exact absurd rfl h | simp [along]

theorem along_neg_iff (h : s ≠ t) : along s x < 0 ↔ 0 < along t x := by
  rw [along_of_ne h, ← EReal.neg_lt_neg_iff, neg_neg, neg_zero]

theorem along_zero : along s (nat 0 : α) = 0 := by
  cases s <;> simp [along, value_zero]

theorem value_abs_eq (s : Side) (x : α) : value (abs x) = max (along s x) (-along s x) := by
  cases s <;> simp [along, value_abs, max_comm]

theorem value_abs_of_nonneg (h : 0 ≤ along s x) : value (abs x) = along s x := by
  have hneg : -along s x ≤ 0 := by simpa using EReal.neg_le_neg_iff.2 h
  rw [value_abs_eq s, max_eq_left (hneg.trans h)]

theorem value_abs_of_nonpos (h : along s x ≤ 0) : value (abs x) = -along s x := by
  have hneg : 0 ≤ -along s x := by simpa using EReal.neg_le_neg_iff.2 h
  rw [value_abs_eq s, max_eq_right (h.trans hneg)]

theorem value_abs_nonneg (x : α) : 0 ≤ value (abs x) := by
  rcases le_total 0 (along .long x) with h | h
  · rw [value_abs_of_nonneg h]
    exact h
  · rw [value_abs_of_nonpos h]
    simpa using EReal.neg_le_neg_iff.2 h

theorem isFinite_abs_of_le (hx : isNaN x = false) {r : ℝ} (h : value (abs x) ≤ r) :
    isFinite (abs x) = true := by
  refine isFinite_iff.2 ⟨by rw [isNaN_abs, hx], (value (abs x)).toReal, ?_⟩
  refine (EReal.coe_toReal (fun htop => ?_) fun hbot => ?_).symm
  · rw [htop, top_le_iff] at h
    exact EReal.coe_ne_top r h
  · have hle := value_abs_nonneg x
    rw [hbot, le_bot_iff] at hle
    exact EReal.zero_ne_bot hle

theorem along_add (hx : isNaN x = false) (hy : isFinite y = true) :
    along s (x + y) = round α (along s x + along s y) := by
  cases s with
  | long => exact value_add hx hy
  | short =>
    obtain ⟨_, r, hr⟩ := isFinite_iff.1 hy
    have hsum : -value x + -value y = -(value x + value y) := by
      rw [hr, EReal.neg_add (.inr (EReal.coe_ne_top r)) (.inr (EReal.coe_ne_bot r)), sub_eq_add_neg]
    simp only [along]
    rw [value_add hx hy, hsum, round_neg]

/-- What is added on a side moves a number of that side at least as far. -/
theorem along_le_along_add (hx : isNaN x = false) (hy : isFinite y = true)
    (h : 0 ≤ along s x) : along s y ≤ along s (x + y) := by
  have hsum : along s y ≤ along s x + along s y := le_add_of_nonneg_left h
  rw [along_add hx hy]
  cases s with
  | long => exact le_round (isNaN_of_isFinite hy) hsum
  | short =>
    simp only [along] at hsum ⊢
    rw [← value_neg] at hsum ⊢
    exact le_round (by rw [isNaN_neg, isNaN_of_isFinite hy]) hsum

theorem eq_of_along_pos (hs : 0 < along s x) (ht : 0 < along t x) : s = t := by
  by_contra hne
  rw [along_of_ne hne] at hs
  exact absurd (EReal.neg_lt_neg_iff.2 ht) (by simpa using hs.le)

theorem zero_lt_iff (hx : isNaN x = false) : nat 0 < x ↔ 0 < along .long x := by
  rw [lt_iff isNaN_zero hx, value_zero, along]

theorem lt_zero_iff (hx : isNaN x = false) : x < nat 0 ↔ 0 < along .short x := by
  rw [lt_iff hx isNaN_zero, value_zero, along, EReal.lt_neg_comm]
  simp

theorem beq_zero_iff (hx : isNaN x = false) (s : Side) :
    (x == nat 0) = true ↔ along s x = 0 := by
  rw [beq_iff hx isNaN_zero, value_zero]
  cases s <;> simp [along]

theorem ofQuantity?_eq_some_iff (hx : isNaN x = false) :
    Side.ofQuantity? x = some s ↔ 0 < along s x := by
  unfold Side.ofQuantity?
  rw [ite_congr (propext (zero_lt_iff hx)) (fun _ => rfl) (fun _ => rfl),
    ite_congr (propext (lt_zero_iff hx)) (fun _ => rfl) (fun _ => rfl)]
  constructor
  · intro h
    split at h
    · cases h; assumption
    · split at h <;> cases h
      assumption
  · intro h
    cases s with
    | long => exact if_pos h
    | short =>
      rw [if_neg fun hlong => Side.noConfusion (eq_of_along_pos hlong h), if_pos h]

theorem ofQuantity?_eq_none_iff (hx : isNaN x = false) :
    Side.ofQuantity? x = none ↔ (x == nat 0) = true := by
  rw [beq_zero_iff hx .long]
  constructor
  · intro h
    have hside (s : Side) : ¬0 < along s x := fun hs => by
      rw [(ofQuantity?_eq_some_iff hx).2 hs] at h
      cases h
    refine le_antisymm (not_lt.1 (hside .long)) ?_
    have hshort := not_lt.1 (hside .short)
    rw [along_of_ne (by decide : Side.short ≠ .long)] at hshort
    simpa using EReal.neg_le_neg_iff.2 hshort
  · intro h
    refine Option.eq_none_iff_forall_ne_some.2 fun s hs => ?_
    rw [ofQuantity?_eq_some_iff hx] at hs
    cases s <;> simp_all [along]

theorem sameSide_iff (hx : isNaN x = false) (hy : isNaN y = false) (hs : 0 < along s y) :
    sameSide x y = true ↔ 0 < along s x := by
  simp only [sameSide, Bool.or_eq_true, Bool.and_eq_true, decide_eq_true_eq, zero_lt_iff hx,
    zero_lt_iff hy, lt_zero_iff hx, lt_zero_iff hy]
  constructor
  · rintro (⟨hx', hy'⟩ | ⟨hx', hy'⟩)
    · rwa [eq_of_along_pos hs hy']
    · rwa [eq_of_along_pos hs hy']
  · intro h
    cases s with
    | long => exact .inl ⟨h, hs⟩
    | short => exact .inr ⟨h, hs⟩

theorem zero_le_round (h : 0 ≤ a) : 0 ≤ round α a := by
  have hle := le_round (α := α) isNaN_zero (by rwa [value_zero] : value (nat 0 : α) ≤ a)
  rwa [value_zero] at hle

theorem round_le_zero (h : a ≤ 0) : round α a ≤ 0 := by
  have hle := round_le (α := α) isNaN_zero (by rwa [value_zero] : a ≤ value (nat 0 : α))
  rwa [value_zero] at hle

theorem round_zero : round α 0 = 0 := le_antisymm (round_le_zero le_rfl) (zero_le_round le_rfl)

/-- What is left of nothing when a finite number is taken away. -/
theorem value_zero_sub (hx : isFinite x = true) :
    isFinite (nat 0 - x) = true ∧ value (nat 0 - x) = -value x := by
  obtain ⟨hnum, r, hr⟩ := isFinite_iff.1 hx
  have hval : value (nat 0 - x) = -value x := by
    rw [value_sub isFinite_zero hx, value_zero, zero_sub, ← value_neg,
      round_value (by rw [isNaN_neg, hnum])]
  exact ⟨isFinite_iff.2 ⟨isNaN_sub isFinite_zero hx, -r, by rw [hval, hr, EReal.coe_neg]⟩, hval⟩

/-- Opposite numbers add up to zero. -/
theorem value_add_of_opposite (hx : isFinite x = true) (hy : isFinite y = true)
    (h : value y = -value x) : isNaN (x + y) = false ∧ value (x + y) = 0 := by
  obtain ⟨hnum, r, hr⟩ := isFinite_iff.1 hx
  refine ⟨isNaN_add hnum hy, ?_⟩
  rw [value_add hnum hy, h, hr, ← EReal.coe_neg, ← EReal.coe_add, add_neg_cancel, EReal.coe_zero,
    round_zero]

/-- A number with a finite magnitude is finite. -/
theorem isFinite_of_isFinite_abs (hx : isFinite (abs x) = true) : isFinite x = true := by
  obtain ⟨hnum, r, hr⟩ := isFinite_iff.1 hx
  rw [isNaN_abs] at hnum
  rcases le_total 0 (along .long x) with h | h
  · exact isFinite_iff.2 ⟨hnum, r, by rw [← hr, value_abs_of_nonneg h]; rfl⟩
  · refine isFinite_iff.2 ⟨hnum, -r, ?_⟩
    rw [EReal.coe_neg, ← hr, value_abs_of_nonpos h, neg_neg]
    rfl

end Reading

/-! ## Exact numbers -/

namespace Extended

variable {x y : Extended}

noncomputable def toEReal : Extended → EReal
  | finite a => ((a : ℝ) : EReal)
  | infinite negative => if negative then ⊥ else ⊤
  | nan => 0

@[simp] theorem toEReal_finite (a : ℚ) : (finite a).toEReal = ((a : ℝ) : EReal) := rfl

@[simp] theorem isNaN_eq_false_iff : isNaN x = false ↔ x ≠ nan := by
  cases x <;> simp [isNaN]

theorem toEReal_lt (hx : x ≠ nan) (hy : y ≠ nan) : x < y ↔ x.toEReal < y.toEReal := by
  change less x y = true ↔ _
  cases x with
  | finite a =>
    cases y with
    | finite b => simp [less]
    | infinite t => cases t <;> simp [less, toEReal]
    | nan => exact absurd rfl hy
  | infinite s =>
    cases y with
    | finite b => cases s <;> simp [less, toEReal]
    | infinite t => cases s <;> cases t <;> simp [less, toEReal]
    | nan => exact absurd rfl hy
  | nan => exact absurd rfl hx

theorem toEReal_inj (hx : x ≠ nan) (hy : y ≠ nan) : x.toEReal = y.toEReal ↔ x = y := by
  cases x with
  | finite a =>
    cases y with
    | finite b => simp
    | infinite t => cases t <;> simp [toEReal]
    | nan => exact absurd rfl hy
  | infinite s =>
    cases y with
    | finite b => cases s <;> simp [toEReal]
    | infinite t => cases s <;> cases t <;> simp [toEReal]
    | nan => exact absurd rfl hy
  | nan => exact absurd rfl hx

theorem toEReal_neg (x : Extended) : (-x).toEReal = -x.toEReal := by
  cases x with
  | finite a => simp
  | infinite s => cases s <;> rfl
  | nan => exact neg_zero.symm

theorem abs_finite (a : ℚ) : Scalar.abs (finite a) = finite |a| := by
  change finite a.abs = _
  rcases le_total 0 a with h | h
  · rw [Rat.abs_of_nonneg h, abs_of_nonneg h]
  · rw [Rat.abs_of_nonpos h, abs_of_nonpos h]

theorem toEReal_abs (x : Extended) :
    (Scalar.abs x).toEReal = max x.toEReal (-x.toEReal) := by
  cases x with
  | finite a =>
    rw [abs_finite, toEReal_finite, toEReal_finite, Rat.cast_abs, abs_eq_max_neg,
      EReal.coe_strictMono.monotone.map_max, EReal.coe_neg]
  | infinite s => cases s <;> simp [Scalar.abs, magnitude, toEReal]
  | nan => simp [Scalar.abs, magnitude, toEReal]

theorem toEReal_add_finite (hx : x ≠ nan) (b : ℚ) :
    x + finite b ≠ nan ∧ (x + finite b).toEReal = x.toEReal + (finite b).toEReal := by
  cases x with
  | finite a => simp
  | infinite s => cases s <;> exact ⟨nofun, rfl⟩
  | nan => exact absurd rfl hx

end Extended

/-- Exact numbers lie where they are, and their sums are not rounded. -/
noncomputable instance : Reading Extended where
  value := Extended.toEReal
  round := id
  isFinite_iff {x} := by
    cases x with
    | finite a => simp [isFinite, isNaN]
    | infinite negative => cases negative <;> simp [isFinite, isNaN, Extended.toEReal]
    | nan => simp [isFinite, isNaN]
  lt_iff hx hy :=
    Extended.toEReal_lt (Extended.isNaN_eq_false_iff.1 hx) (Extended.isNaN_eq_false_iff.1 hy)
  beq_iff {x y} hx hy := by
    rw [Extended.isNaN_eq_false_iff] at hx hy
    rw [Extended.toEReal_inj hx hy]
    change Extended.equal x y = true ↔ _
    simp [Extended.equal, hx]
  isFinite_zero := rfl
  value_zero := by simp [nat]
  isFinite_billionth := rfl
  billionth_pos := by
    have hpos : (0 : ℚ) < mkRat 1 (Nat.pow 10 9) := by decide
    simpa [decimal] using hpos
  isNaN_neg x := by cases x <;> rfl
  value_neg := Extended.toEReal_neg
  isNaN_abs x := by cases x <;> rfl
  value_abs := Extended.toEReal_abs
  isNaN_add {x y} hx hy := by
    obtain ⟨b, rfl⟩ := Extended.isFinite_iff.1 hy
    rw [Extended.isNaN_eq_false_iff] at hx ⊢
    exact (Extended.toEReal_add_finite hx b).1
  value_add {x y} hx hy := by
    obtain ⟨b, rfl⟩ := Extended.isFinite_iff.1 hy
    exact (Extended.toEReal_add_finite (Extended.isNaN_eq_false_iff.1 hx) b).2
  isNaN_sub {x y} hx hy := by
    obtain ⟨a, rfl⟩ := Extended.isFinite_iff.1 hx
    obtain ⟨b, rfl⟩ := Extended.isFinite_iff.1 hy
    simp
  value_sub {x y} hx hy := by
    obtain ⟨a, rfl⟩ := Extended.isFinite_iff.1 hx
    obtain ⟨b, rfl⟩ := Extended.isFinite_iff.1 hy
    simp
  round_neg _ := rfl
  le_round _ h := h

instance : Saturating Extended where
  isNaN_of_lt {x y} h := by
    cases x with
    | nan => cases y <;> exact nomatch h
    | _ => rfl
  isNaN_of_beq {x y} h := by
    cases x with
    | nan => cases y <;> exact nomatch h
    | _ => rfl
  isFinite_of_add {x y} h := by
    cases x with
    | finite a =>
      cases y with
      | finite b => exact ⟨rfl, rfl⟩
      | _ => exact nomatch h
    | infinite s =>
      cases y with
      | infinite t => cases s <;> cases t <;> exact nomatch h
      | _ => exact nomatch h
    | nan => cases y <;> exact nomatch h

end Backtest
