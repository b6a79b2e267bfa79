import Backtest.Proofs.Scalar.Place
import Backtest.Proofs.Scalar.Reading
import Backtest.Scalar.Double

/-!
# Doubles on a line

The arithmetic that runs has a reading: a double lies where its significand and exponent place it,
and its sums are rounded as the standard says.
-/

namespace Backtest.Double

open Float.Model

def unpacked (x : Float) : UnpackedFloat := x.toModel.unpack

theorem stored_unpacked (x : Float) : Stored (unpacked x) := stored_unpack _

theorem isNaN_eq_false_iff {x : Float} : Scalar.isNaN x = false ↔ unpacked x ≠ .notANumber := by
  change (unpacked x).isNaN = false ↔ _
  cases unpacked x <;> simp [UnpackedFloat.isNaN]

theorem unpacked_neg (x : Float) : unpacked (-x) = (unpacked x).neg :=
  unpack_pack (stored_neg (stored_unpacked x))

theorem unpacked_abs (x : Float) : unpacked (Scalar.abs x) = (unpacked x).abs :=
  unpack_pack (stored_abs (stored_unpacked x))

theorem unpacked_zero : unpacked (Scalar.nat 0) = .zero .positive := rfl

theorem unpacked_billionth :
    unpacked (Scalar.decimal 1 9) = .finite .positive 4835703278458517 (-82) (by decide) := rfl

theorem compare_unpacked {x y : Float} (hx : Scalar.isNaN x = false)
    (hy : Scalar.isNaN y = false) :
    (unpacked x).compare (unpacked y) =
      some (cmp (place (unpacked x)) (place (unpacked y))) :=
  compare_eq (stored_unpacked x) (stored_unpacked y) (isNaN_eq_false_iff.1 hx)
    (isNaN_eq_false_iff.1 hy)

theorem le_iff {x y : Float} (hx : Scalar.isNaN x = false) (hy : Scalar.isNaN y = false) :
    x ≤ y ↔ place (unpacked x) ≤ place (unpacked y) := by
  change decide ((unpacked x).le (unpacked y) = true) = true ↔ _
  rw [decide_eq_true_iff, UnpackedFloat.le, compare_unpacked hx hy, Option.any_some,
    Ordering.isLE_iff_ne_gt, cmp_eq_gt_iff, not_lt]

theorem place_unpacked_add {x y : Float} (hx : Scalar.isNaN x = false)
    (hy : Scalar.isFinite y = true) :
    unpacked (x + y) ≠ .notANumber ∧
      place (unpacked (x + y)) = roundPlace (place (unpacked x) + place (unpacked y)) :=
  place_store_add (stored_unpacked x) (stored_unpacked y) (isNaN_eq_false_iff.1 hx) hy

theorem place_unpacked_sub {x y : Float} (hx : Scalar.isNaN x = false)
    (hy : Scalar.isFinite y = true) :
    unpacked (x - y) ≠ .notANumber ∧
      place (unpacked (x - y)) = roundPlace (place (unpacked x) - place (unpacked y)) := by
  have hfin : (unpacked y).neg.isFinite = true := by
    change (unpacked y).isFinite = true at hy
    cases h : unpacked y <;> rw [h] at hy <;> exact hy
  have hsum := place_store_add (stored_unpacked x) (stored_neg (stored_unpacked y))
    (isNaN_eq_false_iff.1 hx) hfin
  rw [← sub_eq_add, place_neg, ← sub_eq_add_neg] at hsum
  exact hsum

theorem isFinite_iff {x : Float} :
    Scalar.isFinite x = true ↔ Scalar.isNaN x = false ∧ ∃ r : ℝ, place (unpacked x) = r := by
  change (unpacked x).isFinite = true ↔ (unpacked x).isNaN = false ∧ _
  cases unpacked x with
  | infinity s => cases s <;> simp [UnpackedFloat.isFinite, place]
  | notANumber => simp [UnpackedFloat.isFinite, UnpackedFloat.isNaN]
  | zero s => exact ⟨fun _ => ⟨rfl, 0, rfl⟩, fun _ => rfl⟩
  | finite s m e h => exact ⟨fun _ => ⟨rfl, _, rfl⟩, fun _ => rfl⟩

/-! ## Comparisons with NaN and sums that leave the range -/

theorem compare_notANumber (u : UnpackedFloat) : UnpackedFloat.compare .notANumber u = none := by
  cases u <;> rfl

theorem isNaN_sub {x y : Float} (hx : Scalar.isNaN x = true) : Scalar.isNaN (x - y) = true := by
  have hnone : unpacked x = .notANumber := by
    by_contra h
    exact Bool.false_ne_true ((isNaN_eq_false_iff.2 h).symm.trans hx)
  have hsub : UnpackedFloat.sub .binary64 .notANumber (unpacked y) = .notANumber := by
    cases unpacked y <;> rfl
  change (store (.sub .binary64 (unpacked x) (unpacked y))).isNaN = true
  rw [hnone, hsub]
  rfl

theorem isFinite_of_isFinite_store_add {u v : UnpackedFloat}
    (h : (store (UnpackedFloat.add Format.binary64 u v)).isFinite = true) :
    u.isFinite = true ∧ v.isFinite = true := by
  have hspecial {w : UnpackedFloat} (hw : Stored w) (hsum : UnpackedFloat.add .binary64 u v = w) :
      w.isFinite = true := by
    rwa [hsum, store, unpack_pack hw] at h
  have hnumber : UnpackedFloat.add .binary64 u v ≠ .notANumber :=
    fun hsum => Bool.false_ne_true (hspecial (w := .notANumber) trivial hsum)
  have hbounded {s} : UnpackedFloat.add .binary64 u v ≠ .infinity s :=
    fun hsum => Bool.false_ne_true (hspecial (w := .infinity s) trivial hsum)
  cases u with
  | notANumber => cases v <;> exact absurd rfl hnumber
  | infinity s =>
    cases v with
    | notANumber => exact absurd rfl hnumber
    | infinity t =>
      cases s <;> cases t
      · exact absurd rfl hbounded
      · exact absurd rfl hnumber
      · exact absurd rfl hnumber
      · exact absurd rfl hbounded
    | _ => exact absurd rfl hbounded
  | _ =>
    cases v with
    | notANumber => exact absurd rfl hnumber
    | infinity t => exact absurd rfl hbounded
    | _ => exact ⟨rfl, rfl⟩

end Backtest.Double

namespace Backtest

open Double

/-- Doubles lie at their places, and a sum at the nearest one. -/
noncomputable instance : Reading Float where
  value x := place (unpacked x)
  round := roundPlace
  isFinite_iff := Double.isFinite_iff
  lt_iff {x y} hx hy := by
    change decide ((unpacked x).lt (unpacked y) = true) = true ↔ _
    rw [decide_eq_true_iff, Float.Model.UnpackedFloat.lt, compare_unpacked hx hy, beq_iff_eq,
      Option.some_inj, cmp_eq_lt_iff]
  beq_iff {x y} hx hy := by
    change ((unpacked x).compare (unpacked y) == some .eq) = true ↔ _
    rw [compare_unpacked hx hy, beq_iff_eq, Option.some_inj, cmp_eq_eq_iff]
  isFinite_zero := rfl
  value_zero := congrArg place unpacked_zero
  isFinite_billionth := rfl
  billionth_pos := by
    rw [unpacked_billionth]
    exact zero_lt_place
  isNaN_neg x := by
    change (unpacked (-x)).isNaN = (unpacked x).isNaN
    rw [unpacked_neg]
    cases unpacked x <;> rfl
  value_neg x := by rw [unpacked_neg, place_neg]
  isNaN_abs x := by
    change (unpacked (Scalar.abs x)).isNaN = (unpacked x).isNaN
    rw [unpacked_abs]
    cases unpacked x <;> rfl
  value_abs x := by rw [unpacked_abs, place_abs]
  isNaN_add hx hy := isNaN_eq_false_iff.2 (place_unpacked_add hx hy).1
  value_add hx hy := (place_unpacked_add hx hy).2
  isNaN_sub hx hy := isNaN_eq_false_iff.2 (place_unpacked_sub (isFinite_iff.1 hx).1 hy).1
  value_sub hx hy := (place_unpacked_sub (isFinite_iff.1 hx).1 hy).2
  round_neg := roundPlace_neg
  le_round {x a} _ h := le_roundPlace (stored_unpacked x) h

instance : Saturating Float where
  isNaN_of_lt {x y} h := by
    rw [isNaN_eq_false_iff]
    intro hx
    have hlt : (unpacked x).lt (unpacked y) = true := decide_eq_true_iff.1 h
    rw [Float.Model.UnpackedFloat.lt, hx, compare_notANumber] at hlt
    cases hlt
  isNaN_of_beq {x y} h := by
    rw [isNaN_eq_false_iff]
    intro hx
    have heq : ((unpacked x).compare (unpacked y) == some .eq) = true := h
    rw [hx, compare_notANumber] at heq
    cases heq
  isFinite_of_add h := isFinite_of_isFinite_store_add h

/-- A difference whose first part is not negative has only one side to leave the range on. -/
theorem Double.isFinite_sub_of_lt {x y bound : Float} (hx : ¬x < Scalar.nat 0)
    (hy : Scalar.isFinite y = true) (hbound : Scalar.isFinite bound = true) (h : x - y < bound) :
    Scalar.isFinite (x - y) = true := by
  have hdiff := Saturating.isNaN_of_lt h
  have hn : Scalar.isNaN x = false := by
    by_contra hnan
    rw [isNaN_sub (Bool.eq_true_of_not_eq_false hnan)] at hdiff
    cases hdiff
  have hzero : place (unpacked (Scalar.nat 0)) ≤ place (unpacked x) :=
    (Reading.not_lt_iff hn Reading.isNaN_zero).1 hx
  rw [unpacked_zero] at hzero
  refine Reading.isFinite_of_between hdiff (Reading.isFinite_neg hy) hbound ?_
    ((Reading.lt_iff hdiff (Reading.isNaN_of_isFinite hbound)).1 h).le
  -- it is at least as large as the other part alone would leave it
  change place (unpacked (-y)) ≤ place (unpacked (x - y))
  rw [(place_unpacked_sub hn hy).2]
  refine le_roundPlace (stored_unpacked (-y)) ?_
  rw [unpacked_neg, place_neg, sub_eq_add_neg]
  exact le_add_of_nonneg_left hzero

end Backtest
