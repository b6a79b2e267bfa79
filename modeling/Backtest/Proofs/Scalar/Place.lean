import Backtest.Proofs.Scalar.Packing

/-!
# Places of unpacked doubles

Doubles are read in units of the least positive one, so a finite double is an integer and a sum of
two is rounded as an integer. A result that exceeds the range is an infinity.
-/

namespace Backtest.Double

open Float.Model
open Float.Model.UnpackedFloat

variable {u v : UnpackedFloat}

noncomputable def point (z : ℤ) : EReal := ((z : ℝ) : EReal)

theorem point_strictMono : StrictMono point :=
  EReal.coe_strictMono.comp Int.cast_strictMono

theorem point_le_point {z w : ℤ} : point z ≤ point w ↔ z ≤ w := point_strictMono.le_iff_le

@[simp] theorem point_zero : point 0 = 0 := by simp [point]

@[simp] theorem point_neg (z : ℤ) : point (-z) = -point z := by simp [point]

theorem point_add (z w : ℤ) : point (z + w) = point z + point w := by simp [point]

def signedUnits (s : Sign) (m : ℕ) (e : ℤ) : ℤ := s.apply (units m e)

/-- The place of an unpacked double, in units of the least positive double. -/
noncomputable def place : UnpackedFloat → EReal
  | .infinity .positive => ⊤
  | .infinity .negative => ⊥
  | .notANumber => 0
  | .zero _ => 0
  | .finite s m e _ => point (signedUnits s m e)

/-! ## Order -/

theorem units_pos {m : ℕ} (hm : 0 < m) (e : ℤ) : 0 < units m e := by
  unfold units
  positivity

theorem units_lt_units {m₁ m₂ : ℕ} {e₁ e₂ : ℤ} (h₁ : Canonical m₁ e₁) (h₂ : Canonical m₂ e₂)
    (h : e₁ < e₂) : units m₁ e₁ < units m₂ e₂ := by
  have hleast := h₁.least
  have hnormal : 2 ^ 52 ≤ m₂ := h₂.normal.resolve_right (by omega)
  calc m₁ * 2 ^ (e₁ + 1074).toNat < 2 ^ 53 * 2 ^ (e₁ + 1074).toNat :=
        Nat.mul_lt_mul_of_pos_right h₁.lt (by positivity)
    _ = 2 ^ 52 * 2 ^ ((e₁ + 1074).toNat + 1) := by ring
    _ ≤ m₂ * 2 ^ (e₂ + 1074).toNat := by gcongr <;> omega

/-- Exponents first, then significands. -/
theorem cmp_units {m₁ m₂ : ℕ} {e₁ e₂ : ℤ} (h₁ : Canonical m₁ e₁) (h₂ : Canonical m₂ e₂) :
    (compare e₁ e₂).then (compare m₁ m₂) = cmp (units m₁ e₁) (units m₂ e₂) := by
  rw [← cmp_eq_compare, ← cmp_eq_compare]
  rcases lt_trichotomy e₁ e₂ with h | rfl | h
  · rw [cmp_eq_lt_iff _ _ |>.2 h, cmp_eq_lt_iff _ _ |>.2 (units_lt_units h₁ h₂ h)]
    rfl
  · have hmono : StrictMono fun m : ℕ => units m e₁ := fun a b hab =>
      Nat.mul_lt_mul_of_pos_right hab (by positivity)
    rw [cmp_self_eq_eq, Ordering.eq_then]
    exact (hmono.cmp_map_eq m₁ m₂).symm
  · rw [cmp_eq_gt_iff _ _ |>.2 h, cmp_eq_gt_iff _ _ |>.2 (units_lt_units h₂ h₁ h)]
    rfl

theorem cmp_signedUnits {s₁ s₂ : Sign} {m₁ m₂ : ℕ} {e₁ e₂ : ℤ} {h₁ : 0 < m₁} {h₂ : 0 < m₂}
    (hu : Canonical m₁ e₁) (hv : Canonical m₂ e₂) :
    (UnpackedFloat.finite s₁ m₁ e₁ h₁).compare (.finite s₂ m₂ e₂ h₂) =
      some (cmp (signedUnits s₁ m₁ e₁) (signedUnits s₂ m₂ e₂)) := by
  have hpos₁ : (0 : ℤ) < units m₁ e₁ := by exact_mod_cast units_pos h₁ e₁
  have hpos₂ : (0 : ℤ) < units m₂ e₂ := by exact_mod_cast units_pos h₂ e₂
  have hcast : StrictMono ((↑) : ℕ → ℤ) := Nat.strictMono_cast
  have hneg : StrictAnti fun n : ℕ => -(n : ℤ) := fun a b h => neg_lt_neg (hcast h)
  cases s₁ with
  | negative =>
    cases s₂ with
    | negative =>
      simp only [UnpackedFloat.compare, cmp_units hu hv, cmp_swap]
      exact congrArg some (hneg.cmp_map_eq _ _).symm
    | positive =>
      exact congrArg some ((cmp_eq_lt_iff _ _).2 ((neg_neg_of_pos hpos₁).trans hpos₂)).symm
  | positive =>
    cases s₂ with
    | negative =>
      exact congrArg some ((cmp_eq_gt_iff _ _).2 ((neg_neg_of_pos hpos₂).trans hpos₁)).symm
    | positive =>
      simp only [UnpackedFloat.compare, cmp_units hu hv]
      exact congrArg some (hcast.cmp_map_eq _ _).symm

theorem zero_lt_place {m : ℕ} {e : ℤ} {h : 0 < m} : 0 < place (.finite .positive m e h) := by
  rw [← point_zero]
  exact point_strictMono (Int.natCast_pos.2 (units_pos h e))

theorem place_lt_zero {m : ℕ} {e : ℤ} {h : 0 < m} : place (.finite .negative m e h) < 0 := by
  rw [← point_zero]
  exact point_strictMono (neg_neg_of_pos (Int.natCast_pos.2 (units_pos h e)))

theorem place_lt_top {s : Sign} {m : ℕ} {e : ℤ} {h : 0 < m} : place (.finite s m e h) < ⊤ :=
  EReal.coe_lt_top _

theorem bot_lt_place {s : Sign} {m : ℕ} {e : ℤ} {h : 0 < m} : ⊥ < place (.finite s m e h) :=
  EReal.bot_lt_coe _

/-- Stored doubles compare as their places do. -/
theorem compare_eq (hu : Stored u) (hv : Stored v) (hnu : u ≠ .notANumber)
    (hnv : v ≠ .notANumber) : u.compare v = some (cmp (place u) (place v)) := by
  have hlt {a b : EReal} (h : a < b) : some Ordering.lt = some (cmp a b) :=
    congrArg some ((cmp_eq_lt_iff a b).2 h).symm
  have hgt {a b : EReal} (h : b < a) : some Ordering.gt = some (cmp a b) :=
    congrArg some ((cmp_eq_gt_iff a b).2 h).symm
  have heq (a : EReal) : some Ordering.eq = some (cmp a a) :=
    congrArg some (cmp_self_eq_eq a).symm
  cases u with
  | notANumber => exact absurd rfl hnu
  | infinity s =>
    cases v with
    | notANumber => exact absurd rfl hnv
    | infinity t =>
      cases s <;> cases t
      · exact heq ⊥
      · exact hlt bot_lt_top
      · exact hgt bot_lt_top
      · exact heq ⊤
    | zero t =>
      cases s
      · exact hlt EReal.bot_lt_zero
      · exact hgt EReal.zero_lt_top
    | finite t m e h =>
      cases s
      · exact hlt bot_lt_place
      · exact hgt place_lt_top
  | zero s =>
    cases v with
    | notANumber => exact absurd rfl hnv
    | infinity t =>
      cases t
      · exact hgt EReal.bot_lt_zero
      · exact hlt EReal.zero_lt_top
    | zero t => exact heq 0
    | finite t m e h =>
      cases t
      · exact hgt place_lt_zero
      · exact hlt zero_lt_place
  | finite s m e h =>
    cases v with
    | notANumber => exact absurd rfl hnv
    | infinity t =>
      cases t
      · exact hgt bot_lt_place
      · exact hlt place_lt_top
    | zero t =>
      cases s
      · exact hlt place_lt_zero
      · exact hgt zero_lt_place
    | finite t m' e' h' =>
      rw [cmp_signedUnits hu.1 hv.1]
      exact congrArg some (point_strictMono.cmp_map_eq _ _).symm

/-! ## Rounding of integers -/

def overflow : ℕ := 2 ^ 2098

theorem overflow_pos : 0 < overflow := by
  unfold overflow
  positivity

theorem two_pow_le_overflow {k : ℕ} (h : k ≤ 2098) : 2 ^ k ≤ overflow := by
  unfold overflow
  gcongr
  norm_num

theorem overflow_le_two_pow {k : ℕ} (h : 2098 ≤ k) : overflow ≤ 2 ^ k := by
  unfold overflow
  gcongr
  norm_num

/-- A natural number of units as a double holds it: an infinity beyond the range. -/
noncomputable def bounded (n : ℕ) : EReal := if n < overflow then point n else ⊤

noncomputable def roundInt (z : ℤ) : EReal :=
  if 0 ≤ z then bounded (nearest z.natAbs) else -bounded (nearest z.natAbs)

noncomputable def roundPlace (a : EReal) : EReal :=
  open Classical in if h : ∃ z, a = point z then roundInt h.choose else a

theorem roundPlace_point (z : ℤ) : roundPlace (point z) = roundInt z := by
  have h : ∃ w, point z = point w := ⟨z, rfl⟩
  rw [roundPlace, dif_pos h, ← point_strictMono.injective h.choose_spec]

theorem bounded_nonneg (n : ℕ) : 0 ≤ bounded n := by
  unfold bounded
  split
  · rw [← point_zero, point_le_point]
    omega
  · exact le_top

theorem nearest_zero : nearest 0 = 0 := nearest_of_dvd (dvd_zero _)

theorem roundInt_zero : roundInt 0 = 0 := by
  rw [roundInt, if_pos le_rfl, Int.natAbs_zero, nearest_zero, bounded, if_pos overflow_pos]
  exact point_zero

theorem roundInt_neg (z : ℤ) : roundInt (-z) = -roundInt z := by
  rcases lt_trichotomy z 0 with h | rfl | h
  · rw [roundInt, roundInt, if_pos (by omega), if_neg (by omega), Int.natAbs_neg, neg_neg]
  · rw [neg_zero, roundInt_zero, neg_zero]
  · rw [roundInt, roundInt, if_neg (by omega), if_pos h.le, Int.natAbs_neg]

theorem roundPlace_neg (a : EReal) : roundPlace (-a) = -roundPlace a := by
  by_cases h : ∃ z, a = point z
  · obtain ⟨z, rfl⟩ := h
    rw [← point_neg, roundPlace_point, roundPlace_point, roundInt_neg]
  · have hneg : ¬∃ z, -a = point z := fun ⟨z, hz⟩ =>
      h ⟨-z, by rw [point_neg, ← hz, neg_neg]⟩
    rw [roundPlace, roundPlace, dif_neg h, dif_neg hneg]

theorem le_roundInt {w z : ℤ} (hw : Short w.natAbs) (hrange : w.natAbs < overflow)
    (h : w ≤ z) : point w ≤ roundInt z := by
  unfold roundInt
  rcases le_or_gt 0 z with hz | hz
  · rw [if_pos hz]
    rcases le_or_gt w 0 with hw0 | hw0
    · exact (point_le_point.2 hw0).trans (point_zero.trans_le (bounded_nonneg _))
    · have hle := le_nearest hw (by omega : w.natAbs ≤ z.natAbs)
      unfold bounded
      split
      · exact point_le_point.2 (by omega)
      · exact le_top
  · rw [if_neg (by omega)]
    have hle := nearest_le hw (by omega : z.natAbs ≤ w.natAbs)
    rw [bounded, if_pos (hle.trans_lt hrange), ← point_neg, point_le_point]
    omega

theorem natAbs_signedUnits (s : Sign) (m : ℕ) (e : ℤ) : (signedUnits s m e).natAbs = units m e := by
  cases s <;> simp [signedUnits, Sign.apply]

theorem units_lt {m : ℕ} {e : ℤ} (h : Canonical m e) (he : e ≤ 971) : units m e < overflow := by
  calc m * 2 ^ (e + 1074).toNat < 2 ^ 53 * 2 ^ (e + 1074).toNat :=
        Nat.mul_lt_mul_of_pos_right h.lt (by positivity)
    _ = 2 ^ (53 + (e + 1074).toNat) := (pow_add ..).symm
    _ ≤ overflow := two_pow_le_overflow (by omega)

theorem le_units {m : ℕ} {e : ℤ} (h : Canonical m e) (he : 971 < e) : overflow ≤ units m e := by
  calc overflow ≤ 2 ^ (52 + (e + 1074).toNat) := overflow_le_two_pow (by omega)
    _ = 2 ^ 52 * 2 ^ (e + 1074).toNat := pow_add ..
    _ ≤ m * 2 ^ (e + 1074).toNat := Nat.mul_le_mul_right _ (h.normal.resolve_right (by omega))

/-- What is stored is not moved by a rounding. -/
theorem le_roundPlace (hu : Stored u) {a : EReal} (h : place u ≤ a) : place u ≤ roundPlace a := by
  by_cases ha : ∃ z, a = point z
  · obtain ⟨z, rfl⟩ := ha
    rw [roundPlace_point]
    have hzero (h : 0 ≤ point z) : 0 ≤ roundInt z := by
      have hle := le_roundInt (w := 0) ⟨0, 0, by norm_num, rfl⟩ overflow_pos
        (point_le_point.1 (point_zero.trans_le h))
      rwa [point_zero] at hle
    cases u with
    | infinity s =>
      cases s with
      | negative => exact bot_le
      | positive => exact absurd (EReal.coe_lt_top _) (not_lt.2 h)
    | notANumber => exact hzero h
    | zero s => exact hzero h
    | finite s m e hm =>
      refine le_roundInt ?_ ?_ (point_le_point.1 h)
      · rw [natAbs_signedUnits]
        exact hu.1.short
      · rw [natAbs_signedUnits]
        exact units_lt hu.1 hu.2
  · rwa [roundPlace, dif_neg ha]

/-! ## Sums -/

def store (u : UnpackedFloat) : UnpackedFloat := unpack Format.binary64 (pack Format.binary64 u)

theorem place_store_finite (s : Sign) {m : ℕ} {e : ℤ} (hm : 0 < m) (h : Canonical m e) :
    store (.finite s m e hm) ≠ .notANumber ∧
      place (store (.finite s m e hm)) =
        match s with
        | .negative => -bounded (units m e)
        | .positive => bounded (units m e) := by
  unfold store
  rcases le_or_gt e 971 with he | he
  · rw [unpack_pack (u := .finite s m e hm) ⟨h, he⟩, bounded, if_pos (units_lt h he)]
    refine ⟨nofun, ?_⟩
    cases s with
    | negative => exact point_neg _
    | positive => rfl
  · rw [unpack_pack_of_gt s hm he, bounded, if_neg (not_lt.2 (le_units h he))]
    refine ⟨nofun, ?_⟩
    cases s <;> rfl

theorem place_store_round (s : Sign) {m : ℕ} {e : ℤ} (hm : 0 < m) (he : -1074 ≤ e) :
    store (round Format.binary64 s m e) ≠ .notANumber ∧
      place (store (round Format.binary64 s m e)) = roundInt (signedUnits s m e) := by
  obtain ⟨m', e', hm', hround, hcanon, hunits⟩ := round_eq s hm he
  obtain ⟨hnum, hplace⟩ := place_store_finite s hm' hcanon
  have hpos := Int.natCast_pos.2 (units_pos hm e)
  rw [hround, roundInt, natAbs_signedUnits, ← hunits]
  refine ⟨hnum, hplace.trans ?_⟩
  cases s with
  | negative =>
    rw [if_neg (show ¬0 ≤ signedUnits .negative m e from not_le.2 (neg_neg_of_pos hpos))]
  | positive => rw [if_pos (show 0 ≤ signedUnits .positive m e from hpos.le)]

theorem place_store_normalize (z : ℤ) {e : ℤ} (he : -1074 ≤ e) (s : Sign) :
    store (normalize Format.binary64 z e s) ≠ .notANumber ∧
      place (store (normalize Format.binary64 z e s)) =
        roundInt (z * 2 ^ (e + 1074).toNat) := by
  unfold UnpackedFloat.normalize
  rcases lt_trichotomy z 0 with h | rfl | h
  · have hunits : signedUnits .negative (-z).toNat e = z * 2 ^ (e + 1074).toNat := by
      have habs : ((-z).toNat : ℤ) = -z := Int.toNat_of_nonneg (by omega)
      simp [signedUnits, units, Sign.apply, habs]
    rw [Int.compare_eq_lt.2 h, ← hunits]
    exact place_store_round .negative (by omega) he
  · rw [zero_mul, roundInt_zero]
    unfold store
    rw [show compare (0 : ℤ) 0 = .eq from rfl, unpack_pack (u := .zero s) trivial]
    exact ⟨by simp, rfl⟩
  · have hunits : signedUnits .positive z.toNat e = z * 2 ^ (e + 1074).toNat := by
      have habs : (z.toNat : ℤ) = z := Int.toNat_of_nonneg h.le
      simp [signedUnits, units, Sign.apply, habs]
    rw [Int.compare_eq_gt.2 h, ← hunits]
    exact place_store_round .positive (by omega) he

/-- A significand scaled to a smaller exponent. -/
theorem apply_shiftLeft (s : Sign) (m : ℕ) {e e₀ : ℤ} (he : -1074 ≤ e₀) (hle : e₀ ≤ e) :
    s.apply (m <<< (e - e₀).toNat : ℕ) * 2 ^ (e₀ + 1074).toNat = signedUnits s m e := by
  have hunits : (m <<< (e - e₀).toNat) * 2 ^ (e₀ + 1074).toNat = units m e := by
    rw [Nat.shiftLeft_eq, units, mul_assoc, ← pow_add]
    congr 2
    omega
  rw [signedUnits, ← hunits]
  cases s <;> simp [Sign.apply]

theorem stored_neg (hu : Stored u) : Stored u.neg := by
  cases u <;> exact hu

theorem place_neg (u : UnpackedFloat) : place u.neg = -place u := by
  cases u with
  | infinity s => cases s <;> rfl
  | notANumber => exact neg_zero.symm
  | zero s => exact neg_zero.symm
  | finite s m e h =>
    rw [place, ← point_neg]
    cases s with
    | negative => exact congrArg point (neg_neg _).symm
    | positive => rfl

theorem roundPlace_place (hu : Stored u) : roundPlace (place u) = place u := by
  have hle := le_roundPlace (stored_neg hu) (place_neg u).le
  rw [place_neg, roundPlace_neg] at hle
  exact le_antisymm (EReal.neg_le_neg_iff.1 hle) (le_roundPlace hu le_rfl)

/-- A sum that is one of its operands. -/
theorem place_store_of_eq {w : UnpackedFloat} (hu : Stored u) (hnu : u ≠ .notANumber)
    (hw : w = u) {a : EReal} (ha : a = place u) :
    store w ≠ .notANumber ∧ place (store w) = roundPlace a := by
  subst hw ha
  rw [store, unpack_pack hu, roundPlace_place hu]
  exact ⟨hnu, rfl⟩

/-- The sum of two stored doubles, the second finite. -/
theorem place_store_add (hu : Stored u) (hv : Stored v) (hnu : u ≠ .notANumber)
    (hfin : v.isFinite = true) :
    store (UnpackedFloat.add Format.binary64 u v) ≠ .notANumber ∧
      place (store (UnpackedFloat.add Format.binary64 u v)) =
        roundPlace (place u + place v) := by
  cases v with
  | notANumber => cases hfin
  | infinity t => cases hfin
  | zero t =>
    cases u with
    | notANumber => exact absurd rfl hnu
    | infinity s => exact place_store_of_eq hu hnu rfl (add_zero _)
    | zero s =>
      obtain ⟨r, hr⟩ : ∃ r, UnpackedFloat.add Format.binary64 (.zero s) (.zero t) = .zero r := by
        cases s <;> cases t <;> exact ⟨_, rfl⟩
      exact place_store_of_eq (u := .zero r) trivial nofun hr (add_zero _)
    | finite s m e h => exact place_store_of_eq hu hnu rfl (add_zero _)
  | finite t m' e' h' =>
    cases u with
    | notANumber => exact absurd rfl hnu
    | infinity s =>
      refine place_store_of_eq hu hnu rfl ?_
      cases s with
      | negative => exact EReal.bot_add _
      | positive => exact EReal.top_add_coe _
    | zero s => exact place_store_of_eq hv nofun rfl (zero_add _)
    | finite s m e h =>
      have hleast := hu.1.least
      have hleast' := hv.1.least
      have hmin : -1074 ≤ min e e' := le_min hleast hleast'
      have hsum := place_store_normalize
        (s.apply (m <<< (e - min e e').toNat : ℕ) + t.apply (m' <<< (e' - min e e').toNat : ℕ))
        hmin .positive
      rw [add_mul, apply_shiftLeft s m hmin (min_le_left e e'),
        apply_shiftLeft t m' hmin (min_le_right e e'), ← roundPlace_point, point_add] at hsum
      exact hsum

theorem apply_neg (s : Sign) (n : ℤ) : (-s).apply n = -s.apply n := by
  cases s with
  | negative => exact (neg_neg n).symm
  | positive => rfl

/-- A difference is the sum with the opposite. -/
theorem sub_eq_add (u v : UnpackedFloat) :
    UnpackedFloat.sub Format.binary64 u v = UnpackedFloat.add Format.binary64 u v.neg := by
  cases u with
  | notANumber => rfl
  | infinity s =>
    cases v with
    | infinity t => cases s <;> cases t <;> rfl
    | _ => rfl
  | zero s =>
    cases v with
    | zero t => cases s <;> cases t <;> rfl
    | _ => rfl
  | finite s m e h =>
    cases v with
    | finite t m' e' h' =>
      simp only [UnpackedFloat.sub, UnpackedFloat.add, UnpackedFloat.neg, apply_neg,
        ← Int.sub_eq_add_neg]
    | _ => rfl

theorem stored_abs (hu : Stored u) : Stored u.abs := by
  cases u <;> exact hu

theorem place_abs (u : UnpackedFloat) : place u.abs = max (place u) (-place u) := by
  cases u with
  | infinity s => cases s <;> simp [place, UnpackedFloat.abs]
  | notANumber => simp [place, UnpackedFloat.abs]
  | zero s => simp [place, UnpackedFloat.abs]
  | finite s m e h =>
    cases s with
    | negative =>
      have hneg := place_neg (.finite .negative m e h)
      rw [max_eq_right (place_lt_zero.le.trans (hneg ▸ zero_lt_place.le))]
      exact hneg
    | positive =>
      have hneg := place_neg (.finite .positive m e h)
      rw [max_eq_left ((hneg ▸ place_lt_zero.le).trans zero_lt_place.le)]
      rfl

end Backtest.Double
