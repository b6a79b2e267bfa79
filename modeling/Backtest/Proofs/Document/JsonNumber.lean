import Backtest.Proofs.Decimal.Rounding
import Backtest.Proofs.Decimal.Shortest
import Backtest.Proofs.Document.JsonToken

/-!
# Doubles of JSON

A finite double is written with its fewest digits, in one of four arrangements of them: with a
point after, inside or before the digits, or with an exponent. A reader takes each of them apart
into a decimal in the interval of the double, and so reads the double back.
-/

namespace Backtest.Document.Json

open Decimal

/-- A text that is read as a double of the value `v`, whatever may follow a number. -/
def Denotes (cs : List Char) (v : ℚ) : Prop :=
  ∀ r, Delimits r → (cs ++ r).head? ≠ some '-' ∧
    ∃ whole r₁ fraction r₂ exponent, wholePart? (cs ++ r) = some (whole, r₁) ∧
      fractionPart? r₁ = some (fraction, r₂) ∧ exponentPart? r₂ = some (exponent, r) ∧
      (fraction ≠ [] ∨ exponent ≠ none) ∧
      (ofDigits (whole ++ fraction) : ℚ) * 10 ^ (exponent.getD 0 - fraction.length : ℤ) = v

/-! ## Parts of a number -/

theorem fractionPart?_digits {ds r : List Char} (hne : ds ≠ [])
    (hds : ∀ d ∈ ds, d.isDigit = true) (hr : NoDigit r) :
    fractionPart? ('.' :: (ds ++ r)) = some (ds, r) := by
  simp [fractionPart?, spanDigits_append hds hr, hne]

def ReadsExponent (tail : List Char) (exponent : Option ℤ) : Prop :=
  ∀ r, Delimits r → NoDigit (tail ++ r) ∧ exponentPart? (tail ++ r) = some (exponent, r)

theorem readsExponent_nil : ReadsExponent [] none := fun _ hr =>
  ⟨hr.noDigit, exponentPart?_of_delimits hr⟩

def exponentText (z : ℤ) : List Char :=
  'e' :: ((if 0 ≤ z then "+" else "").toList ++ (toString z).toList)

theorem readsExponent_exponentText (z : ℤ) : ReadsExponent (exponentText z) (some z) := by
  intro r hr
  have hspan (n : ℕ) := spanDigits_append (fun c hc => isDigit_toDigits (n := n) hc) hr.noDigit
  have hne (n : ℕ) : (Nat.toDigits 10 n).isEmpty = false := by simp
  refine ⟨noDigit_cons (by decide), ?_⟩
  cases z with
  | ofNat n =>
    have htext : exponentText (Int.ofNat n) = 'e' :: '+' :: Nat.toDigits 10 n := by
      rw [← toList_toString, exponentText, if_pos (show 0 ≤ Int.ofNat n from Int.natCast_nonneg n)]
      rfl
    rw [htext]
    simp [exponentPart?, exponent?, hspan, hne, ofDigits_toDigits]
  | negSucc n =>
    have htext : exponentText (Int.negSucc n) = 'e' :: '-' :: Nat.toDigits 10 (n + 1) := by
      rw [← toList_toString]
      exact congrArg (List.cons 'e') String.toList_append
    rw [htext]
    simp [exponentPart?, exponent?, hspan, hne, ofDigits_toDigits]
    omega

theorem denotes_fraction {cs whole fraction tail : List Char} {exponent : Option ℤ} {v : ℚ}
    (hcs : cs = whole ++ '.' :: (fraction ++ tail)) (hwhole : IsWhole whole) (hne : fraction ≠ [])
    (hdigits : ∀ d ∈ fraction, d.isDigit = true) (htail : ReadsExponent tail exponent)
    (hvalue : (ofDigits (whole ++ fraction) : ℚ) *
      10 ^ (exponent.getD 0 - fraction.length : ℤ) = v) : Denotes cs v := by
  intro r hr
  obtain ⟨hdelimit, hexponent⟩ := htail r hr
  rw [hcs, List.append_assoc, List.cons_append, List.append_assoc]
  exact ⟨head?_ne_of_isWhole hwhole, whole, _, fraction, _, exponent,
    wholePart?_of_isWhole hwhole (noDigit_cons (by decide)),
    fractionPart?_digits hne hdigits hdelimit, hexponent, .inl hne, hvalue⟩

theorem denotes_exponent {whole : List Char} (hwhole : IsWhole whole) (z : ℤ) :
    Denotes (whole ++ exponentText z) (ofDigits whole * 10 ^ z) := by
  intro r hr
  rw [List.append_assoc]
  refine ⟨head?_ne_of_isWhole hwhole, whole, _, [], _, some z,
    wholePart?_of_isWhole hwhole (noDigit_cons (by decide)), rfl,
    (readsExponent_exponentText z r hr).2, .inr nofun, ?_⟩
  simp

/-! ## The arrangements -/

section

variable {n : ℕ} (hn : 0 < n)

include hn

theorem isWhole_toDigits_append {ds : List Char} (hds : ∀ d ∈ ds, d.isDigit = true) :
    IsWhole (Nat.toDigits 10 n ++ ds) := by
  obtain ⟨c, cs, hcs, hc⟩ := toDigits_eq_cons hn
  rw [hcs, List.cons_append]
  refine isWhole_of_head hc fun d hd => ?_
  rw [← List.cons_append, ← hcs, List.mem_append] at hd
  exact hd.elim isDigit_toDigits (hds d)

/-- Digits, zeros and a point with a zero after it. -/
theorem denotes_whole (k : ℕ) :
    Denotes (Nat.toDigits 10 n ++ List.replicate k '0' ++ ['.', '0']) (n * 10 ^ (k : ℤ)) := by
  refine denotes_fraction rfl (isWhole_toDigits_append hn fun d => isDigit_replicate_zero)
    (List.cons_ne_nil '0' []) (fun d => isDigit_toDigits (n := 0)) readsExponent_nil ?_
  have hzero : ofDigits ['0'] = 0 := rfl
  rw [ofDigits_append, ofDigits_append, ofDigits_toDigits, ofDigits_replicate_zero,
    List.length_replicate, hzero]
  push_cast
  simp

/-- Digits with a point inside. -/
theorem denotes_inside {k : ℕ} (hk : 0 < k) (hlt : k < (Nat.toDigits 10 n).length) :
    Denotes ((Nat.toDigits 10 n).take ((Nat.toDigits 10 n).length - k) ++
      '.' :: (Nat.toDigits 10 n).drop ((Nat.toDigits 10 n).length - k)) (n * 10 ^ (-k : ℤ)) := by
  obtain ⟨c, ds, hds, hc⟩ := toDigits_eq_cons hn
  obtain ⟨j, hj⟩ : ∃ j, (Nat.toDigits 10 n).length - k = j + 1 :=
    ⟨(Nat.toDigits 10 n).length - k - 1, by omega⟩
  have hlength : ((Nat.toDigits 10 n).drop (j + 1)).length = k := by
    rw [List.length_drop]
    omega
  have hwhole : IsWhole ((Nat.toDigits 10 n).take (j + 1)) := by
    have hdigits : ∀ d ∈ (Nat.toDigits 10 n).take (j + 1), d.isDigit = true :=
      fun d hd => isDigit_toDigits (List.mem_of_mem_take hd)
    rw [hds, List.take_succ_cons] at hdigits ⊢
    exact isWhole_of_head hc hdigits
  rw [hj]
  refine denotes_fraction (by rw [List.append_nil]) hwhole (List.ne_nil_of_length_pos (by omega))
    (fun d hd => isDigit_toDigits (List.mem_of_mem_drop hd)) readsExponent_nil ?_
  rw [List.take_append_drop, ofDigits_toDigits, hlength]
  simp

omit hn in
/-- Zeros with a point before the digits. -/
theorem denotes_before {k : ℕ} (hle : (Nat.toDigits 10 n).length ≤ k) :
    Denotes ('0' :: '.' ::
      (List.replicate (k - (Nat.toDigits 10 n).length) '0' ++ Nat.toDigits 10 n))
      (n * 10 ^ (-k : ℤ)) := by
  refine denotes_fraction (by rw [List.append_nil]; rfl) (isWhole_toDigits 0) ?_
    (fun d hd => (List.mem_append.1 hd).elim isDigit_replicate_zero isDigit_toDigits)
    readsExponent_nil ?_
  · exact List.append_ne_nil_of_right_ne_nil _ Nat.toDigits_ne_nil
  · rw [ofDigits_append, ofDigits_append, ofDigits_toDigits, ofDigits_toDigits,
      ofDigits_replicate_zero, List.length_append, List.length_replicate, Nat.sub_add_cancel hle]
    simp

/-- One digit before the point, and an exponent. -/
theorem denotes_scientific {c : Char} {ds : List Char} (hds : Nat.toDigits 10 n = c :: ds) (z : ℤ) :
    Denotes (c :: (if ds = [] then [] else '.' :: ds) ++ exponentText (z + ds.length))
      (n * 10 ^ z) := by
  have hdigits : ∀ d ∈ c :: ds, d.isDigit = true := fun d hd => isDigit_toDigits (hds ▸ hd)
  have hhead : IsWhole [c] := by
    obtain ⟨c', ds', hds', hc⟩ := toDigits_eq_cons hn
    rw [hds, List.cons.injEq] at hds'
    obtain ⟨rfl, -⟩ := hds'
    exact isWhole_of_head hc fun d hd => hdigits d (by simp_all)
  have hvalue : ofDigits (c :: ds) = n := by rw [← hds, ofDigits_toDigits]
  by_cases hnil : ds = []
  · subst hnil
    have h := denotes_exponent hhead (z + ([] : List Char).length)
    rw [hvalue] at h
    simpa using h
  · rw [if_neg hnil]
    refine denotes_fraction rfl hhead hnil (fun d hd => hdigits d (List.mem_cons_of_mem c hd))
      (readsExponent_exponentText (z + ds.length)) ?_
    rw [List.singleton_append, hvalue]
    simp

end

/-! ## Magnitudes -/

theorem denotes_plain {d : Digits} (hd : 0 < d.digits) :
    Denotes (Layout.json.plain d).toList (d.digits * 10 ^ d.exponent) := by
  obtain ⟨n, z⟩ := d
  unfold Layout.plain
  simp only [length_toString, toList_toString]
  split
  · rename_i hz
    obtain ⟨k, rfl⟩ := Int.eq_ofNat_of_zero_le hz
    have h := denotes_whole hd k
    simpa [zeros, Layout.json, toList_toString] using h
  · rename_i hz
    obtain ⟨k, rfl⟩ : ∃ k : ℕ, z = -k := ⟨(-z).toNat, by omega⟩
    rw [neg_neg, Int.toNat_natCast]
    split
    · rename_i hlt
      have h := denotes_inside hd (by omega) hlt
      simpa using h
    · rename_i hle
      have h := denotes_before (not_lt.1 hle)
      simpa [zeros, toList_toString] using h

theorem denotes_scientificText {d : Digits} (hd : 0 < d.digits) :
    Denotes (Layout.json.scientific d).toList (d.digits * 10 ^ d.exponent) := by
  obtain ⟨n, z⟩ := d
  obtain ⟨c, ds, hds, -⟩ := toDigits_eq_cons hd
  have htext : (toString n).toList = c :: ds := (toList_toString n).trans hds
  have hlength : (z + (toString n).length - 1 : ℤ) = z + ds.length := by
    rw [length_toString, hds, List.length_cons]
    push_cast
    ring
  have h := denotes_scientific hd hds z
  unfold Layout.scientific
  simp only [hlength, htext]
  cases ds with
  | nil => simpa [exponentText, Layout.json, hds] using h
  | cons second rest => simpa [exponentText, Layout.json] using h

theorem denotes_magnitude (d : Digits) :
    Denotes (Layout.json.magnitude d).toList (d.digits * 10 ^ d.exponent) := by
  unfold Layout.magnitude
  split
  · rename_i hzero
    rw [hzero, Nat.cast_zero, zero_mul]
    refine denotes_fraction rfl (isWhole_toDigits 0) (List.cons_ne_nil '0' [])
      (fun d => isDigit_toDigits (n := 0)) readsExponent_nil ?_
    have hvalue : ofDigits (Nat.toDigits 10 0 ++ ['0']) = 0 := rfl
    rw [hvalue, Nat.cast_zero, zero_mul]
  · rename_i hne
    have hd := Nat.pos_of_ne_zero hne
    simp only [Layout.json]
    split
    · exact denotes_plain hd
    · exact denotes_scientificText hd

/-! ## Doubles -/

/-- A text with the value of a double, or near it, is read as that double. -/
theorem number?_of_denotes {x : Float} {cs : List Char} {negative : Bool} {m : ℕ} {e : ℤ} {v : ℚ}
    (hx : Binary.ofFloat x = .finite negative m e) (hcs : Denotes cs v)
    (hv : if m = 0 then v = 0 else Double.Near m e v) {r : List Char} (hr : Delimits r) :
    number? (if negative then '-' :: (cs ++ r) else cs ++ r) = some (.float x, r) := by
  obtain ⟨hsign, whole, r₁, fraction, r₂, exponent, hwhole, hfraction, hexponent, hdouble,
    hvalue⟩ := hcs r hr
  refine number?_of_parts negative hsign hwhole hfraction hexponent ?_
  have hkind : (fraction.isEmpty && exponent.isNone) = false := by
    rw [Bool.and_eq_false_iff, List.isEmpty_eq_false_iff, Option.isNone_eq_false_iff,
      Option.isSome_iff_ne_none]
    exact hdouble
  obtain ⟨w, hw⟩ : ∃ w : Written, w = ⟨negative, ofDigits (whole ++ fraction),
    exponent.getD 0 - fraction.length⟩ := ⟨_, rfl⟩
  have hread : w.toFloat = x := by
    subst hw
    rcases Nat.eq_zero_or_pos m with rfl | hm
    · rw [if_pos rfl] at hv
      rw [hv] at hvalue
      refine Written.toFloat_zero ?_ hx
      exact_mod_cast (mul_eq_zero.1 hvalue).resolve_right (zpow_ne_zero _ (by norm_num))
    · rw [if_neg hm.ne', ← hvalue] at hv
      exact Written.toFloat_of_near hm hx hv
  have hfinite : x.isFinite = true := isFinite_iff.2 ⟨_, _, _, hx⟩
  unfold numberOf
  simp only [hkind, Bool.false_and, Bool.false_eq_true, if_false]
  rw [← hw, hread, if_pos hfinite]

theorem number?_number {x : Float} (hx : x.isFinite) {r : List Char} (hr : Delimits r) :
    number? ((number x).toList ++ r) = some (.float x, r) := by
  obtain ⟨negative, m, e, hbits⟩ := isFinite_iff.1 hx
  have hdenotes := denotes_magnitude (shortest m e)
  have hnear : if m = 0 then ((shortest m e).digits * 10 ^ (shortest m e).exponent : ℚ) = 0
      else Double.Near m e ((shortest m e).digits * 10 ^ (shortest m e).exponent) := by
    split
    · rename_i hzero
      rw [hzero]
      exact zero_mul _
    · rename_i hne
      exact (near_shortest (Nat.pos_of_ne_zero hne) (significand_lt hbits)).2
  have hread := number?_of_denotes hbits hdenotes hnear hr
  rw [number, Layout.write, hbits]
  cases negative with
  | true => simpa using hread
  | false => simpa using hread

/-- What is not finite has no number. -/
theorem number_of_not_finite {x : Float} (hx : x.isFinite = false) : number x = "null" := by
  rw [number, Layout.write]
  cases hbits : Binary.ofFloat x with
  | nan => rfl
  | infinite negative => cases negative <;> rfl
  | finite negative m e =>
    rw [isFinite_iff.2 ⟨negative, m, e, hbits⟩] at hx
    cases hx

end Backtest.Document.Json
