import Backtest.Document.JsonPrinter
import Backtest.Document.JsonReader
import Backtest.Proofs.Decimal.Digits
import Backtest.Proofs.Digest.Bytes

/-!
# Strings and integers of JSON

A string is read back from its escaped characters, and an integer of 64 bits, with or without sign,
from its digits.
-/

namespace Backtest.Document.Json

open Decimal

/-! ## Strings -/

/-- Reading a character undoes escaping it. -/
theorem stringBody_escape (read : List Char) (c : Char) (r : List Char) :
    stringBody read (escape c ++ r) = stringBody (c :: read) r := by
  unfold escape
  -- the seven characters with an escape of one letter
  iterate 7
    split
    · subst_vars
      rfl
  split
  · rename_i hlow
    have hunit : unit? '0' '0' (c.toNat / 16).digitChar (c.toNat % 16).digitChar =
        some c.toNat := by
      have hzero : Digest.hexValue? '0' = some 0 := rfl
      simp only [unit?, hzero, Digest.hexValue?_digitChar (show c.toNat / 16 < 16 by omega),
        Digest.hexValue?_digitChar (show c.toNat % 16 < 16 by omega)]
      simp only [Option.pure_def, Option.bind_eq_bind, Option.bind_some, Option.some.injEq]
      omega
    have hsurrogate : isLowSurrogate c.toNat = false ∧ isHighSurrogate c.toNat = false := by
      simp only [isLowSurrogate, isHighSurrogate, Bool.and_eq_false_iff, decide_eq_false_iff_not]
      omega
    simp only [List.cons_append, List.nil_append, stringBody, hunit, hsurrogate, Char.ofNat_toNat]
    rfl
  · rename_i hquote hbackslash _ _ _ _ _ hlow
    simp only [List.cons_append, List.nil_append]
    rw [stringBody.eq_def]
    split <;> simp_all

theorem stringBody_flatMap (read cs r : List Char) :
    stringBody read (cs.flatMap escape ++ '"' :: r) =
      some (String.ofList (read.reverse ++ cs), r) := by
  induction cs generalizing read with
  | nil => simp [stringBody]
  | cons c cs ih =>
    rw [List.flatMap_cons, List.append_assoc, stringBody_escape, ih, List.reverse_cons,
      List.append_assoc, List.singleton_append]

theorem toList_string (s : String) (r : List Char) :
    (string s).toList ++ r = '"' :: (s.toList.flatMap escape ++ '"' :: r) := by
  simp [string]

/-- A written string is read back. -/
theorem stringBody_string (s : String) (r : List Char) :
    stringBody [] (s.toList.flatMap escape ++ '"' :: r) = some (s, r) := by
  rw [stringBody_flatMap, List.reverse_nil, List.nil_append, String.ofList_toList]

/-! ## Numbers -/

/-- What may follow a number: nothing that a reader would take for a part of it. -/
def Delimits (r : List Char) : Prop :=
  ∀ c ∈ r.head?, c.isDigit = false ∧ c ≠ '.' ∧ c ≠ 'e' ∧ c ≠ 'E'

theorem Delimits.noDigit {r : List Char} (h : Delimits r) : NoDigit r := fun c hc => (h c hc).1

/-- What stands before a point: a single zero, or digits that do not begin with one. -/
structure IsWhole (ds : List Char) : Prop where
  ne_nil : ds ≠ []
  digits : ∀ d ∈ ds, d.isDigit = true
  zero : ds.head? = some '0' → ds = ['0']

theorem isWhole_of_head {c : Char} {ds : List Char} (hc : c ≠ '0')
    (hds : ∀ d ∈ c :: ds, d.isDigit = true) : IsWhole (c :: ds) where
  ne_nil := nofun
  digits := hds
  zero h := absurd (Option.some.inj h) hc

theorem isWhole_toDigits (n : ℕ) : IsWhole (Nat.toDigits 10 n) := by
  rcases Nat.eq_zero_or_pos n with rfl | hn
  · exact ⟨Nat.toDigits_ne_nil, fun d => isDigit_toDigits, fun _ => rfl⟩
  · obtain ⟨c, ds, hds, hc⟩ := toDigits_eq_cons hn
    rw [hds]
    exact isWhole_of_head hc fun d hd => isDigit_toDigits (hds ▸ hd)

theorem wholePart?_of_isWhole {ds r : List Char} (h : IsWhole ds) (hr : NoDigit r) :
    wholePart? (ds ++ r) = some (ds, r) := by
  have hspan := spanDigits_append h.digits hr
  by_cases hzero : ds.head? = some '0'
  · rw [h.zero hzero]
    cases r with
    | nil => rfl
    | cons c r => simp [wholePart?, hr c rfl]
  · obtain ⟨c, ds, rfl⟩ := List.exists_cons_of_ne_nil h.ne_nil
    rw [List.cons_append] at hspan ⊢
    rw [wholePart?.eq_def]
    split
    · simp_all
    · simp [hspan]

theorem fractionPart?_of_delimits {r : List Char} (hr : Delimits r) :
    fractionPart? r = some ([], r) := by
  cases r with
  | nil => rfl
  | cons c r =>
    have hc := (hr c rfl).2.1
    rw [fractionPart?.eq_def]
    split <;> simp_all

theorem exponentPart?_of_delimits {r : List Char} (hr : Delimits r) :
    exponentPart? r = some (none, r) := by
  cases r with
  | nil => rfl
  | cons c r => simp [exponentPart?, (hr c rfl).2.2.1, (hr c rfl).2.2.2]

/-- A number is read part by part, with a sign before them or without. -/
theorem number?_of_parts {cs r₁ r₂ r : List Char} {whole fraction : List Char}
    {exponent : Option ℤ} {d : Document} (negative : Bool) (hsign : cs.head? ≠ some '-')
    (hwhole : wholePart? cs = some (whole, r₁)) (hfraction : fractionPart? r₁ = some (fraction, r₂))
    (hexponent : exponentPart? r₂ = some (exponent, r))
    (hnumber : numberOf negative whole fraction exponent = some d) :
    number? (if negative then '-' :: cs else cs) = some (d, r) := by
  cases negative with
  | true =>
    simp only [if_true, number?, hwhole, Option.bind_eq_bind, Option.bind_some, hfraction,
      hexponent, hnumber, Option.pure_def]
  | false =>
    simp only [Bool.false_eq_true, if_false, number?]
    split
    · exact absurd rfl hsign
    · simp only [hwhole, Option.bind_eq_bind, Option.bind_some, hfraction, hexponent, hnumber,
        Option.pure_def]

theorem head?_ne_of_isWhole {ds r : List Char} (h : IsWhole ds) : (ds ++ r).head? ≠ some '-' := by
  obtain ⟨c, ds, rfl⟩ := List.exists_cons_of_ne_nil h.ne_nil
  rw [List.cons_append, List.head?_cons]
  rintro ⟨⟩
  exact absurd (h.digits '-' List.mem_cons_self) (by decide)

def Fits (n : ℤ) : Prop := Int64.minValue.toInt ≤ n ∧ n < UInt64.size

theorem numberOf_natural {n : ℕ} (hn : n < UInt64.size) :
    numberOf false (Nat.toDigits 10 n) [] none = some (.int n) := by
  simp [numberOf, ofDigits_toDigits, hn]

theorem numberOf_negative {n : ℕ} (hpos : 0 < n) (hn : Int64.minValue.toInt ≤ -n) :
    numberOf true (Nat.toDigits 10 n) [] none = some (.int (-n)) := by
  have hleast : Int64.minValue.toInt = -9223372036854775808 := rfl
  rw [hleast] at hn
  have hbound : n ≤ 9223372036854775808 := by omega
  simp [numberOf, ofDigits_toDigits, hpos, hbound]

theorem number?_int {n : ℤ} (hn : Fits n) {r : List Char} (hr : Delimits r) :
    number? ((toString n).toList ++ r) = some (.int n, r) := by
  cases n with
  | ofNat n =>
    have hlt : n < UInt64.size := Int.ofNat_lt.1 hn.2
    have htext : (toString (Int.ofNat n)).toList = Nat.toDigits 10 n := toList_toString n
    rw [htext]
    have hwhole := isWhole_toDigits n
    exact number?_of_parts false (head?_ne_of_isWhole hwhole)
      (wholePart?_of_isWhole hwhole hr.noDigit) (fractionPart?_of_delimits hr)
      (exponentPart?_of_delimits hr) (numberOf_natural hlt)
  | negSucc n =>
    have htext : (toString (Int.negSucc n)).toList = '-' :: Nat.toDigits 10 (n + 1) := by
      rw [← toList_toString]
      exact String.toList_append
    rw [htext, List.cons_append]
    have hwhole := isWhole_toDigits (n + 1)
    exact number?_of_parts true (head?_ne_of_isWhole hwhole)
      (wholePart?_of_isWhole hwhole hr.noDigit) (fractionPart?_of_delimits hr)
      (exponentPart?_of_delimits hr) (numberOf_negative (Nat.succ_pos n) hn.1)

end Backtest.Document.Json
