import Mathlib.Algebra.Order.Field.Power
import Mathlib.Algebra.Order.Field.Rat
import Mathlib.Tactic.IntervalCases
import Mathlib.Tactic.Positivity
import Backtest.Decimal.Layout
import Backtest.Decimal.Reading

/-!
# Runs of decimal digits

A natural number is written in digits that denote it, the first of which is no zero unless it is the
only one. A reader that takes digits as long as there are any finds the end of such a run.
-/

namespace Backtest.Decimal

theorem toList_toString (n : ℕ) : (toString n).toList = Nat.toDigits 10 n := by
  rw [Nat.toString_eq_repr, Nat.toList_repr]

theorem length_toString (n : ℕ) : (toString n).length = (Nat.toDigits 10 n).length := by
  rw [← String.length_toList, toList_toString]

theorem isDigit_toDigits {n : ℕ} {c : Char} (h : c ∈ Nat.toDigits 10 n) : c.isDigit = true :=
  Nat.isDigit_of_mem_toDigits (by decide) (by decide) h

theorem isDigit_replicate_zero {n : ℕ} {c : Char} (h : c ∈ List.replicate n '0') :
    c.isDigit = true := by
  rw [List.eq_of_mem_replicate h]
  rfl

theorem toDigits_eq_cons {n : ℕ} (h : 0 < n) : ∃ c ds, Nat.toDigits 10 n = c :: ds ∧ c ≠ '0' := by
  induction n using Nat.strong_induction_on with
  | h n ih =>
    rcases lt_or_ge n 10 with hlt | hge
    · refine ⟨n.digitChar, [], Nat.toDigits_of_lt_base hlt, ?_⟩
      interval_cases n <;> decide
    · obtain ⟨c, ds, hds, hc⟩ := ih (n / 10) (by omega) (by omega)
      refine ⟨c, ds ++ [(n % 10).digitChar], ?_, hc⟩
      rw [Nat.toDigits_of_base_le (by decide) hge, hds, List.cons_append]

/-! ## What digits denote -/

theorem ofDigits_append (a b : List Char) :
    ofDigits (a ++ b) = ofDigits a * 10 ^ b.length + ofDigits b := by
  change Nat.ofDigitChars 10 (a ++ b) 0 =
    Nat.ofDigitChars 10 a 0 * 10 ^ b.length + Nat.ofDigitChars 10 b 0
  rw [Nat.ofDigitChars_append, Nat.ofDigitChars_eq_ofDigitChars_zero, mul_comm]

theorem ofDigits_replicate_zero (n : ℕ) : ofDigits (List.replicate n '0') = 0 :=
  Nat.ofDigitChars_replicate_zero.trans (Nat.mul_zero _)

theorem ofDigits_toDigits (n : ℕ) : ofDigits (Nat.toDigits 10 n) = n :=
  Nat.ofDigitChars_ten_toDigits

/-- Digits denote a number of no more digits. -/
theorem ofDigits_lt {ds : List Char} (h : ∀ c ∈ ds, c.isDigit = true) :
    ofDigits ds < 10 ^ ds.length := by
  induction ds using List.reverseRecOn with
  | nil => decide
  | append_singleton ds c ih =>
    obtain ⟨hds, hc⟩ := List.forall_mem_append.1 h
    have hdigit : ofDigits [c] < 10 := by
      have hc := hc c List.mem_cons_self
      simp only [Char.isDigit, Bool.and_eq_true, decide_eq_true_eq] at hc
      have hnine : c.toNat ≤ 57 := UInt32.le_iff_toNat_le.1 hc.2
      have hvalue : ofDigits [c] = c.toNat - 48 := Nat.zero_add _
      omega
    have hrest := ih hds
    rw [ofDigits_append, List.length_append, List.length_singleton, pow_succ]
    omega

theorem toString_injective : Function.Injective (toString : ℕ → String) := by
  intro m n h
  have hdigits := congrArg String.toList h
  rw [toList_toString, toList_toString] at hdigits
  rw [← ofDigits_toDigits m, hdigits, ofDigits_toDigits]

def NoDigit (r : List Char) : Prop := ∀ c ∈ r.head?, c.isDigit = false

theorem noDigit_nil : NoDigit [] := by
  intro c hc
  cases hc

theorem noDigit_cons {c : Char} {r : List Char} (h : c.isDigit = false) : NoDigit (c :: r) := by
  intro d hd
  cases hd
  exact h

theorem spanDigits_append {ds r : List Char} (hds : ∀ c ∈ ds, c.isDigit = true)
    (hr : NoDigit r) : spanDigits (ds ++ r) = (ds, r) := by
  have htake : r.takeWhile Char.isDigit = [] := by
    cases r with
    | nil => rfl
    | cons c r => simp [hr c rfl]
  have hdrop : r.dropWhile Char.isDigit = r := by
    cases r with
    | nil => rfl
    | cons c r => simp [hr c rfl]
  rw [spanDigits, List.takeWhile_append_of_pos hds, List.dropWhile_append_of_pos hds, htake, hdrop,
    List.append_nil]

/-- How large a number of so many digits is. -/
theorem pow_digitCount_le {n : ℕ} (h : 0 < n) : 10 ^ (digitCount n - 1) ≤ n := by
  rcases Nat.eq_zero_or_pos (digitCount n - 1) with hzero | hpos
  · rwa [hzero]
  · rw [← not_lt, ← Nat.length_toDigits_le_iff (by decide) hpos]
    unfold digitCount at hpos ⊢
    omega

theorem lt_pow_digitCount (n : ℕ) : n < 10 ^ digitCount n :=
  (Nat.length_toDigits_le_iff (by decide) Nat.length_toDigits_pos).1 le_rfl

theorem digitCount_pos (n : ℕ) : 0 < digitCount n := Nat.length_toDigits_pos

/-! ## Sizes of decimals -/

theorem two_zpow_le_ten_zpow (k : ℕ) : (2 : ℚ) ^ (3 * k : ℤ) ≤ 10 ^ (k : ℤ) := by
  rw [zpow_mul, zpow_natCast, zpow_natCast]
  exact pow_le_pow_left₀ (by norm_num) (by norm_num) k

theorem zpow_digitCount_le {n : ℕ} (hn : 0 < n) (z : ℤ) :
    (10 : ℚ) ^ ((digitCount n - 1 : ℤ) + z) ≤ n * 10 ^ z := by
  have hcount := digitCount_pos n
  rw [zpow_add₀ (by norm_num), show (digitCount n - 1 : ℤ) = (digitCount n - 1 : ℕ) by omega,
    zpow_natCast]
  refine mul_le_mul_of_nonneg_right ?_ (by positivity)
  exact_mod_cast pow_digitCount_le hn

theorem lt_zpow_digitCount (n : ℕ) (z : ℤ) :
    (n * 10 ^ z : ℚ) < 10 ^ ((digitCount n : ℤ) + z) := by
  rw [zpow_add₀ (by norm_num), zpow_natCast]
  refine mul_lt_mul_of_pos_right ?_ (by positivity)
  exact_mod_cast lt_pow_digitCount n

end Backtest.Decimal
