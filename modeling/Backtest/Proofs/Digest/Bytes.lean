import Mathlib.Algebra.Ring.Nat
import Backtest.Digest.Bytes

/-!
# Bytes that can be read back

Little-endian words and hexadecimal texts determine what they were written from. So do the bytes of
a text, among which those from `0xf8` on never occur.
-/

namespace Backtest.Digest

@[simp] theorem length_littleEndian (count n : ℕ) : (littleEndian count n).length = count := by
  induction count generalizing n with
  | zero => rfl
  | succ count ih => rw [littleEndian, List.length_cons, ih]

theorem ofLittleEndian_littleEndian {count n : ℕ} (h : n < 256 ^ count) :
    ofLittleEndian (littleEndian count n) = n := by
  induction count generalizing n with
  | zero => exact (Nat.lt_one_iff.1 h).symm
  | succ count ih =>
    have hrest : n / 256 < 256 ^ count := Nat.div_lt_of_lt_mul (by rwa [← pow_succ'])
    rw [littleEndian, ofLittleEndian, ih hrest, UInt8.toNat_ofNat']
    exact Nat.mod_add_div n 256

theorem littleEndian_inj {count n k : ℕ} (hn : n < 256 ^ count) (hk : k < 256 ^ count) :
    littleEndian count n = littleEndian count k ↔ n = k := by
  constructor
  · intro h
    rw [← ofLittleEndian_littleEndian hn, h, ofLittleEndian_littleEndian hk]
  · exact congrArg _

/-! ## Texts -/

theorem utf8_inj {s t : String} : utf8 s = utf8 t ↔ s = t := by
  rw [utf8, utf8, Array.toList_inj, ← ByteArray.ext_iff, String.toUTF8_eq_toByteArray,
    String.toUTF8_eq_toByteArray, String.toByteArray_inj]

theorem utf8_eq_flatMap (s : String) : utf8 s = s.toList.flatMap String.utf8EncodeChar := by
  rw [utf8, String.toUTF8_eq_toByteArray, ← String.utf8Encode_toList, List.utf8Encode,
    List.toList_data_toByteArray]

/-- The first byte of a character is the largest, and has five high bits in use at most. -/
theorem lt_of_mem_utf8EncodeChar {c : Char} {b : UInt8} (h : b ∈ String.utf8EncodeChar c) :
    b.toNat < 0xf8 := by
  unfold String.utf8EncodeChar at h
  simp only at h
  split at h
  · simp only [List.mem_singleton] at h
    subst h
    simp only [UInt8.toNat_ofNat']
    omega
  · split at h
    · simp only [List.mem_cons, List.not_mem_nil, or_false] at h
      rcases h with rfl | rfl <;> simp only [UInt8.toNat_ofNat'] <;> omega
    · split at h
      · simp only [List.mem_cons, List.not_mem_nil, or_false] at h
        rcases h with rfl | rfl | rfl <;> simp only [UInt8.toNat_ofNat'] <;> omega
      · simp only [List.mem_cons, List.not_mem_nil, or_false] at h
        rcases h with rfl | rfl | rfl | rfl <;> simp only [UInt8.toNat_ofNat'] <;> omega

theorem not_mem_utf8 {b : UInt8} (hb : 0xf8 ≤ b.toNat) (s : String) : b ∉ utf8 s := by
  rw [utf8_eq_flatMap, List.mem_flatMap]
  rintro ⟨c, -, hc⟩
  exact absurd (lt_of_mem_utf8EncodeChar hc) hb.not_gt

/-! ## Hexadecimal digits -/

theorem hexValue?_digitChar {n : ℕ} (h : n < 16) : hexValue? n.digitChar = some n := by
  have hall : ∀ n < 16, hexValue? n.digitChar = some n := by decide
  exact hall n h

theorem hexValue?_hexDigit (n : ℕ) : hexValue? (hexDigit n) = some (n % 16) :=
  hexValue?_digitChar (Nat.mod_lt n (by decide))

theorem ofHex?_hex (bytes : List UInt8) : ofHex? (hex bytes).toList = some bytes := by
  rw [hex, String.toList_ofList]
  induction bytes with
  | nil => rfl
  | cons b bytes ih =>
    have hbyte : UInt8.ofNat (16 * (b.toNat / 16 % 16) + b.toNat % 16) = b := by
      have hlt := b.toNat_lt
      rw [show 16 * (b.toNat / 16 % 16) + b.toNat % 16 = b.toNat by omega, UInt8.ofNat_toNat]
    simp only [List.flatMap_cons, List.cons_append, List.nil_append, ofHex?, hexValue?_hexDigit, ih,
      Option.bind_eq_bind, Option.bind_some, hbyte, Option.pure_def]

theorem hex_inj {bytes bytes' : List UInt8} : hex bytes = hex bytes' ↔ bytes = bytes' := by
  constructor
  · intro h
    have hread := congrArg (fun s : String => ofHex? s.toList) h
    simp only [ofHex?_hex] at hread
    exact Option.some.inj hread
  · exact congrArg hex

end Backtest.Digest
