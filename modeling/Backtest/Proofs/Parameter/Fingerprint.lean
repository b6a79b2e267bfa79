import Backtest.Parameter.Fingerprint
import Backtest.Proofs.Digest.Bytes
import Backtest.Proofs.NameMap
import Backtest.Scalar.Double

/-!
# What a fingerprint identifies

Doubles are the same if the words that represent them are, and then they are equal; so are
assignments of doubles.

The bytes of an assignment determine it. A name ends at the first byte that UTF-8 never uses; the
tag behind it tells how long the value is, or that the value is a text and ends at the next such
byte. So each entry can be cut off the front, whatever follows it. Equal fingerprints of different
assignments are therefore a collision of the hash.
-/

namespace Backtest

/-- Two different byte strings with the same hash. -/
def Digest.Collides (hash : List UInt8 → List UInt8) (x y : List UInt8) : Prop :=
  x ≠ y ∧ hash x = hash y

/-! ## Sameness -/

theorem Double.toBits_inj {x y : Float} : x.toBits = y.toBits ↔ x = y := by
  refine ⟨fun h => ?_, congrArg Float.toBits⟩
  have hmodel : x.toModel.toBits = y.toModel.toBits := h
  obtain ⟨⟨_, _⟩⟩ := x
  obtain ⟨⟨_, _⟩⟩ := y
  cases hmodel
  rfl

theorem Double.same_iff {x y : Float} : Scalar.same x y = true ↔ x = y := by
  change (x.toBits == y.toBits) = true ↔ x = y
  rw [beq_iff_eq, toBits_inj]

namespace Parameter

theorem Value.same_iff {v w : Value Float} : v.same w = true ↔ v = w := by
  cases v <;> cases w <;> simp [Value.same, Double.same_iff]

theorem Value.map_toBits_inj {v w : Value Float} :
    v.map Float.toBits = w.map Float.toBits ↔ v = w := by
  cases v <;> cases w <;> simp [Value.map, Double.toBits_inj]

theorem Assignment.same_iff {a b : Assignment Float} : a.same b = true ↔ a = b :=
  NameMap.beqBy_iff fun _ _ => Value.same_iff

theorem Assignment.words_inj {a b : Assignment Float} : a.words = b.words ↔ a = b := by
  refine ⟨fun h => NameMap.ext_get? fun k => ?_, congrArg words⟩
  have hget := congrArg (·.get? k) h
  simp only [words, NameMap.get?_map] at hget
  exact Option.map_injective (fun _ _ => Value.map_toBits_inj.1) hget

/-! ## Cutting off the front -/

variable {v w : Value UInt64} {e f : String × Value UInt64} {rest rest' : List UInt8}

/-- A text ends where a byte follows that UTF-8 never uses. -/
theorem utf8_append_inj {s t : String} {mark : UInt8} (hmark : 0xf8 ≤ mark.toNat)
    (h : Digest.utf8 s ++ mark :: rest = Digest.utf8 t ++ mark :: rest') :
    s = t ∧ rest = rest' := by
  have hlength := congrArg (List.idxOf mark) h
  rw [List.idxOf_append_of_notMem (Digest.not_mem_utf8 hmark s),
    List.idxOf_append_of_notMem (Digest.not_mem_utf8 hmark t), List.idxOf_cons_self,
    List.idxOf_cons_self, Nat.add_zero, Nat.add_zero] at hlength
  obtain ⟨htext, hrest⟩ := List.append_inj h hlength
  exact ⟨Digest.utf8_inj.1 htext, (List.cons.inj hrest).2⟩

/-- A word takes eight bytes. -/
theorem word_append_inj {x y : UInt64}
    (h : Digest.littleEndian 8 x.toNat ++ rest = Digest.littleEndian 8 y.toNat ++ rest') :
    x = y ∧ rest = rest' := by
  obtain ⟨hword, hrest⟩ := List.append_inj h (by simp)
  rw [Digest.littleEndian_inj x.toNat_lt y.toNat_lt] at hword
  exact ⟨UInt64.toNat_inj.1 hword, hrest⟩

theorem Value.encode_append_inj (h : v.encode ++ 0xfe :: rest = w.encode ++ 0xfe :: rest') :
    v = w ∧ rest = rest' := by
  cases v with
  | int n =>
    cases w with
    | int k =>
      obtain ⟨hword, hrest⟩ := word_append_inj (List.cons.inj h).2
      exact ⟨congrArg (fun word => Value.int ⟨word⟩) hword, (List.cons.inj hrest).2⟩
    | float y => cases (List.cons.inj h).1
    | choice t => cases (List.cons.inj h).1
  | float x =>
    cases w with
    | int k => cases (List.cons.inj h).1
    | float y =>
      obtain ⟨rfl, hrest⟩ := word_append_inj (List.cons.inj h).2
      exact ⟨rfl, (List.cons.inj hrest).2⟩
    | choice t => cases (List.cons.inj h).1
  | choice s =>
    cases w with
    | int k => cases (List.cons.inj h).1
    | float y => cases (List.cons.inj h).1
    | choice t =>
      obtain ⟨rfl, hrest⟩ := utf8_append_inj (by decide) (List.cons.inj h).2
      exact ⟨rfl, hrest⟩

/-- The bytes that end names and entries occur inside words as well. -/
example : (Value.int (-257)).encode = [0, 0xff, 0xfe, 0xff, 0xff, 0xff, 0xff, 0xff, 0xff] := by
  decide

theorem encodeEntry_append_inj (h : encodeEntry e ++ rest = encodeEntry f ++ rest') :
    e = f ∧ rest = rest' := by
  simp only [encodeEntry, List.append_assoc, List.cons_append, List.nil_append] at h
  obtain ⟨hname, hvalue⟩ := utf8_append_inj (by decide) h
  obtain ⟨hsame, hrest⟩ := Value.encode_append_inj hvalue
  exact ⟨Prod.ext hname hsame, hrest⟩

theorem encodeEntry_ne_nil (e : String × Value UInt64) : encodeEntry e ≠ [] := by
  simp [encodeEntry]

/-! ## Whole assignments -/

/-- Entries are cut off one after another, and none is left when the bytes end. -/
theorem flatMap_encodeEntry_injective :
    Function.Injective fun entries : List (String × Value UInt64) =>
      entries.flatMap encodeEntry := by
  intro l
  induction l with
  | nil =>
    intro l' h
    cases l' with
    | nil => rfl
    | cons f l' => exact absurd (List.append_eq_nil_iff.1 h.symm).1 (encodeEntry_ne_nil f)
  | cons e l ih =>
    intro l' h
    cases l' with
    | nil => exact absurd (List.append_eq_nil_iff.1 h).1 (encodeEntry_ne_nil e)
    | cons f l' =>
      obtain ⟨rfl, hrest⟩ := encodeEntry_append_inj h
      rw [ih hrest]

namespace Assignment

theorem encode_inj {a b : Assignment UInt64} : a.encode = b.encode ↔ a = b :=
  ⟨fun h => NameMap.ext (flatMap_encodeEntry_injective h), congrArg encode⟩

theorem wordsFingerprint_eq_iff {a b : Assignment UInt64} :
    a.wordsFingerprint = b.wordsFingerprint ↔
      a = b ∨ Digest.Collides Digest.Blake3.hash a.encode b.encode := by
  rw [wordsFingerprint, wordsFingerprint, Digest.hex_inj, Digest.Collides, Ne, encode_inj]
  constructor
  · intro h
    by_cases hab : a = b
    · exact .inl hab
    · exact .inr ⟨hab, h⟩
  · rintro (rfl | ⟨-, h⟩)
    · rfl
    · exact h

/-- Assignments with any words as numbers, which covers every NaN and both zeros, are written as the
same bytes if and only if they are equal. So equal fingerprints of different ones are a collision of
the hash; for assignments of doubles, different means that some name holds values that are not the
same, bit for bit. -/
theorem fingerprint_identifies :
    (∀ a b : Assignment UInt64, a.encode = b.encode ↔ a = b) ∧
    (∀ a b : Assignment UInt64, a.wordsFingerprint = b.wordsFingerprint ↔
      a = b ∨ Digest.Collides Digest.Blake3.hash a.encode b.encode) ∧
    ∀ a b : Assignment Float, a.fingerprint = b.fingerprint ↔
      a.same b = true ∨ Digest.Collides Digest.Blake3.hash a.words.encode b.words.encode := by
  refine ⟨fun _ _ => encode_inj, fun _ _ => wordsFingerprint_eq_iff, fun a b => ?_⟩
  rw [fingerprint, fingerprint, wordsFingerprint_eq_iff, words_inj, same_iff]

end Assignment

end Parameter

end Backtest
