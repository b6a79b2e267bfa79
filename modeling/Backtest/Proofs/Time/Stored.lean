import Backtest.Proofs.Decimal.Digits
import Backtest.Time.Printer
import Backtest.Time.Reader

/-!
# Stored timestamps

A timestamp is read back from its exact text: every directive of the stored pattern takes the digits
that its part was written with and stops before the separator.
-/

namespace Backtest

open Decimal

/-! ## Padded numbers -/

theorem toList_padded (width n : ℕ) :
    (padded width n).toList =
      List.replicate (width - digitCount n) '0' ++ Nat.toDigits 10 n := by
  have hlength : (toString n).length = digitCount n := length_toString n
  rw [padded, String.toList_append, String.toList_ofList, hlength, toList_toString]

theorem isDigit_padded {width n : ℕ} {c : Char} (h : c ∈ (padded width n).toList) :
    c.isDigit = true := by
  rw [toList_padded] at h
  rcases List.mem_append.1 h with h | h
  · exact isDigit_replicate_zero h
  · exact isDigit_toDigits h

theorem ofDigits_padded (width n : ℕ) : ofDigits (padded width n).toList = n := by
  rw [toList_padded, ofDigits_append, ofDigits_replicate_zero, zero_mul, zero_add,
    ofDigits_toDigits]

theorem digitCount_le {width n : ℕ} (hwidth : 0 < width) (h : n < 10 ^ width) :
    digitCount n ≤ width :=
  (Nat.length_toDigits_le_iff (by decide) hwidth).2 h

theorem length_padded {width n : ℕ} (hwidth : 0 < width) (h : n < 10 ^ width) :
    (padded width n).toList.length = width := by
  rw [toList_padded, List.length_append, List.length_replicate]
  exact Nat.sub_add_cancel (digitCount_le hwidth h)

theorem padded_ne_nil (width n : ℕ) : (padded width n).toList ≠ [] := by
  rw [toList_padded]
  exact List.append_ne_nil_of_right_ne_nil _ Nat.toDigits_ne_nil

namespace Time

theorem digits?_append {width : ℕ} {ds r : List Char} (hne : ds ≠ [])
    (htake : ((ds ++ r).take width).takeWhile Char.isDigit = ds) :
    digits? width (ds ++ r) = some (ofDigits ds, r) := by
  simp [digits?, htake, hne]

theorem takeWhile_isDigit {ds r : List Char} (hds : ∀ c ∈ ds, c.isDigit = true) (hr : NoDigit r) :
    (ds ++ r).takeWhile Char.isDigit = ds :=
  congrArg Prod.fst (spanDigits_append hds hr)

theorem digits?_padded {width n : ℕ} (hwidth : 0 < width) (h : n < 10 ^ width) (r : List Char) :
    digits? width ((padded width n).toList ++ r) = some (n, r) := by
  have hlength := length_padded hwidth h
  have htake : (((padded width n).toList ++ r).take width).takeWhile Char.isDigit =
      (padded width n).toList := by
    have hall := takeWhile_isDigit
      (fun c (hc : c ∈ (padded width n).toList) => isDigit_padded hc) noDigit_nil
    rw [List.append_nil] at hall
    rw [List.take_append_of_le_length hlength.ge, List.take_of_length_le hlength.le, hall]
  rw [digits?_append (padded_ne_nil width n) htake, ofDigits_padded]

theorem allDigits?_padded (width n : ℕ) {r : List Char} (hr : NoDigit r) :
    allDigits? ((padded width n).toList ++ r) = some (n, r) := by
  have htake := takeWhile_isDigit
    (fun c (hc : c ∈ (padded width n).toList) => isDigit_padded hc) hr
  rw [allDigits?, digits?_append (padded_ne_nil width n) (by rwa [List.take_length]),
    ofDigits_padded]

theorem isBlank_of_isDigit {c : Char} (h : c.isDigit = true) : Text.isBlank c = false := by
  simp only [Char.isDigit, Bool.and_eq_true, decide_eq_true_eq] at h
  have hlow : 48 ≤ c.toNat := UInt32.le_iff_toNat_le.1 h.1
  have hhigh : c.toNat ≤ 57 := UInt32.le_iff_toNat_le.1 h.2
  have hapart : ∀ range ∈ Text.blankRanges, range.2 < 48 ∨ 57 < range.1 := by decide
  rw [Text.isBlank, List.any_eq_false]
  intro range hrange
  have := hapart range hrange
  simp only [Bool.and_eq_true, decide_eq_true_eq]
  omega

theorem trimLeft_of_isDigit {ds r : List Char} (hne : ds ≠ []) (hds : ∀ c ∈ ds, c.isDigit = true) :
    Text.trimLeft (ds ++ r) = ds ++ r := by
  obtain ⟨c, ds, rfl⟩ := List.exists_cons_of_ne_nil hne
  refine List.dropWhile_cons_of_neg ?_
  rw [isBlank_of_isDigit (hds c List.mem_cons_self)]
  exact Bool.false_ne_true

theorem upTo?_padded {limit n : ℕ} (hn : n ≤ limit) (hlimit : limit < 100) (r : List Char) :
    upTo? limit ((padded 2 n).toList ++ r) = some (n, r) := by
  rw [upTo?, trimLeft_of_isDigit (padded_ne_nil 2 n) fun c hc => isDigit_padded hc,
    digits?_padded (by decide) (by omega)]
  exact if_pos hn

theorem trimLeft_cons {c : Char} (h : Text.isBlank c = false) (r : List Char) :
    Text.trimLeft (c :: r) = c :: r :=
  List.dropWhile_cons_of_neg (by rw [h]; exact Bool.false_ne_true)

/-- A year of four digits, or one with its sign. -/
theorem year?_yearText (year : ℤ) {r : List Char} (hr : NoDigit r) :
    year? (Text.trimLeft ((Date.yearText year).toList ++ r)) = some (year, r) := by
  unfold Date.yearText
  split
  · rename_i hshort
    have hread : digits? 4 ((padded 4 year.toNat).toList ++ r) = some (year.toNat, r) :=
      digits?_padded (by decide) (by omega) r
    have hdigit : ∀ c ∈ (padded 4 year.toNat).toList, c.isDigit = true :=
      fun c hc => isDigit_padded hc
    rw [trimLeft_of_isDigit (padded_ne_nil 4 _) hdigit]
    obtain ⟨c, ds, hds⟩ := List.exists_cons_of_ne_nil (padded_ne_nil 4 year.toNat)
    rw [hds] at hread hdigit ⊢
    have hc := hdigit c List.mem_cons_self
    rw [List.cons_append] at hread ⊢
    rw [year?.eq_def]
    split
    · simp_all
    · simp_all
    · rw [hread, Option.map_some]
      dsimp only
      rw [Int.toNat_of_nonneg hshort.1]
  · have hread := allDigits?_padded 4 year.natAbs hr
    rw [String.toList_append, List.append_assoc]
    split
    · rename_i hneg
      rw [show "-".toList = ['-'] from rfl, List.singleton_append, trimLeft_cons (by decide), year?,
        hread, Option.map_some]
      dsimp only
      rw [Int.ofNat_natAbs_of_nonpos hneg.le, neg_neg]
    · rename_i hneg
      rw [show "+".toList = ['+'] from rfl, List.singleton_append, trimLeft_cons (by decide), year?,
        hread, Option.map_some]
      dsimp only
      rw [Int.natAbs_of_nonneg (not_lt.1 hneg)]

theorem nanos?_padded {width n : ℕ} (hwidth : 0 < width) (hnine : width ≤ 9) (h : n < 10 ^ width) :
    nanos? (padded width n).toList = some (n * 10 ^ (9 - width), []) := by
  have htake := takeWhile_isDigit
    (fun c (hc : c ∈ (padded width n).toList) => isDigit_padded hc) noDigit_nil
  rw [List.append_nil] at htake
  have hlength := length_padded hwidth h
  have hne : (padded width n).toList.isEmpty = false :=
    List.isEmpty_eq_false_iff.2 (padded_ne_nil _ _)
  have hrest : (padded width n).toList.drop width = [] := List.drop_eq_nil_of_le hlength.le
  simp only [nanos?, htake, List.take_of_length_le (hlength.trans_le hnine), hne,
    Bool.false_eq_true, if_false, hlength, hrest, ofDigits_padded, Nat.pow_eq]

/-- The digits after the point, as few as show all nanoseconds, denote the nanoseconds. -/
theorem read_fraction (t : Timestamp) {p : Parts} (hp : p.nano = 0) :
    Directive.fraction.read p t.fractionText.toList =
      some ({ p with nano := t.nano % Timestamp.nanosPerSecond }, []) := by
  have hlt : t.nano % Timestamp.nanosPerSecond < 1000000000 := Nat.mod_lt _ (by decide)
  have hpoint (width n : ℕ) (hwidth : 0 < width) (hnine : width ≤ 9) (h : n < 10 ^ width) :
      Directive.fraction.read p ("." ++ padded width n).toList =
        some ({ p with nano := n * 10 ^ (9 - width) }, []) := by
    rw [String.toList_append, show ".".toList = ['.'] from rfl, List.singleton_append,
      Directive.read, nanos?_padded hwidth hnine h]
    rfl
  unfold Timestamp.fractionText
  dsimp only
  split
  · rename_i hzero
    rw [hzero, ← hp]
    rfl
  · split
    · rename_i hmillis
      rw [hpoint 3 _ (by decide) (by decide) (by omega)]
      congr 3
      omega
    · split
      · rename_i hmicros
        rw [hpoint 6 _ (by decide) (by decide) (by omega)]
        congr 3
        omega
      · rw [hpoint 9 _ (by decide) (by decide) (by omega)]
        congr 3
        omega

theorem daysInMonth_le (year : ℤ) (month : ℕ) : Date.daysInMonth year month ≤ 31 := by
  unfold Date.daysInMonth
  split_ifs <;> decide

/-- A separator is read, and blanks before it are not missed. -/
theorem readParts_separator (p : Parts) {c : Char} (hc : Text.isBlank c = false)
    (ds : List Directive) (r : List Char) :
    readParts (.blanks :: .literal c :: ds) p (c :: r) = readParts ds p r := by
  simp [readParts, Directive.read, trimLeft_cons hc]

end Time

def Timestamp.parts (t : Timestamp) : Time.Parts :=
  ⟨t.date.year, t.date.month, t.date.day, t.clock.1, t.clock.2.1, t.clock.2.2,
    t.nano % nanosPerSecond⟩

/-- The parts have the digits that a pattern has room for. -/
theorem Timestamp.parts_le (t : Timestamp) :
    t.date.month ≤ 99 ∧ t.date.day ≤ 99 ∧ t.clock.1 ≤ 23 ∧ t.clock.2.1 ≤ 59 ∧
      t.clock.2.2 ≤ 60 := by
  obtain ⟨-, -, -, hmonth, -, hday⟩ := t.valid.isValid
  have hday := hday.trans (Time.daysInMonth_le _ _)
  have hinDay : t.second < 86400 := t.valid.second_lt
  have hsecond : t.clock.2.2 ≤ 60 := by
    simp only [clock]
    split <;> omega
  refine ⟨by omega, by omega, ?_, ?_, hsecond⟩ <;> simp only [clock] <;> omega

theorem Timestamp.ofParts?_eq_some (t : Timestamp) : ofParts? t.date t.second t.nano = some t :=
  dif_pos t.valid

/-- A time is made of its parts. -/
theorem Timestamp.toTimestamp?_parts (t : Timestamp) : t.parts.toTimestamp? = some t := by
  have hday : secondsPerDay = 86400 := rfl
  have hnanos : nanosPerSecond = 1000000000 := rfl
  have hsecond := t.valid.second_lt
  have hnano := t.valid.nano_lt
  have hminutes : (t.second / 3600 * 60 + t.second / 60 % 60) * 60 + t.second % 60 = t.second := by
    omega
  rw [Time.Parts.toTimestamp?, Time.Parts.date, parts, clock]
  by_cases hleap : nanosPerSecond ≤ t.nano
  · have hlast : t.second % 60 = 59 := by omega
    have hrest : nanosPerSecond + t.nano % nanosPerSecond = t.nano := by
      rw [hnanos] at *
      omega
    rw [hlast] at hminutes
    simp only [if_pos hleap, hlast, hminutes, hrest, Nat.reduceAdd, if_true]
    exact t.ofParts?_eq_some
  · have hrest : t.nano % nanosPerSecond = t.nano := Nat.mod_eq_of_lt (not_le.1 hleap)
    have hne : t.second % 60 ≠ 60 := by omega
    simp only [if_neg hleap, Nat.add_zero, if_neg hne, hminutes, hrest]
    exact t.ofParts?_eq_some

namespace Time

/-- The parts of a timestamp are read back from its exact text. -/
theorem readParts_exact (t : Timestamp) :
    readParts storedPattern {} t.exact.toList = some t.parts := by
  obtain ⟨hmonth, hday, hhour, hminute, hsecond⟩ := t.parts_le
  have htext : t.exact.toList = (Date.yearText t.date.year).toList ++ ('-' ::
      ((padded 2 t.date.month).toList ++ ('-' :: ((padded 2 t.date.day).toList ++ ('T' ::
        ((padded 2 t.clock.1).toList ++ (':' :: ((padded 2 t.clock.2.1).toList ++ (':' ::
          ((padded 2 t.clock.2.2).toList ++ t.fractionText.toList)))))))))) := by
    simp [Timestamp.exact, Timestamp.clockText, Date.text]
  have hblank : Text.isBlank '-' = false ∧ Text.isBlank 'T' = false ∧ Text.isBlank ':' = false := by
    decide
  rw [htext, storedPattern, readParts, Directive.read, year?_yearText _ (noDigit_cons rfl),
    Option.map_some]
  simp only [readParts_separator _ hblank.1]
  rw [readParts, Directive.read, upTo?_padded hmonth (by decide), Option.map_some]
  simp only [readParts_separator _ hblank.1]
  rw [readParts, Directive.read, upTo?_padded hday (by decide), Option.map_some]
  simp only [readParts_separator _ hblank.2.1]
  rw [readParts, Directive.read, upTo?_padded hhour (by decide), Option.map_some]
  simp only [readParts_separator _ hblank.2.2]
  rw [readParts, Directive.read, upTo?_padded hminute (by decide), Option.map_some]
  simp only [readParts_separator _ hblank.2.2]
  rw [readParts, Directive.read, upTo?_padded hsecond (by decide), Option.map_some]
  dsimp only
  rw [readParts, read_fraction _ rfl]
  rfl

/-- A stored timestamp is read back. -/
theorem stored?_exact (t : Timestamp) : stored? t.exact = some t := by
  rw [stored?, readParts_exact, Option.bind_some, t.toTimestamp?_parts]

end Time

end Backtest
