import Mathlib.Data.List.TakeWhile
import Backtest.Proofs.Time.Stored

/-!
# Times that are refused

What follows a pattern is a time unless its date is not in the calendar: the clock is one that can
be shown, and a leap second the last of a minute. An offset from UTC moves a time by less than a day
and by whole minutes, from a year of four digits, so it leads out of neither the calendar nor the
leap second.
-/

namespace Backtest

open Decimal

/-! ## Neighbouring days -/

namespace Date

variable {d : Date}

theorem daysInMonth_pos (year : ℤ) (month : ℕ) : 1 ≤ daysInMonth year month := by
  unfold daysInMonth
  split_ifs <;> decide

theorem isValid_next (h : d.IsValid) (hyear : d.year < greatestYear) : d.next.IsValid := by
  obtain ⟨hleast, hgreatest, hmonth, htwelve, hday, hlast⟩ := h
  unfold next
  split
  · exact ⟨hleast, hgreatest, hmonth, htwelve, Nat.le_add_left 1 _, ‹_›⟩
  · split
    · exact ⟨hleast, hgreatest, Nat.le_add_left 1 _, ‹_›, le_rfl, daysInMonth_pos _ _⟩
    · exact ⟨by dsimp only; omega, hyear, le_rfl, Nat.le_add_left 1 11, le_rfl, daysInMonth_pos _ _⟩

theorem isValid_previous (h : d.IsValid) (hyear : leastYear < d.year) : d.previous.IsValid := by
  obtain ⟨hleast, hgreatest, hmonth, htwelve, hday, hlast⟩ := h
  unfold previous
  split
  · exact ⟨hleast, hgreatest, hmonth, htwelve, by dsimp only; omega, by dsimp only; omega⟩
  · split
    · exact ⟨hleast, hgreatest, by dsimp only; omega, by dsimp only; omega, daysInMonth_pos _ _,
        le_rfl⟩
    · exact ⟨by dsimp only; omega, by dsimp only; omega, Nat.le_add_left 1 11, le_rfl,
        Nat.le_add_left 1 30, le_rfl⟩

/-- A day away from a date inside the calendar there is a date of the calendar. -/
theorem isValid_addDays (h : d.IsValid) (hleast : leastYear < d.year)
    (hgreatest : d.year < greatestYear) {days : ℤ} (hnear : days.natAbs ≤ 1) :
    (d.addDays days).IsValid := by
  obtain rfl | rfl | rfl : days = -1 ∨ days = 0 ∨ days = 1 := by omega
  · exact isValid_previous h hleast
  · exact h
  · exact isValid_next h hgreatest

end Date

theorem Timestamp.isSome_ofParts?_iff {date : Date} {second nano : ℕ} :
    (ofParts? date second nano).isSome ↔ IsTime date second nano := by
  unfold ofParts?
  split <;> simpa

/-- Less than a day away, by whole minutes, there is a time. -/
theorem Timestamp.isSome_addSeconds {t : Timestamp} (hleast : Date.leastYear < t.date.year)
    (hgreatest : t.date.year < Date.greatestYear) {seconds : ℤ}
    (hday : seconds.natAbs < secondsPerDay) (hminute : 60 ∣ seconds) :
    (t.addSeconds seconds).isSome := by
  have hsecond := t.valid.second_lt
  have hlength : secondsPerDay = 86400 := rfl
  rw [hlength] at hsecond hday
  refine isSome_ofParts?_iff.2 ⟨Date.isValid_addDays t.valid.isValid hleast hgreatest ?_, ?_, ?_⟩
  · rw [hlength]
    omega
  · rw [hlength]
    omega
  · refine t.valid.nano_lt.imp_right fun ⟨hlast, hnano⟩ => ⟨?_, hnano⟩
    rw [hlength]
    omega

/-! ## Parts of a time -/

namespace Time

/-- Parts that a clock can show, with a leap second. -/
structure Parts.OfClock (p : Parts) : Prop where
  hour : p.hour ≤ 23
  minute : p.minute ≤ 59
  second : p.second ≤ 60
  nano : p.nano < Timestamp.nanosPerSecond

theorem Parts.OfClock.isSome_toTimestamp?_iff {p : Parts} (h : p.OfClock) :
    p.toTimestamp?.isSome ↔ p.date.IsValid := by
  obtain ⟨hhour, hminute, hsecond, hnano⟩ := h
  have hlength : Timestamp.secondsPerDay = 86400 := rfl
  have hnanos : Timestamp.nanosPerSecond = 1000000000 := rfl
  unfold toTimestamp?
  dsimp only
  split
  · rw [Timestamp.isSome_ofParts?_iff]
    exact ⟨fun h => h.isValid, fun h => ⟨h, by omega, .inr ⟨by omega, by omega⟩⟩⟩
  · rw [Timestamp.isSome_ofParts?_iff]
    exact ⟨fun h => h.isValid, fun h => ⟨h, by omega, .inl hnano⟩⟩

theorem upTo?_le {limit n : ℕ} {cs r : List Char} (h : upTo? limit cs = some (n, r)) :
    n ≤ limit := by
  unfold upTo? at h
  split at h
  · split at h
    · cases h
      assumption
    · cases h
  · cases h

theorem nanos?_lt {n : ℕ} {cs r : List Char} (h : nanos? cs = some (n, r)) :
    n < Timestamp.nanosPerSecond := by
  unfold nanos? at h
  dsimp only at h
  split at h
  · cases h
  · cases h
    have hdigits : ∀ c ∈ (cs.takeWhile Char.isDigit).take 9, c.isDigit = true := fun c hc =>
      List.mem_takeWhile_imp (List.mem_of_mem_take hc)
    have hkept := List.length_take_le 9 (cs.takeWhile Char.isDigit)
    calc ofDigits ((cs.takeWhile Char.isDigit).take 9) *
          10 ^ (9 - ((cs.takeWhile Char.isDigit).take 9).length)
        < 10 ^ ((cs.takeWhile Char.isDigit).take 9).length *
          10 ^ (9 - ((cs.takeWhile Char.isDigit).take 9).length) :=
          Nat.mul_lt_mul_of_pos_right (ofDigits_lt hdigits) (by positivity)
      _ = Timestamp.nanosPerSecond := by
          rw [← pow_add, Nat.add_sub_cancel' hkept]
          rfl

theorem Directive.ofClock_read {d : Directive} {p q : Parts} {cs r : List Char} (h : p.OfClock)
    (hread : d.read p cs = some (q, r)) : q.OfClock := by
  obtain ⟨hhour, hminute, hsecond, hnano⟩ := h
  cases d with
  | year | month | day =>
    obtain ⟨_, -, hq⟩ := Option.map_eq_some_iff.1 hread
    cases hq
    exact ⟨hhour, hminute, hsecond, hnano⟩
  | hour =>
    obtain ⟨_, hn, hq⟩ := Option.map_eq_some_iff.1 hread
    cases hq
    exact ⟨upTo?_le hn, hminute, hsecond, hnano⟩
  | minute =>
    obtain ⟨_, hn, hq⟩ := Option.map_eq_some_iff.1 hread
    cases hq
    exact ⟨hhour, upTo?_le hn, hsecond, hnano⟩
  | second =>
    obtain ⟨_, hn, hq⟩ := Option.map_eq_some_iff.1 hread
    cases hq
    exact ⟨hhour, hminute, upTo?_le hn, hnano⟩
  | fraction =>
    rw [Directive.read.eq_def] at hread
    dsimp only at hread
    split at hread
    · obtain ⟨_, hn, hq⟩ := Option.map_eq_some_iff.1 hread
      cases hq
      exact ⟨hhour, hminute, hsecond, nanos?_lt hn⟩
    · cases hread
      exact ⟨hhour, hminute, hsecond, hnano⟩
  | literal c =>
    rw [Directive.read.eq_def] at hread
    dsimp only at hread
    split at hread
    · split at hread
      · cases hread
        exact ⟨hhour, hminute, hsecond, hnano⟩
      · cases hread
    · cases hread
  | blanks =>
    cases hread
    exact ⟨hhour, hminute, hsecond, hnano⟩

/-- Whatever pattern a text is read against, the clock can show what is read. -/
theorem ofClock_readParts {ds : List Directive} {p q : Parts} {cs : List Char} (h : p.OfClock)
    (hread : readParts ds p cs = some q) : q.OfClock := by
  induction ds generalizing p cs with
  | nil =>
    rw [readParts] at hread
    split at hread
    · cases hread
      exact h
    · cases hread
  | cons d ds ih =>
    rw [readParts] at hread
    split at hread
    · exact ih (Directive.ofClock_read h ‹_›) hread
    · cases hread

/-- A text that follows a pattern is refused only for its date. -/
theorem isSome_toTimestamp?_of_readParts {ds : List Directive} {p : Parts} {cs : List Char}
    (h : readParts ds {} cs = some p) : p.toTimestamp?.isSome ↔ p.date.IsValid := by
  have hstart : ({} : Parts).OfClock := ⟨by decide, by decide, by decide, by decide⟩
  exact (ofClock_readParts hstart h).isSome_toTimestamp?_iff

/-! ## Times with an offset -/

/-- An offset is a number of minutes, less than a day of them. -/
theorem offset?_bounds {cs r : List Char} {offset : ℤ} (h : offset? cs = some (offset, r)) :
    offset.natAbs < Timestamp.secondsPerDay ∧ 60 ∣ offset := by
  unfold offset? at h
  split at h
  · cases h
  · rename_i c cs
    split at h
    · cases h
      decide
    · dsimp only at h
      have hsign : (if c = '+' then (1 : ℤ)
          else if c = '-' ∨ c = '\u2212' then -1 else 0).natAbs ≤ 1 := by
        split_ifs <;> decide
      generalize (if c = '+' then (1 : ℤ) else if c = '-' ∨ c = '\u2212' then -1 else 0) = sign at *
      by_cases hzero : sign = 0
      · rw [if_pos hzero] at h
        cases h
      · rw [if_neg hzero] at h
        obtain ⟨⟨hours, r₁⟩, -, h⟩ := Option.bind_eq_some_iff.1 h
        obtain ⟨r₂, -, h⟩ := Option.bind_eq_some_iff.1 h
        obtain ⟨⟨minutes, r₃⟩, -, h⟩ := Option.bind_eq_some_iff.1 h
        dsimp only at h
        split at h
        · rename_i hbounds
          cases h
          have hday : Timestamp.secondsPerDay = 86400 := rfl
          obtain rfl | rfl : sign = 1 ∨ sign = -1 := by omega
          · constructor <;> omega
          · constructor <;> omega
        · cases h

/-- An offset moves a time of a year of four digits to a time. -/
theorem isSome_addSeconds_of_offset? {t : Timestamp} {offset : ℤ} {cs r : List Char}
    (hleast : 0 ≤ t.date.year) (hgreatest : t.date.year < 10000)
    (h : offset? cs = some (offset, r)) : (t.addSeconds (-offset)).isSome := by
  obtain ⟨hday, hminute⟩ := offset?_bounds h
  refine Timestamp.isSome_addSeconds ?_ ?_ ?_ (Int.dvd_neg.2 hminute)
  · rw [Date.leastYear]
    omega
  · rw [Date.greatestYear]
    omega
  · rwa [Int.natAbs_neg]

end Time

end Backtest
