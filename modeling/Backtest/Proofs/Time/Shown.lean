import Backtest.Proofs.Time.Stored

/-!
# Shown timestamps

Tables and reports show a time to the second. The reader of bar files takes such a text for the time
without its fraction of a second, so it finds again exactly the times that have none; of two times
it tells the seconds apart. The stored form, which has the fraction, it reads back as it is.
-/

namespace Backtest

namespace Timestamp

variable {t : Timestamp}

/-- Without the fraction of a second; a leap second stays one. -/
def wholeSeconds (t : Timestamp) : Timestamp where
  date := t.date
  second := t.second
  nano := t.nano / nanosPerSecond * nanosPerSecond
  valid := by
    refine ⟨t.valid.isValid, t.valid.second_lt, ?_⟩
    have hnano := t.valid.nano_lt
    simp only [nanosPerSecond] at *
    omega

theorem clock_wholeSeconds (t : Timestamp) : t.wholeSeconds.clock = t.clock := by
  have hnanos : nanosPerSecond = 1000000000 := rfl
  have hleap : nanosPerSecond ≤ t.nano / nanosPerSecond * nanosPerSecond ↔
      nanosPerSecond ≤ t.nano := by
    rw [hnanos]
    omega
  simp only [clock, wholeSeconds, hleap]

theorem parts_wholeSeconds (t : Timestamp) : t.wholeSeconds.parts = { t.parts with nano := 0 } := by
  rw [parts, clock_wholeSeconds]
  simp [parts, wholeSeconds]

theorem wholeSeconds_eq_iff : t.wholeSeconds = t ↔ t.nano % nanosPerSecond = 0 := by
  have hsplit := Nat.div_add_mod' t.nano nanosPerSecond
  rw [Timestamp.ext_iff]
  simp only [wholeSeconds, true_and]
  omega

theorem toSeconds_wholeSeconds (t : Timestamp) : t.wholeSeconds.toSeconds = t.toSeconds := by
  rw [toSeconds, clockText, clock_wholeSeconds]
  rfl

end Timestamp

namespace Time

open Decimal

variable {t : Timestamp} {p : Parts} {ds : List Directive} {r : List Char}

theorem readParts_literal (c : Char) :
    readParts (.literal c :: ds) p (c :: r) = readParts ds p r := by
  simp [readParts, Directive.read]

/-- The date is read, and what comes after it stays. -/
theorem readParts_date (t : Timestamp) (ds : List Directive) (r : List Char) :
    readParts (datePattern ++ ds) {} (t.date.text.toList ++ r) =
      readParts ds { year := t.date.year, month := t.date.month, day := t.date.day } r := by
  obtain ⟨hmonth, hday, -⟩ := t.parts_le
  have htext : t.date.text.toList ++ r = (Date.yearText t.date.year).toList ++ ('-' ::
      ((padded 2 t.date.month).toList ++ ('-' :: ((padded 2 t.date.day).toList ++ r)))) := by
    simp [Date.text]
  rw [htext, datePattern, List.cons_append, readParts, Directive.read,
    year?_yearText _ (noDigit_cons rfl), Option.map_some]
  dsimp only [List.cons_append]
  rw [readParts_literal, readParts, Directive.read, upTo?_padded hmonth (by decide),
    Option.map_some]
  dsimp only
  rw [readParts_literal, readParts, Directive.read, upTo?_padded hday (by decide),
    Option.map_some]
  rfl

/-- The time of day is read, and what comes after it stays. -/
theorem readParts_clock (t : Timestamp) (p : Parts) (ds : List Directive) (r : List Char) :
    readParts (clockPattern ++ ds) p (t.clockText.toList ++ r) =
      readParts ds { p with hour := t.clock.1, minute := t.clock.2.1, second := t.clock.2.2 }
        r := by
  obtain ⟨-, -, hhour, hminute, hsecond⟩ := t.parts_le
  have htext : t.clockText.toList ++ r = (padded 2 t.clock.1).toList ++ (':' ::
      ((padded 2 t.clock.2.1).toList ++ (':' :: ((padded 2 t.clock.2.2).toList ++ r)))) := by
    simp [Timestamp.clockText]
  rw [htext, clockPattern, List.cons_append, readParts, Directive.read,
    upTo?_padded hhour (by decide), Option.map_some]
  dsimp only [List.cons_append]
  rw [readParts_literal, readParts, Directive.read, upTo?_padded hminute (by decide),
    Option.map_some]
  dsimp only
  rw [readParts_literal, readParts, Directive.read, upTo?_padded hsecond (by decide),
    Option.map_some]
  rfl

/-- A date alone is not followed by a time. -/
theorem readParts_date_only (t : Timestamp) (r : List Char) :
    readParts datePattern {} (t.date.text.toList ++ 'T' :: r) = none := by
  have hdate := readParts_date t [] ('T' :: r)
  rwa [List.append_nil] at hdate

/-- No blanks stand for the letter between date and time. -/
theorem readParts_blanks (t : Timestamp) (ds : List Directive) (r : List Char) :
    readParts (datePattern ++ .blanks :: (clockPattern ++ ds)) {}
      (t.date.text.toList ++ 'T' :: r) = none := by
  have hletter : Text.isBlank 'T' = false := by decide
  have hnone : upTo? 23 ('T' :: r) = none := by
    rw [upTo?, trimLeft_cons hletter]
    rfl
  rw [readParts_date, readParts, Directive.read]
  dsimp only
  rw [trimLeft_cons hletter, clockPattern, List.cons_append, readParts, Directive.read, hnone]
  rfl

theorem trimLeft_yearText (year : ℤ) (r : List Char) :
    Text.trimLeft ((Date.yearText year).toList ++ r) = (Date.yearText year).toList ++ r := by
  unfold Date.yearText
  split
  · exact trimLeft_of_isDigit (padded_ne_nil 4 _) fun c hc => isDigit_padded hc
  · rw [String.toList_append, List.append_assoc]
    split
    · exact trimLeft_cons (by decide) _
    · exact trimLeft_cons (by decide) _

/-- A text that begins with a year and ends with a digit has no blanks around it. -/
theorem trimChars_of_ends {year : ℤ} {cs ds : List Char} (hne : ds ≠ [])
    (hds : ∀ c ∈ ds, c.isDigit = true) :
    Text.trimChars ((Date.yearText year).toList ++ (cs ++ ds)) =
      (Date.yearText year).toList ++ (cs ++ ds) := by
  have hback : Text.trimLeft ((Date.yearText year).toList ++ (cs ++ ds)).reverse =
      ((Date.yearText year).toList ++ (cs ++ ds)).reverse := by
    rw [← List.append_assoc, List.reverse_append]
    exact trimLeft_of_isDigit (List.reverse_ne_nil_iff.2 hne) fun c hc =>
      hds c (List.mem_reverse.1 hc)
  rw [Text.trimChars, trimLeft_yearText, hback, List.reverse_reverse]

def datedText (t : Timestamp) (tail : List Char) : List Char :=
  t.date.text.toList ++ 'T' :: (t.clockText.toList ++ tail)

theorem toList_fractionText (t : Timestamp) : t.fractionText.toList = [] ∨
    ∃ width n, t.fractionText.toList = '.' :: (padded width n).toList := by
  unfold Timestamp.fractionText
  dsimp only
  split
  · exact .inl rfl
  · right
    split
    · exact ⟨_, _, by rw [String.toList_append]; rfl⟩
    · split <;> exact ⟨_, _, by rw [String.toList_append]; rfl⟩

theorem trimChars_datedText (t : Timestamp) {tail : List Char}
    (h : tail = [] ∨ ∃ width n, tail = '.' :: (padded width n).toList) :
    Text.trimChars (datedText t tail) = datedText t tail := by
  obtain ⟨cs, width, n, htext⟩ : ∃ cs width n, datedText t tail =
      (Date.yearText t.date.year).toList ++ (cs ++ (padded width n).toList) := by
    rcases h with rfl | ⟨width, n, rfl⟩
    · refine ⟨("-" ++ padded 2 t.date.month ++ "-" ++ padded 2 t.date.day ++ "T" ++
        padded 2 t.clock.1 ++ ":" ++ padded 2 t.clock.2.1 ++ ":").toList, 2, t.clock.2.2, ?_⟩
      simp [datedText, Date.text, Timestamp.clockText]
    · refine ⟨("-" ++ padded 2 t.date.month ++ "-" ++ padded 2 t.date.day ++ "T" ++
        t.clockText ++ ".").toList, width, n, ?_⟩
      simp [datedText, Date.text]
  rw [htext, trimChars_of_ends (padded_ne_nil width n) fun c hc => isDigit_padded hc]

/-- A dated text is read as its date and time with the fraction that follows them, if one does. -/
theorem timestamp?_datedText (t : Timestamp) {text : String} {tail : List Char}
    (htext : text.toList = datedText t tail)
    (htail : tail = [] ∨ ∃ width n, tail = '.' :: (padded width n).toList) {p : Parts}
    {u : Timestamp}
    (hread : readParts [.fraction] { t.parts with nano := 0 } tail = some p)
    (hu : p.toTimestamp? = some u) : timestamp? text = some u := by
  have hblanks (ds : List Directive) :
      readParts (datePattern ++ [.blanks] ++ clockPattern ++ ds) {} (datedText t tail) = none := by
    rw [List.append_assoc, List.append_assoc]
    exact readParts_blanks t ds _
  have hletter (ds : List Directive) :
      readParts (datePattern ++ [.literal 'T'] ++ clockPattern ++ ds) {} (datedText t tail) =
        readParts ds { t.parts with nano := 0 } tail := by
    rw [List.append_assoc, List.append_assoc, datedText, readParts_date, List.singleton_append,
      readParts_literal, readParts_clock]
    rfl
  have hdated : datedPatterns.findSome?
      (fun ds => (readParts ds {} (datedText t tail)).bind Parts.toTimestamp?) = some u := by
    have hshort := hblanks []
    have hplain := hletter []
    rw [List.append_nil] at hshort hplain
    rw [datedPatterns, List.findSome?_cons, List.findSome?_cons, List.findSome?_cons,
      List.findSome?_cons, hshort, hplain, hblanks, hletter, hread, Option.bind_some, hu]
    cases tail with
    | nil =>
      cases hread
      rw [readParts, List.isEmpty_nil, if_pos rfl, Option.bind_some, hu]
      rfl
    | cons c tail => rfl
  rw [timestamp?, htext, trimChars_datedText t htail, datedText, readParts_date_only]
  dsimp only
  rw [← datedText, hdated]

/-- The text to the second is read as the time without its fraction. -/
theorem timestamp?_toSeconds (t : Timestamp) : timestamp? t.toSeconds = some t.wholeSeconds := by
  have htext : t.toSeconds.toList = datedText t [] := by simp [datedText, Timestamp.toSeconds]
  refine timestamp?_datedText t htext (.inl rfl) rfl ?_
  rw [← Timestamp.parts_wholeSeconds]
  exact t.wholeSeconds.toTimestamp?_parts

/-- The stored form is read as the time. -/
theorem timestamp?_exact (t : Timestamp) : timestamp? t.exact = some t := by
  have htext : t.exact.toList = datedText t t.fractionText.toList := by
    simp [datedText, Timestamp.exact]
  have hread : readParts [.fraction] { t.parts with nano := 0 } t.fractionText.toList =
      some t.parts := by
    rw [readParts, read_fraction t rfl]
    rfl
  exact timestamp?_datedText t htext (toList_fractionText t) hread t.toTimestamp?_parts

/-- The text of a time to the second is read as the time without its fraction of a second, so it is
read as the time exactly if that has none; and two times have one text exactly if they differ in
their fractions at most. The stored form is read as the time. Every time that is read is such a
time, whatever its text. -/
theorem shown_time_read_again (t : Timestamp) :
    timestamp? t.toSeconds = some t.wholeSeconds ∧
      (timestamp? t.toSeconds = some t ↔ t.nano % Timestamp.nanosPerSecond = 0) ∧
      (∀ u : Timestamp, t.toSeconds = u.toSeconds ↔ t.wholeSeconds = u.wholeSeconds) ∧
      timestamp? t.exact = some t := by
  have hread := timestamp?_toSeconds t
  refine ⟨hread, ?_, fun u => ⟨fun htext => ?_, fun htime => ?_⟩, timestamp?_exact t⟩
  · rw [hread, Option.some.injEq, Timestamp.wholeSeconds_eq_iff]
  · rw [htext, timestamp?_toSeconds u] at hread
    exact (Option.some.inj hread).symm
  · rw [← Timestamp.toSeconds_wholeSeconds t, htime, Timestamp.toSeconds_wholeSeconds]

def quarter : Timestamp where
  date := ⟨2024, 3, 1⟩
  second := 52200
  nano := 250000000

def leapQuarter : Timestamp where
  date := ⟨-1, 12, 31⟩
  second := 86399
  nano := 1250000000

/-- A quarter of a second is lost. So is one in a leap second, which an offset from UTC brings from
the first half hour of a year to the end of the year before. -/
theorem shown_time_read_again_quarters :
    (timestamp? "2024-03-01 14:30:00.250" = some quarter ∧
      timestamp? quarter.toSeconds = some { quarter with nano := 0, valid := by decide }) ∧
    timestamp? "0000-01-01T00:29:60.25+00:30" = some leapQuarter ∧
      timestamp? leapQuarter.toSeconds =
        some { leapQuarter with nano := 1000000000, valid := by decide } := by
  have hdated : timestamp? "2024-03-01 14:30:00.250" = some quarter := by decide +kernel
  have hleap : timestamp? "0000-01-01T00:29:60.25+00:30" = some leapQuarter := by decide +kernel
  rw [(shown_time_read_again quarter).1, (shown_time_read_again leapQuarter).1]
  exact ⟨⟨hdated, by decide⟩, hleap, by decide⟩

end Time

end Backtest
