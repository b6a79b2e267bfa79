import Backtest.Csv.Printer
import Backtest.Csv.Reader

/-!
# Tables read back

Quoting keeps the comma, the quote and the line break of a field apart from those of the table. So
whatever characters the fields of a table hold, reading its text gives the same records again.
-/

namespace Backtest.Csv

open Csv.Symbol (comma quote carriageReturn lineFeed)

@[simp]
theorem comma_char : (comma : Char) = ',' := rfl

@[simp]
theorem quote_char : (quote : Char) = '"' := rfl

namespace Partial

variable {place : Place} {read cs rest : List Char} {before : List (List Char)}

/-! ## Between two fields -/

theorem step_comma (hplace : place ≠ .quoted) :
    step ⟨place, read, before⟩ ',' = (none, ⟨.field, [], read.reverse :: before⟩) := by
  cases place with
  | quoted => exact absurd rfl hplace
  | _ => rfl

/-- At the beginning of a line a line feed would end no record. -/
theorem step_lineFeed (hplace : place ≠ .quoted) (hbegun : place ≠ .record) :
    step ⟨place, read, before⟩ '\n' = (some (read.reverse :: before).reverse, start) := by
  cases place with
  | quoted => exact absurd rfl hplace
  | record => exact absurd rfl hbegun
  | _ => rfl

theorem finish_comma (hplace : place ≠ .quoted) :
    finish ⟨place, read, before⟩ (',' :: rest) =
      finish ⟨.field, [], read.reverse :: before⟩ rest := by
  rw [finish, step_comma hplace]
  rfl

theorem finish_lineFeed (hplace : place ≠ .quoted) (hbegun : place ≠ .record) :
    finish ⟨place, read, before⟩ ('\n' :: rest) =
      (read.reverse :: before).reverse :: finish start rest := by
  rw [finish, step_lineFeed hplace hbegun]
  rfl

/-! ## Inside a field -/

theorem finish_doubleQuotes :
    finish ⟨.quoted, read, before⟩ (doubleQuotes cs ++ '"' :: rest) =
      finish ⟨.closing, cs.reverse ++ read, before⟩ rest := by
  induction cs generalizing read with
  | nil => rfl
  | cons c cs ih =>
    rw [List.reverse_cons, List.append_assoc, List.singleton_append, ← ih, doubleQuotes]
    by_cases hquote : c = '"'
    · rw [if_pos hquote, hquote]
      rfl
    · have hstep : step ⟨.quoted, read, before⟩ c = (none, ⟨.quoted, c :: read, before⟩) :=
        if_neg hquote
      rw [if_neg hquote, List.cons_append, finish, hstep]
      rfl

/-- A character that needs no quotes is taken in wherever no quote is open. -/
theorem step_plain {c : Char} (hc : needsQuotes c = false) (hplace : place ≠ .quoted) :
    step ⟨place, read, before⟩ c = (none, ⟨.plain, c :: read, before⟩) := by
  simp only [needsQuotes, Bool.or_eq_false_iff, decide_eq_false_iff_not] at hc
  obtain ⟨⟨⟨hcomma, hquote⟩, hreturn⟩, hfeed⟩ := hc
  have hterminator : isTerminator c = false := by
    rw [isTerminator, Bool.or_eq_false_iff, decide_eq_false_iff_not, decide_eq_false_iff_not]
    exact ⟨hreturn, hfeed⟩
  cases place with
  | quoted => exact absurd rfl hplace
  | _ => simp [step, hterminator, hcomma, hquote, put]

theorem finish_plain (hcs : ∀ c ∈ cs, needsQuotes c = false) :
    finish ⟨.plain, read, before⟩ (cs ++ rest) =
      finish ⟨.plain, cs.reverse ++ read, before⟩ rest := by
  induction cs generalizing read with
  | nil => rfl
  | cons c cs ih =>
    obtain ⟨hc, hcs⟩ := List.forall_mem_cons.1 hcs
    rw [List.cons_append, finish, step_plain hc (by decide), List.reverse_cons, List.append_assoc,
      List.singleton_append, ← ih hcs]
    rfl

/-- A field without quotes leaves nothing behind it open; one that has begun stays begun. -/
theorem finish_bare (hcs : ∀ c ∈ cs, needsQuotes c = false) (hplace : place ≠ .quoted) :
    finish ⟨place, [], before⟩ (cs ++ rest) =
      finish ⟨if cs = [] then place else .plain, cs.reverse, before⟩ rest := by
  cases cs with
  | nil => rfl
  | cons c cs =>
    obtain ⟨hc, hcs⟩ := List.forall_mem_cons.1 hcs
    rw [List.cons_append, finish, step_plain hc hplace, if_neg (List.cons_ne_nil c cs),
      List.reverse_cons]
    exact finish_plain hcs

theorem finish_quoted (hbegins : place = .record ∨ place = .field) (text : String) :
    finish ⟨place, [], before⟩ ((quotedField text).toList ++ rest) =
      finish ⟨.closing, text.toList.reverse, before⟩ rest := by
  have hopened : step ⟨place, [], before⟩ '"' = (none, ⟨.quoted, [], before⟩) := by
    rcases hbegins with rfl | rfl <;> rfl
  have hinside : finish ⟨.quoted, [], before⟩ (doubleQuotes text.toList ++ '"' :: rest) = _ :=
    finish_doubleQuotes
  rw [List.append_nil] at hinside
  rw [quotedField, String.toList_ofList, List.cons_append, List.cons_append, List.append_assoc,
    List.singleton_append, finish, hopened, hinside]
  rfl

/-- Behind a field nothing is open. Only an empty one at the beginning of a line has not begun. -/
theorem exists_finish_field (hbegins : place = .record ∨ place = .field) (text : String) :
    ∃ behind, behind ≠ .quoted ∧ (behind = .record → place = .record ∧ text = "") ∧
      ∀ before rest, finish ⟨place, [], before⟩ ((Csv.field text).toList ++ rest) =
        finish ⟨behind, text.toList.reverse, before⟩ rest := by
  by_cases hquotes : text.toList.any needsQuotes = true
  · refine ⟨.closing, by decide, nofun, fun before rest => ?_⟩
    rw [Csv.field, if_pos hquotes]
    exact finish_quoted hbegins text
  · have hbare : ∀ c ∈ text.toList, needsQuotes c = false := by simpa using hquotes
    have hplace : place ≠ .quoted := by rcases hbegins with rfl | rfl <;> decide
    refine ⟨if text.toList = [] then place else .plain, ?_, fun h => ?_, fun before rest => ?_⟩
    · split
      · exact hplace
      · decide
    · split at h
      · exact ⟨h, String.toList_eq_nil_iff.1 ‹_›⟩
      · cases h
    · rw [Csv.field, if_neg hquotes]
      exact finish_bare hbare hplace

/-! ## Records -/

/-- Fields up to the end of their line; an empty line would be none. -/
theorem finish_fields {fields : List String} (hbegins : place = .record ∨ place = .field)
    (hfields : fields ≠ []) (hline : place = .record → fields ≠ [""]) :
    finish ⟨place, [], before⟩
        ((",".intercalate (fields.map Csv.field)).toList ++ '\n' :: rest) =
      (before.reverse ++ fields.map String.toList) :: finish start rest := by
  -- Behind a comma even an empty field has begun, so `hline` matters for the first one only.
  induction fields generalizing place before with
  | nil => exact absurd rfl hfields
  | cons text fields ih =>
    obtain ⟨behind, hplace, hbegun, hfield⟩ := exists_finish_field hbegins text
    cases fields with
    | nil =>
      have hended : behind ≠ .record := fun h =>
        hline (hbegun h).1 (congrArg (fun t => [t]) (hbegun h).2)
      rw [List.map_singleton, String.intercalate_singleton, hfield, finish_lineFeed hplace hended]
      simp
    | cons next fields =>
      have hcomma : ",".toList = [','] := rfl
      have hrest : finish ⟨.field, [], text.toList :: before⟩ _ = _ :=
        ih (.inr rfl) (List.cons_ne_nil next fields) nofun
      rw [List.map_cons] at hrest
      rw [List.map_cons, List.map_cons, String.intercalate_cons_cons, String.toList_append,
        String.toList_append, List.append_assoc, List.append_assoc, hfield, hcomma,
        List.singleton_append, finish_comma hplace, List.reverse_reverse, hrest]
      simp

theorem finish_record {fields : List String} (hfields : fields ≠ []) :
    finish start ((Csv.record fields).toList ++ rest) =
      fields.map String.toList :: finish start rest := by
  unfold Csv.record
  split
  · next hempty =>
    rw [hempty]
    rfl
  · next hline =>
    rw [String.toList_append, List.append_assoc]
    exact finish_fields (.inl rfl) hfields fun _ => hline

end Partial

/-- The records of a written table are those that it was written from. -/
theorem records_table {rows : List (List String)} (hrows : [] ∉ rows) :
    records (table rows).toList = rows.map (·.map String.toList) := by
  unfold table records
  induction rows with
  | nil => rfl
  | cons row rows ih =>
    rw [List.mem_cons, not_or] at hrows
    rw [List.map_cons, String.join_cons, String.toList_append,
      Partial.finish_record (Ne.symm hrows.1), ih hrows.2, List.map_cons]

end Backtest.Csv
