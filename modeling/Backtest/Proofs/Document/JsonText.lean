import Backtest.Proofs.Document.JsonNumber
import Backtest.Proofs.Document.Written

/-!
# Documents as JSON text

A document is read back from its text, except that a number that is not finite has no text of its
own: it is written as `null` and stays one. Integers have to fit 64 bits, and no value may be nested
more deeply than a reader allows. Texts on one line and over several lines differ in blanks alone,
which a reader passes over, so this is proved once, for every spacing.
-/

namespace Backtest.Document

namespace Json

/-- Integers fit 64 bits, and at most `depth` levels are nested. -/
inductive Readable : (depth : ℕ) → Document → Prop
  | null {k : ℕ} : Readable k .null
  | bool {k : ℕ} (b : Bool) : Readable k (.bool b)
  | int {k : ℕ} {n : ℤ} (h : Fits n) : Readable k (.int n)
  | float {k : ℕ} (x : Float) : Readable k (.float x)
  | text {k : ℕ} (s : String) : Readable k (.text s)
  | list {k : ℕ} {items : List Document} (h : ∀ d ∈ items, Readable k d) :
    Readable (k + 1) (.list items)
  | object {k : ℕ} {members : List (String × Document)} (h : ∀ m ∈ members, Readable k m.2) :
    Readable (k + 1) (.object members)

theorem Readable.mono {j k : ℕ} {d : Document} (h : Readable j d) (hle : j ≤ k) : Readable k d := by
  induction h generalizing k with
  | null => exact .null
  | bool b => exact .bool b
  | int h => exact .int h
  | float x => exact .float x
  | text s => exact .text s
  | list _ ih =>
    obtain ⟨k, rfl⟩ := Nat.exists_eq_add_of_lt (Nat.lt_of_succ_le hle)
    exact .list fun d hd => ih d hd (by omega)
  | object _ ih =>
    obtain ⟨k, rfl⟩ := Nat.exists_eq_add_of_lt (Nat.lt_of_succ_le hle)
    exact .object fun m hm => ih m hm (by omega)

attribute [simp] Readable.null Readable.bool Readable.float Readable.text

@[simp]
theorem readable_list {k : ℕ} {items : List Document} :
    Readable (k + 1) (.list items) ↔ ∀ d ∈ items, Readable k d :=
  ⟨fun | .list h => h, .list⟩

@[simp]
theorem readable_object {k : ℕ} {members : List (String × Document)} :
    Readable (k + 1) (.object members) ↔ ∀ m ∈ members, Readable k m.2 :=
  ⟨fun | .object h => h, .object⟩

/-! ## Blanks -/

theorem skipSpace_cons {c : Char} (h : isSpace c = false) (r : List Char) :
    skipSpace (c :: r) = c :: r :=
  List.dropWhile_cons_of_neg (by rw [h]; exact Bool.false_ne_true)

theorem skipSpace_skipSpace (r : List Char) : skipSpace (skipSpace r) = skipSpace r := by
  induction r with
  | nil => rfl
  | cons c r ih =>
    cases h : isSpace c with
    | false => rw [skipSpace_cons h, skipSpace_cons h]
    | true => rwa [show skipSpace (c :: r) = skipSpace r from List.dropWhile_cons_of_pos h]

def IsGap (gap : List Char) : Prop := ∀ c ∈ gap, isSpace c = true

variable {fuel depth : ℕ} {cs cs' r gap colon : List Char}

theorem IsGap.skipSpace_append (h : IsGap gap) (r : List Char) :
    skipSpace (gap ++ r) = skipSpace r :=
  List.dropWhile_append_of_pos h

theorem isGap_newLine (depth : ℕ) : IsGap (newLine depth).toList := by
  intro c hc
  rw [newLine, String.toList_append, List.mem_append] at hc
  rcases hc with hbreak | hblank
  · rw [List.mem_singleton.1 hbreak]
    rfl
  · rw [String.toList_ofList] at hblank
    rw [List.eq_of_mem_replicate hblank]
    rfl

theorem value?_congr (h : skipSpace cs = skipSpace cs') :
    value? fuel depth cs = value? fuel depth cs' := by
  cases fuel with
  | zero => rfl
  | succ fuel => rw [value?, value?, h]

theorem items?_congr (h : skipSpace cs = skipSpace cs') :
    items? fuel depth cs = items? fuel depth cs' := by
  cases fuel with
  | zero => rfl
  | succ fuel => rw [items?, items?, value?_congr h]

theorem members?_congr (h : skipSpace cs = skipSpace cs') :
    members? fuel depth cs = members? fuel depth cs' := by
  cases fuel with
  | zero => rfl
  | succ fuel => rw [members?, members?, h]

theorem delimits_nil : Delimits [] := by
  intro c hc
  cases hc

theorem delimits_cons {c : Char} (hdigit : c.isDigit = false) (hpoint : c ≠ '.') (he : c ≠ 'e')
    (hE : c ≠ 'E') : Delimits (c :: r) := by
  intro d hd
  cases hd
  exact ⟨hdigit, hpoint, he, hE⟩

theorem delimits_comma : Delimits (',' :: r) :=
  delimits_cons rfl (by decide) (by decide) (by decide)

theorem IsGap.delimits (h : IsGap gap) (hr : Delimits r) : Delimits (gap ++ r) := by
  cases gap with
  | nil => exact hr
  | cons c gap =>
    have hc := h c List.mem_cons_self
    simp only [isSpace, Bool.or_eq_true, beq_iff_eq] at hc
    rcases hc with ((rfl | rfl) | rfl) | rfl <;>
      exact delimits_cons rfl (by decide) (by decide) (by decide)

/-! ## Spacings -/

def itemsText (gap : List Char) (text : Document → List Char) : List Document → List Char
  | [] => []
  | d :: ds => ',' :: (gap ++ (text d ++ itemsText gap text ds))

def membersText (gap colon : List Char) (text : Document → List Char) :
    List (String × Document) → List Char
  | [] => []
  | (name, d) :: ms =>
    ',' :: (gap ++ ((string name).toList ++
      (':' :: (colon ++ (text d ++ membersText gap colon text ms)))))

/-- The blanks between the parts of a value that is nested, by its depth, and behind a colon. -/
structure Spacing where
  gap : ℕ → List Char
  colon : List Char
  isGap_gap : ∀ n, IsGap (gap n)
  isGap_colon : IsGap colon

/-- The text of a document of depth `n`, given the texts of its parts. -/
def Spacing.textOf (s : Spacing) (text : ℕ → Document → List Char) (n : ℕ) : Document → List Char
  | .list (d :: ds) =>
    '[' :: (s.gap (n + 1) ++ (text (n + 1) d ++ (itemsText (s.gap (n + 1)) (text (n + 1)) ds ++
      (s.gap n ++ [']']))))
  | .object ((name, d) :: ms) =>
    '\x7b' :: (s.gap (n + 1) ++ ((string name).toList ++ (':' :: (s.colon ++ (text (n + 1) d ++
      (membersText (s.gap (n + 1)) s.colon (text (n + 1)) ms ++ (s.gap n ++ ['\x7d'])))))))
  | d => (compact d).toList

def Spacing.Writes (s : Spacing) (text : ℕ → Document → List Char) : Prop :=
  ∀ n d, text n d = s.textOf text n d

def Spacing.oneLine : Spacing where
  gap _ := []
  colon := []
  isGap_gap _ := nofun
  isGap_colon := nofun

def Spacing.indented : Spacing where
  gap n := (newLine n).toList
  colon := [' ']
  isGap_gap := isGap_newLine
  isGap_colon c hc := by rw [List.mem_singleton.1 hc]; rfl

theorem toList_compactItems (d : Document) (ds : List Document) :
    (compactItems (d :: ds)).toList =
      (compact d).toList ++ itemsText [] (fun d => (compact d).toList) ds := by
  induction ds generalizing d with
  | nil => simp [compactItems, itemsText]
  | cons e es ih => simp [compactItems, itemsText, ih]

theorem toList_compactMembers (name : String) (d : Document) (ms : List (String × Document)) :
    (compactMembers ((name, d) :: ms)).toList = (string name).toList ++ (':' ::
      ((compact d).toList ++ membersText [] [] (fun d => (compact d).toList) ms)) := by
  induction ms generalizing name d with
  | nil => simp [compactMembers, membersText]
  | cons e es ih => simp [compactMembers, membersText, ih e.1 e.2]

theorem writes_compact : Spacing.oneLine.Writes fun _ d => (compact d).toList := by
  intro n d
  cases d with
  | list items =>
    cases items with
    | nil => rfl
    | cons d ds =>
      simp [compact, toList_compactItems, Spacing.textOf, Spacing.oneLine]
  | object members =>
    cases members with
    | nil => rfl
    | cons m ms =>
      obtain ⟨name, d⟩ := m
      simp [compact, toList_compactMembers, Spacing.textOf, Spacing.oneLine]
  | _ => rfl

theorem toList_prettyItems (n : ℕ) (ds : List Document) :
    (prettyItems n ds).toList =
      itemsText (newLine n).toList (fun d => (prettyAt n d).toList) ds := by
  induction ds with
  | nil => simp [prettyItems, itemsText]
  | cons d ds ih => simp [prettyItems, itemsText, ih]

theorem toList_prettyMembers (n : ℕ) (ms : List (String × Document)) :
    (prettyMembers n ms).toList =
      membersText (newLine n).toList [' '] (fun d => (prettyAt n d).toList) ms := by
  induction ms with
  | nil => simp [prettyMembers, membersText]
  | cons m ms ih => simp [prettyMembers, membersText, ih]

theorem writes_pretty : Spacing.indented.Writes fun n d => (prettyAt n d).toList := by
  intro n d
  cases d with
  | list items =>
    cases items with
    | nil => rfl
    | cons d ds => simp [prettyAt, toList_prettyItems, Spacing.textOf, Spacing.indented]
  | object members =>
    cases members with
    | nil => rfl
    | cons m ms =>
      obtain ⟨name, d⟩ := m
      simp [prettyAt, toList_prettyMembers, Spacing.textOf, Spacing.indented]
  | _ => rfl

/-! ## Values -/

variable {s : Spacing} {text : ℕ → Document → List Char} {d : Document}

/-- A number begins with a digit or a sign, so it is taken for no other value. -/
theorem value?_number (h : number? cs = some (d, r)) :
    value? (fuel + 1) depth cs = some (d, r) := by
  have hskip : skipSpace cs = cs := by
    cases cs with
    | nil => rfl
    | cons c cs =>
      refine skipSpace_cons ?_ cs
      by_contra hspace
      simp only [isSpace, Bool.not_eq_false, Bool.or_eq_true, beq_iff_eq] at hspace
      rcases hspace with ((rfl | rfl) | rfl) | rfl <;> cases h
  rw [value?, hskip]
  split <;> first | exact h | cases h

/-- A document is read back from its text, whatever delimits it. Reading takes no more steps than
the text has characters. -/
def ReadsBack (text : ℕ → Document → List Char) (depth : ℕ) (d : Document) : Prop :=
  ∀ n fuel r, (text n d).length ≤ fuel → Delimits r →
    value? fuel depth (text n d ++ r) = some (d.written, r)

/-- No item begins with a closing bracket. -/
theorem not_closed_of_items? {p : List Document × List Char} (h : items? fuel depth cs = some p) :
    skipSpace cs ≠ ']' :: r := by
  intro hclosed
  cases fuel with
  | zero => cases h
  | succ fuel =>
    cases fuel with
    | zero => cases h
    | succ fuel =>
      rw [items?, value?, hclosed] at h
      cases h

/-- A list goes on behind its opening bracket. -/
theorem value?_list {items : List Document} (h : items? fuel depth cs = some (items, r)) :
    value? (fuel + 1) (depth + 1) ('[' :: cs) = some (.list items, r) := by
  have hopen : ∀ r, skipSpace cs ≠ ']' :: r := fun r => not_closed_of_items? h
  rw [value?, skipSpace_cons rfl]
  simp only [Nat.add_one_ne_zero, if_false, Nat.add_sub_cancel]
  rw [items?_congr (skipSpace_skipSpace cs), h]
  rfl

theorem readsBack_items {items : List Document} (h : ∀ d ∈ items, ReadsBack text depth d)
    (d : Document) (hd : ReadsBack text depth d) (n m fuel : ℕ) (r : List Char)
    (hfuel : (text n d).length + (itemsText (s.gap n) (text n) items).length ≤ fuel) :
    items? (fuel + 1) depth (text n d ++ (itemsText (s.gap n) (text n) items ++
      (s.gap m ++ ']' :: r))) = some (d.written :: writtenItems items, r) := by
  induction items generalizing d fuel with
  | nil =>
    have hclosing : Delimits (']' :: r) := delimits_cons rfl (by decide) (by decide) (by decide)
    have hvalue := hd n fuel _ (by omega) ((s.isGap_gap m).delimits hclosing)
    rw [items?, itemsText, List.nil_append, hvalue]
    dsimp only
    rw [(s.isGap_gap m).skipSpace_append, skipSpace_cons rfl]
    rfl
  | cons e es ih =>
    simp only [itemsText, List.length_cons, List.length_append] at hfuel
    obtain ⟨fuel, rfl⟩ : ∃ f, fuel = f + 1 := Nat.exists_eq_add_one.2 (by omega)
    have hrest := ih (fun d hd => h d (List.mem_cons_of_mem _ hd)) e (h e List.mem_cons_self)
      fuel (by omega)
    rw [items?, itemsText, List.cons_append, hd n (fuel + 1) _ (by omega) delimits_comma]
    dsimp only
    rw [skipSpace_cons rfl]
    simp only [List.append_assoc]
    rw [items?_congr ((s.isGap_gap n).skipSpace_append _), hrest]
    rfl

/-- A comma stands between two members. -/
theorem members?_next {name : String} (hcolon : IsGap colon)
    (h : value? fuel depth cs = some (d, ',' :: r))
    {p : List (String × Document) × List Char} (hp : members? fuel depth r = some p) :
    members? (fuel + 1) depth ((string name).toList ++ ':' :: (colon ++ cs)) =
      some ((name, d) :: p.1, p.2) := by
  rw [members?, toList_string, skipSpace_cons rfl]
  simp only [stringBody_string]
  rw [skipSpace_cons rfl]
  simp only [value?_congr (hcolon.skipSpace_append cs), h]
  rw [skipSpace_cons rfl]
  simp only [hp, Option.map_some]

/-- A closing brace stands behind the last member. -/
theorem members?_last {name : String} {rest : List Char} (hcolon : IsGap colon)
    (h : value? fuel depth cs = some (d, rest)) (hrest : skipSpace rest = '\x7d' :: r) :
    members? (fuel + 1) depth ((string name).toList ++ ':' :: (colon ++ cs)) =
      some ([(name, d)], r) := by
  rw [members?, toList_string, skipSpace_cons rfl]
  simp only [stringBody_string]
  rw [skipSpace_cons rfl]
  simp only [value?_congr (hcolon.skipSpace_append cs), h, hrest]

theorem readsBack_members {members : List (String × Document)}
    (h : ∀ e ∈ members, ReadsBack text depth e.2) (name : String) (d : Document)
    (hd : ReadsBack text depth d) (n m fuel : ℕ) (r : List Char)
    (hfuel : (text n d).length + (membersText (s.gap n) s.colon (text n) members).length ≤ fuel) :
    members? (fuel + 1) depth ((string name).toList ++ (':' :: (s.colon ++ (text n d ++
      (membersText (s.gap n) s.colon (text n) members ++ (s.gap m ++ '\x7d' :: r)))))) =
        some ((name, d.written) :: writtenMembers members, r) := by
  induction members generalizing name d fuel with
  | nil =>
    have hclosing : Delimits ('\x7d' :: r) := delimits_cons rfl (by decide) (by decide) (by decide)
    have hvalue := hd n fuel _ (by omega) ((s.isGap_gap m).delimits hclosing)
    rw [membersText, List.nil_append]
    exact members?_last s.isGap_colon hvalue
      (by rw [(s.isGap_gap m).skipSpace_append, skipSpace_cons rfl])
  | cons e es ih =>
    obtain ⟨next, e⟩ := e
    simp only [membersText, List.length_cons, List.length_append] at hfuel
    obtain ⟨fuel, rfl⟩ : ∃ f, fuel = f + 1 := Nat.exists_eq_add_one.2 (by omega)
    have hrest := ih (fun d hd => h d (List.mem_cons_of_mem _ hd)) next e (h _ List.mem_cons_self)
      fuel (by omega)
    simp only [membersText, List.append_assoc, List.cons_append]
    exact members?_next s.isGap_colon (hd n (fuel + 1) _ (by omega) delimits_comma)
      ((members?_congr ((s.isGap_gap n).skipSpace_append _)).trans hrest)

/-- An object goes on behind its opening brace. -/
theorem value?_object {name : String} (hgap : IsGap gap) :
    value? (fuel + 1) (depth + 1) ('\x7b' :: (gap ++ ((string name).toList ++ cs))) =
      (members? fuel depth ((string name).toList ++ cs)).map fun (ms, r) => (.object ms, r) := by
  rw [value?, skipSpace_cons rfl]
  simp only [Nat.add_one_ne_zero, if_false, Nat.add_sub_cancel, hgap.skipSpace_append,
    toList_string]
  rw [skipSpace_cons rfl]
  rfl

/-! ## Documents -/

/-- What is read as a number, whatever delimits it, reads back. -/
theorem readsBack_of_number? {cs : List Char} (htext : ∀ n, text n d = cs)
    (h : ∀ r, Delimits r → number? (cs ++ r) = some (d.written, r)) : ReadsBack text depth d := by
  intro n fuel r hfuel hr
  rw [htext] at hfuel ⊢
  cases fuel with
  | zero =>
    have hnil := h [] delimits_nil
    rw [List.length_eq_zero_iff.1 (Nat.le_zero.1 hfuel)] at hnil
    cases hnil
  | succ fuel => exact value?_number (h r hr)

/-- A fixed word reads back. -/
theorem readsBack_word {word : String} (htext : ∀ n, text n d = word.toList)
    (hword : 0 < word.length) (h : ∀ fuel r, value? (fuel + 1) depth (word.toList ++ r) =
      word? word d.written (word.toList ++ r)) : ReadsBack text depth d := by
  intro n fuel r hfuel _
  rw [htext, String.length_toList] at hfuel
  obtain ⟨fuel, rfl⟩ : ∃ f, fuel = f + 1 := Nat.exists_eq_add_one.2 (by omega)
  rw [htext, h, word?]
  simp

theorem readsBack_text (hs : s.Writes text) (t : String) : ReadsBack text depth (.text t) := by
  intro n fuel r hfuel _
  have htext : text n (.text t) = '"' :: (t.toList.flatMap escape ++ ['"']) := by
    rw [hs, ← toList_string, List.append_nil]
    rfl
  rw [htext, List.length_cons] at hfuel
  obtain ⟨fuel, rfl⟩ : ∃ f, fuel = f + 1 := Nat.exists_eq_add_one.2 (by omega)
  rw [htext, List.cons_append, List.append_assoc, List.singleton_append, value?, skipSpace_cons rfl]
  simp only [stringBody_string]
  rfl

theorem readsBack_list (hs : s.Writes text) {items : List Document}
    (h : ∀ d ∈ items, ReadsBack text depth d) : ReadsBack text (depth + 1) (.list items) := by
  intro n fuel r hfuel _
  rw [hs] at hfuel ⊢
  cases items with
  | nil =>
    obtain ⟨fuel, rfl⟩ : ∃ f, fuel = f + 2 := Nat.exists_eq_add_of_le' hfuel
    rfl
  | cons d ds =>
    simp only [Spacing.textOf, List.length_cons, List.length_append] at hfuel
    obtain ⟨fuel, rfl⟩ : ∃ f, fuel = f + 2 := Nat.exists_eq_add_of_le' (by omega)
    have hitems := readsBack_items (s := s) (fun e he => h e (List.mem_cons_of_mem _ he)) d
      (h d List.mem_cons_self) (n + 1) n fuel r (by omega)
    simp only [Spacing.textOf, List.cons_append, List.append_assoc, List.nil_append]
    exact value?_list ((items?_congr ((s.isGap_gap _).skipSpace_append _)).trans hitems)

theorem readsBack_object (hs : s.Writes text) {members : List (String × Document)}
    (h : ∀ e ∈ members, ReadsBack text depth e.2) :
    ReadsBack text (depth + 1) (.object members) := by
  intro n fuel r hfuel _
  rw [hs] at hfuel ⊢
  cases members with
  | nil =>
    obtain ⟨fuel, rfl⟩ : ∃ f, fuel = f + 2 := Nat.exists_eq_add_of_le' hfuel
    rfl
  | cons e es =>
    obtain ⟨name, d⟩ := e
    simp only [Spacing.textOf, List.length_cons, List.length_append] at hfuel
    obtain ⟨fuel, rfl⟩ : ∃ f, fuel = f + 2 := Nat.exists_eq_add_of_le' (by omega)
    have hmembers := readsBack_members (s := s) (fun e he => h e (List.mem_cons_of_mem _ he)) name d
      (h _ List.mem_cons_self) (n + 1) n fuel r (by omega)
    simp only [Spacing.textOf, List.cons_append, List.append_assoc, List.nil_append]
    rw [value?_object (s.isGap_gap _), hmembers]
    rfl

theorem Readable.readsBack (hs : s.Writes text) (h : Readable depth d) :
    ReadsBack text depth d := by
  induction h with
  | null => exact readsBack_word (fun n => hs n _) (by decide) fun _ _ => rfl
  | bool b =>
    cases b with
    | false => exact readsBack_word (fun n => hs n _) (by decide) fun _ _ => rfl
    | true => exact readsBack_word (fun n => hs n _) (by decide) fun _ _ => rfl
  | int h => exact readsBack_of_number? (fun n => hs n _) fun r hr => number?_int h hr
  | float x =>
    cases hx : x.isFinite with
    | true =>
      have hwritten : (Document.float x).written = .float x := by rw [written, hx, if_pos rfl]
      refine readsBack_of_number? (fun n => hs n _) fun r hr => ?_
      rw [hwritten]
      exact number?_number hx hr
    | false =>
      have hwritten : (Document.float x).written = .null := by
        rw [written, hx, if_neg Bool.false_ne_true]
      have htext (n : ℕ) : text n (.float x) = "null".toList := by
        rw [hs, ← number_of_not_finite hx]
        rfl
      refine readsBack_word htext (by decide) fun _ _ => ?_
      rw [hwritten]
      rfl
  | text t => exact readsBack_text hs t
  | list _ ih => exact readsBack_list hs ih
  | object _ ih => exact readsBack_object hs ih

theorem read?_of_writes (hs : s.Writes text) (h : Readable maxDepth d) {t : String}
    (ht : t.toList = text 0 d) : read? t = some d.written := by
  have hvalue : value? (2 * t.toList.length + 2) maxDepth (text 0 d ++ []) = some (d.written, []) :=
    h.readsBack hs 0 _ [] (by rw [ht]; omega) delimits_nil
  rw [List.append_nil, ← ht] at hvalue
  simp only [read?, hvalue]
  rfl

/-- A document is read back from its text over several lines. -/
theorem read?_pretty (h : Readable maxDepth d) : read? (pretty d) = some d.written :=
  read?_of_writes writes_pretty h rfl

/-- A document is read back from its text on one line. -/
theorem read?_compact (h : Readable maxDepth d) : read? (compact d) = some d.written :=
  read?_of_writes writes_compact h rfl

end Json

end Backtest.Document
