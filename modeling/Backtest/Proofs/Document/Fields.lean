import Mathlib.Data.List.Nodup
import Backtest.Proofs.Document.Written

/-!
# Reading what was written

A stored value is read field by field. What comes back is known as soon as it is known for each
field, and nothing comes back if a number was written as `null` where a number has to stand.
-/

namespace Backtest.Document

/-- What is written of `d` reads as `b`, and as nothing if some number of `d` is not finite. -/
def Restores {β : Type} (d : Document) (value : Document → Option β) (b : β) : Prop :=
  ∀ c, value d.written = some c ↔ d.AllFinite ∧ b = c

section

variable {β γ : Type} {value : Document → Option β} {b default : β} {k : β → Option γ} {c : γ}
  {k' : Option β → Option γ} {d : Document} {members : List (String × Document)} {n name : String}

theorem Restores.bind (h : Restores d value b) :
    (value d.written >>= k) = some c ↔ d.AllFinite ∧ k b = some c := by
  rw [Option.bind_eq_bind, Option.bind_eq_some_iff]
  constructor
  · rintro ⟨b', hb', hk⟩
    obtain ⟨hfinite, rfl⟩ := (h b').1 hb'
    exact ⟨hfinite, hk⟩
  · rintro ⟨hfinite, hk⟩
    exact ⟨b, (h b).2 ⟨hfinite, rfl⟩, hk⟩

/-! ## Fields -/

def fieldsOf (members : List (String × Document)) : Fields :=
  ⟨fun name => (members.find? fun m => m.1 == name).map (·.2.written), false⟩

theorem fields?_written {names : List String} (hnames : members.map Prod.fst = names)
    (hdistinct : names.Nodup) :
    fields? names (Document.object members).written = some (fieldsOf members) := by
  have honce : ∀ n ∈ names, occurrences (members.map fun m => (m.1, m.2.written)) n ≤ 1 := by
    intro n _
    have hcount := List.nodup_iff_count.1 (hnames ▸ hdistinct) n
    rw [List.count, List.countP_map] at hcount
    rwa [occurrences, List.countP_map]
  rw [written_object, fields?, if_pos (by simpa using honce), fieldsOf]
  simp [List.find?_map, Function.comp_def]

/-- A record is restored if reading its fields gives it. -/
theorem restores_record {names : List String} {read : Fields → Option β}
    (hnames : members.map Prod.fst = names) (hdistinct : names.Nodup)
    (h : ∀ c, read (fieldsOf members) = some c ↔ (∀ m ∈ members, m.2.AllFinite) ∧ b = c) :
    Restores (.object members) (fun d => d.fields? names >>= read) b := by
  intro c
  dsimp only
  rw [fields?_written hnames hdistinct, Option.bind_eq_bind, Option.bind_some, allFinite_object]
  exact h c

theorem required_self : ((fieldsOf ((name, d) :: members)).required name value >>= k) = some c ↔
    (value d.written >>= k) = some c := by
  simp [fieldsOf, Fields.required]

theorem required_of_ne (h : n ≠ name) :
    ((fieldsOf ((n, d) :: members)).required name value >>= k) = some c ↔
      ((fieldsOf members).required name value >>= k) = some c := by
  simp [fieldsOf, Fields.required, h]

theorem optional_self : ((fieldsOf ((name, d) :: members)).optional name value >>= k') = some c ↔
    (nullable? value d.written >>= k') = some c := by
  simp [fieldsOf, Fields.optional]

theorem optional_of_ne (h : n ≠ name) :
    ((fieldsOf ((n, d) :: members)).optional name value >>= k') = some c ↔
      ((fieldsOf members).optional name value >>= k') = some c := by
  simp [fieldsOf, Fields.optional, h]

theorem withDefault_self :
    ((fieldsOf ((name, d) :: members)).withDefault name value default >>= k) = some c ↔
      (value d.written >>= k) = some c := by
  simp [fieldsOf, Fields.withDefault]

theorem withDefault_of_ne (h : n ≠ name) :
    ((fieldsOf ((n, d) :: members)).withDefault name value default >>= k) = some c ↔
      ((fieldsOf members).withDefault name value default >>= k) = some c := by
  simp [fieldsOf, Fields.withDefault, h]

/-! ## Values -/

theorem restores_float (x : Float) : Restores (.float x) float? x := by
  intro c
  rw [written]
  split <;> simp_all [float?]

theorem restores_text (s : String) : Restores (.text s) text? s := by
  intro c
  simp [written, text?]

theorem restores_bool (p : Bool) : Restores (.bool p) bool? p := by
  intro c
  simp [written, bool?]

theorem restores_named {ofName : String → Option β} {s : String} (h : ofName s = some b) :
    Restores (.text s) (named? ofName) b := by
  intro c
  simp [written, named?, h]

/-- Items are read one by one. -/
theorem mapM_eq_some_iff {read : γ → Option β} {f : γ → β} {p : γ → Prop} {items : List γ}
    (h : ∀ e ∈ items, ∀ c, read e = some c ↔ p e ∧ f e = c) (cs : List β) :
    items.mapM read = some cs ↔ (∀ e ∈ items, p e) ∧ items.map f = cs := by
  induction items generalizing cs with
  | nil => simp
  | cons e es ih =>
    have hrest := ih fun e he => h e (List.mem_cons_of_mem _ he)
    rw [List.mapM_cons, Option.bind_eq_bind, Option.bind_eq_some_iff]
    simp only [Option.bind_eq_bind, Option.bind_eq_some_iff, h e List.mem_cons_self, hrest,
      Option.pure_def, Option.some.injEq, List.map_cons, List.forall_mem_cons]
    constructor
    · rintro ⟨_, ⟨he, rfl⟩, _, ⟨hes, rfl⟩, rfl⟩
      exact ⟨⟨he, hes⟩, rfl⟩
    · rintro ⟨⟨he, hes⟩, rfl⟩
      exact ⟨_, ⟨he, rfl⟩, _, ⟨hes, rfl⟩, rfl⟩

theorem restores_list {encode : γ → Document} {f : γ → β} {items : List γ}
    (h : ∀ e ∈ items, Restores (encode e) value (f e)) :
    Restores (.list (items.map encode)) (list? value) (items.map f) := by
  intro cs
  rw [written_list, list?, List.map_map, List.mapM_map, allFinite_list, List.forall_mem_map]
  exact mapM_eq_some_iff h cs

theorem restores_list_self {encode : β → Document} {items : List β}
    (h : ∀ e ∈ items, Restores (encode e) value e) :
    Restores (.list (items.map encode)) (list? value) items := by
  have hid := restores_list (f := id) h
  rwa [List.map_id] at hid

/-- Members are read one by one, and the last of equal names counts. -/
theorem restores_map {encode : γ → Document} {f : γ → β} {entries : List (String × γ)}
    (h : ∀ e ∈ entries, Restores (encode e.2) value (f e.2)) :
    Restores (.object (entries.map fun e => (e.1, encode e.2))) (map? value)
      (.ofList (entries.map fun e => (e.1, f e.2))) := by
  intro m
  have hread (e : String × γ) (he : e ∈ entries) (c : String × β) :
      (value (encode e.2).written).map (fun v => (e.1, v)) = some c ↔
        (encode e.2).AllFinite ∧ (e.1, f e.2) = c := by
    simp [Option.map_eq_some_iff, h e he _, and_assoc]
  rw [written_object, map?, List.map_map, List.mapM_map, Option.map_eq_some_iff, allFinite_object,
    List.forall_mem_map]
  simp only [Function.comp_def, mapM_eq_some_iff hread]
  constructor
  · rintro ⟨_, ⟨hfinite, rfl⟩, rfl⟩
    exact ⟨hfinite, rfl⟩
  · rintro ⟨hfinite, rfl⟩
    exact ⟨_, ⟨hfinite, rfl⟩, rfl⟩

end

end Backtest.Document
