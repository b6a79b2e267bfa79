import Mathlib.Data.List.Sort
import Backtest.NameMap

/-!
# Maps from names, by what they hold

A map is determined by what its names hold, and a name holds what was put there last. Applying a
function to every value commutes with building a map and with looking a name up.
-/

namespace Backtest.NameMap

variable {β γ : Type}

theorem map_insertEntry (f : β → γ) (name : String) (value : β) (entries : List (String × β)) :
    (insertEntry name value entries).map (fun e => (e.1, f e.2)) =
      insertEntry name (f value) (entries.map fun e => (e.1, f e.2)) := by
  induction entries with
  | nil => rfl
  | cons entry rest ih =>
    simp only [insertEntry, List.map_cons]
    split
    · rfl
    · split
      · rw [List.map_cons, ih]
      · rfl

theorem map_insert (f : β → γ) (m : NameMap β) (name : String) (value : β) :
    (m.insert name value).map f = (m.map f).insert name (f value) :=
  NameMap.ext (map_insertEntry f name value m.entries)

theorem map_foldl_insert (f : β → γ) (entries : List (String × β)) (m : NameMap β) :
    (entries.foldl (fun m e => m.insert e.1 e.2) m).map f =
      (entries.map fun e => (e.1, f e.2)).foldl (fun m e => m.insert e.1 e.2) (m.map f) := by
  induction entries generalizing m with
  | nil => rfl
  | cons e rest ih => rw [List.foldl_cons, ih, map_insert, List.map_cons, List.foldl_cons]

theorem map_ofList (f : β → γ) (entries : List (String × β)) :
    (ofList entries).map f = ofList (entries.map fun e => (e.1, f e.2)) :=
  map_foldl_insert f entries empty

@[simp] theorem get?_map (f : β → γ) (m : NameMap β) (name : String) :
    (m.map f).get? name = (m.get? name).map f := by
  simp [get?, map, List.find?_map, Function.comp_def]

/-! ## Looking names up -/

variable {m m' : NameMap β} {name k : String} {value : β}

theorem find?_insertEntry (name : String) (value : β) (entries : List (String × β)) (k : String) :
    (insertEntry name value entries).find? (fun e => e.1 == k) =
      if name = k then some (name, value) else entries.find? fun e => e.1 == k := by
  induction entries with
  | nil => by_cases h : name = k <;> simp [insertEntry, h]
  | cons entry rest ih =>
    simp only [insertEntry]
    split
    · by_cases h : name = k <;> simp [h]
    · split
      · rename_i hlt
        rw [List.find?_cons, ih, List.find?_cons]
        by_cases h : name = k
        · have hne : entry.1 ≠ k := fun heq => String.lt_irrefl k (by rwa [heq, h] at hlt)
          simp [h, beq_eq_false_iff_ne.2 hne]
        · simp [h]
      · rename_i hnot hnot'
        have heq : entry.1 = name := (eq_of_not_lt hnot hnot').symm
        by_cases h : name = k <;> simp [h, heq]

theorem get?_insert :
    (m.insert name value).get? k = if name = k then some value else m.get? k := by
  rw [get?, insert, find?_insertEntry, apply_ite (Option.map Prod.snd)]
  rfl

theorem get?_foldl_insert (entries : List (String × β)) (m : NameMap β) (k : String) :
    (entries.foldl (fun m e => m.insert e.1 e.2) m).get? k =
      ((entries.reverse.find? fun e => e.1 == k).map (·.2)).or (m.get? k) := by
  induction entries generalizing m with
  | nil => simp
  | cons e rest ih =>
    rw [List.foldl_cons, ih, List.reverse_cons, List.find?_append, get?_insert]
    cases hrest : rest.reverse.find? fun e => e.1 == k with
    | some e' => simp
    | none => by_cases h : e.1 = k <;> simp [h]

/-- A name holds what the last entry of that name says. -/
theorem get?_ofList (entries : List (String × β)) (k : String) :
    (ofList entries).get? k = (entries.reverse.find? fun e => e.1 == k).map (·.2) := by
  rw [ofList, get?_foldl_insert]
  exact Option.or_none

theorem get?_ofList_of_mem {entries : List (String × β)} (hnames : (entries.map (·.1)).Nodup)
    {e : String × β} (he : e ∈ entries) : (ofList entries).get? e.1 = some e.2 := by
  rw [get?_ofList]
  cases hfind : entries.reverse.find? fun x => x.1 == e.1 with
  | none => exact absurd (List.find?_eq_none.1 hfind e (List.mem_reverse.2 he)) (by simp)
  | some x =>
    have hname : x.1 = e.1 := by simpa using List.find?_some hfind
    have hx := List.mem_reverse.1 (List.mem_of_find?_eq_some hfind)
    rw [List.inj_on_of_nodup_map hnames hx he hname, Option.map_some]

theorem get?_ofList_eq_none {entries : List (String × β)} (h : k ∉ entries.map (·.1)) :
    (ofList entries).get? k = none := by
  rw [get?_ofList, Option.map_eq_none_iff, List.find?_eq_none]
  intro e he hname
  exact h (List.mem_map.2 ⟨e, List.mem_reverse.1 he, eq_of_beq hname⟩)

/-- If values are compared faithfully then maps are. -/
theorem beqBy_iff {same : β → β → Bool} (hsame : ∀ x y, same x y = true ↔ x = y) :
    beqBy same m m' = true ↔ m = m' := by
  have hentries : ∀ l l' : List (String × β),
      (l.length = l'.length ∧
        (l.zip l').all (fun p => p.1.1 == p.2.1 && same p.1.2 p.2.2) = true) ↔ l = l' := by
    intro l
    induction l with
    | nil => simp [eq_comm]
    | cons e l ih =>
      rintro (_ | ⟨e', l'⟩)
      · simp
      · simp [← ih, hsame, Prod.ext_iff, and_left_comm]
  rw [beqBy, Bool.and_eq_true, beq_iff_eq, NameMap.ext_iff]
  exact hentries _ _

theorem names_nodup (m : NameMap β) : (m.entries.map (·.1)).Nodup :=
  List.pairwise_map.2 (m.sorted.imp String.ne_of_lt)

theorem mem_entries_iff {e : String × β} : e ∈ m.entries ↔ m.get? e.1 = some e.2 := by
  simp only [get?, Option.map_eq_some_iff]
  constructor
  · intro h
    cases hfind : m.entries.find? fun x => x.1 == e.1 with
    | none => exact absurd (List.find?_eq_none.1 hfind e h) (by simp)
    | some x =>
      have hname : x.1 = e.1 := by simpa using List.find?_some hfind
      have hx := List.mem_of_find?_eq_some hfind
      exact ⟨x, rfl, congrArg (·.2) (List.inj_on_of_nodup_map m.names_nodup hx h hname)⟩
  · rintro ⟨x, hfind, hvalue⟩
    have hname : x.1 = e.1 := by simpa using List.find?_some hfind
    rw [← Prod.ext hname hvalue]
    exact List.mem_of_find?_eq_some hfind

theorem mem_of_mem_ofList {entries : List (String × β)} {e : String × β}
    (h : e ∈ (ofList entries).entries) : e ∈ entries := by
  rw [mem_entries_iff, get?_ofList, Option.map_eq_some_iff] at h
  obtain ⟨x, hfind, hvalue⟩ := h
  have hname : x.1 = e.1 := by simpa using List.find?_some hfind
  rw [← Prod.ext hname hvalue]
  exact List.mem_reverse.1 (List.mem_of_find?_eq_some hfind)

/-- Entries of different names are all kept. -/
theorem entries_ofList_perm {entries : List (String × β)} (hnames : (entries.map (·.1)).Nodup) :
    (ofList entries).entries.Perm entries :=
  (List.perm_ext_iff_of_nodup (names_nodup _).of_map hnames.of_map).2 fun _ =>
    ⟨mem_of_mem_ofList, fun he => mem_entries_iff.2 (get?_ofList_of_mem hnames he)⟩

/-- Maps are equal if every name holds the same in both. -/
theorem ext_get? (h : ∀ k, m.get? k = m'.get? k) : m = m' := by
  have : Std.Irrefl fun a b : String × β => a.1 < b.1 := ⟨fun _ => String.lt_irrefl _⟩
  have : Std.Antisymm fun a b : String × β => a.1 < b.1 :=
    ⟨fun _ _ hab hba => absurd (String.lt_trans hab hba) (String.lt_irrefl _)⟩
  refine NameMap.ext (m.sorted.eq_of_mem_iff m'.sorted fun e => ?_)
  rw [mem_entries_iff, mem_entries_iff, h]

/-- The order of entries of different names does not matter. -/
theorem ofList_eq_of_perm {entries entries' : List (String × β)}
    (hnames : (entries.map (·.1)).Nodup) (h : entries.Perm entries') :
    ofList entries = ofList entries' := by
  have hnames' : (entries'.map (·.1)).Nodup := (h.map _).nodup_iff.1 hnames
  have hperm := (entries_ofList_perm hnames).trans (h.trans (entries_ofList_perm hnames').symm)
  refine ext_get? fun k => Option.ext fun value => ?_
  rw [← mem_entries_iff (e := (k, value)), ← mem_entries_iff (e := (k, value)), hperm.mem_iff]

/-- Rebuilding a map from its entries changes nothing. -/
theorem ofList_entries (m : NameMap β) : ofList m.entries = m := by
  refine ext_get? fun k => ?_
  rw [get?_ofList, get?]
  congr 1
  cases hlast : m.entries.reverse.find? fun e => e.1 == k with
  | none =>
    rw [List.find?_eq_none] at hlast
    exact (List.find?_eq_none.2 fun e he => hlast e (List.mem_reverse.2 he)).symm
  | some last =>
    have hmem := List.mem_reverse.1 (List.mem_of_find?_eq_some hlast)
    have hname : last.1 = k := by simpa using List.find?_some hlast
    cases hfirst : m.entries.find? fun e => e.1 == k with
    | none => exact absurd (List.find?_eq_none.1 hfirst last hmem) (by simp [hname])
    | some first =>
      have hsame : first.1 = k := by simpa using List.find?_some hfirst
      rw [List.inj_on_of_nodup_map m.names_nodup hmem (List.mem_of_find?_eq_some hfirst)
        (hname.trans hsame.symm)]

end Backtest.NameMap
