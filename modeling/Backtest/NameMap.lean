/-!
# Finite maps from names

Entries are kept in the order of their names, each name once, so two maps with the same entries
are equal however they were built. The order is that of the names' UTF-8 bytes, which is also the
order of their code points.
-/

namespace Backtest

/-- A map from names to values, sorted by name. -/
@[ext]
structure NameMap (β : Type) where
  entries : List (String × β)
  sorted : entries.Pairwise fun a b => a.1 < b.1

namespace NameMap

variable {β : Type}

/-- Puts an entry in its place, over an older entry of that name. -/
def insertEntry (name : String) (value : β) : List (String × β) → List (String × β)
  | [] => [(name, value)]
  | entry :: rest =>
    if name < entry.1 then (name, value) :: entry :: rest
    else if entry.1 < name then entry :: insertEntry name value rest
    else (name, value) :: rest

theorem mem_insertEntry {name : String} {value : β} {entries : List (String × β)}
    {e : String × β} (h : e ∈ insertEntry name value entries) :
    e = (name, value) ∨ e ∈ entries := by
  induction entries with
  | nil => simpa [insertEntry] using h
  | cons entry rest ih =>
    simp only [insertEntry] at h
    split at h
    · simpa using h
    · split at h
      · rcases List.mem_cons.1 h with rfl | h
        · simp
        · rcases ih h with rfl | h <;> simp_all
      · rcases List.mem_cons.1 h with rfl | h <;> simp_all

theorem eq_of_not_lt {a b : String} (hab : ¬a < b) (hba : ¬b < a) : a = b :=
  String.le_antisymm (String.not_lt.1 hba) (String.not_lt.1 hab)

theorem sorted_insertEntry (name : String) (value : β) {entries : List (String × β)}
    (h : entries.Pairwise fun a b => a.1 < b.1) :
    (insertEntry name value entries).Pairwise fun a b => a.1 < b.1 := by
  induction entries with
  | nil => simp [insertEntry]
  | cons entry rest ih =>
    obtain ⟨hhead, htail⟩ := List.pairwise_cons.1 h
    simp only [insertEntry]
    split
    · rename_i hlt
      refine List.pairwise_cons.2 ⟨fun e he => ?_, h⟩
      rcases List.mem_cons.1 he with rfl | he
      · exact hlt
      · exact String.lt_trans hlt (hhead e he)
    · split
      · rename_i hlt
        refine List.pairwise_cons.2 ⟨fun e he => ?_, ih htail⟩
        rcases mem_insertEntry he with rfl | he
        · exact hlt
        · exact hhead e he
      · rename_i hnot hnot'
        refine List.pairwise_cons.2 ⟨fun e he => ?_, htail⟩
        rw [show name = entry.1 from eq_of_not_lt hnot hnot']
        exact hhead e he

def empty : NameMap β := ⟨[], List.Pairwise.nil⟩

instance : Inhabited (NameMap β) := ⟨empty⟩

/-- Sets a name's value. -/
def insert (m : NameMap β) (name : String) (value : β) : NameMap β :=
  ⟨insertEntry name value m.entries, sorted_insertEntry name value m.sorted⟩

/-- Later entries win over earlier ones of the same name. -/
def ofList (entries : List (String × β)) : NameMap β :=
  entries.foldl (fun m e => m.insert e.1 e.2) empty

def get? (m : NameMap β) (name : String) : Option β :=
  (m.entries.find? fun e => e.1 == name).map (·.2)

def contains (m : NameMap β) (name : String) : Bool :=
  (m.get? name).isSome

def size (m : NameMap β) : Nat := m.entries.length

def isEmpty (m : NameMap β) : Bool := m.entries.isEmpty

def names (m : NameMap β) : List String := m.entries.map (·.1)

/-- Applies a function to every value. -/
def map {γ : Type} (f : β → γ) (m : NameMap β) : NameMap γ :=
  ⟨m.entries.map fun e => (e.1, f e.2), by
    simpa [List.pairwise_map] using m.sorted⟩

/-- Equality of maps by a given equality of values. -/
def beqBy (same : β → β → Bool) (a b : NameMap β) : Bool :=
  a.size == b.size &&
    (a.entries.zip b.entries).all fun (x, y) => x.1 == y.1 && same x.2 y.2

instance [BEq β] : BEq (NameMap β) := ⟨beqBy (· == ·)⟩

end NameMap

end Backtest
