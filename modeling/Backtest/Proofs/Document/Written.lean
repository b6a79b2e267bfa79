import Backtest.Document.Basic

/-!
# What is written of a document

A text notation without numbers that are not finite has `null` in their place. A document without
such numbers is written as it is.
-/

namespace Backtest.Document

mutual

/-- What is left of a document in its text: `null` in place of every number that is not finite. -/
def written : Document → Document
  | .null => .null
  | .bool b => .bool b
  | .int n => .int n
  | .float x => if x.isFinite then .float x else .null
  | .text s => .text s
  | .list items => .list (writtenItems items)
  | .object members => .object (writtenMembers members)

def writtenItems : List Document → List Document
  | [] => []
  | d :: ds => written d :: writtenItems ds

def writtenMembers : List (String × Document) → List (String × Document)
  | [] => []
  | (name, d) :: ms => (name, written d) :: writtenMembers ms

end

theorem writtenItems_eq_map (items : List Document) : writtenItems items = items.map written := by
  induction items with
  | nil => rfl
  | cons d ds ih => rw [writtenItems, ih, List.map_cons]

theorem writtenMembers_eq_map (members : List (String × Document)) :
    writtenMembers members = members.map fun m => (m.1, m.2.written) := by
  induction members with
  | nil => rfl
  | cons m ms ih => rw [writtenMembers, ih, List.map_cons]

theorem written_list (items : List Document) :
    (list items).written = .list (items.map written) := by
  rw [written, writtenItems_eq_map]

theorem written_object (members : List (String × Document)) :
    (object members).written = .object (members.map fun m => (m.1, m.2.written)) := by
  rw [written, writtenMembers_eq_map]

mutual

def floats : Document → List Float
  | .null => []
  | .bool _ => []
  | .int _ => []
  | .float x => [x]
  | .text _ => []
  | .list items => floatsOfItems items
  | .object members => floatsOfMembers members

def floatsOfItems : List Document → List Float
  | [] => []
  | d :: ds => floats d ++ floatsOfItems ds

def floatsOfMembers : List (String × Document) → List Float
  | [] => []
  | (_, d) :: ms => floats d ++ floatsOfMembers ms

end

def AllFinite (d : Document) : Prop := ∀ x ∈ d.floats, x.isFinite = true

instance (d : Document) : Decidable d.AllFinite := by
  unfold AllFinite
  infer_instance

@[simp]
theorem allFinite_null : AllFinite .null := by simp [AllFinite, floats]

@[simp]
theorem allFinite_bool (b : Bool) : AllFinite (.bool b) := by simp [AllFinite, floats]

@[simp]
theorem allFinite_int (n : Int) : AllFinite (.int n) := by simp [AllFinite, floats]

@[simp]
theorem allFinite_float (x : Float) : AllFinite (.float x) ↔ x.isFinite = true := by
  simp [AllFinite, floats]

@[simp]
theorem allFinite_text (s : String) : AllFinite (.text s) := by simp [AllFinite, floats]

@[simp]
theorem allFinite_list (items : List Document) :
    AllFinite (.list items) ↔ ∀ d ∈ items, d.AllFinite := by
  rw [AllFinite, floats]
  induction items with
  | nil => simp [floatsOfItems]
  | cons d ds ih => simp [floatsOfItems, or_imp, forall_and, ih, AllFinite]

@[simp]
theorem allFinite_object (members : List (String × Document)) :
    AllFinite (.object members) ↔ ∀ m ∈ members, m.2.AllFinite := by
  rw [AllFinite, floats]
  induction members with
  | nil => simp [floatsOfMembers]
  | cons m ms ih => simp [floatsOfMembers, or_imp, forall_and, ih, AllFinite]

end Backtest.Document
