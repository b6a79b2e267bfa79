import Backtest.Document.Basic

/-!
# Tables under construction

The tables of a TOML text grow statement by statement. A table is declared by one header at most; a
header below it, or a dotted key, may bring it about before. A table that dotted keys have brought
about is not declared again, and dotted keys do not reach into a declared one.
-/

namespace Backtest.Document.Toml

/-- How a table came about. -/
inductive Origin where
  /-- By a header of its own. -/
  | declared
  /-- By a header of a table below it. -/
  | implied
  /-- By a dotted key. -/
  | dotted
  deriving Repr, DecidableEq

inductive Entry where
  | value (d : Document)
  | table (origin : Origin) (members : List (String × Entry))
  /-- An array of tables, newest first. -/
  | tables (elements : List (List (String × Entry)))

abbrev Members := List (String × Entry)

namespace Members

def get? (ms : Members) (name : String) : Option Entry :=
  (ms.find? fun m => m.1 == name).map (·.2)

/-- Sets a member, in its place or at the end. -/
def set (ms : Members) (name : String) (e : Entry) : Members :=
  if (get? ms name).isSome then ms.map fun m => if m.1 == name then (name, e) else m
  else ms ++ [(name, e)]

/-- Changes the table at the end of a path; of an array of tables the newest is meant. Missing
tables come about as `missing` says, and a dotted path does not enter a declared table. -/
def update (missing : Origin) (change : Origin → Members → Option Members) :
    (path : List String) → Origin → Members → Option Members
  | [], origin, ms => change origin ms
  | name :: path, _, ms =>
    match get? ms name with
    | none =>
      (update missing change path missing []).map fun inner =>
        set ms name (.table missing inner)
    | some (.table origin inner) =>
      if missing = .dotted ∧ origin = .declared then none
      else
        (update missing change path origin inner).map fun inner =>
          set ms name (.table origin inner)
    | some (.tables (newest :: earlier)) =>
      (update missing change path .declared newest).map fun newest =>
        set ms name (.tables (newest :: earlier))
    | some _ => none

/-- Adds a value under a dotted key whose last part is `name`. The table that takes it must have
come about by this very kind of key, or be the one that the statement stands in. -/
def put (path : List String) (name : String) (e : Entry) (ms : Members) : Option Members :=
  update .dotted
    (fun origin ms =>
      if !path.isEmpty ∧ origin ≠ .dotted then none
      else if (get? ms name).isSome then none
      else some (set ms name e))
    path .declared ms

/-- Declares a table by a header. -/
def declare (path : List String) (name : String) (ms : Members) : Option Members :=
  update .implied
    (fun _ ms =>
      match get? ms name with
      | none => some (set ms name (.table .declared []))
      | some (.table .implied inner) => some (set ms name (.table .declared inner))
      | some _ => none)
    path .declared ms

/-- Begins a new element of an array of tables. -/
def extend (path : List String) (name : String) (ms : Members) : Option Members :=
  update .implied
    (fun _ ms =>
      match get? ms name with
      | none => some (set ms name (.tables [[]]))
      | some (.tables elements) => some (set ms name (.tables ([] :: elements)))
      | some _ => none)
    path .declared ms

/-- Adds a value to the table of a header. -/
def putAt (header path : List String) (name : String) (e : Entry) (ms : Members) :
    Option Members :=
  update .implied (fun _ ms => put path name e ms) header .declared ms

end Members

mutual

/-- The finished document. -/
def Entry.document : Entry → Document
  | .value d => d
  | .table _ ms => .object (documents ms)
  | .tables es => .list (elements es).reverse

def documents : List (String × Entry) → List (String × Document)
  | [] => []
  | (name, e) :: ms => (name, e.document) :: documents ms

def elements : List (List (String × Entry)) → List Document
  | [] => []
  | ms :: es => .object (documents ms) :: elements es

end

end Backtest.Document.Toml
