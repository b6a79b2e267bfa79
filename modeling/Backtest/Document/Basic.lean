import Backtest.NameMap
import Backtest.Time.Reader

/-!
# Documents

The values that stored results and experiment files are made of, whatever their notation, and how
typed values are read from them. An object keeps its members in order, repeated names included. A
record may also be given as a list of its fields in their declared order.
-/

namespace Backtest

inductive Document where
  | null
  | bool (value : Bool)
  | int (value : Int)
  | float (value : Float)
  | text (value : String)
  | list (items : List Document)
  | object (members : List (String × Document))
  deriving Inhabited, Repr

namespace Document

/-- A number; an integer is the number nearest to it. -/
def float? : Document → Option Float
  | .float x => some x
  | .int n => some (Float.ofInt n)
  | _ => none

/-- A count that fits a 64-bit word. -/
def count? : Document → Option Nat
  | .int n => if 0 ≤ n ∧ n < UInt64.size then some n.toNat else none
  | _ => none

/-- An integer that fits 64 bits with a sign. -/
def int64? : Document → Option Int64
  | .int n => if Int64.minValue.toInt ≤ n ∧ n ≤ Int64.maxValue.toInt then some (Int64.ofInt n) else none
  | _ => none

def bool? : Document → Option Bool
  | .bool b => some b
  | _ => none

def text? : Document → Option String
  | .text s => some s
  | _ => none

def list? {β : Type} (item : Document → Option β) : Document → Option (List β)
  | .list items => items.mapM item
  | _ => none

/-- Anything, or `null` for nothing. -/
def nullable? {β : Type} (value : Document → Option β) : Document → Option (Option β)
  | .null => some none
  | d => (value d).map some

/-- Reads every member; the last of equal names counts. -/
def map? {β : Type} (value : Document → Option β) : Document → Option (NameMap β)
  | .object members =>
    (members.mapM fun m => (value m.2).map fun v => (m.1, v)).map NameMap.ofList
  | _ => none

def time? (d : Document) : Option Timestamp :=
  d.text?.bind Time.stored?

/-- One of a list of named things: its name, or an object with the name and nothing else. -/
def named? {β : Type} (ofName : String → Option β) : Document → Option β
  | .text s => ofName s
  | .object [(name, .null)] => ofName name
  | _ => none

/-- The fields of a record. -/
structure Fields where
  get? : String → Option Document
  /-- The record was given as a list, in which no field can be left out unless it has a default. -/
  positional : Bool

/-- How often a member name occurs. -/
def occurrences (members : List (String × Document)) (name : String) : Nat :=
  members.countP fun m => m.1 == name

/-- The fields of a record with the given names. A name that occurs twice is refused; other names
are passed over. -/
def fields? (names : List String) : Document → Option Fields
  | .object members =>
    if names.all fun n => occurrences members n ≤ 1 then
      some ⟨fun name => (members.find? fun m => m.1 == name).map (·.2), false⟩
    else none
  | .list items =>
    if items.length ≤ names.length then
      some ⟨fun name => (names.idxOf? name).bind fun i => items[i]?, true⟩
    else none
  | _ => none

namespace Fields

variable {β : Type}

/-- A field that has to be there. -/
def required (f : Fields) (name : String) (value : Document → Option β) : Option β :=
  (f.get? name).bind value

/-- A field that may be left out of an object, or be `null`. -/
def optional (f : Fields) (name : String) (value : Document → Option β) : Option (Option β) :=
  match f.get? name with
  | some d => nullable? value d
  | none => if f.positional then none else some none

/-- A field with a default. -/
def withDefault (f : Fields) (name : String) (value : Document → Option β) (default : β) :
    Option β :=
  match f.get? name with
  | some d => value d
  | none => some default

end Fields

end Document

end Backtest
