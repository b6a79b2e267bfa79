import Backtest.Parameter.Declaration

/-!
# Schemas

The parameters that a strategy declares, in the order in which they are enumerated.
-/

namespace Backtest.Parameter

structure Schema (α : Type) where
  declarations : List (Declaration α) := []
  deriving Repr

namespace Schema

variable {α : Type} [Scalar α]

def get? (s : Schema α) (name : String) : Option (Declaration α) :=
  s.declarations.find? fun d => d.name == name

def names (s : Schema α) : List String := s.declarations.map (·.name)

def isEmpty (s : Schema α) : Bool := s.declarations.isEmpty

/-- Every parameter at its default. -/
def defaults (s : Schema α) : Assignment α :=
  NameMap.ofList (s.declarations.map fun d => (d.name, d.defaultValue))

/-- Refuses the first undeclared name or unacceptable value, in name order. -/
def validate (s : Schema α) (a : Assignment α) : Except (Rejection α) Unit :=
  a.entries.forM fun (name, v) =>
    match s.get? name with
    | none => .error (.unknownParameter name)
    | some d => (d.normalize v).map fun _ => ()

/-- The value that a declared parameter takes: the assigned one, or its default. -/
def settle (a : Assignment α) (d : Declaration α) : Except (Rejection α) (String × Value α) :=
  match a.get? d.name with
  | some v => (d.normalize v).map fun w => (d.name, w)
  | none => .ok (d.name, d.defaultValue)

/-- The full assignment: every declared parameter with an accepted value of its kind. -/
def resolve (s : Schema α) (a : Assignment α) : Except (Rejection α) (Assignment α) := do
  s.validate a
  let entries ← s.declarations.mapM (settle a)
  return NameMap.ofList entries

end Schema

end Backtest.Parameter
