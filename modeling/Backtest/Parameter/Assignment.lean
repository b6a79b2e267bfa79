import Backtest.NameMap
import Backtest.Rejection

/-!
# Parameter assignments

An assignment gives some parameters their values. It may be partial: what it leaves out takes its
declared default.
-/

namespace Backtest.Parameter

abbrev Assignment (α : Type) := NameMap (Value α)

namespace Assignment

variable {α : Type} [Scalar α]

/-- The same names with the same values. -/
def same (a b : Assignment α) : Bool :=
  NameMap.beqBy Value.same a b

/-- Looks a value up and reads it as some kind. -/
def read {β : Type} (a : Assignment α) (name : String) (kind : Kind)
    (reading : Value α → Option β) : Except (Rejection α) β :=
  match a.get? name with
  | none => .error (.unknownParameter name)
  | some v =>
    match reading v with
    | some b => .ok b
    | none => .error (.typeMismatch name kind v)

/-- An integer; a number without a fraction is accepted. -/
def int (a : Assignment α) (name : String) : Except (Rejection α) Int64 :=
  a.read name .int Value.int?

/-- An integer that is not negative, such as a period. -/
def count (a : Assignment α) (name : String) : Except (Rejection α) Nat := do
  let v ← a.int name
  if 0 ≤ v.toInt then .ok v.toInt.toNat
  else
    .error (.outOfRange name (Scalar.int v.toInt) (Scalar.nat 0) (Scalar.nat maxCount))

/-- A number; an integer is accepted. -/
def float (a : Assignment α) (name : String) : Except (Rejection α) α :=
  a.read name .float Value.number?

def choice (a : Assignment α) (name : String) : Except (Rejection α) String :=
  a.read name .choice fun
    | .choice v => some v
    | _ => none

/-- `name=value` pairs in name order. -/
def text (a : Assignment α) : String :=
  ", ".intercalate (a.entries.map fun e => e.1 ++ "=" ++ e.2.text)

end Assignment

end Backtest.Parameter
