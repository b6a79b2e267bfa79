import Backtest.Strategy.Basic

/-!
# Search spaces

The space of a search is a schema whose parameters are either varied, over their declared range or
a narrower one, or pinned to one value. Points are numbered in mixed radix, the first varied
parameter being the slowest. A candidate leaves out what is at its schema default.
-/

namespace Backtest

open Parameter

/-- A requested range. -/
inductive Range (α : Type) where
  | int (low high step : Int64)
  | float (low high step : α)
  | choice (options : List String)
  deriving Repr

/-- A range for a named parameter in place of the declared one. -/
structure RangeOverride (α : Type) where
  name : String
  range : Range α
  deriving Repr

structure Space (α : Type) where
  schema : Schema α
  /-- Varied parameters in schema order. -/
  dimensions : List (Declaration α)
  /-- Pinned parameters with values of their declared kind. -/
  pins : Assignment α

def Range.kind {α : Type} : Range α → Kind
  | .int .. => .int
  | .float .. => .float
  | .choice .. => .choice

variable {α : Type} [Scalar α]

namespace Space

open Scalar

def ofSchema (schema : Schema α) : Space α :=
  ⟨schema, schema.declarations, .empty⟩

/-- The declared range cut down to a requested one, its default moved inside. -/
def narrow (d : Declaration α) (r : Range α) : Except (Rejection α) (Declaration α) :=
  match d.domain, r with
  | .int dlow dhigh _ value, .int low high step =>
    if low < dlow ∨ dhigh < high then
      .error (.invalidRange d.name (.leavesDeclared (.int low) (.int high)))
    else
      let top := if high < low then low else high
      let value := if value < low then low else if top < value then top else value
      .ok ⟨d.name, .int low high step value⟩
  | .float dlow dhigh _ value, .float low high step =>
    if low < dlow ∨ dhigh < high then
      .error (.invalidRange d.name (.leavesDeclared (.float low) (.float high)))
    else
      .ok ⟨d.name, .float low high step (smaller (larger value low) (larger high low))⟩
  | .choice declared value, .choice options =>
    match options.find? fun o => !declared.contains o with
    | some bad => .error (.invalidChoice d.name bad declared)
    | none =>
      let value := if options.contains value then value else options.head?.getD value
      .ok ⟨d.name, .choice options value⟩
  | declared, r => .error (.rangeMismatch d.name declared.kind r.kind)

/-- Replaces the first declaration of a name. -/
def replaceFirst (d : Declaration α) : List (Declaration α) → List (Declaration α)
  | [] => []
  | x :: xs => if x.name == d.name then d :: xs else x :: replaceFirst d xs

/-- Varies a parameter over a requested range, which has to stay inside the declared one. -/
def override (s : Space α) (o : RangeOverride α) : Except (Rejection α) (Space α) :=
  match s.schema.get? o.name with
  | none => .error (.unknownParameter o.name)
  | some declared =>
    if s.pins.contains o.name then .error (.pinnedAndRanged o.name)
    else do
      let d ← narrow declared o.range
      d.check
      return { s with dimensions := replaceFirst d s.dimensions }

/-- Pins a parameter to one value. -/
def pin (s : Space α) (name : String) (v : Value α) : Except (Rejection α) (Space α) :=
  match s.schema.get? name with
  | none => .error (.unknownParameter name)
  | some declared =>
    (declared.normalize v).map fun v =>
      { s with
        pins := s.pins.insert name v
        dimensions := s.dimensions.filter fun d => d.name != name }

/-- Pins every parameter of an assignment, in name order. -/
def pinAll (s : Space α) (a : Assignment α) : Except (Rejection α) (Space α) :=
  a.entries.foldlM (fun s e => s.pin e.1 e.2) s

/-- The product of the grid lengths, cut off at the largest count as soon as it is passed. -/
def size (s : Space α) : Nat :=
  let product := s.dimensions.foldl
    (fun acc d => acc.bind fun n =>
      if n * d.domain.gridLength ≤ maxCount then some (n * d.domain.gridLength) else none)
    (some 1)
  product.getD maxCount

/-- The digits of a number in mixed radix, the last length being the fastest, and what is left
above them. A length of 0 counts as 1. -/
def digits : List Nat → Nat → List Nat × Nat
  | [], i => ([], i)
  | n :: ns, i =>
    let (ds, rest) := digits ns i
    (rest % max n 1 :: ds, rest / max n 1)

/-- Whether a value is the schema's default for its name. -/
def isDefault (s : Space α) (e : String × Value α) : Bool :=
  match s.schema.get? e.1 with
  | some d => d.defaultValue.same e.2
  | none => false

/-- The assignment of pins and drawn values, without what is at its default. -/
def candidate (s : Space α) (drawn : List (String × Value α)) : Assignment α :=
  NameMap.ofList ((s.pins.entries ++ drawn).filter fun e => !s.isDefault e)

/-- The values of the varied parameters at a grid index, in schema order. -/
def gridValues (s : Space α) (i : Nat) : List (String × Value α) :=
  let lengths := s.dimensions.map fun d => d.domain.gridLength
  List.zipWith (fun d k => (d.name, d.domain.gridValue k)) s.dimensions (digits lengths i).1

/-- The candidate at a grid index. -/
def gridPoint (s : Space α) (i : Nat) : Assignment α :=
  s.candidate (s.gridValues i).reverse

/-- Draws a value for each varied parameter in turn. -/
def drawValues [Random.Uniform α] :
    List (Declaration α) → Random.Generator → List (String × Value α) × Random.Generator
  | [], g => ([], g)
  | d :: ds, g =>
    let (v, g) := d.domain.sample g
    let (vs, g) := drawValues ds g
    ((d.name, v) :: vs, g)

/-- One random candidate. -/
def sample [Random.Uniform α] (s : Space α) (g : Random.Generator) :
    Assignment α × Random.Generator :=
  let (values, g) := drawValues s.dimensions g
  (s.candidate values, g)

end Space

end Backtest
