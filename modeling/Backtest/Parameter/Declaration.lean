import Backtest.Parameter.Assignment
import Backtest.Random.Uniform

/-!
# Parameter declarations

A declaration gives a parameter its kind, its range and its default. From the range follow the
values that are accepted, the points of a search grid and the distribution of random draws.
-/

namespace Backtest.Parameter

/-- The range of a parameter. -/
inductive Domain (α : Type) where
  | int (low high step default : Int64)
  | float (low high step default : α)
  | choice (options : List String) (default : String)
  deriving Repr

structure Declaration (α : Type) where
  name : String
  domain : Domain α
  deriving Repr

namespace Domain

variable {α : Type} [Scalar α]

open Scalar

def kind : Domain α → Kind
  | .int .. => .int
  | .float .. => .float
  | .choice .. => .choice

def defaultValue : Domain α → Value α
  | .int _ _ _ default => .int default
  | .float _ _ _ default => .float default
  | .choice _ default => .choice default

/-- The first fault of a range: bounds in order, a positive step, a default inside. -/
def fault? : Domain α → Option (RangeFault α)
  | .int low high step default =>
    if high < low then some (.reversed (.int low) (.int high))
    else if step ≤ 0 then some (.step (.int step))
    else if default < low ∨ high < default then
      some (.defaultOutside (.int default) (.int low) (.int high))
    else none
  | .float low high step default =>
    if !(isFinite low && isFinite high && isFinite step) then some .notFinite
    else if high < low then some (.reversed (.float low) (.float high))
    else if step ≤ nat 0 then some (.step (.float step))
    else if default < low ∨ high < default then
      some (.defaultOutside (.float default) (.float low) (.float high))
    else none
  | .choice options default =>
    if options.isEmpty then some .noOptions
    else if !options.contains default then some (.defaultNoOption default)
    else none

/-- A grid may overshoot its upper bound by this fraction of a step. -/
def gridTolerance : α := decimal 1 9

/-- The number of grid points, for which there are 64 bits: a count that passes the largest one
starts over at 0, and so does the distance of integer bounds at its own end. -/
def gridLength : Domain α → Nat
  | .int low high step _ =>
    if high < low ∨ step ≤ 0 then 0
    else (((high - low) / step).toUInt64 + 1).toNat
  | .float low high step _ =>
    if high < low ∨ step ≤ nat 0 then 0
    else (floorUpTo maxCount ((high - low) / step + gridTolerance) + 1) % (maxCount + 1)
  | .choice options _ => options.length

/-- Grid point `i`, for `i` below the grid length. -/
def gridValue (d : Domain α) (i : Nat) : Value α :=
  match d with
  | .int low _ step _ => .int (Int64.ofInt (low.toInt + step.toInt * i))
  | .float low high step _ => .float (smaller (low + step * nat i) high)
  | .choice options default => .choice (options[i]?.getD default)

def gridValues (d : Domain α) : List (Value α) :=
  (List.range d.gridLength).map d.gridValue

/-- One random draw: a grid point of an integer range, any number of a number range, an option. -/
def sample [Random.Uniform α] (d : Domain α) (g : Random.Generator) : Value α × Random.Generator :=
  match d with
  | .int .. =>
    let (i, g) := Random.index (max d.gridLength 1) g
    (d.gridValue i, g)
  | .float low high _ _ =>
    if low < high then
      let (v, g) := Random.Uniform.between low high g
      (.float v, g)
    else (.float low, g)
  | .choice options default =>
    let (v, g) := Random.choose options g
    (.choice (v.getD default), g)

end Domain

namespace Declaration

variable {α : Type} [Scalar α]

def int (name : String) (low high step default : Int64) : Declaration α :=
  ⟨name, .int low high step default⟩

def float (name : String) (low high step default : α) : Declaration α :=
  ⟨name, .float low high step default⟩

def choice (name : String) (options : List String) (default : String) : Declaration α :=
  ⟨name, .choice options default⟩

def defaultValue (d : Declaration α) : Value α := d.domain.defaultValue

/-- Accepts a declaration whose range has no fault. -/
def check (d : Declaration α) : Except (Rejection α) Unit :=
  match d.domain.fault? with
  | some f => .error (.invalidRange d.name f)
  | none => .ok ()

/-- Accepts a value inside the range and gives it the declared kind. -/
def normalize (d : Declaration α) (v : Value α) : Except (Rejection α) (Value α) :=
  match d.domain with
  | .int low high _ _ =>
    match v.int? with
    | none => .error (.typeMismatch d.name .int v)
    | some n =>
      if n < low ∨ high < n then
        .error (.outOfRange d.name (Scalar.int n.toInt) (Scalar.int low.toInt)
          (Scalar.int high.toInt))
      else .ok (.int n)
  | .float low high _ _ =>
    match v.number? with
    | none => .error (.typeMismatch d.name .float v)
    | some x =>
      if Scalar.isNaN x then .error (.typeMismatch d.name .float v)
      else if x < low ∨ high < x then .error (.outOfRange d.name x low high)
      else .ok (.float x)
  | .choice options _ =>
    match v with
    | .choice c =>
      if options.contains c then .ok (.choice c) else .error (.invalidChoice d.name c options)
    | _ => .error (.typeMismatch d.name .choice v)

end Declaration

end Backtest.Parameter
