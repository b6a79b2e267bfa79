import Backtest.Document.Basic
import Backtest.Search.Space

/-!
# Stored parameters and signals

Assignments are stored as flat objects; the kind of a value is told by its notation alone, so an
integer stays an integer and a number keeps its point or exponent.
-/

namespace Backtest.Storage

open Parameter

def ofValue : Value Float → Document
  | .int v => .int v.toInt
  | .float v => .float v
  | .choice v => .text v

/-- An integer in range, else a number, else a choice. -/
def value? (d : Document) : Option (Value Float) :=
  match d.int64?, d.float?, d.text? with
  | some n, _, _ => some (.int n)
  | none, some x, _ => some (.float x)
  | none, none, some s => some (.choice s)
  | none, none, none => none

def ofAssignment (a : Assignment Float) : Document :=
  .object (a.entries.map fun e => (e.1, ofValue e.2))

def assignment? (d : Document) : Option (Assignment Float) := d.map? value?

def ofTexts (texts : List String) : Document := .list (texts.map .text)

def texts? (d : Document) : Option (List String) := d.list? Document.text?

def ofDeclaration (d : Declaration Float) : Document :=
  let kind := ("type", Document.text d.domain.kind.name)
  .object (("name", .text d.name) :: kind ::
    match d.domain with
    | .int low high step value =>
      [("min", .int low.toInt), ("max", .int high.toInt), ("step", .int step.toInt),
       ("default", .int value.toInt)]
    | .float low high step value =>
      [("min", .float low), ("max", .float high), ("step", .float step), ("default", .float value)]
    | .choice options value => [("options", ofTexts options), ("default", .text value)])

/-- Reads a requested range; its `type` tells which other members it has. -/
def rangeOverride? (d : Document) : Option (RangeOverride Float) := do
  let f ← d.fields? ["name", "type", "min", "max", "step", "options"]
  if f.positional then none
  let name ← f.required "name" Document.text?
  let kind ← f.required "type" Document.text?
  if kind = "int" then
    return ⟨name, .int (← f.required "min" Document.int64?) (← f.required "max" Document.int64?)
      (← f.required "step" Document.int64?)⟩
  else if kind = "float" then
    return ⟨name, .float (← f.required "min" Document.float?) (← f.required "max" Document.float?)
      (← f.required "step" Document.float?)⟩
  else if kind = "choice" then
    return ⟨name, .choice (← f.required "options" texts?)⟩
  else none

def ofSignal : Signal Float → Document
  | .long => .text "long"
  | .flat => .text "flat"
  | .short => .text "short"
  | .target w => .object [("target", .float w)]
  | .hold => .text "hold"

def plainSignal? (name : String) : Option (Signal Float) :=
  if name = "long" then some .long
  else if name = "flat" then some .flat
  else if name = "short" then some .short
  else if name = "hold" then some .hold
  else none

def signal? (d : Document) : Option (Signal Float) :=
  match d with
  | .object [("target", w)] => w.float?.map .target
  | d => d.named? plainSignal?

end Backtest.Storage
