import Backtest.Indicator.Basic
import Backtest.Parameter.Schema

/-!
# Strategies

A strategy maps what is known at a close, with parameter values, to the exposure it wants after the
next opening. It never sees the account. Strategies that read indicator series declare them, so
that a run computes each once; `decide` is the same decision from the history alone.
-/

namespace Backtest

/-- Desired exposure after the next fill. -/
inductive Signal (α : Type) where
  /-- Fully invested. -/
  | long
  /-- No position. -/
  | flat
  /-- Fully invested on the short side. -/
  | short
  /-- A weight of equity; negative is short. -/
  | target (weight : α)
  /-- Whatever is held. -/
  | hold
  deriving Repr

namespace Signal

variable {α : Type} [Scalar α]

/-- The requested weight of equity; `hold` requests none. -/
def weight? : Signal α → Option α
  | .long => some (Scalar.nat 1)
  | .flat => some (Scalar.nat 0)
  | .short => some (-Scalar.nat 1)
  | .target w => some w
  | .hold => none

/-- Signals that leave a position on the requested side as it is. -/
def isDiscrete : Signal α → Bool
  | .long | .flat | .short => true
  | .target _ | .hold => false

end Signal

/-- Why a strategy gave no usable signal. -/
inductive FaultCause (α : Type) where
  | parameter (rejection : Rejection α)
  | unknownAverage (name : String)
  | weightNotFinite (weight : α)
  /-- A reason in the strategy's own words. -/
  | reported (text : String)
  /-- The strategy did not end in an orderly way. -/
  | crashed (text : String)
  deriving Repr

structure Fault (α : Type) where
  strategy : String
  cause : FaultCause α
  deriving Repr

def FaultCause.message {α : Type} [Scalar α] : FaultCause α → String
  | .parameter r => r.message
  | .unknownAverage name => "unknown ma_type '" ++ name ++ "'"
  | .weightNotFinite w => "non-finite target weight " ++ Scalar.text w
  | .reported text => text
  | .crashed text => text

def Fault.message {α : Type} [Scalar α] (f : Fault α) : String :=
  "strategy '" ++ f.strategy ++ "' failed: " ++ f.cause.message

/-- A failed parameter look-up as a fault of a strategy. -/
def orFault {α β : Type} (strategy : String) (r : Except (Rejection α) β) : Except (Fault α) β :=
  r.mapError fun e => ⟨strategy, .parameter e⟩

/-- A trading rule. -/
structure Strategy (α : Type) where
  /-- The name under which the strategy is registered. -/
  name : String
  /-- One line for listings. -/
  description : String := ""
  schema : Parameter.Schema α := {}
  /-- Conditions that tie parameters together, checked on full assignments. -/
  constrain : Parameter.Assignment α → Except (Rejection α) Unit := fun _ => .ok ()
  /-- The series that `evaluate` reads. -/
  indicators : Parameter.Assignment α → Except (Fault α) (List (Indicator α)) := fun _ => .ok []
  /-- The signal for the newest bar, from the history alone. -/
  decide : History α → Parameter.Assignment α → Except (Fault α) (Signal α)
  /-- The signal for the newest bar, with the declared series up to that bar. -/
  evaluate : History α → IndicatorView α → Parameter.Assignment α → Except (Fault α) (Signal α) :=
    fun history _ a => decide history a

namespace Strategy

variable {α : Type} [Scalar α]

/-- The full assignment for a run: declared values, defaults, and the strategy's own conditions. -/
def resolve (s : Strategy α) (a : Parameter.Assignment α) :
    Except (Rejection α) (Parameter.Assignment α) := do
  let full ← s.schema.resolve a
  s.constrain full
  return full

/-- Computes the declared series over a history alone and evaluates its newest bar; flat without
any bar. -/
def onHistory (history : History α)
    (indicators : Except (Fault α) (List (Indicator α)))
    (evaluate : IndicatorView α → Except (Fault α) (Signal α)) : Except (Fault α) (Signal α) :=
  if history.isEmpty then .ok .flat
  else do
    let table := IndicatorTable.compute history.series (← indicators)
    evaluate (table.view (history.length - 1))

end Strategy

end Backtest
