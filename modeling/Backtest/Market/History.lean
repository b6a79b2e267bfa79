import Backtest.Market.Bar

/-!
# History at a close

What is known when a bar has closed: that bar and all before it, the newest first. A decision is
given a history and so cannot see a later bar.
-/

namespace Backtest

structure History (α : Type) where
  newestFirst : List (Bar α)
  deriving Repr

namespace History

variable {α : Type}

def empty : History α := ⟨[]⟩

/-- The history after a whole series. -/
def ofSeries (bars : List (Bar α)) : History α := ⟨bars.reverse⟩

/-- The bars in order of time. -/
def series (h : History α) : List (Bar α) := h.newestFirst.reverse

def length (h : History α) : Nat := h.newestFirst.length

def isEmpty (h : History α) : Bool := h.newestFirst.isEmpty

/-- The history one bar later. -/
def push (h : History α) (b : Bar α) : History α := ⟨b :: h.newestFirst⟩

/-- The bar `age` bars before the newest one. -/
def back? (h : History α) (age : Nat) : Option (Bar α) := h.newestFirst[age]?

def last? (h : History α) : Option (Bar α) := h.newestFirst.head?

end History

end Backtest
