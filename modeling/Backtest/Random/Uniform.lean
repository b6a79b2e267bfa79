import Backtest.Random.Generator

/-!
# Uniform draws

An index below a bound is the high half of a random word times the bound; words whose low half
falls outside the largest fair zone are drawn again. A double between two bounds is a random
fraction below one, scaled so that the upper bound is never exceeded.
-/

namespace Backtest.Random

/-- Numbers that can be drawn uniformly between two bounds. -/
class Uniform (α : Type) where
  between : α → α → Generator → α × Generator

/-- Redraws allowed before the last word is taken as it is; each is needed with a chance below one
half. -/
def redraws : Nat := 4096

/-- The width of the fair zone: the bound, shifted up until its top bit is the word's. -/
def fairZone (bits bound : Nat) : Nat :=
  bound * Nat.pow 2 (bits - 1 - Nat.log2 bound) - 1

/-- Draws words until one falls into the fair zone. -/
def drawIndex (bits : Nat) (draw : Generator → Nat × Generator) (bound : Nat) :
    (fuel : Nat) → Generator → Nat × Generator
  | 0, g =>
    let (v, g) := draw g
    (v * bound / Nat.pow 2 bits, g)
  | fuel + 1, g =>
    let (v, g) := draw g
    let product := v * bound
    if product % Nat.pow 2 bits ≤ fairZone bits bound then (product / Nat.pow 2 bits, g)
    else drawIndex bits draw bound fuel g

/-- A uniform index below `bound`, from 64-bit words. -/
def index (bound : Nat) (g : Generator) : Nat × Generator :=
  drawIndex 64 Generator.longWord bound redraws g

/-- A uniform index below a `bound` that fits 32 bits, from 32-bit words. -/
def shortIndex (bound : Nat) (g : Generator) : Nat × Generator :=
  drawIndex 32 (fun g => let (w, g) := g.word; (w.toNat, g)) bound redraws g

/-- A uniform element, nothing from an empty list. -/
def choose {β : Type} (xs : List β) (g : Generator) : Option β × Generator :=
  if xs.isEmpty then (none, g)
  else
    let (i, g) := if xs.length < UInt32.size then shortIndex xs.length g else index xs.length g
    (xs[i]?, g)

/-- The largest fraction that is drawn, `1 - 2⁻⁵²`. -/
def greatestFraction : Float := 1.0 - Float.ofBits 0x3cb0000000000000

/-- Lowers a scale one double at a time until it no longer carries `low` beyond `high`. -/
def fitScale (low high : Float) : (fuel : Nat) → Float → Float
  | 0, scale => scale
  | fuel + 1, scale =>
    if high < scale * greatestFraction + low then
      fitScale low high fuel (Float.ofBits (scale.toBits - 1))
    else scale

/-- A fraction below one with 52 random bits. -/
def fraction (g : Generator) : Float × Generator :=
  let (v, g) := g.longWord
  (Float.ofBits (UInt64.ofNat (v >>> 12) ||| 0x3ff0000000000000) - 1.0, g)

instance : Uniform Float where
  between low high g :=
    let scale := fitScale low high 1024 ((high - low) / greatestFraction)
    let (f, g) := fraction g
    (f * scale + low, g)

end Backtest.Random
