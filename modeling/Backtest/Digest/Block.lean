/-!
# Blocks of words

Sixteen 32-bit words in a square, and how they are stirred: four words are mixed at a time, first
down each column and then along each diagonal.
-/

namespace Backtest.Digest

abbrev Word := UInt32

abbrev Block := Vector Word 16

def rotateLeft (x n : Word) : Word :=
  (x <<< n) ||| (x >>> (32 - n))

def rotateRight (x n : Word) : Word :=
  (x >>> n) ||| (x <<< (32 - n))

/-- Four words out of a block. -/
structure Quartet (ω : Type) where
  a : ω
  b : ω
  c : ω
  d : ω

namespace Block

/-- The places of the columns, then those of the diagonals. -/
def lanes : List (Quartet (Fin 16)) :=
  [⟨0, 4, 8, 12⟩, ⟨1, 5, 9, 13⟩, ⟨2, 6, 10, 14⟩, ⟨3, 7, 11, 15⟩,
   ⟨0, 5, 10, 15⟩, ⟨1, 6, 11, 12⟩, ⟨2, 7, 8, 13⟩, ⟨3, 4, 9, 14⟩]

/-- Changes the four words at some places. -/
def mix (s : Block) (places : Quartet (Fin 16)) (change : Quartet Word → Quartet Word) : Block :=
  let new := change ⟨s[places.a], s[places.b], s[places.c], s[places.d]⟩
  (((s.set places.a new.a).set places.b new.b).set places.c new.c).set places.d new.d

/-- Changes every lane, each in its own way. -/
def stir (s : Block) (changes : List (Quartet Word → Quartet Word)) : Block :=
  (lanes.zip changes).foldl (fun s (places, change) => s.mix places change) s

end Block

end Backtest.Digest
