import Backtest.Digest.Blake3
import Backtest.Digest.Block

/-!
# Random words

A generator is a position in the ChaCha12 key stream of a 256-bit key. Keys are expanded from a
64-bit seed, and seeds for parts of a run are derived from a master seed by hashing, so that a part
draws the same words whatever else has been drawn.
-/

namespace Backtest.Random

open Digest (Word Block Quartet rotateLeft)

/-- Position `position`, counted in 32-bit words, of the stream of a key. -/
structure Generator where
  key : Vector Word 8
  position : Nat

namespace Generator

/-- Stirs four words. -/
def quarter (q : Quartet Word) : Quartet Word :=
  let a := q.a + q.b
  let d := rotateLeft (q.d ^^^ a) 16
  let c := q.c + d
  let b := rotateLeft (q.b ^^^ c) 12
  let a := a + b
  let d := rotateLeft (d ^^^ a) 8
  let c := c + d
  ⟨a, rotateLeft (b ^^^ c) 7, c, d⟩

/-- A round of the columns followed by one of the diagonals. -/
def doubleRound (s : Block) : Block :=
  s.stir (List.replicate 8 quarter)

/-- The four words in front of every key. -/
def constants : Vector Word 4 := #v[0x61707865, 0x3320646e, 0x79622d32, 0x6b206574]

/-- Block `counter` of the key stream: twelve rounds over the key and the counter. -/
def block (key : Vector Word 8) (counter : Nat) : Block :=
  let place : Vector Word 4 :=
    #v[UInt32.ofNat counter, UInt32.ofNat (counter / UInt32.size), 0, 0]
  let s : Block := constants ++ key ++ place
  Vector.zipWith (· + ·) s (Nat.repeat doubleRound 6 s)

/-- The next 32 bits. -/
def word (g : Generator) : UInt32 × Generator :=
  let i : Fin 16 := ⟨g.position % 16, Nat.mod_lt _ (by decide)⟩
  ((block g.key (g.position / 16))[i], { g with position := g.position + 1 })

/-- The next 64 bits, low word first. -/
def longWord (g : Generator) : Nat × Generator :=
  let (low, g) := g.word
  let (high, g) := g.word
  (low.toNat + UInt32.size * high.toNat, g)

/-- One step of the linear congruence that expands a seed. -/
def expandStep (state : UInt64) : UInt64 :=
  state * 6364136223846793005 + 11634580027462260723

/-- The output of the expansion in a state: a rotated exclusive-or shift of its high bits. -/
def expandOutput (state : UInt64) : UInt32 :=
  let x := (((state >>> 18) ^^^ state) >>> 27).toUInt32
  let n := (state >>> 59).toUInt32
  (x >>> n) ||| (x <<< ((32 - n) % 32))

/-- The generator of a 64-bit seed. -/
def ofSeed (seed : UInt64) : Generator :=
  let key := Vector.ofFn fun i : Fin 8 => expandOutput (Nat.repeat expandStep (i.val + 1) seed)
  ⟨key, 0⟩

/-- Draws made one after another. -/
def draws {β : Type} (draw : Generator → β × Generator) : (count : Nat) → Generator → List β
  | 0, _ => []
  | count + 1, g =>
    let (b, g) := draw g
    b :: draws draw count g

end Generator

/-- The seed of part `index` of a kind of work, under a master seed. -/
def subSeed (master : UInt64) (scope : String) (index : Nat) : UInt64 :=
  let bytes := Digest.littleEndian 8 master.toNat ++ Digest.utf8 scope ++ Digest.littleEndian 8 index
  UInt64.ofNat (Digest.ofLittleEndian ((Digest.Blake3.hash bytes).take 8))

end Backtest.Random
