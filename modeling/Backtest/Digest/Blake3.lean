import Backtest.Digest.Block
import Backtest.Digest.Bytes

/-!
# BLAKE3

The 256-bit hash of a byte string: chunks of 1024 bytes are hashed block by block, and the chunk
values are joined pairwise, the left side of a join holding the largest power of two of chunks
that leaves something for the right.
-/

namespace Backtest.Digest.Blake3

/-- Eight words that stand for all bytes hashed so far. -/
abbrev Chaining := Vector Word 8

def initial : Chaining :=
  #v[0x6a09e667, 0xbb67ae85, 0x3c6ef372, 0xa54ff53a, 0x510e527f, 0x9b05688c, 0x1f83d9ab, 0x5be0cd19]

def chunkLength : Nat := 1024
def blockLength : Nat := 64

def chunkStart : Word := 1
def chunkEnd : Word := 2
def parent : Word := 4
def root : Word := 8

/-- Mixes two message words into four words of the state. -/
def mixing (x y : Word) (q : Quartet Word) : Quartet Word :=
  let a := q.a + q.b + x
  let d := rotateRight (q.d ^^^ a) 16
  let c := q.c + d
  let b := rotateRight (q.b ^^^ c) 12
  let a := a + b + y
  let d := rotateRight (d ^^^ a) 8
  let c := c + d
  ⟨a, rotateRight (b ^^^ c) 7, c, d⟩

/-- The mixings of a round: each takes the next two message words. -/
def mixings : List Word → List (Quartet Word → Quartet Word)
  | x :: y :: m => mixing x y :: mixings m
  | _ => []

def round (s m : Block) : Block :=
  s.stir (mixings m.toList)

def permute (m : Block) : Block :=
  #v[m[2], m[6], m[3], m[10], m[7], m[0], m[4], m[13], m[1], m[11], m[12], m[5], m[9], m[14],
    m[15], m[8]]

def rounds : Nat → Block → Block → Block
  | 0, s, _ => s
  | n + 1, s, m => rounds n (round s m) (permute m)

/-- A compression that is still to be run, so that the last one can be marked as the root. -/
structure Output where
  chaining : Chaining
  block : Block
  counter : Nat
  length : Nat
  flags : Word

def Output.compress (o : Output) (extra : Word) : Chaining :=
  let cv := o.chaining
  let s : Block := #v[cv[0], cv[1], cv[2], cv[3], cv[4], cv[5], cv[6], cv[7],
    initial[0], initial[1], initial[2], initial[3],
    UInt32.ofNat o.counter, UInt32.ofNat (o.counter / UInt32.size), UInt32.ofNat o.length,
    o.flags ||| extra]
  let s := rounds 7 s o.block
  #v[s[0] ^^^ s[8], s[1] ^^^ s[9], s[2] ^^^ s[10], s[3] ^^^ s[11], s[4] ^^^ s[12],
    s[5] ^^^ s[13], s[6] ^^^ s[14], s[7] ^^^ s[15]]

def Output.chain (o : Output) : Chaining := o.compress 0

/-- Sixteen little-endian words, zeros where the bytes end early. -/
def blockOf (bytes : List UInt8) : Block :=
  Vector.ofFn fun i : Fin 16 =>
    UInt32.ofNat (ofLittleEndian ((bytes.drop (4 * i.val)).take 4))

/-- Compresses all blocks of a chunk but the last, which stays to be run. -/
def chunkFrom (counter : Nat) : (fuel : Nat) → Chaining → Word → List UInt8 → Output
  | 0, cv, start, bytes => ⟨cv, blockOf bytes, counter, bytes.length, start ||| chunkEnd⟩
  | fuel + 1, cv, start, bytes =>
    if bytes.length ≤ blockLength then
      ⟨cv, blockOf bytes, counter, bytes.length, start ||| chunkEnd⟩
    else
      let block : Output := ⟨cv, blockOf (bytes.take blockLength), counter, blockLength, start⟩
      chunkFrom counter fuel block.chain 0 (bytes.drop blockLength)

def chunk (counter : Nat) (bytes : List UInt8) : Output :=
  chunkFrom counter (chunkLength / blockLength) initial chunkStart bytes

def join (left right : Chaining) : Output :=
  ⟨initial, left ++ right, 0, blockLength, parent⟩

/-- How many chunks the left side of a join of `chunks` chunks holds. -/
def leftChunks (chunks : Nat) : Nat :=
  Nat.pow 2 (Nat.log2 (chunks - 1))

theorem leftChunks_lt {chunks : Nat} (h : 2 ≤ chunks) : leftChunks chunks < chunks := by
  have : leftChunks chunks ≤ chunks - 1 := Nat.log2_self_le (by omega)
  omega

theorem leftChunks_pos (chunks : Nat) : 0 < leftChunks chunks :=
  Nat.two_pow_pos _

/-- The tree over `chunks` chunks of which the first has the given number. -/
def tree (chunks counter : Nat) (bytes : List UInt8) : Output :=
  if _h : 2 ≤ chunks then
    let left := leftChunks chunks
    join (tree left counter (bytes.take (left * chunkLength))).chain
      (tree (chunks - left) (counter + left) (bytes.drop (left * chunkLength))).chain
  else chunk counter bytes
termination_by chunks
decreasing_by
  · exact leftChunks_lt _h
  · exact Nat.sub_lt (Nat.lt_of_lt_of_le Nat.two_pos _h) (leftChunks_pos chunks)

/-- The 32 bytes of the hash. -/
def hash (bytes : List UInt8) : List UInt8 :=
  let chunks := (bytes.length + chunkLength - 1) / chunkLength
  ((tree chunks 0 bytes).compress root).toList.flatMap fun w => littleEndian 4 w.toNat

end Backtest.Digest.Blake3
