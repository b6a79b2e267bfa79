import Backtest.Digest.Blake3
import Backtest.Parameter.Assignment

/-!
# Fingerprints of assignments

An assignment is written as bytes and hashed. Each entry is its name, a byte that UTF-8 never uses,
a tag for the kind of value, the value, and another such byte; integers and numbers take eight
bytes, so the bytes determine the entries. Numbers are written as the words that represent them.
-/

namespace Backtest.Parameter

def Value.encode : Value UInt64 → List UInt8
  | .int v => 0 :: Digest.littleEndian 8 v.toUInt64.toNat
  | .float v => 1 :: Digest.littleEndian 8 v.toNat
  | .choice v => 2 :: Digest.utf8 v

def encodeEntry (entry : String × Value UInt64) : List UInt8 :=
  Digest.utf8 entry.1 ++ 0xff :: entry.2.encode ++ [0xfe]

namespace Assignment

/-- The bytes that are hashed. -/
def encode (a : Assignment UInt64) : List UInt8 :=
  a.entries.flatMap encodeEntry

/-- 64 hexadecimal digits that identify an assignment of words. -/
def wordsFingerprint (a : Assignment UInt64) : String :=
  Digest.hex (Digest.Blake3.hash a.encode)

/-- The assignment with each number as the word that represents it. -/
def words (a : Assignment Float) : Assignment UInt64 :=
  a.map (Value.map Float.toBits)

def fingerprint (a : Assignment Float) : String :=
  a.words.wordsFingerprint

end Assignment

end Backtest.Parameter
