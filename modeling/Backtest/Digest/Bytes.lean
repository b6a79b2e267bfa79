/-!
# Bytes

Words as little-endian bytes, and bytes as hexadecimal text.
-/

namespace Backtest.Digest

/-- The `count` low bytes of a number, least significant first. -/
def littleEndian : (count : Nat) → Nat → List UInt8
  | 0, _ => []
  | count + 1, n => UInt8.ofNat n :: littleEndian count (n / 256)

/-- The number that little-endian bytes denote. -/
def ofLittleEndian : List UInt8 → Nat
  | [] => 0
  | b :: bs => b.toNat + 256 * ofLittleEndian bs

/-- The UTF-8 bytes of a text. -/
def utf8 (text : String) : List UInt8 :=
  text.toUTF8.data.toList

def hexDigit (n : Nat) : Char :=
  Nat.digitChar (n % 16)

/-- The number that a hexadecimal digit of either case stands for. -/
def hexValue? (c : Char) : Option Nat :=
  if c.isDigit then some (c.toNat - '0'.toNat)
  else if 'a' ≤ c ∧ c ≤ 'f' then some (c.toNat - 'a'.toNat + 10)
  else if 'A' ≤ c ∧ c ≤ 'F' then some (c.toNat - 'A'.toNat + 10)
  else none

/-- The bytes of a text of hexadecimal digits. -/
def ofHex? : List Char → Option (List UInt8)
  | [] => some []
  | a :: b :: cs => do
    return UInt8.ofNat (16 * (← hexValue? a) + (← hexValue? b)) :: (← ofHex? cs)
  | _ => none

/-- Two lower-case hexadecimal digits a byte. -/
def hex (bytes : List UInt8) : String :=
  String.ofList (bytes.flatMap fun b => [hexDigit (b.toNat / 16), hexDigit b.toNat])

end Backtest.Digest
