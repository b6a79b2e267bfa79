/-!
# Blank characters

The characters of the White_Space property, and trimming by them.
-/

namespace Backtest.Text

/-- The code points of the White_Space property as inclusive ranges. -/
def blankRanges : List (Nat × Nat) :=
  [(0x09, 0x0d), (0x20, 0x20), (0x85, 0x85), (0xa0, 0xa0), (0x1680, 0x1680), (0x2000, 0x200a),
   (0x2028, 0x2029), (0x202f, 0x202f), (0x205f, 0x205f), (0x3000, 0x3000)]

def isBlank (c : Char) : Bool :=
  blankRanges.any fun (low, high) => low ≤ c.toNat && c.toNat ≤ high

/-- Drops leading blanks. -/
def trimLeft (cs : List Char) : List Char :=
  cs.dropWhile isBlank

/-- Drops leading and trailing blanks. -/
def trimChars (cs : List Char) : List Char :=
  (trimLeft (trimLeft cs).reverse).reverse

/-- Drops leading and trailing blanks. -/
def trim (text : String) : String :=
  String.ofList (trimChars text.toList)

end Backtest.Text
