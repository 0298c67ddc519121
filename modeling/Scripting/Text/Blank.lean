/-!
# White space around a text

The characters with the property White_Space, and texts without those at either end.
-/

namespace Scripting.Text

/-- Closed ranges of the code points with the property White_Space, ascending and apart. -/
def whiteSpace : List (Nat × Nat) :=
  [(0x09, 0x0D), (0x20, 0x20), (0x85, 0x85), (0xA0, 0xA0), (0x1680, 0x1680), (0x2000, 0x200A),
    (0x2028, 0x2029), (0x202F, 0x202F), (0x205F, 0x205F), (0x3000, 0x3000)]

/-- The character is white space. -/
def isWhiteSpace (c : Char) : Bool := whiteSpace.any fun r => r.1 ≤ c.toNat && c.toNat ≤ r.2

/-- The text without white space at its ends. -/
def trim (cs : List Char) : List Char :=
  ((cs.dropWhile isWhiteSpace).reverse.dropWhile isWhiteSpace).reverse

end Scripting.Text
