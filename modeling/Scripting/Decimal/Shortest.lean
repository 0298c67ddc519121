import Scripting.Decimal.Binary

/-!
# The shortest text of a double

A double stands for every real number that rounds to it, an interval around its value. Its text
has the fewest digits of all decimals in that interval. `shortest` looks for them on ever finer
grids of powers of ten; on each grid only the two neighbours of the value can be the nearest
decimal in the interval. `layout` writes the digits out in full, without an exponent.
-/

namespace Scripting.Decimal

/-- The decimal `digits * 10 ^ exponent`. -/
structure Digits where
  digits : Nat
  exponent : Int
deriving DecidableEq, Repr

/-- A positive double seen on the grid of the multiples of one power of ten: its value is
`significand * unit / step` grid lengths. -/
structure Grid where
  significand : Nat
  unit : Nat
  step : Nat
  /-- The double below is half as far away as the double above. -/
  narrowBelow : Bool
deriving Repr

namespace Grid

/-- The double `b` on the grid of the multiples of `10 ^ k`. -/
def of (b : Binary) (narrowBelow : Bool) (k : Int) : Grid :=
  ⟨b.significand, Nat.pow 2 b.exponent.toNat * Nat.pow 10 (-k).toNat,
    Nat.pow 2 (-b.exponent).toNat * Nat.pow 10 k.toNat, narrowBelow⟩

/-- The grid point `n` rounds to the double: it lies between the midpoints to the two neighbours,
and the midpoints themselves count if the significand is even. -/
def holds (g : Grid) (n : Nat) : Bool :=
  let low := (4 * g.significand - if g.narrowBelow then 1 else 2) * g.unit
  let high := (4 * g.significand + 2) * g.unit
  let point := 4 * n * g.step
  if g.significand % 2 = 0 then low ≤ point && point ≤ high else low < point && point < high

/-- The grid point that rounds to the double and is nearest to it, the upper one of two that are
equally near. -/
def nearest? (g : Grid) : Option Nat :=
  let below := g.significand * g.unit / g.step
  match g.holds below, g.holds (below + 1) with
  | true, true =>
    if 2 * g.significand * g.unit < (2 * below + 1) * g.step then some below else some (below + 1)
  | true, false => some below
  | false, true => some (below + 1)
  | false, false => none

end Grid

/-- The least `k` from `low` on, and at most `n` steps above it, with `b < 10 ^ k`. -/
def scaleFrom (b : Binary) : Nat → Int → Int
  | 0, low => low
  | n + 1, low =>
    if b.significand * Nat.pow 2 b.exponent.toNat * Nat.pow 10 (-low).toNat
        < Nat.pow 2 (-b.exponent).toNat * Nat.pow 10 low.toNat then low
    else scaleFrom b n (low + 1)

/-- The number of digits before the point: the least `k` with `b < 10 ^ k`. The binary logarithm
gives a start that is at most three too low. -/
def scale (b : Binary) : Int :=
  scaleFrom b 4 (((b.significand.log2 + b.exponent) * 30103).fdiv 100000 - 1)

/-- Looks for the fewest digits, starting with the grid of the multiples of `10 ^ k`. -/
def search (b : Binary) (narrowBelow : Bool) : Nat → Int → Option Digits
  | 0, _ => none
  | n + 1, k =>
    match (Grid.of b narrowBelow k).nearest? with
    | some digits => some ⟨digits, k⟩
    | none => search b narrowBelow n (k - 1)

/-- Moves the zeros at the end of the digits into the exponent. -/
def stripZeros : Nat → Digits → Digits
  | 0, d => d
  | n + 1, d => if d.digits % 10 = 0 then stripZeros n ⟨d.digits / 10, d.exponent + 1⟩ else d

/-- The decimal with the fewest digits that rounds to a positive double. Seventeen digits always
suffice; the exact value stands in for a search without result. -/
def shortest (b : Binary) (narrowBelow : Bool) : Digits :=
  match search b narrowBelow 17 (scale b - 1) with
  | some d => stripZeros 17 d
  | none =>
    if 0 ≤ b.exponent then ⟨b.significand * Nat.pow 2 b.exponent.toNat, 0⟩
    else ⟨b.significand * Nat.pow 5 (-b.exponent).toNat, b.exponent⟩

/-- The decimal written out in full: a point only where it divides digits, and a zero before it
where no other digit stands there. -/
def layout (d : Digits) : String :=
  let digits := Nat.toDigits 10 d.digits
  if 0 ≤ d.exponent then String.ofList (digits ++ List.replicate d.exponent.toNat '0')
  else
    let places := (-d.exponent).toNat
    if places < digits.length then
      let whole := digits.length - places
      String.ofList (digits.take whole ++ '.' :: digits.drop whole)
    else String.ofList ('0' :: '.' :: List.replicate (places - digits.length) '0' ++ digits)

/-- The text of a double: the fewest digits that identify it, without an exponent. Zero keeps its
sign. -/
def floatText (x : Float) : String :=
  match Binary.ofFloat? x with
  | none => if x.isNaN then "NaN" else if x < 0.0 then "-inf" else "inf"
  | some b =>
    let sign := if b.negative then "-" else ""
    if b.significand = 0 then sign ++ "0"
    else
      let narrowBelow := b.significand = Binary.leadingBit ∧ -1074 < b.exponent
      sign ++ layout (shortest b narrowBelow)

end Scripting.Decimal
