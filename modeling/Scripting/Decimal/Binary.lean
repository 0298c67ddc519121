/-!
# Doubles as exact numbers

A finite double is a whole number times a power of two. `Binary.ofFloat?` reads that form off the
bits and `Binary.toFloat` goes back, so that truncation and remainder can be computed exactly on
whole numbers.
-/

namespace Scripting.Decimal

/-- The number `significand * 2 ^ exponent`, with a sign. -/
structure Binary where
  negative : Bool
  significand : Nat
  exponent : Int
deriving DecidableEq, Repr

namespace Binary

/-- The exponent field of a double. -/
def exponentField (bits : UInt64) : Nat := ((bits >>> 52) &&& 0x7FF).toNat

/-- The fraction field of a double. -/
def fractionField (bits : UInt64) : Nat := (bits &&& 0xFFFFFFFFFFFFF).toNat

/-- The bit above the fraction field, which every double of full width has. -/
def leadingBit : Nat := 0x10000000000000

/-- The exact value of a finite double. Infinities and the NaN have none. -/
def ofFloat? (x : Float) : Option Binary :=
  let bits := x.toBits
  let negative := bits >>> 63 == 1
  let e := exponentField bits
  let f := fractionField bits
  if e = 0x7FF then none
  else if e = 0 then some ⟨negative, f, -1074⟩
  else some ⟨negative, leadingBit + f, (e : Int) - 1075⟩

/-- The double with this value. The significand has at most 53 binary digits, and the value is a
multiple of the least positive double and below the range's end: then the result is exact. -/
def toFloat (b : Binary) : Float :=
  let sign : Nat := if b.negative then 0x8000000000000000 else 0
  if b.significand = 0 then Float.ofBits sign.toUInt64
  else
    let width := b.significand.log2
    let e := b.exponent + width
    if -1022 ≤ e then
      let fraction := b.significand * Nat.pow 2 (52 - width) - leadingBit
      Float.ofBits (sign + (e + 1023).toNat * leadingBit + fraction).toUInt64
    else
      Float.ofBits (sign + b.significand * Nat.pow 2 (b.exponent + 1074).toNat).toUInt64

/-- The whole part, toward zero. -/
def truncate (b : Binary) : Int :=
  let whole : Nat :=
    if 0 ≤ b.exponent then b.significand * Nat.pow 2 b.exponent.toNat
    else b.significand / Nat.pow 2 (-b.exponent).toNat
  if b.negative then -(whole : Int) else whole

/-- What is left of `a` after taking away `b` as often as its magnitude allows. The sign is that of
`a`, and the result is exact. -/
def remainder (a b : Binary) : Binary :=
  let e := min a.exponent b.exponent
  let m := a.significand * Nat.pow 2 (a.exponent - e).toNat
  let n := b.significand * Nat.pow 2 (b.exponent - e).toNat
  ⟨a.negative, m % n, e⟩

end Binary

/-- The remainder of two doubles, with the sign of the first. Dividing by zero or an infinity by
anything gives the NaN, and an infinite divisor leaves a finite number as it is. -/
def floatRemainder (x y : Float) : Float :=
  match Binary.ofFloat? x, Binary.ofFloat? y with
  | some a, some b => if b.significand = 0 then 0.0 / 0.0 else (a.remainder b).toFloat
  | some _, none => if y.isNaN then y else x
  | none, _ => 0.0 / 0.0

/-- The integer nearest to a double from zero's side: its whole part, clamped to 64 bits. The NaN
gives zero. -/
def toInt64 (x : Float) : Int64 :=
  match Binary.ofFloat? x with
  | some b => Int64.ofInt (max Int64.minValue.toInt (min Int64.maxValue.toInt b.truncate))
  | none => if x.isNaN then 0 else if x < 0.0 then Int64.minValue else Int64.maxValue

/-- The double nearest to an integer. -/
def ofInt64 (n : Int64) : Float := Float.ofInt n.toInt

end Scripting.Decimal
