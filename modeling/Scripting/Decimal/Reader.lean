import Scripting.Decimal.Binary

/-!
# Numbers read from text

`readInteger` and `readFloat` accept a whole text or nothing: no blanks, no separators between
digits. A sign may stand in front, once.
-/

namespace Scripting.Decimal

/-- The value of a row of decimal digits, read after digits of value `before`. -/
def digitsValue (before : Nat) (digits : List Char) : Nat :=
  digits.foldl (fun n c => 10 * n + (c.toNat - '0'.toNat)) before

/-- A sign in front, if there is one: whether it is a minus, and the text after it. -/
def splitSign : List Char → Bool × List Char
  | '-' :: cs => (true, cs)
  | '+' :: cs => (false, cs)
  | cs => (false, cs)

/-- Reads an integer: an optional sign and at least one digit. The value has to fit 64 bits. -/
def readInteger (s : String) : Option Int64 :=
  let (negative, digits) := splitSign s.toList
  if digits.isEmpty || !digits.all Char.isDigit then none
  else
    let magnitude : Int := digitsValue 0 digits
    let value := if negative then -magnitude else magnitude
    if Int64.minValue.toInt ≤ value ∧ value ≤ Int64.maxValue.toInt then some (Int64.ofInt value)
    else none

/-- The exponent of a number: nothing at all, or the letter e, an optional sign and at least one
digit. -/
def readExponent : List Char → Option Int
  | [] => some 0
  | c :: cs =>
    if c = 'e' ∨ c = 'E' then
      let (negative, digits) := splitSign cs
      if digits.isEmpty || !digits.all Char.isDigit then none
      else
        let magnitude : Int := digitsValue 0 digits
        some (if negative then -magnitude else magnitude)
    else none

/-- The double nearest to `digits * 10 ^ exponent`, where the digits are `count` many. Values that
lie far outside the range of the doubles are told by their size alone. -/
def nearestFloat (digits count : Nat) (exponent : Int) : Float :=
  if digits = 0 then 0.0
  else if 400 < exponent + count then 1.0 / 0.0
  else if exponent + count < -400 then 0.0
  else Float.ofScientific digits (exponent < 0) exponent.natAbs

/-- A number without a sign: digits with an optional point, at least one digit on either side of
it, and an optional exponent. -/
def readMagnitude (cs : List Char) : Option Float :=
  let whole := cs.takeWhile Char.isDigit
  let rest := cs.dropWhile Char.isDigit
  let (fraction, rest) :=
    match rest with
    | '.' :: more => (more.takeWhile Char.isDigit, more.dropWhile Char.isDigit)
    | _ => ([], rest)
  if whole.isEmpty && fraction.isEmpty then none
  else
    (readExponent rest).map fun e =>
      nearestFloat (digitsValue (digitsValue 0 whole) fraction) (whole.length + fraction.length)
        (e - fraction.length)

/-- Reads a double: an optional sign, and then a number or one of the words `inf`, `infinity` and
`nan` in any case of letters. -/
def readFloat (s : String) : Option Float :=
  let (negative, cs) := splitSign s.toList
  let word := cs.map Char.toLower
  let magnitude :=
    if word = ['i', 'n', 'f'] ∨ word = ['i', 'n', 'f', 'i', 'n', 'i', 't', 'y'] then
      some (1.0 / 0.0)
    else if word = ['n', 'a', 'n'] then some (0.0 / 0.0)
    else readMagnitude cs
  magnitude.map fun x => if negative then -x else x

end Scripting.Decimal
