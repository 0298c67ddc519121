import Scripting.Decimal.Reader
import Scripting.Machine

/-!
# Builtin functions

What the functions that are always there do with their arguments.
-/

namespace Scripting.Evaluation

open Machine

/-- The length of a text in bytes, or the number of elements or entries. -/
def lengthOf (v : Value) : Eval Value :=
  match v with
  | .text s => pure (.integer (Int64.ofNat s.utf8ByteSize))
  | .array a => consult fun h => .ok (.integer (Int64.ofNat (h.arrays.length a)))
  | .hash id => consult fun h => .ok (.integer (Int64.ofNat (h.table id).size))
  | other => raise (.argumentType .string other.kind)

/-- A number, or the number that a text spells. -/
def toNumber (v : Value) : Except RuntimeError Value :=
  match v with
  | .integer _ | .float _ => .ok v
  | .text s =>
    match Decimal.readInteger s with
    | some n => .ok (.integer n)
    | none =>
      match Decimal.readFloat s with
      | some x => .ok (.float x)
      | none => .error (.notANumber s)
  | other => .error (.argumentType .string other.kind)

/-- The integer of a number, a truth value or a text that spells one. Any other value gives its
text. -/
def toInteger (h : Heap) (v : Value) : Except RuntimeError Value :=
  match v with
  | .integer n => .ok (.integer n)
  | .float x => .ok (.integer (Decimal.toInt64 x))
  | .boolean b => .ok (.integer (if b then 1 else 0))
  | .text s =>
    match Decimal.readInteger s with
    | some n => .ok (.integer n)
    | none => .error (.notAnInteger s)
  | other => .ok (.text (h.render other))

/-- Prints the texts of values on one line, with commas between them. -/
def printLine (args : List Value) : Eval Value := do
  let line ← consult fun h => .ok (", ".intercalate (args.map h.render))
  writeLine line
  return .null

/-- Calls a builtin function. -/
def callBuiltin (b : Builtin) (args : List Value) : Eval Value :=
  match b, args with
  | .len, [v] => lengthOf v
  | .number, [v] => ofExcept (toNumber v)
  | .string, [v] => consult fun h => .ok (.text (h.render v))
  | .int, [v] => consult fun h => toInteger h v
  | .now, [] => do return .text (← readClock)
  | .print, args => printLine args
  | _, _ => raise (.argumentCount (b.arity?.getD 0) args.length)

end Scripting.Evaluation
