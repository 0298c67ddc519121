import Scripting.Value.Printer

/-!
# Operators on values

Integers are 64 bits wide and wrap around; division goes toward zero. If one operand is a float, so
is the result. Comparisons of numbers are made on doubles, for two integers as well. The operands
are values already, so the logical operators see both of them.
-/

namespace Scripting

/-- The number is zero. -/
def Value.isZero : Value → Bool
  | .integer n => n == 0
  | .float x => x == 0.0
  | _ => false

/-- Equality as scripts see it: by value for numbers, truth values, null and texts. Collections and
functions never equal anything, not even themselves. -/
def Value.equals : Value → Value → Bool
  | .boolean a, .boolean b => a == b
  | .null, .null => true
  | .text a, .text b => a == b
  | l, r =>
    match l.toFloat?, r.toFloat? with
    | some x, some y => x == y
    | _, _ => false

/-- The outcome of comparing two doubles, for operators that compare. -/
def compareFloats (x y : Float) : InfixOperator → Option Bool
  | .greaterThan => some (x > y)
  | .greaterEq => some (x ≥ y)
  | .lessThan => some (x < y)
  | .lessEq => some (x ≤ y)
  | .equalTo => some (x == y)
  | .notEqualTo => some (x != y)
  | _ => none

/-- Arithmetic on integers, modulo 2^64. -/
def integerArithmetic (a b : Int64) : InfixOperator → Option Int64
  | .add => some (a + b)
  | .subtract => some (a - b)
  | .multiply => some (a * b)
  | .divide => some (a / b)
  | .modulo => some (a % b)
  | _ => none

/-- Arithmetic on doubles. -/
def floatArithmetic (x y : Float) : InfixOperator → Option Float
  | .add => some (x + y)
  | .subtract => some (x - y)
  | .multiply => some (x * y)
  | .divide => some (x / y)
  | .modulo => some (Decimal.floatRemainder x y)
  | _ => none

/-- An operator that divides. -/
def InfixOperator.divides : InfixOperator → Bool
  | .divide | .modulo => true
  | _ => false

/-- An operator between two numbers. -/
def applyNumeric (op : InfixOperator) (l r : Value) : Except RuntimeError Value :=
  let unsupported := .error (.unsupportedInfix op.symbol l.kind r.kind)
  match l.toFloat?, r.toFloat? with
  | some x, some y =>
    match compareFloats x y op with
    | some b => .ok (.boolean b)
    | none =>
      if op.divides && r.isZero then .error .divideByZero
      else
        match l, r with
        | .integer a, .integer b =>
          match integerArithmetic a b op with
          | some n => .ok (.integer n)
          | none => unsupported
        | _, _ =>
          match floatArithmetic x y op with
          | some z => .ok (.float z)
          | none => unsupported
  | _, _ => unsupported

/-- An operator between two values. A sum with a text joins the texts of both. -/
def applyInfix (h : Heap) (op : InfixOperator) (l r : Value) : Except RuntimeError Value :=
  match op with
  | .and => .ok (.boolean (l.isTruthy && r.isTruthy))
  | .or => .ok (.boolean (l.isTruthy || r.isTruthy))
  | _ =>
    if l.isNumber && r.isNumber then applyNumeric op l r
    else
      match op with
      | .equalTo => .ok (.boolean (l.equals r))
      | .notEqualTo => .ok (.boolean !(l.equals r))
      | .add =>
        if l.kind = .string ∨ r.kind = .string then .ok (.text (h.render l ++ h.render r))
        else .error (.unsupportedInfix op.symbol l.kind r.kind)
      | _ => .error (.unsupportedInfix op.symbol l.kind r.kind)

/-- The value that an assignment stores, from the value that is there and the operand. A compound
sum joins texts only if a text is there. -/
def applyAssign (h : Heap) (op : AssignOperator) (old new : Value) : Except RuntimeError Value :=
  match op.arithmetic? with
  | none => .ok new
  | some arithmetic =>
    if old.isNumber && new.isNumber then applyNumeric arithmetic old new
    else
      match old, op with
      | .text s, .addAssign => .ok (.text (s ++ h.render new))
      | _, _ => .error (.unsupportedInfix op.symbol old.kind new.kind)

/-- The number one step up or down. Other values have none. -/
def Value.stepped (v : Value) (delta : Int64) : Option Value :=
  match v with
  | .integer n => some (.integer (n + delta))
  | .float x => some (.float (x + Decimal.ofInt64 delta))
  | _ => none

/-- An operator before a value. Steps that have nowhere to store give the stepped number, and null
for other values. -/
def applyPrefix (op : PrefixOperator) (v : Value) : Except RuntimeError Value :=
  match op, v with
  | .logicalNot, v => .ok (.boolean !v.isTruthy)
  | .negate, .integer n => .ok (.integer (-n))
  | .negate, .float x => .ok (.float (-x))
  | .negate, v => .error (.unsupportedPrefix op v.kind)
  | .increment, v => .ok ((v.stepped 1).getD .null)
  | .decrement, v => .ok ((v.stepped (-1)).getD .null)

end Scripting
