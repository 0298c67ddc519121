import Scripting.Operator
import Scripting.Value

/-!
# Runtime errors

What may go wrong while a program runs, and the words in which it is reported.
-/

namespace Scripting

/-- Why evaluation failed. -/
inductive RuntimeError where
  | unsupportedPrefix (op : PrefixOperator) (operand : Kind)
  /-- An operator between two operands, or a compound assignment, named by its symbol. -/
  | unsupportedInfix (symbol : String) (left right : Kind)
  | unknownIdentifier (name : String)
  | noMethod (name : String) (object : Kind)
  | notIndexable (container : Kind)
  | notHashable (key : Kind)
  | indexOutOfRange (index low high : Int)
  | sliceBounds (low high : Nat)
  | argumentCount (expected found : Nat)
  | argumentType (expected found : Kind)
  | divideByZero
  /-- The rendered value is called and is no function. -/
  | notAFunction (rendered : String)
  | redefined (name : String)
  /-- Evaluation was cancelled. -/
  | timeout
  /-- The rendered expression is no place to store to. -/
  | notAnLvalue (rendered : String)
  | indexNotInteger
  /-- The rendered slice stands outside of brackets. -/
  | straySlice (rendered : String)
  | immutableText
  | emptyArray
  | notANumber (text : String)
  | notAnInteger (text : String)
  /-- The output did not take what was printed. -/
  | printFailed (reason : String)
deriving DecidableEq, Repr

/-- The wording of an error. -/
def RuntimeError.message : RuntimeError → String
  | unsupportedPrefix op k =>
    "unsupported prefix operator '" ++ op.symbol ++ "' for type: " ++ k.name
  | unsupportedInfix symbol l r =>
    "unsupported infix operator '" ++ symbol ++ "' for type " ++ l.name ++ " and " ++ r.name
  | unknownIdentifier name => "unknown identifier: '" ++ name ++ "' is not defined"
  | noMethod name k => "undefined method '" ++ name ++ "' for object " ++ k.name
  | notIndexable k => "type " ++ k.name ++ " does not support index operator"
  | notHashable k => "type " ++ k.name ++ " is not hashable"
  | indexOutOfRange index low high =>
    "index '" ++ toString index ++ "' is out of range, valid range is [" ++ toString low ++ ", "
      ++ toString high ++ "]"
  | sliceBounds low high =>
    "slicing start index " ++ toString low ++ " must not be greater than end index "
      ++ toString high
  | argumentCount expected found =>
    "wrong number of arguments. expected: " ++ toString expected ++ ", got: " ++ toString found
  | argumentType expected found =>
    "wrong type of arguments. expected: " ++ expected.name ++ ", got: " ++ found.name
  | divideByZero => "cannot divide by zero"
  | notAFunction rendered => rendered ++ " is not a function"
  | redefined name => "variable " ++ name ++ " has been defined"
  | timeout => "evaluation timeout"
  | notAnLvalue rendered => "the expression " ++ rendered ++ " is not an lvalue"
  | indexNotInteger => "index must be integer"
  | straySlice rendered => "slice " ++ rendered ++ " used outside of an index"
  | immutableText => "string is immutable"
  | emptyArray => "array is empty"
  | notANumber text => text ++ " is not a number"
  | notAnInteger text => text ++ " is not an integer"
  | printFailed reason => "print failed: " ++ reason

end Scripting
