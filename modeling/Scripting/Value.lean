import Scripting.Decimal.Binary

/-!
# Values

What an expression stands for. Numbers, truth values, texts and null are their own value. Arrays,
hashes and functions have an identity: the value only names them, and what they hold is kept in the
`Heap`.
-/

namespace Scripting

/-- The kinds of values. -/
inductive Kind where
  | integer | float | boolean | null | string | array | hash | function | builtin | error
deriving DecidableEq, Hashable, Repr

/-- What scripts and messages call a kind. -/
def Kind.name : Kind → String
  | integer => "INTEGER"
  | float => "FLOAT"
  | boolean => "BOOLEAN"
  | null => "NULL"
  | string => "STRING"
  | array => "ARRAY"
  | hash => "HASH"
  | function => "FUNCTION"
  | builtin => "BUILTIN"
  | error => "ERROR"

/-- Functions that are always there. -/
inductive Builtin where
  | len | number | string | int | now | print
deriving DecidableEq, Repr

namespace Builtin

/-- The name by which a script calls the function. -/
def name : Builtin → String
  | len => "len"
  | number => "number"
  | string => "string"
  | int => "int"
  | now => "now"
  | print => "print"

/-- How many arguments the function takes, if that is fixed. -/
def arity? : Builtin → Option Nat
  | len | number | string | int => some 1
  | now => some 0
  | print => none

/-- Every builtin function. -/
def all : List Builtin := [len, number, string, int, now, print]

/-- The builtin function with this name. -/
def ofName? (name : String) : Option Builtin := all.find? (·.name == name)

end Builtin

/-- Names an array: a view of a stretch of storage. -/
abbrev ArrayId := Nat

/-- Names a hash. -/
abbrev HashId := Nat

/-- Names a function. -/
abbrev FunctionId := Nat

/-- Names a frame of bindings. -/
abbrev FrameId := Nat

/-- A value of the language. -/
inductive Value where
  | integer (n : Int64)
  | float (x : Float)
  | boolean (b : Bool)
  | null
  | text (s : String)
  | array (id : ArrayId)
  | hash (id : HashId)
  | function (id : FunctionId)
  | builtin (b : Builtin)
  /-- The result of a program that failed. -/
  | error (message : String)

namespace Value

instance : Inhabited Value := ⟨null⟩

/-- The kind of a value. -/
def kind : Value → Kind
  | integer _ => .integer
  | float _ => .float
  | boolean _ => .boolean
  | null => .null
  | text _ => .string
  | array _ => .array
  | hash _ => .hash
  | function _ => .function
  | builtin _ => .builtin
  | error _ => .error

/-- False, null and zero count as false. Everything else counts as true, the empty text and empty
collections among them. -/
def isTruthy : Value → Bool
  | boolean b => b
  | null => false
  | integer n => n != 0
  | float x => x != 0.0
  | _ => true

/-- The value is an integer or a float. -/
def isNumber : Value → Bool
  | integer _ | float _ => true
  | _ => false

/-- The number as a double. -/
def toFloat? : Value → Option Float
  | integer n => some (Decimal.ofInt64 n)
  | float x => some x
  | _ => none

/-- The two are the same value: equal for numbers, truth values, null, texts and builtins, and
identical for arrays, hashes and functions. -/
def same : Value → Value → Bool
  | integer a, integer b => a == b
  | float a, float b => a == b
  | boolean a, boolean b => a == b
  | null, null => true
  | text a, text b => a == b
  | array a, array b => a == b
  | hash a, hash b => a == b
  | function a, function b => a == b
  | builtin a, builtin b => a == b
  | error a, error b => a == b
  | _, _ => false

end Value

end Scripting
