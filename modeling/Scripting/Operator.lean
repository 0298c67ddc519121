import Scripting.Token

/-!
# Operators

Which tokens act as operators, before an operand or after one, and how tightly they bind.
-/

namespace Scripting

/-- How tightly an operator binds, the loosest first. -/
inductive Precedence where
  | lowest | assign | or | and | equals | lessGreater | slice | sum | product | prefixed | call
  | index | incrDecr
deriving DecidableEq, Repr

/-- The rank of a precedence: a higher one binds tighter. -/
def Precedence.level : Precedence → Nat
  | lowest => 0
  | assign => 1
  | or => 2
  | and => 3
  | equals => 4
  | lessGreater => 5
  | slice => 6
  | sum => 7
  | product => 8
  | prefixed => 9
  | call => 10
  | index => 11
  | incrDecr => 12

/-- Operators written before their operand. -/
inductive PrefixOperator where
  | negate | logicalNot | increment | decrement
deriving DecidableEq, Repr

namespace PrefixOperator

/-- How the operator is written. -/
def symbol : PrefixOperator → String
  | negate => "-"
  | logicalNot => "!"
  | increment => "++"
  | decrement => "--"

/-- The operator that a token stands for before an operand. -/
def ofToken? : Token → Option PrefixOperator
  | .sign .minus => some negate
  | .sign .bang => some logicalNot
  | .sign .increment => some increment
  | .sign .decrement => some decrement
  | _ => none

end PrefixOperator

/-- Operators written between two operands. -/
inductive InfixOperator where
  | add | subtract | multiply | divide | modulo
  | equalTo | notEqualTo | greaterThan | greaterEq | lessThan | lessEq
  | and | or
deriving DecidableEq, Repr

namespace InfixOperator

/-- How the operator is written. -/
def symbol : InfixOperator → String
  | add => "+"
  | subtract => "-"
  | multiply => "*"
  | divide => "/"
  | modulo => "%"
  | equalTo => "=="
  | notEqualTo => "!="
  | greaterThan => ">"
  | greaterEq => ">="
  | lessThan => "<"
  | lessEq => "<="
  | and => "&&"
  | or => "||"

/-- How tightly the operator binds. -/
def precedence : InfixOperator → Precedence
  | or => .or
  | and => .and
  | equalTo | notEqualTo => .equals
  | greaterThan | greaterEq | lessThan | lessEq => .lessGreater
  | add | subtract => .sum
  | multiply | divide | modulo => .product

end InfixOperator

/-- Operators written after their operand. -/
inductive PostfixOperator where
  | increment | decrement
deriving DecidableEq, Repr

/-- How the operator is written. -/
def PostfixOperator.symbol : PostfixOperator → String
  | increment => "++"
  | decrement => "--"

/-- Operators that store a value. -/
inductive AssignOperator where
  | assign | addAssign | subtractAssign | multiplyAssign | divideAssign
deriving DecidableEq, Repr

namespace AssignOperator

/-- How the operator is written. -/
def symbol : AssignOperator → String
  | assign => "="
  | addAssign => "+="
  | subtractAssign => "-="
  | multiplyAssign => "*="
  | divideAssign => "/="

/-- What a compound assignment computes from the old value and the operand. -/
def arithmetic? : AssignOperator → Option InfixOperator
  | assign => none
  | addAssign => some .add
  | subtractAssign => some .subtract
  | multiplyAssign => some .multiply
  | divideAssign => some .divide

end AssignOperator

/-- Everything that may follow a complete left operand. -/
inductive Continuation where
  | operate (op : InfixOperator)
  | assign (op : AssignOperator)
  | step (op : PostfixOperator)
  | call
  | method
  | index
  | slice
deriving DecidableEq, Repr

namespace Continuation

/-- The continuation that a token starts after a left operand. -/
def ofToken? : Token → Option Continuation
  | .sign .plus => some (operate .add)
  | .sign .minus => some (operate .subtract)
  | .sign .asterisk => some (operate .multiply)
  | .sign .slash => some (operate .divide)
  | .sign .percent => some (operate .modulo)
  | .sign .doubleEq => some (operate .equalTo)
  | .sign .bangEq => some (operate .notEqualTo)
  | .sign .rightAngle => some (operate .greaterThan)
  | .sign .rightAngleEq => some (operate .greaterEq)
  | .sign .leftAngle => some (operate .lessThan)
  | .sign .leftAngleEq => some (operate .lessEq)
  | .sign .and => some (operate .and)
  | .sign .or => some (operate .or)
  | .sign .equals => some (assign .assign)
  | .sign .plusEq => some (assign .addAssign)
  | .sign .minusEq => some (assign .subtractAssign)
  | .sign .asteriskEq => some (assign .multiplyAssign)
  | .sign .slashEq => some (assign .divideAssign)
  | .sign .increment => some (step .increment)
  | .sign .decrement => some (step .decrement)
  | .sign .leftParen => some call
  | .sign .dot => some method
  | .sign .leftBracket => some index
  | .sign .colon => some slice
  | _ => none

/-- How tightly a continuation binds to the operand before it. -/
def precedence : Continuation → Precedence
  | operate op => op.precedence
  | assign _ => .assign
  | slice => .slice
  | call | method => .call
  | index => .index
  | step _ => .incrDecr

end Continuation

/-- How tightly a token binds to the operand before it: `lowest` if it cannot follow one. -/
def Token.precedence (t : Token) : Precedence :=
  match Continuation.ofToken? t with
  | some c => c.precedence
  | none => .lowest

end Scripting
