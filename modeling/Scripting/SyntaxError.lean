import Scripting.Token

/-!
# Syntax errors

What may be wrong with a source text, and the words in which it is reported.
-/

namespace Scripting

/-- What is wrong at a token. -/
inductive SyntaxFault where
  /-- Another token has to stand here. -/
  | expectedToken (expected found : Token)
  /-- No expression starts with this token. -/
  | noExpression (found : Token)
  /-- The digits are no 64-bit integer. -/
  | invalidInteger (digits : String)
  /-- The digits and dots are no number. -/
  | invalidFloat (digits : String)
  /-- What stands to the left of an assignment, named by its main token, cannot be assigned to. -/
  | invalidAssignTarget (literal : String)
deriving DecidableEq, Repr

/-- The wording of a fault. -/
def SyntaxFault.message : SyntaxFault → String
  | expectedToken expected found =>
    "expected token to be " ++ expected.kindName ++ ", got " ++ found.kindName ++ " instead"
  | noExpression found => "no prefix parse function for " ++ found.kindName ++ " found"
  | invalidInteger digits => "could not parse \"" ++ digits ++ "\" as integer"
  | invalidFloat digits => "could not parse \"" ++ digits ++ "\" as float"
  | invalidAssignTarget literal =>
    "expected assign token to be an identifier, got " ++ literal ++ " instead"

/-- A fault and the place of the offending token. -/
structure SyntaxError where
  position : Position
  fault : SyntaxFault
deriving DecidableEq, Repr

/-- The error as it is reported: the place in brackets, then the wording. -/
def SyntaxError.text (e : SyntaxError) : String :=
  "[" ++ e.position.text ++ "]" ++ e.fault.message

end Scripting
