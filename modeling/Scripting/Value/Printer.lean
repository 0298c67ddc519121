import Scripting.Expr.Printer
import Scripting.Heap
import Scripting.Text.Quoted

/-!
# The text of a value

Arrays and hashes show what they hold, down to ten levels. Below that only their kind is shown, so
that a collection that holds itself has a text as well.
-/

namespace Scripting

/-- How deep collections show their contents. -/
def renderDepth : Nat := 10

/-- The text of a function: its parameters and its body. -/
def Closure.render (c : Closure) : String :=
  "function(" ++ ", ".intercalate c.parameters ++ ") \x7b " ++ c.body.render ++ " \x7d"

namespace Heap

/-- The text of a value that shows the contents of collections down to a number of levels. -/
def renderWithin (h : Heap) : Nat → Value → String
  | _, .integer n => integerText n
  | _, .float x => Decimal.floatText x
  | _, .boolean b => booleanText b
  | _, .null => "null"
  | _, .text s => s
  | _, .function id => (h.closure id).render
  | _, .builtin _ => "[builtin]"
  | _, .error message => "Error: " ++ message
  | 0, .array _ => "ARRAY..."
  | 0, .hash _ => "HASH..."
  | levels + 1, .array id =>
    "[" ++ ", ".intercalate ((h.arrays.elements id).map (renderWithin h levels)) ++ "]"
  | levels + 1, .hash id =>
    "\x7b" ++ ", ".intercalate ((h.table id).pairs.map fun p =>
      renderWithin h levels p.1 ++ ":" ++ renderWithin h levels p.2) ++ "\x7d"

/-- The text of a value at a depth inside other values. -/
def renderAt (h : Heap) (depth : Nat) (v : Value) : String := h.renderWithin (renderDepth - depth) v

/-- The text of a value. -/
def render (h : Heap) (v : Value) : String := h.renderAt 0 v

/-- The text of a value with its kind. Texts and messages are in quotes. -/
def debug (h : Heap) : Value → String
  | .text s => "String(" ++ Text.quoted s ++ ")"
  | .error message => "Error(" ++ Text.quoted message ++ ")"
  | v => v.kind.name ++ "(" ++ h.render v ++ ")"

end Heap

end Scripting
