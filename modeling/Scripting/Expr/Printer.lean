import Scripting.Decimal.Shortest
import Scripting.Expr

/-!
# The canonical text of a program

Every operator is written with parentheses around it and its operands, so that the text shows how
the tree is nested. Marks leave no trace in it.
-/

namespace Scripting

variable {α : Type}

/-- The decimal text of an integer. -/
def integerText (n : Int64) : String := toString n.toInt

/-- The text of a truth value. -/
def booleanText (b : Bool) : String := if b then "true" else "false"

/-- The text of a constant. A text stands for itself, without quotes. -/
def Literal.render : Literal → String
  | integer n => integerText n
  | float x => Decimal.floatText x
  | boolean b => booleanText b
  | text s => s
  | null => "null"

mutual

/-- The text of an expression. -/
def Expr.render : Expr α → String
  | .missing _ => ""
  | .identifier _ i => i.name
  | .literal _ l => l.render
  | .array _ es => "[" ++ ", ".intercalate (Expr.renderList es) ++ "]"
  | .hash _ ps => "\x7b" ++ ", ".intercalate (Expr.renderPairs ps) ++ "\x7d"
  | .function _ ps b _ => "function(" ++ ",".intercalate (ps.map (·.name)) ++ ")" ++ b.render
  | .unary _ op e => "(" ++ op.symbol ++ e.render ++ ")"
  | .binary _ op l r => "(" ++ l.render ++ " " ++ op.symbol ++ " " ++ r.render ++ ")"
  | .step _ op e => "(" ++ e.render ++ op.symbol ++ ")"
  | .assign _ op t v => t.render ++ op.symbol ++ v.render
  | .conditional _ c y none => "if" ++ c.render ++ " " ++ y.render
  | .conditional _ c y (some n) => "if" ++ c.render ++ " " ++ y.render ++ "else " ++ n.render
  | .whileLoop _ c b => "while ( " ++ c.render ++ " ) \x7b " ++ b.render ++ "\x7d"
  | .forLoop _ i c u b => "for ( " ++ Stmt.renderOption i ++ " ; " ++ Expr.renderOption c ++ " ; "
      ++ Expr.renderOption u ++ " ) \x7b " ++ b.render ++ "\x7d"
  | .breakLoop _ => "break"
  | .continueLoop _ => "continue"
  | .typeof _ e => "typeof" ++ e.render
  | .call _ c as => c.render ++ "(" ++ ", ".intercalate (Expr.renderList as) ++ ")"
  | .method _ o c => o.render ++ "." ++ c.render
  | .index _ c k => "(" ++ c.render ++ "[" ++ k.render ++ "])"
  | .slice _ l h => "(" ++ l.render ++ ":" ++ Expr.renderOption h ++ ")"

/-- The texts of expressions. -/
def Expr.renderList : List (Expr α) → List String
  | [] => []
  | e :: es => e.render :: Expr.renderList es

/-- The texts of the pairs of a hash. -/
def Expr.renderPairs : List (Expr α × Expr α) → List String
  | [] => []
  | (k, v) :: ps => (k.render ++ ":" ++ v.render) :: Expr.renderPairs ps

/-- The text of an expression, or nothing. -/
def Expr.renderOption : Option (Expr α) → String
  | none => ""
  | some e => e.render

/-- The text of a statement. -/
def Stmt.render : Stmt α → String
  | .letBinding _ n v => "let " ++ n.name ++ " = " ++ v.render
  | .deletion _ t => "delete " ++ t.render
  | .returning _ v => "return " ++ Expr.renderOption v
  | .expression _ e => e.render

/-- The text of a statement, or nothing. -/
def Stmt.renderOption : Option (Stmt α) → String
  | none => ""
  | some s => s.render

/-- The text of the statements of a block, each with a semicolon after it. Empty statements are
left out. -/
def Stmt.renderList : List (Stmt α) → String
  | [] => ""
  | s :: ss => (if s.isEmpty then "" else s.render ++ "; ") ++ Stmt.renderList ss

/-- The text of a block, without its braces. -/
def Block.render : Block α → String
  | .mk _ ss => Stmt.renderList ss

end

/-- The text of a program: its statements, one right after the other. -/
def Program.render (p : Program α) : String := String.join (p.stmts.map Stmt.render)

/-- The text of the token that an expression is recognised by. -/
def Expr.tokenLiteral : Expr α → String
  | .missing _ => ""
  | .identifier _ i => i.name
  | .literal _ l => l.render
  | .array _ _ | .index _ _ _ => "["
  | .hash _ _ => "\x7b"
  | .function _ _ _ _ => "function"
  | .unary _ op _ => op.symbol
  | .binary _ op _ _ => op.symbol
  | .step _ op _ => op.symbol
  | .assign _ op _ _ => op.symbol
  | .conditional _ _ _ _ => "if"
  | .whileLoop _ _ _ => "while"
  | .forLoop _ _ _ _ _ => "for"
  | .breakLoop _ => "break"
  | .continueLoop _ => "continue"
  | .typeof _ _ => "typeof"
  | .call _ _ _ => "("
  | .method _ _ _ => "."
  | .slice _ _ _ => ":"

/-- The text of the token that a statement is recognised by. -/
def Stmt.tokenLiteral : Stmt α → String
  | .letBinding _ _ _ => "let"
  | .deletion _ _ => "delete"
  | .returning _ _ => "return"
  | .expression _ e => e.tokenLiteral

end Scripting
