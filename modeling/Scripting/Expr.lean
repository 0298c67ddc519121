import Scripting.Operator

/-!
# Programs

The tree of a program: expressions, statements and blocks. Every node carries a mark. For a tree
that was read from a source the mark is the `Span` of the node; evaluation has no use for places
and works on trees without them, `erase`. Two programs are equal up to places if they erase to the
same tree.
-/

namespace Scripting

/-- A name and its mark. -/
structure Identifier (α : Type) where
  name : String
  mark : α
deriving DecidableEq, Repr

/-- Constants of the language. -/
inductive Literal where
  | integer (value : Int64)
  | float (value : Float)
  | boolean (value : Bool)
  | text (value : String)
  | null

mutual

/-- An expression. The first field is its mark. -/
inductive Expr (α : Type) where
  /-- Stands where the source leaves an expression out, as between two semicolons. -/
  | missing (mark : α)
  | identifier (mark : α) (name : Identifier α)
  | literal (mark : α) (value : Literal)
  | array (mark : α) (elements : List (Expr α))
  | hash (mark : α) (pairs : List (Expr α × Expr α))
  /-- A function with parameters and body. Its last field is the mark of the function as such. -/
  | function (mark : α) (parameters : List (Identifier α)) (body : Block α) (extent : α)
  | unary (mark : α) (op : PrefixOperator) (operand : Expr α)
  | binary (mark : α) (op : InfixOperator) (left right : Expr α)
  | step (mark : α) (op : PostfixOperator) (operand : Expr α)
  | assign (mark : α) (op : AssignOperator) (target value : Expr α)
  | conditional (mark : α) (condition : Expr α) (yes : Block α) (no : Option (Block α))
  | whileLoop (mark : α) (condition : Expr α) (body : Block α)
  /-- A loop with a first statement, a condition and an update, each of them optional. -/
  | forLoop (mark : α) (first : Option (Stmt α)) (condition update : Option (Expr α))
      (body : Block α)
  | breakLoop (mark : α)
  | continueLoop (mark : α)
  | typeof (mark : α) (operand : Expr α)
  | call (mark : α) (callee : Expr α) (arguments : List (Expr α))
  /-- A method of an object, named by an identifier or by a call of one. -/
  | method (mark : α) (object call : Expr α)
  | index (mark : α) (container key : Expr α)
  | slice (mark : α) (low : Expr α) (high : Option (Expr α))

/-- A statement. The first field is its mark. -/
inductive Stmt (α : Type) where
  | letBinding (mark : α) (name : Identifier α) (value : Expr α)
  | deletion (mark : α) (target : Expr α)
  | returning (mark : α) (value : Option (Expr α))
  | expression (mark : α) (value : Expr α)

/-- Statements between braces. -/
inductive Block (α : Type) where
  | mk (mark : α) (stmts : List (Stmt α))

end

/-- A whole program. -/
structure Program (α : Type) where
  stmts : List (Stmt α)

variable {α β : Type}

namespace Expr

/-- The mark of an expression. -/
def mark : Expr α → α
  | missing m | identifier m _ | literal m _ | array m _ | hash m _ | function m _ _ _
  | unary m _ _ | binary m _ _ _ | step m _ _ | assign m _ _ _ | conditional m _ _ _
  | whileLoop m _ _ | forLoop m _ _ _ _ | breakLoop m | continueLoop m | typeof m _ | call m _ _
  | method m _ _ | index m _ _ | slice m _ _ => m

/-- The source left this expression out. -/
def isMissing : Expr α → Bool
  | missing _ => true
  | _ => false

/-- The expression names something that can be assigned to. -/
def isAssignable : Expr α → Bool
  | identifier _ _ | index _ _ _ => true
  | _ => false

end Expr

namespace Stmt

/-- The mark of a statement. -/
def mark : Stmt α → α
  | letBinding m _ _ | deletion m _ | returning m _ | expression m _ => m

/-- The statement that a stray semicolon makes. -/
def isEmpty : Stmt α → Bool
  | expression _ e => e.isMissing
  | _ => false

end Stmt

namespace Block

/-- The mark of a block. -/
def mark : Block α → α
  | mk m _ => m

/-- The statements of a block. -/
def stmts : Block α → List (Stmt α)
  | mk _ ss => ss

end Block

/-- The name with another mark. -/
def Identifier.map (f : α → β) (i : Identifier α) : Identifier β := ⟨i.name, f i.mark⟩

mutual

/-- The expression with every mark changed. -/
def Expr.map (f : α → β) : Expr α → Expr β
  | .missing m => .missing (f m)
  | .identifier m i => .identifier (f m) (i.map f)
  | .literal m l => .literal (f m) l
  | .array m es => .array (f m) (Expr.mapList f es)
  | .hash m ps => .hash (f m) (Expr.mapPairs f ps)
  | .function m ps b x => .function (f m) (ps.map (·.map f)) (b.map f) (f x)
  | .unary m op e => .unary (f m) op (e.map f)
  | .binary m op l r => .binary (f m) op (l.map f) (r.map f)
  | .step m op e => .step (f m) op (e.map f)
  | .assign m op t v => .assign (f m) op (t.map f) (v.map f)
  | .conditional m c y none => .conditional (f m) (c.map f) (y.map f) none
  | .conditional m c y (some n) => .conditional (f m) (c.map f) (y.map f) (some (n.map f))
  | .whileLoop m c b => .whileLoop (f m) (c.map f) (b.map f)
  | .forLoop m i c u b => .forLoop (f m) (Stmt.mapOption f i) (Expr.mapOption f c)
      (Expr.mapOption f u) (b.map f)
  | .breakLoop m => .breakLoop (f m)
  | .continueLoop m => .continueLoop (f m)
  | .typeof m e => .typeof (f m) (e.map f)
  | .call m c as => .call (f m) (c.map f) (Expr.mapList f as)
  | .method m o c => .method (f m) (o.map f) (c.map f)
  | .index m c k => .index (f m) (c.map f) (k.map f)
  | .slice m l h => .slice (f m) (l.map f) (Expr.mapOption f h)

/-- The expressions with every mark changed. -/
def Expr.mapList (f : α → β) : List (Expr α) → List (Expr β)
  | [] => []
  | e :: es => e.map f :: Expr.mapList f es

/-- The pairs with every mark changed. -/
def Expr.mapPairs (f : α → β) : List (Expr α × Expr α) → List (Expr β × Expr β)
  | [] => []
  | (k, v) :: ps => (k.map f, v.map f) :: Expr.mapPairs f ps

/-- The expression, if there is one, with every mark changed. -/
def Expr.mapOption (f : α → β) : Option (Expr α) → Option (Expr β)
  | none => none
  | some e => some (e.map f)

/-- The statement with every mark changed. -/
def Stmt.map (f : α → β) : Stmt α → Stmt β
  | .letBinding m n v => .letBinding (f m) (n.map f) (v.map f)
  | .deletion m t => .deletion (f m) (t.map f)
  | .returning m v => .returning (f m) (Expr.mapOption f v)
  | .expression m e => .expression (f m) (e.map f)

/-- The statements with every mark changed. -/
def Stmt.mapList (f : α → β) : List (Stmt α) → List (Stmt β)
  | [] => []
  | s :: ss => s.map f :: Stmt.mapList f ss

/-- The statement, if there is one, with every mark changed. -/
def Stmt.mapOption (f : α → β) : Option (Stmt α) → Option (Stmt β)
  | none => none
  | some s => some (s.map f)

/-- The block with every mark changed. -/
def Block.map (f : α → β) : Block α → Block β
  | .mk m ss => .mk (f m) (Stmt.mapList f ss)

end

/-- The program with every mark changed. -/
def Program.map (f : α → β) (p : Program α) : Program β := ⟨Stmt.mapList f p.stmts⟩

/-- The program without places. -/
def Program.erase (p : Program α) : Program Unit := p.map fun _ => ()

/-- The statement without places. -/
def Stmt.erase (s : Stmt α) : Stmt Unit := s.map fun _ => ()

/-- The expression without places. -/
def Expr.erase (e : Expr α) : Expr Unit := e.map fun _ => ()

@[simp] theorem Expr.mapList_eq (f : α → β) (es : List (Expr α)) :
    Expr.mapList f es = es.map (Expr.map f) := by
  induction es with
  | nil => rfl
  | cons e es ih => simp [Expr.mapList, ih]

@[simp] theorem Stmt.mapList_eq (f : α → β) (ss : List (Stmt α)) :
    Stmt.mapList f ss = ss.map (Stmt.map f) := by
  induction ss with
  | nil => rfl
  | cons s ss ih => simp [Stmt.mapList, ih]

end Scripting
