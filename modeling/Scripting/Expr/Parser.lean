import Scripting.Attempt
import Scripting.Decimal.Reader
import Scripting.Expr.Printer
import Scripting.SyntaxError
import Scripting.Token.Lexer

/-!
# From tokens to programs

An operator-precedence parser over the list of tokens. Every parser of a construct starts with the
current token on the construct's first token and ends with it on the construct's last one, so that
the token after the construct is the next to be looked at.

A statement that fails is dropped, its error is recorded, and reading goes on with the token after
the one at which it failed. This holds in blocks as well as at the top level.

Constructs that contain expressions and blocks are written over `Parts`, the parsers for what they
contain. Only `expression` and `block` at the end tie the knot, by recursion on fuel; every
expression inside another one starts at a later token, so a little more fuel than there are tokens
is enough.
-/

namespace Scripting.Parser

/-- Where reading stands: the tokens from the current one on, the place after the last of them,
and the errors recorded so far. -/
structure State where
  tokens : List SpannedToken
  finish : Position
  errors : Array SyntaxError

/-- A parser of something. -/
abbrev Parse (α : Type) := Attempt State SyntaxError α

/-- The token that stands behind all others, as often as it is asked for. -/
def State.endToken (s : State) : SpannedToken := ⟨.endOfFile, .empty s.finish⟩

/-- The token being looked at. -/
def State.current (s : State) : SpannedToken := s.tokens.headD s.endToken

/-- The token after the current one. -/
def State.peek (s : State) : SpannedToken := s.tokens.tail.headD s.endToken

/-- The token being looked at. -/
def current : Parse SpannedToken := fun s => .done s.current s

/-- The token after the current one. -/
def peek : Parse SpannedToken := fun s => .done s.peek s

/-- Moves to the next token. -/
def bump : Parse Unit := fun s => .done () { s with tokens := s.tokens.tail }

/-- Records an error. -/
def report (e : SyntaxError) : Parse Unit := fun s => .done () { s with errors := s.errors.push e }

/-- Whether the next token is this sign. -/
def peekIs (sign : Sign) : Parse Bool := do return (← peek).token = .sign sign

/-- Whether the current token is this sign. -/
def currentIs (sign : Sign) : Parse Bool := do return (← current).token = .sign sign

/-- Fails at a token. -/
def failAt {α : Type} (t : SpannedToken) (fault : SyntaxFault) : Parse α :=
  .fail ⟨t.span.start, fault⟩

/-- Moves to the next token, which has to be this sign. -/
def expectPeek (sign : Sign) : Parse Unit := do
  let next ← peek
  if next.token = .sign sign then bump
  else failAt next (.expectedToken (.sign sign) next.token)

/-- The current token has to be this sign. -/
def expectCurrent (sign : Sign) : Parse Unit := do
  let now ← current
  if now.token = .sign sign then pure ()
  else failAt now (.expectedToken (.sign sign) now.token)

/-- Moves to the next token, which has to be a name. -/
def nameAfter : Parse (Identifier Span) := do
  let next ← peek
  match next.token with
  | .identifier name => do
    bump
    return ⟨name, next.span⟩
  | other => failAt next (.expectedToken (.identifier "") other)

/-- The stretch from `start` through the current token. -/
def spanFrom (start : Span) : Parse Span := do return start.extend (← current).span

/-- The parsers that a construct needs for what it contains. -/
structure Parts where
  expression : Precedence → Parse (Expr Span)
  block : Parse (Block Span)

/-- Goes on with a list after its first expression, up to where no comma follows. What was read is
kept with the last expression first. -/
def listRest (p : Parts) : Nat → List (Expr Span) → Parse (List (Expr Span))
  | 0, _ => .outOfFuel
  | fuel + 1, read => do
    if ← peekIs .comma then
      bump
      bump
      let e ← p.expression .lowest
      listRest p fuel (e :: read)
    else return read.reverse

/-- Expressions with commas between them, from the opening sign through the closing one. -/
def listUntil (p : Parts) (fuel : Nat) (close : Sign) : Parse (List (Expr Span)) := do
  if ← peekIs close then
    bump
    return []
  else
    bump
    let e ← p.expression .lowest
    let es ← listRest p fuel [e]
    expectPeek close
    return es

/-- The pairs of a hash, from the sign before the first key through the closing brace. A key binds
tighter than a slice, so that the colon is left to separate it from its value. -/
def pairsRest (p : Parts) : Nat → List (Expr Span × Expr Span) → Parse (List (Expr Span × Expr Span))
  | 0, _ => .outOfFuel
  | fuel + 1, read => do
    bump
    let key ← p.expression .slice
    expectPeek .colon
    bump
    let value ← p.expression .lowest
    if ← peekIs .comma then
      bump
      pairsRest p fuel ((key, value) :: read)
    else
      expectPeek .rightBrace
      return ((key, value) :: read).reverse

/-- The pairs of a hash, from the opening brace through the closing one. -/
def pairs (p : Parts) (fuel : Nat) : Parse (List (Expr Span × Expr Span)) := do
  if ← peekIs .rightBrace then
    bump
    return []
  else pairsRest p fuel []

/-- Goes on with the parameters after the first one. -/
def parametersRest : Nat → List (Identifier Span) → Parse (List (Identifier Span))
  | 0, _ => .outOfFuel
  | fuel + 1, read => do
    if ← peekIs .comma then
      bump
      let name ← nameAfter
      parametersRest fuel (name :: read)
    else return read.reverse

/-- The parameters of a function, from the opening parenthesis through the closing one. -/
def parameters (fuel : Nat) : Parse (List (Identifier Span)) := do
  if ← peekIs .rightParen then
    bump
    return []
  else
    let name ← nameAfter
    let names ← parametersRest fuel [name]
    expectPeek .rightParen
    return names

/-- A function, from its keyword through the closing brace of its body. -/
def function (p : Parts) (fuel : Nat) : Parse (Expr Span) := do
  let start := (← current).span
  expectPeek .leftParen
  let names ← parameters fuel
  expectPeek .leftBrace
  let body ← p.block
  let span ← spanFrom start
  return .function span names body span

/-- A condition in parentheses, as an expression that has to end with a closing one. -/
def condition (p : Parts) : Parse (Expr Span) := do
  expectPeek .leftParen
  let c ← p.expression .lowest
  expectCurrent .rightParen
  return c

/-- A conditional, from its keyword on. -/
def conditional (p : Parts) : Parse (Expr Span) := do
  let start := (← current).span
  let c ← condition p
  expectPeek .leftBrace
  let yes ← p.block
  if (← peek).token = .keyword .elseWord then
    bump
    expectPeek .leftBrace
    let no ← p.block
    return .conditional (← spanFrom start) c yes (some no)
  else return .conditional (← spanFrom start) c yes none

/-- A loop with a condition, from its keyword on. -/
def whileLoop (p : Parts) : Parse (Expr Span) := do
  let start := (← current).span
  let c ← condition p
  expectPeek .leftBrace
  let body ← p.block
  return .whileLoop (← spanFrom start) c body

/-- The name and the value of a new binding, from the keyword on. -/
def binding (p : Parts) : Parse (Identifier Span × Expr Span) := do
  let name ← nameAfter
  expectPeek .equals
  bump
  let value ← p.expression .lowest
  return (name, value)

/-- The first clause of a loop: a binding, an expression or nothing before the semicolon. -/
def firstClause (p : Parts) : Parse (Option (Stmt Span)) := do
  if ← currentIs .semicolon then return none
  else
    let first ← current
    let stmt ← (do
      if first.token = .keyword .letWord then
        let (name, value) ← binding p
        return .letBinding (← spanFrom first.span) name value
      else
        let e ← p.expression .lowest
        return .expression (← spanFrom first.span) e)
    expectPeek .semicolon
    return some stmt

/-- Another clause of a loop: an expression, or nothing before the closing sign. -/
def clause (p : Parts) (close : Sign) : Parse (Option (Expr Span)) := do
  bump
  if ← currentIs close then return none
  else
    let e ← p.expression .lowest
    expectPeek close
    return some e

/-- A loop with three optional clauses, or with none and no parentheses, from its keyword on. -/
def forLoop (p : Parts) : Parse (Expr Span) := do
  let start := (← current).span
  if ← peekIs .leftBrace then
    bump
    let body ← p.block
    return .forLoop (← spanFrom start) none none none body
  else
    expectPeek .leftParen
    bump
    let first ← firstClause p
    let c ← clause p .semicolon
    let update ← clause p .rightParen
    expectPeek .leftBrace
    let body ← p.block
    return .forLoop (← spanFrom start) first c update body

/-- An expression in parentheses. The parentheses leave no trace in the tree. -/
def grouping (p : Parts) : Parse (Expr Span) := do
  bump
  let e ← p.expression .lowest
  expectPeek .rightParen
  return e

/-- A prefix operator and its operand, or the failure of a token that starts no expression. -/
def prefixed (p : Parts) : Parse (Expr Span) := do
  let first ← current
  match PrefixOperator.ofToken? first.token with
  | some op => do
    bump
    let e ← p.expression .prefixed
    return .unary (← spanFrom first.span) op e
  | none => failAt first (.noExpression first.token)

/-- What can stand where an expression starts: a constant, a name, or a construct that begins with
a sign or keyword of its own. -/
def operand (p : Parts) (fuel : Nat) : Parse (Expr Span) := do
  let first ← current
  match first.token with
  | .identifier name => return .identifier first.span ⟨name, first.span⟩
  | .integer digits =>
    match Decimal.readInteger digits with
    | some n => return .literal first.span (.integer n)
    | none => failAt first (.invalidInteger digits)
  | .float digits =>
    match Decimal.readFloat digits with
    | some x => return .literal first.span (.float x)
    | none => failAt first (.invalidFloat digits)
  | .text s => return .literal first.span (.text s)
  | .keyword .trueWord => return .literal first.span (.boolean true)
  | .keyword .falseWord => return .literal first.span (.boolean false)
  | .keyword .nullWord => return .literal first.span .null
  | .keyword .breakWord => return .breakLoop first.span
  | .keyword .continueWord => return .continueLoop first.span
  | .sign .leftParen => grouping p
  | .sign .leftBracket => do
    let es ← listUntil p fuel .rightBracket
    return .array (← spanFrom first.span) es
  | .sign .leftBrace => do
    let ps ← pairs p fuel
    return .hash (← spanFrom first.span) ps
  | .keyword .functionWord => function p fuel
  | .keyword .ifWord => conditional p
  | .keyword .whileWord => whileLoop p
  | .keyword .forWord => forLoop p
  | .keyword .typeofWord => do
    bump
    let e ← p.expression .lowest
    return .typeof (← spanFrom first.span) e
  | _ => prefixed p

/-- A slice from its colon on. It has no upper bound if a bracket closes right after the colon. -/
def slice (p : Parts) (low : Expr Span) : Parse (Expr Span) := do
  if ← peekIs .rightBracket then return .slice (← spanFrom low.mark) low none
  else
    bump
    let high ← p.expression .lowest
    return .slice (← spanFrom low.mark) low (some high)

/-- A method after the dot: its name, and its arguments if a parenthesis follows. -/
def methodCall (p : Parts) (fuel : Nat) : Parse (Expr Span) := do
  let name ← nameAfter
  if ← peekIs .leftParen then
    bump
    let args ← listUntil p fuel .rightParen
    return .call (← spanFrom name.mark) (.identifier name.mark name) args
  else return .identifier name.mark name

/-- A key in brackets. Without a lower bound a slice starts at zero. -/
def key (p : Parts) : Parse (Expr Span) := do
  if ← peekIs .colon then
    let opening ← current
    bump
    slice p (.literal opening.span (.integer 0))
  else
    bump
    p.expression .lowest

/-- What follows a left operand, from its operator on. -/
def continuation (p : Parts) (fuel : Nat) (c : Continuation) (left : Expr Span) :
    Parse (Expr Span) := do
  match c with
  | .operate op => do
    bump
    let right ← p.expression op.precedence
    return .binary (← spanFrom left.mark) op left right
  | .step op => return .step (← spanFrom left.mark) op left
  | .assign op => do
    let sign ← current
    bump
    let value ← p.expression .lowest
    if left.isAssignable then return .assign (← spanFrom left.mark) op left value
    else failAt sign (.invalidAssignTarget left.tokenLiteral)
  | .call => do
    let args ← listUntil p fuel .rightParen
    return .call (← spanFrom left.mark) left args
  | .method => do
    let call ← methodCall p fuel
    return .method (← spanFrom left.mark) left call
  | .index => do
    let k ← key p
    expectPeek .rightBracket
    return .index (← spanFrom left.mark) left k
  | .slice => slice p left

/-- Extends a left operand as long as the operator that follows binds tighter than `precedence`. -/
def climb (p : Parts) (size : Nat) (precedence : Precedence) : Nat → Expr Span → Parse (Expr Span)
  | 0, _ => .outOfFuel
  | fuel + 1, left => do
    match Continuation.ofToken? (← peek).token with
    | some c =>
      if precedence.level < c.precedence.level then do
        bump
        let left ← continuation p size c left
        climb p size precedence fuel left
      else return left
    | none => return left

/-- The value of a return statement. There is none before a semicolon, which then belongs to the
statement, before a closing brace and at the end. -/
def returned (p : Parts) : Parse (Option (Expr Span)) := do
  match (← peek).token with
  | .sign .semicolon => do
    bump
    return none
  | .sign .rightBrace | .endOfFile => return none
  | _ => do
    bump
    let e ← p.expression .lowest
    return some e

/-- A statement. -/
def statement (p : Parts) : Parse (Stmt Span) := do
  let first ← current
  match first.token with
  | .keyword .letWord => do
    let (name, value) ← binding p
    return .letBinding (← spanFrom first.span) name value
  | .keyword .deleteWord => do
    bump
    let e ← p.expression .lowest
    return .deletion (← spanFrom first.span) e
  | .keyword .returnWord => do
    let value ← returned p
    return .returning (← spanFrom first.span) value
  | _ => do
    let e ← p.expression .lowest
    return .expression (← spanFrom first.span) e

/-- Statements up to a token that ends them. Those that fail are reported and left out; what was
read is kept with the last statement first. -/
def statements (p : Parts) (ends : Token → Bool) : Nat → List (Stmt Span) → Parse (List (Stmt Span))
  | 0, _ => .outOfFuel
  | fuel + 1, read => do
    if ends (← current).token then return read.reverse
    else
      match ← (statement p).capture with
      | .ok s => do
        bump
        statements p ends fuel (s :: read)
      | .error e => do
        report e
        bump
        statements p ends fuel read

/-- The tokens that end a block. -/
def endsBlock (t : Token) : Bool := t = .sign .rightBrace || t = .endOfFile

/-- A block, from its opening brace through its closing one. -/
def braced (p : Parts) (fuel : Nat) : Parse (Block Span) := do
  let start := (← current).span
  bump
  let stmts ← statements p endsBlock fuel []
  expectCurrent .rightBrace
  return .mk (← spanFrom start) stmts

mutual

/-- An expression in a place that binds its right end with `precedence`. -/
def expression : Nat → Precedence → Parse (Expr Span)
  | 0, _ => .outOfFuel
  | fuel + 1, precedence => .deepen fuel do
    let first ← current
    if first.token = .sign .semicolon then return .missing first.span
    else
      let left ← operand ⟨expression fuel, block fuel⟩ fuel
      climb ⟨expression fuel, block fuel⟩ fuel precedence fuel left

/-- A block. -/
def block : Nat → Parse (Block Span)
  | 0 => .outOfFuel
  | fuel + 1 => .deepen fuel (braced ⟨expression fuel, block fuel⟩ fuel)

end

/-- All statements of a source. -/
def program (fuel : Nat) : Parse (List (Stmt Span)) :=
  statements ⟨expression fuel, block fuel⟩ (· = .endOfFile) fuel []

end Parser

/-- Reads a list of tokens that ends at `finish`: the statements that could be read, and the errors
in the order in which they were found. -/
def parseTokens (tokens : List SpannedToken) (finish : Position) :
    Program Span × List SyntaxError :=
  match Parser.program (tokens.length + 2) ⟨tokens, finish, #[]⟩ with
  | .done stmts s => (⟨stmts⟩, s.errors.toList)
  | .failed e s => (⟨[]⟩, (s.errors.push e).toList)
  | .exhausted => (⟨[]⟩, [])

/-- Reads a source text. -/
def parse (source : String) : Program Span × List SyntaxError :=
  let (tokens, c) := (Cursor.ofString source).tokens
  parseTokens tokens c.next.1.span.start

end Scripting
