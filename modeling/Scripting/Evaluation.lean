import Scripting.Evaluation.Builtin

/-!
# Evaluation

Expressions and statements are evaluated from left to right on a `Machine`. An evaluation that does
not end with a value ends with a `Stop`: an error, or a jump that a loop or a function call turns
into a value.

Every construct is written over `Parts`, the evaluation of what it contains. Only `expression` and
`statement` at the end tie the knot, by recursion on fuel. Fuel is spent on nesting and on rounds of
loops, and running out of it is no outcome of a program.
-/

namespace Scripting.Evaluation

open Machine

/-- How the parts of a construct are evaluated. -/
structure Parts where
  expression : Expr Unit → Eval Value
  statement : Stmt Unit → Eval Value

/-- Evaluates statements in turn, and gives the value of the last one. Empty statements are passed
over. -/
def statements (p : Parts) : Value → List (Stmt Unit) → Eval Value
  | result, [] => pure result
  | result, s :: ss =>
    if s.isEmpty then statements p result ss
    else do
      let v ← p.statement s
      statements p v ss

/-- Evaluates a block, in the current frame. -/
def block (p : Parts) (b : Block Unit) : Eval Value := statements p .null b.stmts

/-- Evaluates expressions in turn. -/
def values (p : Parts) : List (Expr Unit) → Eval (List Value)
  | [] => pure []
  | e :: es => do
    let v ← p.expression e
    let vs ← values p es
    return v :: vs

/-- Evaluates the pairs of a hash in turn. A bare name as key stands for itself, and a key has to
be hashable before its value is looked at. -/
def entries (p : Parts) : Table → List (Expr Unit × Expr Unit) → Eval Table
  | t, [] => pure t
  | t, (k, e) :: rest => do
    let name ← match k with
      | .identifier _ i => pure (.text i.name)
      | _ => p.expression k
    let key ← ofExcept name.key
    let v ← p.expression e
    entries p (t.put key name v).2 rest

/-- The value of a name: its nearest binding, or else the builtin function of that name. -/
def lookup (name : String) : Eval Value := fun m =>
  match m.heap.scopes.get m.scope name with
  | some v => .done v m
  | none =>
    match Builtin.ofName? name with
    | some b => .done (.builtin b) m
    | none => .failed (.error (.unknownIdentifier name)) m

/-- Changes the nearest binding of a name, if there is one. -/
def rebind (name : String) (v : Value) : Eval Unit := do
  let f ← currentFrame
  onHeap fun h => h.onScopes fun t =>
    match t.reset f name v with
    | (_, t) => ((), t)

/-- Binds a name in the current frame. -/
def define (name : String) (v : Value) : Eval Unit := do
  let f ← currentFrame
  onHeap fun h => h.onScopes fun t => ((), t.define f name v)

/-- Bindings of parameters to arguments. Of two parameters with one name the last one counts. -/
def bindParameters (parameters : List String) (args : List Value) : Bindings :=
  (parameters.zip args).foldl (fun bs b => bs.put b.1 b.2) []

/-- Calls a function: its body is evaluated in a new frame inside the one in which the function was
made. A return gives the value of the call; jumps of loops end at the call and give null. -/
def execute (p : Parts) (id : FunctionId) (args : List Value) : Eval Value := do
  let c ← consult fun h => .ok (h.closure id)
  if args.length = c.parameters.length then
    let f ← onHeap fun h => h.onScopes (·.childWith c.scope (bindParameters c.parameters args))
    match ← (inFrame f (block p c.body)).capture with
    | .ok v => return v
    | .error (.returned v) => return v
    | .error .broke | .error .continued => return .null
    | .error (.error e) => raise e
  else raise (.argumentCount c.parameters.length args.length)

/-- Calls a value. -/
def call (p : Parts) (callee : Value) (args : List Value) : Eval Value :=
  match callee with
  | .function id => execute p id args
  | .builtin b => callBuiltin b args
  | other => do
    let text ← consult fun h => .ok (h.render other)
    raise (.notAFunction text)

/-- The expression is a slice. -/
def isSlice : Expr Unit → Bool
  | .slice _ _ _ => true
  | _ => false

/-- Deletes a binding or an element, and gives its value. -/
def deleteTarget (p : Parts) (target : Expr Unit) : Eval Value :=
  match target with
  | .identifier _ i => do
    let f ← currentFrame
    match ← onHeap fun h => h.onScopes (·.delete f i.name) with
    | some v => return v
    | none => raise (.unknownIdentifier i.name)
  | .index _ container key => do
    let c ← p.expression container
    let k ← p.expression key
    commit (·.deletion c k)
  | _ => raise (.notAnLvalue target.render)

/-- Stores to a variable that is bound somewhere, and gives the value stored. -/
def assignName (name : String) (op : AssignOperator) (v : Value) : Eval Value := do
  let f ← currentFrame
  match ← consult fun h => .ok (h.scopes.get f name) with
  | some old => do
    let new ← consult (applyAssign · op old v)
    rebind name new
    return new
  | none => raise (.unknownIdentifier name)

/-- Assigns: the new value is evaluated first, then the place to store it. -/
def assign (p : Parts) (op : AssignOperator) (target value : Expr Unit) : Eval Value := do
  let v ← p.expression value
  match target with
  | .identifier _ i => assignName i.name op v
  | .index _ container key =>
    if isSlice key then raise (.notAnLvalue target.render)
    else do
      let c ← p.expression container
      let k ← p.expression key
      commit (·.assignment c k op v)
  | _ => raise (.notAnLvalue target.render)

/-- The result of a step, from the old value and the stepped one: null if the value cannot be
stepped. -/
def stepResult (old : Value) (new : Option Value) (before : Bool) : Value :=
  match new with
  | some v => if before then v else old
  | none => .null

/-- Steps the value of an expression that is no place to store to. -/
def stepValue (p : Parts) (operand : Expr Unit) (delta : Int64) (before : Bool) : Eval Value := do
  let old ← p.expression operand
  return stepResult old (old.stepped delta) before

/-- Steps a variable or an element up or down and stores the result. The value is the new one if
the operator stands before its operand, and the old one otherwise. -/
def step (p : Parts) (operand : Expr Unit) (delta : Int64) (before : Bool) : Eval Value :=
  match operand with
  | .identifier _ i => do
    let old ← lookup i.name
    match old.stepped delta with
    | some v => do
      rebind i.name v
      return stepResult old (some v) before
    | none => return .null
  | .index _ container key =>
    if isSlice key then stepValue p operand delta before
    else do
      let c ← p.expression container
      let k ← p.expression key
      let old ← consult (·.read c k)
      match old.stepped delta with
      | some v => do
        let _ ← commit (·.assignment c k .assign v)
        return stepResult old (some v) before
      | none => return .null
  | _ => stepValue p operand delta before

/-- The rounds of a loop with a condition. The value is that of the last round, or null after a
jump. -/
def whileRounds (p : Parts) (condition : Expr Unit) (body : Block Unit) : Nat → Value → Eval Value
  | 0, _ => .outOfFuel
  | fuel + 1, result => do
    let c ← p.expression condition
    if c.isTruthy then
      match ← (block p body).capture with
      | .ok v => whileRounds p condition body fuel v
      | .error .continued => whileRounds p condition body fuel .null
      | .error .broke => return .null
      | .error stop => .fail stop
    else return result

/-- The condition of a loop, which holds if there is none. -/
def loopCondition (p : Parts) : Option (Expr Unit) → Eval Bool
  | some c => do return (← p.expression c).isTruthy
  | none => pure true

/-- The update of a loop and the condition for another round. -/
def loopAdvance (p : Parts) (condition update : Option (Expr Unit)) : Eval Bool := do
  match update with
  | some e => let _ ← p.expression e
  | none => pure ()
  loopCondition p condition

/-- The end of a round: the update, and the condition for another round. Gives the value of the
round, and whether there is another one. -/
def endRound (p : Parts) (condition update : Option (Expr Unit)) (value : Value) :
    Eval (Value × Bool) := do
  match ← (loopAdvance p condition update).capture with
  | .ok again => return (value, again)
  | .error .broke => return (value, false)
  | .error stop => .fail stop

/-- One round of a loop: its body, and then the end of the round unless the body leaves the loop. -/
def forRound (p : Parts) (condition update : Option (Expr Unit)) (body : Block Unit) :
    Eval (Value × Bool) := do
  match ← (block p body).capture with
  | .ok v => endRound p condition update v
  | .error .continued => endRound p condition update .null
  | .error .broke => return (.null, false)
  | .error (.returned v) => .fail (.returned v)
  | .error (.error e) => raise e

/-- The rounds of a loop with three clauses. Every round has a frame of its own. -/
def forRounds (p : Parts) (condition update : Option (Expr Unit)) (body : Block Unit) :
    Nat → Value → Bool → Eval Value
  | 0, _, _ => .outOfFuel
  | _ + 1, result, false => pure result
  | fuel + 1, _, true => do
    let (value, again) ← inChild (forRound p condition update body)
    forRounds p condition update body fuel value again

/-- A loop with three clauses, in the frame of the loop. -/
def forLoop (p : Parts) (fuel : Nat) (first : Option (Stmt Unit))
    (condition update : Option (Expr Unit)) (body : Block Unit) : Eval Value := do
  match first with
  | some s => let _ ← p.statement s
  | none => pure ()
  let again ← loopCondition p condition
  forRounds p condition update body fuel .null again

/-- Calls a method. A method without arguments in parentheses is undefined. -/
def method (p : Parts) (whole object called : Expr Unit) : Eval Value := do
  let o ← p.expression object
  match called with
  | .call _ name args => do
    let vs ← values p args
    act (Heap.callMethod o name.render vs)
  | _ => raise (.noMethod whole.render o.kind)

/-- Makes a slice. -/
def sliceOf (container low : Value) (high : Option Value) : Eval Value := do
  let c ← consult (·.cut container low high)
  onHeap (·.valueOfCut c)

/-- Evaluates an expression, if there is one. -/
def optional (p : Parts) : Option (Expr Unit) → Eval (Option Value)
  | some e => do return some (← p.expression e)
  | none => pure none

/-- Reads an element, or makes a slice if the key is one. -/
def index (p : Parts) (container key : Expr Unit) : Eval Value := do
  let c ← p.expression container
  match key with
  | .slice _ low high => do
    let l ← p.expression low
    let h ← optional p high
    sliceOf c l h
  | _ => do
    let k ← p.expression key
    consult (·.read c k)

/-- The value of a constant. -/
def constant : Literal → Value
  | .integer n => .integer n
  | .float x => .float x
  | .boolean b => .boolean b
  | .text s => .text s
  | .null => .null

/-- A prefix operator. -/
def unary (p : Parts) (op : PrefixOperator) (operand : Expr Unit) : Eval Value :=
  match op with
  | .increment => step p operand 1 true
  | .decrement => step p operand (-1) true
  | _ => do
    let v ← p.expression operand
    ofExcept (applyPrefix op v)

/-- Evaluates an expression over its parts. -/
def expressionOver (p : Parts) (fuel : Nat) (e : Expr Unit) : Eval Value :=
  match e with
  | .missing _ => pure .null
  | .identifier _ i => lookup i.name
  | .literal _ l => pure (constant l)
  | .array _ es => do
    let vs ← values p es
    onHeap (·.newArray vs.toArray)
  | .hash _ ps => do
    let t ← entries p .empty ps
    onHeap (·.newHash t)
  | .function _ ps b _ => do
    let f ← currentFrame
    onHeap (·.newFunction ⟨ps.map (·.name), b, f⟩)
  | .unary _ op operand => unary p op operand
  | .binary _ op l r => do
    let x ← p.expression l
    let y ← p.expression r
    consult (applyInfix · op x y)
  | .step _ .increment operand => step p operand 1 false
  | .step _ .decrement operand => step p operand (-1) false
  | .assign _ op target value => assign p op target value
  | .conditional _ c yes no => do
    let v ← p.expression c
    if v.isTruthy then block p yes
    else
      match no with
      | some b => block p b
      | none => return .null
  | .whileLoop _ c b => inChild (whileRounds p c b fuel .null)
  | .forLoop _ first c u b => inChild (forLoop p fuel first c u b)
  | .breakLoop _ => .fail .broke
  | .continueLoop _ => .fail .continued
  | .typeof _ operand => do
    let v ← p.expression operand
    return .text v.kind.name
  | .call _ callee args => do
    let f ← p.expression callee
    let vs ← values p args
    call p f vs
  | .method _ object called => method p e object called
  | .index _ container key => index p container key
  | .slice _ _ _ => raise (.straySlice e.render)

/-- Evaluates a statement over its parts. A new binding has to be new in the current frame, which
is looked at before its value is evaluated. -/
def statementOver (p : Parts) (s : Stmt Unit) : Eval Value :=
  match s with
  | .letBinding _ name value => do
    let f ← currentFrame
    match ← consult fun h => .ok (h.scopes.getCurrent f name.name) with
    | some _ => raise (.redefined name.name)
    | none => do
      let v ← p.expression value
      define name.name v
      return v
  | .deletion _ target => deleteTarget p target
  | .returning _ value => do
    let v ← match value with
      | some e => p.expression e
      | none => pure .null
    .fail (.returned v)
  | .expression _ e => p.expression e

mutual

/-- Evaluates an expression, unless evaluation was cancelled. -/
def expression : Nat → Expr Unit → Eval Value
  | 0, _ => .outOfFuel
  | fuel + 1, e => .deepen fuel do
    check
    expressionOver ⟨expression fuel, statement fuel⟩ fuel e

/-- Evaluates a statement, unless evaluation was cancelled. -/
def statement : Nat → Stmt Unit → Eval Value
  | 0, _ => .outOfFuel
  | fuel + 1, s => .deepen fuel do
    check
    statementOver ⟨expression fuel, statement fuel⟩ s

end

/-- The evaluation of parts with an amount of fuel. -/
def parts (fuel : Nat) : Parts := ⟨expression fuel, statement fuel⟩

end Scripting.Evaluation
