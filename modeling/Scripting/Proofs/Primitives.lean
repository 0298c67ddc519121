import Scripting.Proofs.Scopes

/-!
# Evaluation over its primitives

What evaluation does itself, between the evaluations of the parts of a construct, are a few
operations on values: it checks the signal, applies operators, reads and changes elements, and calls
methods and builtin functions. Here evaluation is written over these `Primitives`, so that it can be
compared with evaluation that does one of them in another way or looks on while values come up.
With the primitives that evaluation has, `Primitives.standard`, it is evaluation itself.
-/

namespace Scripting

open Evaluation Machine

/-- The operations of evaluation. -/
structure Primitives where
  /-- Done before every expression and every statement. -/
  check : Eval Unit
  /-- Done with the value of every expression and statement, with every value that is returned, and
  with the arguments of every call. -/
  observe : List Value → Eval Unit
  typeof : Value → Eval Value
  put : Table → Key → Value → Value → Eval Table
  binary : InfixOperator → Value → Value → Eval Value
  compound : AssignOperator → Value → Value → Eval Value
  read : Value → Value → Eval Value
  slice : Value → Value → Option Value → Eval Value
  store : Value → Value → AssignOperator → Value → Eval Value
  remove : Value → Value → Eval Value
  method : Value → String → List Value → Eval Value
  builtin : Builtin → List Value → Eval Value

namespace Primitives

/-- The operations as evaluation has them. -/
def standard : Primitives where
  check := Machine.check
  observe _ := pure ()
  typeof v := pure (.text v.kind.name)
  put t k name v := pure (t.put k name v).2
  binary op x y := consult (applyInfix · op x y)
  compound op old v := consult (applyAssign · op old v)
  read c k := consult (·.read c k)
  slice := sliceOf
  store c k op v := commit (·.assignment c k op v)
  remove c k := commit (·.deletion c k)
  method object name args := act (Heap.callMethod object name args)
  builtin := Evaluation.callBuiltin

variable (o : Primitives) (p : Parts)

/-- Evaluates the pairs of a hash in turn. -/
def entries : Table → List (Expr Unit × Expr Unit) → Eval Table
  | t, [] => pure t
  | t, (k, e) :: rest => do
    let name ← match k with
      | .identifier _ i => pure (.text i.name)
      | _ => p.expression k
    let key ← ofExcept name.key
    let v ← p.expression e
    let t ← o.put t key name v
    entries t rest

/-- Calls a value. -/
def call (callee : Value) (args : List Value) : Eval Value :=
  match callee with
  | .builtin b => o.builtin b args
  | other => Evaluation.call p other args

/-- Deletes a binding or an element. -/
def deleteTarget (target : Expr Unit) : Eval Value :=
  match target with
  | .index _ container key => do
    let c ← p.expression container
    let k ← p.expression key
    o.remove c k
  | other => Evaluation.deleteTarget p other

/-- Stores to a variable. -/
def assignName (name : String) (op : AssignOperator) (v : Value) : Eval Value := do
  let f ← currentFrame
  match ← consult fun h => .ok (h.scopes.get f name) with
  | some old => do
    let new ← o.compound op old v
    rebind name new
    return new
  | none => raise (.unknownIdentifier name)

/-- Assigns. -/
def assign (op : AssignOperator) (target value : Expr Unit) : Eval Value := do
  let v ← p.expression value
  match target with
  | .identifier _ i => o.assignName i.name op v
  | .index _ container key =>
    if isSlice key then raise (.notAnLvalue target.render)
    else do
      let c ← p.expression container
      let k ← p.expression key
      o.store c k op v
  | _ => raise (.notAnLvalue target.render)

/-- Steps a variable or an element up or down. -/
def step (operand : Expr Unit) (delta : Int64) (before : Bool) : Eval Value :=
  match operand with
  | .index _ container key =>
    if isSlice key then stepValue p operand delta before
    else do
      let c ← p.expression container
      let k ← p.expression key
      let old ← o.read c k
      match old.stepped delta with
      | some v => do
        let _ ← o.store c k .assign v
        return stepResult old (some v) before
      | none => return .null
  | other => Evaluation.step p other delta before

/-- A prefix operator. -/
def unary (op : PrefixOperator) (operand : Expr Unit) : Eval Value :=
  match op with
  | .increment => o.step p operand 1 true
  | .decrement => o.step p operand (-1) true
  | op => Evaluation.unary p op operand

/-- Calls a method. -/
def methodCall (whole object called : Expr Unit) : Eval Value := do
  let x ← p.expression object
  match called with
  | .call _ name args => do
    let vs ← values p args
    o.observe vs
    o.method x name.render vs
  | _ => raise (.noMethod whole.render x.kind)

/-- Reads an element, or makes a slice. -/
def index (container key : Expr Unit) : Eval Value := do
  let c ← p.expression container
  match key with
  | .slice _ low high => do
    let l ← p.expression low
    let h ← optional p high
    o.slice c l h
  | _ => do
    let k ← p.expression key
    o.read c k

/-- Evaluates an expression over its parts. -/
def expressionOver (fuel : Nat) (e : Expr Unit) : Eval Value :=
  match e with
  | .hash _ ps => do
    let t ← o.entries p .empty ps
    onHeap (·.newHash t)
  | .unary _ op operand => o.unary p op operand
  | .binary _ op l r => do
    let x ← p.expression l
    let y ← p.expression r
    o.binary op x y
  | .step _ .increment operand => o.step p operand 1 false
  | .step _ .decrement operand => o.step p operand (-1) false
  | .assign _ op target value => o.assign p op target value
  | .typeof _ operand => do
    let v ← p.expression operand
    o.typeof v
  | .call _ callee args => do
    let f ← p.expression callee
    let vs ← values p args
    o.observe vs
    o.call p f vs
  | .method _ object called => o.methodCall p e object called
  | .index _ container key => o.index p container key
  | other => Evaluation.expressionOver p fuel other

/-- Evaluates a statement over its parts. -/
def statementOver (s : Stmt Unit) : Eval Value :=
  match s with
  | .deletion _ target => o.deleteTarget p target
  | .returning _ value => do
    let v ← match value with
      | some e => p.expression e
      | none => pure .null
    o.observe [v]
    .fail (.returned v)
  | other => Evaluation.statementOver p other

mutual

/-- Evaluates an expression. -/
def expression : Nat → Expr Unit → Eval Value
  | 0, _ => .outOfFuel
  | fuel + 1, e => do
    o.check
    let v ← o.expressionOver ⟨expression fuel, statement fuel⟩ fuel e
    o.observe [v]
    return v

/-- Evaluates a statement. -/
def statement : Nat → Stmt Unit → Eval Value
  | 0, _ => .outOfFuel
  | fuel + 1, s => do
    o.check
    let v ← o.statementOver ⟨expression fuel, statement fuel⟩ s
    o.observe [v]
    return v

end

/-- The evaluation of parts with an amount of fuel. -/
def parts (fuel : Nat) : Parts := ⟨o.expression fuel, o.statement fuel⟩

/-- The evaluation of a piece. -/
def evaluation (fuel : Nat) : Piece → Eval Value
  | .expression e => o.expression fuel e
  | .statement s => o.statement fuel s
  | .block b => block (o.parts fuel) b
  | .program p => statements (o.parts fuel) .null p.stmts
  | .call id args => execute (o.parts fuel) id args
  | .builtin b args => o.builtin b args
  | .method object name args => o.method object name args

/-! ### Evaluation itself -/

section Standard

variable {p}

theorem entries_standard (t : Table) (ps : List (Expr Unit × Expr Unit)) :
    standard.entries p t ps = Evaluation.entries p t ps := by
  induction ps generalizing t with
  | nil => rfl
  | cons pair ps ih =>
    obtain ⟨k, e⟩ := pair
    unfold entries Evaluation.entries
    simp only [← ih]
    rfl

theorem deleteTarget_standard (target : Expr Unit) :
    standard.deleteTarget p target = Evaluation.deleteTarget p target := by
  cases target <;> rfl

theorem step_standard (operand : Expr Unit) (delta : Int64) (before : Bool) :
    standard.step p operand delta before = Evaluation.step p operand delta before := by
  cases operand <;> rfl

theorem unary_standard (op : PrefixOperator) (operand : Expr Unit) :
    standard.unary p op operand = Evaluation.unary p op operand := by
  cases op with
  | increment | decrement => exact step_standard operand _ _
  | negate | logicalNot => rfl

theorem call_standard (callee : Value) (args : List Value) :
    standard.call p callee args = Evaluation.call p callee args := by
  cases callee <;> rfl

theorem expressionOver_standard (fuel : Nat) (e : Expr Unit) :
    standard.expressionOver p fuel e = Evaluation.expressionOver p fuel e := by
  cases e with
  | hash m ps =>
    simp only [expressionOver, Evaluation.expressionOver, entries_standard]
  | unary m op operand => exact unary_standard op operand
  | step m op operand => cases op <;> exact step_standard operand _ _
  | call m callee args =>
    simp only [expressionOver, Evaluation.expressionOver, call_standard]
    rfl
  | _ => rfl

theorem statementOver_standard (s : Stmt Unit) :
    standard.statementOver p s = Evaluation.statementOver p s := by
  cases s with
  | deletion m target => exact deleteTarget_standard target
  | _ => rfl

/-- Looking at a value without doing anything. -/
theorem bind_observe_standard (q : Eval Value) :
    (do let v ← q; standard.observe [v]; return v) = q := by
  funext m
  show ((q >>= fun v => pure () >>= fun _ => pure v) : Eval Value) m = q m
  rw [Attempt.bind_run]
  cases q m <;> rfl

/-- With the operations that evaluation has, this is evaluation. -/
theorem parts_standard (fuel : Nat) : standard.parts fuel = Evaluation.parts fuel := by
  induction fuel with
  | zero => rfl
  | succ fuel ih =>
    have same : (⟨standard.expression fuel, standard.statement fuel⟩ : Parts) =
        ⟨Evaluation.expression fuel, Evaluation.statement fuel⟩ := ih
    unfold parts Evaluation.parts
    congr 1
    · funext e
      rw [expression, Evaluation.expression, Attempt.deepen_eq, same, expressionOver_standard,
        bind_observe_standard]
      rfl
    · funext s
      rw [statement, Evaluation.statement, Attempt.deepen_eq, same, statementOver_standard,
        bind_observe_standard]
      rfl

theorem evaluation_standard (fuel : Nat) (piece : Piece) :
    standard.evaluation fuel piece = piece.evaluation fuel := by
  have same := parts_standard fuel
  cases piece with
  | expression e => exact congrFun (congrArg Parts.expression same) e
  | statement s => exact congrFun (congrArg Parts.statement same) s
  | block b => exact congrArg (block · b) same
  | program p => exact congrArg (statements · .null p.stmts) same
  | call id args => exact congrArg (execute · id args) same
  | builtin b args => rfl
  | method object name args => rfl

end Standard

end Primitives

end Scripting
