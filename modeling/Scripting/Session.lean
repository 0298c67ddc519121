import Scripting.Evaluation
import Scripting.Expr.Parser

/-!
# Running programs

A session is a `Machine` that programs are run on one after the other. `evalStatements` says how
statements completed, `evalProgram` turns that into a value, and `runProgram` does both for a source
text on a new machine.
-/

namespace Scripting

/-- How statements completed. -/
inductive Completion where
  | value (v : Value)
  | returned (v : Value)
  | broke
  | continued
  | failed (e : RuntimeError)

/-- The value of a program that completed in this way. A failure becomes a value as well. -/
def Completion.result : Completion → Value
  | value v | returned v => v
  | broke | continued => .null
  | failed e => .error e.message

/-- The completion that an evaluation stopped with. -/
def Completion.ofStop : Stop → Completion
  | .error e => failed e
  | .returned v => returned v
  | .broke => broke
  | .continued => continued

namespace Machine

/-- The fuel of an evaluation. No program that ends at all comes near to using it up. -/
def fuel : Nat := Nat.pow 2 62

/-- Runs an evaluation: how it completed, and the machine afterwards. There is none if the fuel was
used up. -/
def complete (m : Machine) (p : Eval Value) : Option (Completion × Machine) :=
  match p m with
  | .done v m => some (.value v, m)
  | .failed stop m => some (.ofStop stop, m)
  | .exhausted => none

/-- An evaluation completes with its value, or as it stopped. -/
theorem complete_cases {m m' : Machine} {p : Eval Value} {c : Completion}
    (ended : m.complete p = some (c, m')) :
    (∃ v, c = .value v ∧ p m = .done v m') ∨ ∃ stop, c = .ofStop stop ∧ p m = .failed stop m' := by
  unfold complete at ended
  cases ran : p m with
  | exhausted =>
    rw [ran] at ended
    cases ended
  | failed stop n =>
    rw [ran] at ended
    cases ended
    exact .inr ⟨stop, rfl, rfl⟩
  | done v n =>
    rw [ran] at ended
    cases ended
    exact .inl ⟨v, rfl, rfl⟩

/-- Evaluates one statement. -/
def evalStatement (m : Machine) (s : Stmt Unit) : Option (Completion × Machine) :=
  m.complete (Evaluation.statement fuel s)

/-- Evaluates statements in turn, up to the first one that does not complete with a value. -/
def evalStatements (m : Machine) (ss : List (Stmt Unit)) : Option (Completion × Machine) :=
  m.complete (Evaluation.statements (Evaluation.parts fuel) .null ss)

/-- Evaluates a program. -/
def evalProgram (m : Machine) (p : Program Unit) : Option (Value × Machine) :=
  (m.evalStatements p.stmts).map fun r => (r.1.result, r.2)

/-- Calls a function. -/
def callFunction (m : Machine) (id : FunctionId) (args : List Value) :
    Option (Completion × Machine) :=
  m.complete (Evaluation.execute (Evaluation.parts fuel) id args)

/-- Calls a builtin function. -/
def callBuiltin (m : Machine) (b : Builtin) (args : List Value) : Option (Completion × Machine) :=
  m.complete (Evaluation.callBuiltin b args)

/-- Calls a method of a value. -/
def callMethod (m : Machine) (object : Value) (method : String) (args : List Value) :
    Option (Completion × Machine) :=
  m.complete (act (Heap.callMethod object method args))

/-- What was printed, and the machine with nothing printed. -/
def takeOutput (m : Machine) : String × Machine :=
  match m with
  | ⟨heap, scope, ⟨text, linesLeft⟩, cancellation, clock⟩ =>
    (text, ⟨heap, scope, ⟨"", linesLeft⟩, cancellation, clock⟩)

end Machine

/-- Reads a source text, which has to be free of errors. -/
def parseProgram (source : String) : Except (List SyntaxError) (Program Unit) :=
  match parse source with
  | (program, []) => .ok program.erase
  | (_, errors) => .error errors

/-- Runs a source text on a new machine. -/
def runProgram (source : String) (cancellation : Cancellation) (clock : Nat → String) :
    Except (List SyntaxError) (Option (Value × Machine)) :=
  (parseProgram source).map fun program =>
    { Machine.new clock with cancellation }.evalProgram program

end Scripting
