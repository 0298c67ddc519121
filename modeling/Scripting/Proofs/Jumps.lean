import Scripting.Session

/-!
# Where jumps end

A break, a continue or a return leaves evaluation as a `Stop` until a loop or a call takes it. Here
is which jumps can leave which piece of a program: `Expr.jumps` looks for a jump that no loop and no
function around it takes, and a piece without one never completes with that jump. A call completes
with no jump at all, whatever its body is made of.
-/

namespace Scripting

/-- The ways to leave a loop or a function from inside. -/
inductive Jump where
  | broke | continued | returned
deriving DecidableEq, Repr

/-- The jump that evaluation stopped with. -/
def Stop.jump? : Stop → Option Jump
  | .error _ => none
  | .returned _ => some .returned
  | .broke => some .broke
  | .continued => some .continued

/-- The jump that statements completed with. -/
def Completion.jump? : Completion → Option Jump
  | .value _ | .failed _ => none
  | .returned _ => some .returned
  | .broke => some .broke
  | .continued => some .continued

@[simp] theorem Completion.jump?_ofStop (stop : Stop) :
    (Completion.ofStop stop).jump? = stop.jump? := by
  cases stop <;> rfl

section Syntax

variable {α : Type}

mutual

/-- The jump stands in the expression, outside the bodies of functions and, unless it is a return,
outside the bodies of loops. -/
def Expr.jumps (j : Jump) : Expr α → Bool
  | .missing _ | .identifier _ _ | .literal _ _ | .function _ _ _ _ => false
  | .breakLoop _ => j = .broke
  | .continueLoop _ => j = .continued
  | .array _ es => Expr.jumpsList j es
  | .hash _ ps => Expr.jumpsPairs j ps
  | .unary _ _ e | .step _ _ e | .typeof _ e => e.jumps j
  | .binary _ _ e f | .assign _ _ e f | .method _ e f | .index _ e f => e.jumps j || f.jumps j
  | .conditional _ c yes no => c.jumps j || yes.jumps j || Block.jumpsOption j no
  | .whileLoop _ c b => c.jumps j || (j = .returned && b.jumps j)
  | .forLoop _ s c u b => Stmt.jumpsOption j s || Expr.jumpsOption j c || Expr.jumpsOption j u ||
      (j = .returned && b.jumps j)
  | .call _ c es => c.jumps j || Expr.jumpsList j es
  | .slice _ low high => low.jumps j || Expr.jumpsOption j high

/-- The jump stands in one of the expressions. -/
def Expr.jumpsList (j : Jump) : List (Expr α) → Bool
  | [] => false
  | e :: es => e.jumps j || Expr.jumpsList j es

/-- The jump stands in one of the pairs. -/
def Expr.jumpsPairs (j : Jump) : List (Expr α × Expr α) → Bool
  | [] => false
  | (k, e) :: ps => k.jumps j || e.jumps j || Expr.jumpsPairs j ps

/-- The jump stands in the expression, if there is one. -/
def Expr.jumpsOption (j : Jump) : Option (Expr α) → Bool
  | none => false
  | some e => e.jumps j

/-- The jump stands in the statement, outside the bodies of functions and, unless it is a return,
outside the bodies of loops. -/
def Stmt.jumps (j : Jump) : Stmt α → Bool
  | .letBinding _ _ e | .deletion _ e | .expression _ e => e.jumps j
  | .returning _ e => j = .returned || Expr.jumpsOption j e

/-- The jump stands in one of the statements. -/
def Stmt.jumpsList (j : Jump) : List (Stmt α) → Bool
  | [] => false
  | s :: ss => s.jumps j || Stmt.jumpsList j ss

/-- The jump stands in the statement, if there is one. -/
def Stmt.jumpsOption (j : Jump) : Option (Stmt α) → Bool
  | none => false
  | some s => s.jumps j

/-- The jump stands in the block, outside the bodies of functions and, unless it is a return,
outside the bodies of loops. -/
def Block.jumps (j : Jump) : Block α → Bool
  | .mk _ ss => Stmt.jumpsList j ss

/-- The jump stands in the block, if there is one. -/
def Block.jumpsOption (j : Jump) : Option (Block α) → Bool
  | none => false
  | some b => b.jumps j

end

@[simp] theorem Expr.jumpsList_eq (j : Jump) (es : List (Expr α)) :
    Expr.jumpsList j es = es.any (·.jumps j) := by
  induction es with
  | nil => simp [Expr.jumpsList]
  | cons e es ih => simp [Expr.jumpsList, ih]

@[simp] theorem Expr.jumpsPairs_eq (j : Jump) (ps : List (Expr α × Expr α)) :
    Expr.jumpsPairs j ps = ps.any fun p => p.1.jumps j || p.2.jumps j := by
  induction ps with
  | nil => simp [Expr.jumpsPairs]
  | cons p ps ih => simp [Expr.jumpsPairs, ih]

@[simp] theorem Stmt.jumpsList_eq (j : Jump) (ss : List (Stmt α)) :
    Stmt.jumpsList j ss = ss.any (·.jumps j) := by
  induction ss with
  | nil => simp [Stmt.jumpsList]
  | cons s ss ih => simp [Stmt.jumpsList, ih]

@[simp] theorem Block.jumps_eq (j : Jump) (b : Block α) :
    b.jumps j = b.stmts.any (·.jumps j) := by
  cases b with
  | mk m ss => simp [Block.jumps, Block.stmts]

end Syntax

namespace Evaluation

open Machine

variable {α β : Type} {P Q : Stop → Prop}

/-- If the evaluation stops, then as the predicate says. -/
def StopsOnly (P : Stop → Prop) (p : Eval α) : Prop :=
  ∀ m stop m', p m = .failed stop m' → P stop

/-- The evaluation does not stop with the jump. -/
abbrev Avoids (j : Jump) (p : Eval α) : Prop := StopsOnly (fun stop => stop.jump? ≠ some j) p

/-- The evaluation stops with errors only. -/
abbrev JumpFree (p : Eval α) : Prop := StopsOnly (fun stop => stop.jump? = none) p

namespace StopsOnly

theorem mono {p : Eval α} (stops : StopsOnly P p) (weaker : ∀ stop, P stop → Q stop) :
    StopsOnly Q p := by
  intro m stop m' ended
  exact weaker stop (stops m stop m' ended)

theorem avoids {p : Eval α} (free : JumpFree p) (j : Jump) : Avoids j p := by
  refine free.mono fun stop none => ?_
  simp [none]

theorem pure (a : α) : StopsOnly P (Pure.pure a : Eval α) := by
  intro m stop m' ended
  cases ended

theorem outOfFuel : StopsOnly P (Attempt.outOfFuel : Eval α) := by
  intro m stop m' ended
  cases ended

theorem fail {stop : Stop} (holds : P stop) : StopsOnly P (Attempt.fail stop : Eval α) := by
  intro m other m' ended
  cases ended
  exact holds

theorem bind {p : Eval α} {f : α → Eval β} (first : StopsOnly P p)
    (next : ∀ a, StopsOnly P (f a)) : StopsOnly P (p >>= f) := by
  intro m stop m' ended
  rw [Attempt.bind_run] at ended
  cases ran : p m with
  | exhausted =>
    rw [ran] at ended
    cases ended
  | failed other n =>
    rw [ran] at ended
    cases ended
    exact first m stop m' ran
  | done a n =>
    rw [ran] at ended
    exact next a n stop m' ended

/-- What is done with a captured result has to reckon with the stops of what was captured. -/
theorem capture_bind {p : Eval α} {f : Except Stop α → Eval β} (first : StopsOnly Q p)
    (value : ∀ a, StopsOnly P (f (.ok a))) (stopped : ∀ stop, Q stop → StopsOnly P (f (.error stop))) :
    StopsOnly P (p.capture >>= f) := by
  intro m stop m' ended
  rw [Attempt.bind_run, Attempt.capture] at ended
  cases ran : p m with
  | exhausted =>
    rw [ran] at ended
    cases ended
  | failed other n =>
    rw [ran] at ended
    exact stopped other (first m other n ran) n stop m' ended
  | done a n =>
    rw [ran] at ended
    exact value a n stop m' ended

theorem inFrame {p : Eval α} (stops : StopsOnly P p) (f : FrameId) :
    StopsOnly P (Machine.inFrame f p) := by
  intro m stop m' ended
  unfold Machine.inFrame at ended
  dsimp only at ended
  cases ran : p ⟨m.heap, f, m.sink, m.cancellation, m.clock⟩ with
  | exhausted =>
    rw [ran] at ended
    cases ended
  | failed other n =>
    rw [ran] at ended
    cases ended
    exact stops _ _ _ ran
  | done a n =>
    rw [ran] at ended
    cases ended

theorem currentFrame : StopsOnly P Machine.currentFrame := by
  intro m stop m' ended
  cases ended

theorem onHeap (change : Heap → α × Heap) : StopsOnly P (Machine.onHeap change) := by
  intro m stop m' ended
  cases ended

theorem inChild {p : Eval α} (stops : StopsOnly P p) : StopsOnly P (Machine.inChild p) :=
  currentFrame.bind fun _ => (onHeap _).bind fun f => stops.inFrame f

end StopsOnly

/-! ### What only fails with errors -/

namespace JumpFree

theorem raise (e : RuntimeError) : JumpFree (Machine.raise e : Eval α) := .fail rfl

theorem ofExcept (r : Except RuntimeError α) : JumpFree (Machine.ofExcept r) := by
  cases r with
  | ok a => exact .pure a
  | error e => exact raise e

theorem consult (look : Heap → Except RuntimeError α) : JumpFree (Machine.consult look) := by
  intro m stop m' ended
  unfold Machine.consult at ended
  split at ended
  · cases ended
  · cases ended
    rfl

theorem commit (work : Heap → Except RuntimeError (Value × Change)) :
    JumpFree (Machine.commit work) := by
  intro m stop m' ended
  unfold Machine.commit at ended
  split at ended
  · cases ended
  · cases ended
    rfl

theorem act (action : Heap.Action Value) : JumpFree (Machine.act action) := by
  intro m stop m' ended
  unfold Machine.act at ended
  dsimp only at ended
  split at ended
  · cases ended
  · cases ended
    rfl
  · cases ended

theorem check : JumpFree Machine.check := by
  intro m stop m' ended
  unfold Machine.check at ended
  dsimp only at ended
  split at ended
  · cases ended
    rfl
  · cases ended

theorem write (piece : String) : JumpFree (Machine.write piece) := by
  intro m stop m' ended
  unfold Machine.write at ended
  dsimp only at ended
  split at ended
  · cases ended
  · cases ended
    rfl

theorem readClock : JumpFree Machine.readClock := by
  intro m stop m' ended
  cases ended

theorem writeLine (text : String) : JumpFree (Machine.writeLine text) := by
  unfold Machine.writeLine
  split
  · exact (StopsOnly.pure ()).bind fun _ => write _
  · exact (write text).bind fun _ => write _

theorem callBuiltin (b : Builtin) (args : List Value) :
    JumpFree (Evaluation.callBuiltin b args) := by
  unfold Evaluation.callBuiltin
  split
  · unfold lengthOf
    split
    · exact .pure _
    · exact consult _
    · exact consult _
    · exact raise _
  · exact ofExcept _
  · exact consult _
  · exact consult _
  · exact readClock.bind fun _ => .pure _
  · exact (consult _).bind fun line => (writeLine line).bind fun _ => .pure _
  · exact raise _

theorem lookup (name : String) : JumpFree (Evaluation.lookup name) := by
  intro m stop m' ended
  unfold Evaluation.lookup at ended
  split at ended
  · cases ended
  · split at ended
    · cases ended
    · cases ended
      rfl

theorem rebind (name : String) (v : Value) : JumpFree (Evaluation.rebind name v) :=
  StopsOnly.currentFrame.bind fun _ => .onHeap _

theorem define (name : String) (v : Value) : JumpFree (Evaluation.define name v) :=
  StopsOnly.currentFrame.bind fun _ => .onHeap _

theorem assignName (name : String) (op : AssignOperator) (v : Value) :
    JumpFree (Evaluation.assignName name op v) := by
  unfold Evaluation.assignName
  refine StopsOnly.currentFrame.bind fun f => (consult _).bind fun old => ?_
  split
  · exact (consult _).bind fun new => (rebind name new).bind fun _ => .pure _
  · exact raise _

/-- A call ends with a value or an error: it takes every jump of its body, whatever the parts of the
body do. -/
theorem execute (p : Parts) (id : FunctionId) (args : List Value) :
    JumpFree (Evaluation.execute p id args) := by
  have body : ∀ q : Eval Value, StopsOnly (fun _ => True) q := fun _ _ _ _ _ => trivial
  unfold Evaluation.execute
  refine (consult _).bind fun c => ?_
  split
  · refine (StopsOnly.onHeap _).bind fun f => (body _).capture_bind ?_ ?_
    · intro v
      exact .pure v
    · intro stop _
      cases stop with
      | error e => exact raise e
      | returned v => exact .pure v
      | broke | continued => exact .pure _
  · exact raise _

theorem call (p : Parts) (callee : Value) (args : List Value) :
    JumpFree (Evaluation.call p callee args) := by
  unfold Evaluation.call
  split
  · exact execute p _ args
  · exact callBuiltin _ args
  · exact (consult _).bind fun text => raise _

theorem sliceOf (container low : Value) (high : Option Value) :
    JumpFree (Evaluation.sliceOf container low high) :=
  (consult _).bind fun _ => .onHeap _

end JumpFree

/-! ### Constructs and their parts -/

/-- The parts of a construct stop with the jump only if it stands in them. -/
structure PartsAvoid (j : Jump) (p : Parts) : Prop where
  expression : ∀ e, e.jumps j = false → Avoids j (p.expression e)
  statement : ∀ s, s.jumps j = false → Avoids j (p.statement s)

section Constructs

variable {j : Jump} {p : Parts} (parts : PartsAvoid j p)
include parts

theorem avoids_statements {ss : List (Stmt Unit)} (absent : ∀ s ∈ ss, s.jumps j = false)
    (result : Value) : Avoids j (statements p result ss) := by
  induction ss generalizing result with
  | nil => exact .pure result
  | cons s ss ih =>
    have others := ih fun t member => absent t (List.mem_cons_of_mem _ member)
    rw [statements]
    split
    · exact others result
    · exact (parts.statement s (absent s List.mem_cons_self)).bind others

theorem avoids_block {b : Block Unit} (absent : b.jumps j = false) : Avoids j (block p b) :=
  avoids_statements parts (by simpa using absent) .null

theorem avoids_values {es : List (Expr Unit)} (absent : ∀ e ∈ es, e.jumps j = false) :
    Avoids j (values p es) := by
  induction es with
  | nil => exact .pure []
  | cons e es ih =>
    have others := ih fun f member => absent f (List.mem_cons_of_mem _ member)
    rw [values]
    exact (parts.expression e (absent e List.mem_cons_self)).bind fun v =>
      others.bind fun vs => .pure _

theorem avoids_entries {ps : List (Expr Unit × Expr Unit)}
    (absent : ∀ q ∈ ps, q.1.jumps j = false ∧ q.2.jumps j = false) (t : Table) :
    Avoids j (entries p t ps) := by
  induction ps generalizing t with
  | nil => exact .pure t
  | cons q ps ih =>
    obtain ⟨k, e⟩ := q
    obtain ⟨key, value⟩ := absent (k, e) List.mem_cons_self
    have others := ih fun r member => absent r (List.mem_cons_of_mem _ member)
    -- What is left to do once the name of the entry is known.
    have named : ∀ name : Value, Avoids j (do
        let key ← ofExcept name.key
        let v ← p.expression e
        entries p (t.put key name v).2 ps) := fun name =>
      ((JumpFree.ofExcept _).avoids j).bind fun key =>
        (parts.expression e value).bind fun v => others _
    unfold entries
    split
    · exact (StopsOnly.pure _).bind named
    · exact (parts.expression _ key).bind named

theorem avoids_optional {e : Option (Expr Unit)} (absent : Expr.jumpsOption j e = false) :
    Avoids j (optional p e) := by
  cases e with
  | none => exact .pure none
  | some e => exact (parts.expression e absent).bind fun v => .pure _

/-! ### Storing -/

theorem avoids_deleteTarget {target : Expr Unit} (absent : target.jumps j = false) :
    Avoids j (deleteTarget p target) := by
  unfold deleteTarget
  split
  · refine StopsOnly.currentFrame.bind fun f => (StopsOnly.onHeap _).bind fun result => ?_
    split
    · exact .pure _
    · exact (JumpFree.raise _).avoids j
  · simp only [Expr.jumps, Bool.or_eq_false_iff] at absent
    exact (parts.expression _ absent.1).bind fun c => (parts.expression _ absent.2).bind fun k =>
      (JumpFree.commit _).avoids j
  · exact (JumpFree.raise _).avoids j

theorem avoids_assign (op : AssignOperator) {target value : Expr Unit}
    (absent : target.jumps j = false) (operand : value.jumps j = false) :
    Avoids j (assign p op target value) := by
  unfold assign
  refine (parts.expression value operand).bind fun v => ?_
  split
  · exact (JumpFree.assignName _ op v).avoids j
  · simp only [Expr.jumps, Bool.or_eq_false_iff] at absent
    split
    · exact (JumpFree.raise _).avoids j
    · exact (parts.expression _ absent.1).bind fun c => (parts.expression _ absent.2).bind fun k =>
        (JumpFree.commit _).avoids j
  · exact (JumpFree.raise _).avoids j

theorem avoids_stepValue {operand : Expr Unit} (absent : operand.jumps j = false) (delta : Int64)
    (before : Bool) : Avoids j (stepValue p operand delta before) :=
  (parts.expression operand absent).bind fun _ => .pure _

theorem avoids_step {operand : Expr Unit} (absent : operand.jumps j = false) (delta : Int64)
    (before : Bool) : Avoids j (step p operand delta before) := by
  unfold step
  split
  · refine ((JumpFree.lookup _).avoids j).bind fun old => ?_
    split
    · exact ((JumpFree.rebind _ _).avoids j).bind fun _ => .pure _
    · exact .pure _
  · split
    · exact avoids_stepValue parts absent delta before
    · simp only [Expr.jumps, Bool.or_eq_false_iff] at absent
      refine (parts.expression _ absent.1).bind fun c => (parts.expression _ absent.2).bind fun k =>
        ((JumpFree.consult _).avoids j).bind fun old => ?_
      split
      · exact ((JumpFree.commit _).avoids j).bind fun _ => .pure _
      · exact .pure _
  · exact avoids_stepValue parts absent delta before

theorem avoids_unary (op : PrefixOperator) {operand : Expr Unit} (absent : operand.jumps j = false) :
    Avoids j (unary p op operand) := by
  unfold unary
  split
  · exact avoids_step parts absent 1 true
  · exact avoids_step parts absent (-1) true
  · exact (parts.expression operand absent).bind fun v => (JumpFree.ofExcept _).avoids j

/-! ### Loops -/

/-- The body of a loop may stop with a jump that the loop takes. -/
theorem body_stops {b : Block Unit} (absent : j = .returned → b.jumps j = false) :
    StopsOnly (fun stop => j = .returned → stop.jump? ≠ some j) (block p b) := by
  by_cases same : j = .returned
  · exact (avoids_block parts (absent same)).mono fun stop other _ => other
  · intro m stop m' _ taken
    exact absurd taken same

theorem avoids_whileRounds {c : Expr Unit} {b : Block Unit} (condition : c.jumps j = false)
    (body : j = .returned → b.jumps j = false) (fuel : Nat) (result : Value) :
    Avoids j (whileRounds p c b fuel result) := by
  induction fuel generalizing result with
  | zero => exact .outOfFuel
  | succ fuel ih =>
    rw [whileRounds]
    refine (parts.expression c condition).bind fun v => ?_
    split
    · refine (body_stops parts body).capture_bind ih fun stop left => ?_
      cases stop with
      | continued => exact ih .null
      | broke => exact .pure _
      | returned v =>
        refine .fail fun same => ?_
        cases same
        exact left rfl rfl
      | error e => exact (JumpFree.raise e).avoids j
    · exact .pure result

theorem avoids_loopCondition {c : Option (Expr Unit)} (absent : Expr.jumpsOption j c = false) :
    Avoids j (loopCondition p c) := by
  cases c with
  | none => exact .pure true
  | some c => exact (parts.expression c absent).bind fun v => .pure _

theorem avoids_loopAdvance {c u : Option (Expr Unit)} (condition : Expr.jumpsOption j c = false)
    (update : Expr.jumpsOption j u = false) : Avoids j (loopAdvance p c u) := by
  have rest := avoids_loopCondition parts condition
  cases u with
  | none => exact (StopsOnly.pure ()).bind fun _ => rest
  | some u => exact (parts.expression u update).bind fun v => rest

theorem avoids_endRound {c u : Option (Expr Unit)} (condition : Expr.jumpsOption j c = false)
    (update : Expr.jumpsOption j u = false) (value : Value) : Avoids j (endRound p c u value) := by
  refine (avoids_loopAdvance parts condition update).capture_bind (fun _ => .pure _) ?_
  intro stop other
  cases stop with
  | broke => exact .pure _
  | continued | returned v | error e => exact .fail other

theorem avoids_forRound {c u : Option (Expr Unit)} {b : Block Unit}
    (condition : Expr.jumpsOption j c = false) (update : Expr.jumpsOption j u = false)
    (body : j = .returned → b.jumps j = false) : Avoids j (forRound p c u b) := by
  have ends := avoids_endRound parts condition update
  refine (body_stops parts body).capture_bind ends fun stop left => ?_
  cases stop with
  | broke => exact .pure _
  | continued => exact ends .null
  | returned v =>
    refine .fail fun same => ?_
    cases same
    exact left rfl rfl
  | error e => exact (JumpFree.raise e).avoids j

theorem avoids_forRounds {c u : Option (Expr Unit)} {b : Block Unit}
    (condition : Expr.jumpsOption j c = false) (update : Expr.jumpsOption j u = false)
    (body : j = .returned → b.jumps j = false) (fuel : Nat) (result : Value) (again : Bool) :
    Avoids j (forRounds p c u b fuel result again) := by
  induction fuel generalizing result again with
  | zero => exact .outOfFuel
  | succ fuel ih =>
    cases again with
    | false => exact .pure result
    | true =>
      have round := avoids_forRound parts condition update body
      exact round.inChild.bind fun next => ih next.1 next.2

theorem avoids_forLoop {s : Option (Stmt Unit)} {c u : Option (Expr Unit)} {b : Block Unit}
    (first : Stmt.jumpsOption j s = false) (condition : Expr.jumpsOption j c = false)
    (update : Expr.jumpsOption j u = false) (body : j = .returned → b.jumps j = false)
    (fuel : Nat) : Avoids j (forLoop p fuel s c u b) := by
  have rounds : Avoids j (do
      let again ← loopCondition p c
      forRounds p c u b fuel .null again) :=
    (avoids_loopCondition parts condition).bind fun again =>
      avoids_forRounds parts condition update body fuel .null again
  cases s with
  | none => exact (StopsOnly.pure ()).bind fun _ => rounds
  | some s => exact (parts.statement s first).bind fun _ => rounds

/-! ### Expressions and statements -/

theorem avoids_method (whole : Expr Unit) {object called : Expr Unit}
    (absent : object.jumps j = false) (arguments : called.jumps j = false) :
    Avoids j (method p whole object called) := by
  unfold method
  refine (parts.expression object absent).bind fun o => ?_
  split
  · simp only [Expr.jumps, Expr.jumpsList_eq, Bool.or_eq_false_iff, List.any_eq_false] at arguments
    exact (avoids_values parts (by simpa using arguments.2)).bind fun vs => (JumpFree.act _).avoids j
  · exact (JumpFree.raise _).avoids j

theorem avoids_index {container key : Expr Unit} (absent : container.jumps j = false)
    (inside : key.jumps j = false) : Avoids j (index p container key) := by
  unfold index
  refine (parts.expression container absent).bind fun c => ?_
  split
  · simp only [Expr.jumps, Bool.or_eq_false_iff] at inside
    exact (parts.expression _ inside.1).bind fun l => (avoids_optional parts inside.2).bind fun h =>
      (JumpFree.sliceOf c l h).avoids j
  · exact (parts.expression key inside).bind fun k => (JumpFree.consult _).avoids j

theorem avoids_expressionOver (fuel : Nat) {e : Expr Unit} (absent : e.jumps j = false) :
    Avoids j (expressionOver p fuel e) := by
  cases e with
  | missing m => exact .pure _
  | identifier m i => exact (JumpFree.lookup i.name).avoids j
  | literal m l => exact .pure _
  | array m es =>
    exact (avoids_values parts (by simpa [Expr.jumps] using absent)).bind fun vs => .onHeap _
  | hash m ps =>
    exact (avoids_entries parts (by simpa [Expr.jumps] using absent) .empty).bind fun t => .onHeap _
  | function m ps b x => exact StopsOnly.currentFrame.bind fun f => .onHeap _
  | unary m op operand => exact avoids_unary parts op absent
  | binary m op l r =>
    simp only [Expr.jumps, Bool.or_eq_false_iff] at absent
    exact (parts.expression l absent.1).bind fun x => (parts.expression r absent.2).bind fun y =>
      (JumpFree.consult _).avoids j
  | step m op operand =>
    have inside : operand.jumps j = false := absent
    cases op with
    | increment => exact avoids_step parts inside 1 false
    | decrement => exact avoids_step parts inside (-1) false
  | assign m op target value =>
    simp only [Expr.jumps, Bool.or_eq_false_iff] at absent
    exact avoids_assign parts op absent.1 absent.2
  | conditional m c yes no =>
    simp only [Expr.jumps, Bool.or_eq_false_iff] at absent
    obtain ⟨⟨condition, first⟩, second⟩ := absent
    refine (parts.expression c condition).bind fun v => ?_
    split
    · exact avoids_block parts first
    · cases no with
      | none => exact .pure _
      | some b => exact avoids_block parts second
  | whileLoop m c b =>
    simp only [Expr.jumps, Bool.or_eq_false_iff] at absent
    exact (avoids_whileRounds parts absent.1 (by simpa using absent.2) fuel .null).inChild
  | forLoop m s c u b =>
    simp only [Expr.jumps, Bool.or_eq_false_iff] at absent
    obtain ⟨⟨⟨first, condition⟩, update⟩, body⟩ := absent
    exact (avoids_forLoop parts first condition update (by simpa using body) fuel).inChild
  | breakLoop m =>
    refine .fail fun same => ?_
    cases same
    simp [Expr.jumps] at absent
  | continueLoop m =>
    refine .fail fun same => ?_
    cases same
    simp [Expr.jumps] at absent
  | typeof m operand => exact (parts.expression operand absent).bind fun v => .pure _
  | call m callee args =>
    simp only [Expr.jumps, Bool.or_eq_false_iff] at absent
    exact (parts.expression callee absent.1).bind fun f =>
      (avoids_values parts (by simpa using absent.2)).bind fun vs => (JumpFree.call p f vs).avoids j
  | method m object called =>
    simp only [Expr.jumps, Bool.or_eq_false_iff] at absent
    exact avoids_method parts _ absent.1 absent.2
  | index m container key =>
    simp only [Expr.jumps, Bool.or_eq_false_iff] at absent
    exact avoids_index parts absent.1 absent.2
  | slice m low high => exact (JumpFree.raise _).avoids j

theorem avoids_statementOver {s : Stmt Unit} (absent : s.jumps j = false) :
    Avoids j (statementOver p s) := by
  cases s with
  | letBinding m name value =>
    refine StopsOnly.currentFrame.bind fun f => ((JumpFree.consult _).avoids j).bind fun old => ?_
    split
    · exact (JumpFree.raise _).avoids j
    · exact (parts.expression value absent).bind fun v =>
        ((JumpFree.define name.name v).avoids j).bind fun _ => .pure v
  | deletion m target => exact avoids_deleteTarget parts absent
  | returning m value =>
    simp only [Stmt.jumps, Bool.or_eq_false_iff, decide_eq_false_iff_not] at absent
    have left : ∀ v, Avoids j (Attempt.fail (.returned v) : Eval Value) := by
      intro v
      refine .fail fun same => ?_
      cases same
      exact absent.1 rfl
    cases value with
    | none => exact (StopsOnly.pure .null).bind left
    | some e => exact (parts.expression e absent.2).bind left
  | expression m e => exact parts.expression e absent

end Constructs

/-- Evaluation stops with a jump only if it stands in what is evaluated, and no loop or function
around it takes it. -/
theorem avoids_parts (j : Jump) (fuel : Nat) : PartsAvoid j (parts fuel) := by
  induction fuel with
  | zero => exact ⟨fun _ _ => .outOfFuel, fun _ _ => .outOfFuel⟩
  | succ fuel ih =>
    constructor
    · intro e absent
      change Avoids j (expression (fuel + 1) e)
      rw [expression, Attempt.deepen_eq]
      exact (JumpFree.check.avoids j).bind fun _ => avoids_expressionOver ih fuel absent
    · intro s absent
      change Avoids j (statement (fuel + 1) s)
      rw [statement, Attempt.deepen_eq]
      exact (JumpFree.check.avoids j).bind fun _ => avoids_statementOver ih absent

end Evaluation

namespace Machine

open Evaluation

variable {m m' : Machine} {p : Eval Value} {c : Completion}

theorem jump?_ne_of_avoids {j : Jump} (avoids : Avoids j p)
    (ended : m.complete p = some (c, m')) : c.jump? ≠ some j := by
  rcases complete_cases ended with ⟨v, rfl, _⟩ | ⟨stop, rfl, ran⟩
  · simp [Completion.jump?]
  · simpa using avoids m stop m' ran

theorem value_or_failed_of_jumpFree (free : JumpFree p) (ended : m.complete p = some (c, m')) :
    (∃ v, c = .value v) ∨ ∃ e, c = .failed e := by
  rcases complete_cases ended with ⟨v, rfl, _⟩ | ⟨stop, rfl, ran⟩
  · exact .inl ⟨v, rfl⟩
  · have none := free m stop m' ran
    cases stop with
    | error e => exact .inr ⟨e, rfl⟩
    | returned v | broke | continued => cases none

/-- What completes with a jump has it inside, where no loop and no function takes it. A call
completes with a value or an error. -/
theorem completion_bounded_by_jumps (m m' : Machine) (c : Completion) (fuel : Nat) :
    (∀ (e : Expr Unit) (j : Jump), e.jumps j = false →
      m.complete (expression fuel e) = some (c, m') → c.jump? ≠ some j) ∧
    (∀ (s : Stmt Unit) (j : Jump), s.jumps j = false →
      m.complete (statement fuel s) = some (c, m') → c.jump? ≠ some j) ∧
    (∀ (b : Block Unit) (j : Jump), b.jumps j = false →
      m.complete (block (parts fuel) b) = some (c, m') → c.jump? ≠ some j) ∧
    ∀ (id : FunctionId) (args : List Value),
      m.complete (execute (parts fuel) id args) = some (c, m') →
        (∃ v, c = .value v) ∨ ∃ e, c = .failed e := by
  refine ⟨fun e j absent ended => ?_, fun s j absent ended => ?_, fun b j absent ended => ?_,
    fun id args ended => ?_⟩
  · exact jump?_ne_of_avoids ((avoids_parts j fuel).expression e absent) ended
  · exact jump?_ne_of_avoids ((avoids_parts j fuel).statement s absent) ended
  · exact jump?_ne_of_avoids (avoids_block (avoids_parts j fuel) absent) ended
  · exact value_or_failed_of_jumpFree (JumpFree.execute (parts fuel) id args) ended

/-- A loop that calls a function whose body jumps to the next round of a loop, and then breaks. No
jump leaves the function or the loop. -/
theorem completion_bounded_by_jumps_inside_loop :
    let jumper : Expr Unit := .function () [] (.mk () [.expression () (.continueLoop ())]) ()
    let loop : Expr Unit := .whileLoop () (.literal () (.boolean true))
      (.mk () [.expression () (.call () jumper []), .expression () (.breakLoop ())])
    (∀ j, loop.jumps j = false) ∧
      ∃ c m', (new fun _ => "").complete (expression 9 loop) = some (c, m') ∧
        ∀ j, c.jump? ≠ some j := by
  intro jumper loop
  have absent : ∀ j, loop.jumps j = false := by
    intro j
    cases j <;> rfl
  have ended : ∃ c m', (new fun _ => "").complete (expression 9 loop) = some (c, m') :=
    ⟨_, _, rfl⟩
  obtain ⟨c, m', ended⟩ := ended
  refine ⟨absent, c, m', ended, fun j => ?_⟩
  exact (completion_bounded_by_jumps _ m' c 9).1 loop j (absent j) ended

end Machine

end Scripting
