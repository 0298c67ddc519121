import Scripting.Proofs.Targets
import Scripting.Proofs.VeiledEvaluation

/-!
# Evaluation once more, under another clock

All that evaluation takes from outside is what the clock shows. So an evaluation that is repeated
with a clock that shows the same whenever it is read ends in the same way. The repeated evaluation
here may differ in one more respect: it may do whatever it likes where an assignment has something
on its left that is neither a name nor an element. As long as no code on the machine has such
assignments this is never noticed.

`Replay.Repeats` says this of two evaluations. There is one lemma for each construct, over parts that
are repeated, and induction on fuel at the end.
-/

namespace Scripting

open Machine

namespace Evaluation

/-- An assignment that raises an error only for a slice, and does something else where there is
neither a name nor an element on the left. -/
def assignOr (otherwise : Expr Unit → Eval Value) (p : Parts) (op : AssignOperator)
    (target value : Expr Unit) : Eval Value := do
  let v ← p.expression value
  match target with
  | .identifier _ i => assignName i.name op v
  | .index _ container key =>
    if isSlice key then raise (.notAnLvalue target.render)
    else do
      let c ← p.expression container
      let k ← p.expression key
      commit (·.assignment c k op v)
  | _ => otherwise target

/-- Evaluates an expression over its parts, with such assignments. -/
def expressionOr (otherwise : Expr Unit → Eval Value) (p : Parts) (fuel : Nat) (e : Expr Unit) :
    Eval Value :=
  match e with
  | .assign _ op target value => assignOr otherwise p op target value
  | e => expressionOver p fuel e

/-- The evaluation of parts with an amount of fuel, with such assignments. -/
def partsOr (otherwise : Expr Unit → Eval Value) : Nat → Parts
  | 0 => ⟨fun _ => .outOfFuel, fun _ => .outOfFuel⟩
  | fuel + 1 =>
    { expression := fun e => do
        check
        expressionOr otherwise (partsOr otherwise fuel) fuel e
      statement := fun s => do
        check
        statementOver (partsOr otherwise fuel) s }

/-- Where what else is done is to raise an error, evaluation is as it was. -/
theorem partsOr_raise (fuel : Nat) :
    partsOr (fun t => raise (.notAnLvalue t.render)) fuel = parts fuel := by
  induction fuel with
  | zero => rfl
  | succ fuel ih =>
    have usual (e : Expr Unit) : expressionOr (fun t => raise (.notAnLvalue t.render)) (parts fuel)
        fuel e = expressionOver (parts fuel) fuel e := by
      cases e with
      | assign m op target value => cases target <;> rfl
      | _ => rfl
    rw [partsOr, ih]
    refine congrArg₂ Parts.mk (funext fun e => ?_) (funext fun s => ?_)
    · rw [usual, expression, Attempt.deepen_eq]
      rfl
    · rw [statement, Attempt.deepen_eq]
      rfl

end Evaluation

open Evaluation

/-- The machine with a clock that shows other things. -/
def Machine.retimed (m : Machine) (readings : Nat → String) : Machine :=
  { m with clock := { m.clock with readings } }

/-- An evaluation and its repetition: what their clocks show, and what the repetition does about
other assignments. -/
structure Replay where
  first : Nat → String
  second : Nat → String
  otherwise : Expr Unit → Eval Value

namespace Replay

variable (R : Replay) {α β : Type}

/-- An assignment to this is not treated in another way. -/
def Spares (t : Expr Unit) : Prop :=
  t.isAssignable ∨ R.otherwise t = raise (.notAnLvalue t.render)

/-- The machine has the first clock, and its functions assign to nothing but what is spared. -/
structure Fits (m : Machine) : Prop where
  readings : m.clock.readings = R.first
  functions : ∀ c ∈ m.heap.functions, ∀ t ∈ c.body.targets, R.Spares t

/-- The clocks have shown the same up to where the machine's clock stands. -/
def Shown (m : Machine) : Prop := ∀ i < m.clock.taken, R.second i = R.first i

/-- How an evaluation that began on the machine and its repetition end: in the same way, if the
clocks have shown the same. -/
inductive Ends (m : Machine) : Outcome Machine Stop α → Outcome Machine Stop α → Prop where
  | done {a : α} {m' : Machine} {o : Outcome Machine Stop α} : R.Fits m' →
      m.clock.taken ≤ m'.clock.taken → (R.Shown m' → o = .done a (m'.retimed R.second)) →
      Ends m (.done a m') o
  | failed {stop : Stop} {m' : Machine} {o : Outcome Machine Stop α} : R.Fits m' →
      m.clock.taken ≤ m'.clock.taken → (R.Shown m' → o = .failed stop (m'.retimed R.second)) →
      Ends m (.failed stop m') o
  | exhausted {o : Outcome Machine Stop α} : (R.second = R.first → o = .exhausted) →
      Ends m .exhausted o

/-- The second evaluation repeats the first one. -/
def Repeats (x y : Eval α) : Prop := ∀ m, R.Fits m → R.Ends m (x m) (y (m.retimed R.second))

variable {R}

theorem Shown.earlier {m m' : Machine} (shown : R.Shown m')
    (before : m.clock.taken ≤ m'.clock.taken) : R.Shown m :=
  fun i inside => shown i (Nat.lt_of_lt_of_le inside before)

theorem Ends.from_earlier {m m' : Machine} {o o' : Outcome Machine Stop α}
    (before : m.clock.taken ≤ m'.clock.taken) (ends : R.Ends m' o o') : R.Ends m o o' := by
  cases ends with
  | done fits later same => exact .done fits (Nat.le_trans before later) same
  | failed fits later same => exact .failed fits (Nat.le_trans before later) same
  | exhausted same => exact .exhausted same

/-- Under the same clock both end in the same way. -/
theorem Ends.eq {m : Machine} {o o' : Outcome Machine Stop α} (ends : R.Ends m o o')
    (same : R.second = R.first) : o' = o := by
  have kept {m' : Machine} (fits : R.Fits m') : m'.retimed R.second = m' := by
    rw [same, ← fits.readings]
    rfl
  have shown (m' : Machine) : R.Shown m' := fun _ _ => by rw [same]
  cases ends with
  | done fits _ repeated => rw [repeated (shown _), kept fits]
  | failed fits _ repeated => rw [repeated (shown _), kept fits]
  | exhausted repeated => exact repeated same

/-- An outcome that is not the repetition's only counts as long as the clocks show the same. -/
theorem Ends.congr {m : Machine} {o p q : Outcome Machine Stop α} (ends : R.Ends m o p)
    (same : R.Shown m → q = p) : R.Ends m o q := by
  cases ends with
  | done fits later repeated =>
    exact .done fits later fun shown => (same (shown.earlier later)).trans (repeated shown)
  | failed fits later repeated =>
    exact .failed fits later fun shown => (same (shown.earlier later)).trans (repeated shown)
  | exhausted repeated =>
    refine .exhausted fun equal => (same fun i _ => by rw [equal]).trans (repeated equal)

namespace Repeats

variable {x y : Eval α} {f g : α → Eval β}

theorem pure (a : α) : R.Repeats (Pure.pure a) (Pure.pure a) :=
  fun _ fits => .done fits (Nat.le_refl _) fun _ => rfl

theorem fail (stop : Stop) : R.Repeats (Attempt.fail stop : Eval α) (.fail stop) :=
  fun _ fits => .failed fits (Nat.le_refl _) fun _ => rfl

theorem raise (e : RuntimeError) : R.Repeats (Machine.raise e : Eval α) (Machine.raise e) :=
  fail (.error e)

theorem outOfFuel : R.Repeats (Attempt.outOfFuel : Eval α) .outOfFuel :=
  fun _ _ => .exhausted fun _ => rfl

theorem bind (first : R.Repeats x y) (rest : ∀ a, R.Repeats (f a) (g a)) :
    R.Repeats (x >>= f) (y >>= g) := by
  intro m fits
  have ends := first m fits
  rw [Attempt.bind_run, Attempt.bind_run]
  generalize x m = o at ends
  cases ends with
  | @done a m' _ fits' later same =>
    refine ((rest a m' fits').congr ?_).from_earlier later
    intro shown
    rw [same shown]
  | failed fits' later same =>
    refine .failed fits' later fun shown => ?_
    rw [same shown]
  | exhausted same =>
    refine .exhausted fun equal => ?_
    rw [same equal]

theorem capture (repeats : R.Repeats x y) : R.Repeats x.capture y.capture := by
  intro m fits
  have ends := repeats m fits
  unfold Attempt.capture
  generalize x m = o at ends
  cases ends with
  | done fits' later same => exact .done fits' later fun shown => by rw [same shown]
  | failed fits' later same => exact .done fits' later fun shown => by rw [same shown]
  | exhausted same => exact .exhausted fun equal => by rw [same equal]

theorem inFrame (repeats : R.Repeats x y) (k : FrameId) :
    R.Repeats (Machine.inFrame k x) (Machine.inFrame k y) := by
  intro m fits
  have ends := repeats { m with scope := k } ⟨fits.readings, fits.functions⟩
  rw [inFrame_run, inFrame_run]
  change R.Ends _ _ (y { m.retimed R.second with scope := k }) at ends
  generalize x { m with scope := k } = o at ends
  cases ends with
  | done fits' later same =>
    refine .done ⟨fits'.readings, fits'.functions⟩ later fun shown => ?_
    rw [same shown]
    rfl
  | failed fits' later same =>
    refine .failed ⟨fits'.readings, fits'.functions⟩ later fun shown => ?_
    rw [same shown]
    rfl
  | exhausted same =>
    refine .exhausted fun equal => ?_
    rw [same equal]
    rfl

end Repeats

theorem functions_perform (h : Heap) (c : Change) : (h.perform c).functions = h.functions := by
  cases c <;> rfl

theorem functions_of_withFrames {h h' : Heap} (same : h' = h'.withFrames h.scopes h.functions) :
    h'.functions = h.functions := by
  rw [same]
  rfl

/-- The evaluation does not look at the clock, and leaves it and the functions as they are. -/
def Untimed (x : Eval α) : Prop :=
  ∀ m readings, x (m.retimed readings) = (x m).mapState (·.retimed readings) ∧
    match x m with
    | .done _ m' | .failed _ m' => m'.clock = m.clock ∧ m'.heap.functions = m.heap.functions
    | .exhausted => True

theorem Untimed.repeats {x : Eval α} (untimed : Untimed x) : R.Repeats x x := by
  intro m fits
  obtain ⟨same, kept⟩ := untimed m R.second
  rw [same]
  have fits' (m' : Machine) (left : m'.clock = m.clock ∧ m'.heap.functions = m.heap.functions) :
      R.Fits m' := ⟨by rw [left.1, fits.readings], by rw [left.2]; exact fits.functions⟩
  cases ended : x m with
  | done a m' =>
    rw [ended] at kept
    exact .done (fits' m' kept) (by rw [kept.1]) fun _ => rfl
  | failed stop m' =>
    rw [ended] at kept
    exact .failed (fits' m' kept) (by rw [kept.1]) fun _ => rfl
  | exhausted => exact .exhausted fun _ => rfl

namespace Repeats

theorem ofExcept (r : Except RuntimeError α) :
    R.Repeats (Machine.ofExcept r) (Machine.ofExcept r) := by
  cases r with
  | ok a => exact .pure a
  | error e => exact .raise e

theorem consult (look : Heap → Except RuntimeError α) :
    R.Repeats (Machine.consult look) (Machine.consult look) := by
  refine Untimed.repeats ?_
  rintro ⟨h, f, sink, signal, clock⟩ readings
  dsimp only [Machine.consult, retimed]
  cases look h <;> exact ⟨rfl, rfl, rfl⟩

theorem onHeap {change : Heap → α × Heap} (kept : ∀ h, (change h).2.functions = h.functions) :
    R.Repeats (Machine.onHeap change) (Machine.onHeap change) :=
  Untimed.repeats fun m _ => ⟨rfl, rfl, kept m.heap⟩

theorem commit (work : Heap → Except RuntimeError (Value × Change)) :
    R.Repeats (Machine.commit work) (Machine.commit work) := by
  refine Untimed.repeats ?_
  rintro ⟨h, f, sink, signal, clock⟩ readings
  dsimp only [Machine.commit, retimed]
  cases work h with
  | ok result => exact ⟨rfl, rfl, functions_perform h result.2⟩
  | error e => exact ⟨rfl, rfl, rfl⟩

theorem callMethod (object : Value) (name : String) (args : List Value) :
    R.Repeats (Machine.act (Heap.callMethod object name args))
      (Machine.act (Heap.callMethod object name args)) := by
  refine Untimed.repeats ?_
  rintro ⟨h, f, sink, signal, clock⟩ readings
  have kept : Heap.callMethod object name args h = _ :=
    Heap.callMethod_withFrames object name args h h.scopes h.functions
  dsimp only [Machine.act, retimed]
  cases ran : Heap.callMethod object name args h with
  | done v h' =>
    rw [ran] at kept
    exact ⟨rfl, rfl, functions_of_withFrames (Outcome.done.inj kept).2⟩
  | failed e h' =>
    rw [ran] at kept
    exact ⟨rfl, rfl, functions_of_withFrames (Outcome.failed.inj kept).2⟩
  | exhausted => exact ⟨rfl, trivial⟩

theorem check : R.Repeats Machine.check Machine.check := by
  refine Untimed.repeats ?_
  rintro ⟨h, f, sink, signal, clock⟩ readings
  dsimp only [Machine.check, retimed]
  by_cases cancelled : signal.isCancelled
  · rw [if_pos cancelled, if_pos cancelled]
    exact ⟨rfl, rfl, rfl⟩
  · rw [if_neg cancelled, if_neg cancelled]
    exact ⟨rfl, rfl, rfl⟩

theorem write (piece : String) : R.Repeats (Machine.write piece) (Machine.write piece) := by
  refine Untimed.repeats ?_
  rintro ⟨h, f, sink, signal, clock⟩ readings
  dsimp only [Machine.write, retimed]
  cases sink.write piece <;> exact ⟨rfl, rfl, rfl⟩

theorem currentFrame : R.Repeats Machine.currentFrame Machine.currentFrame :=
  Untimed.repeats fun _ _ => ⟨rfl, rfl, rfl⟩

/-- The clocks show the same so far, the reading that is taken now included. -/
theorem readClock : R.Repeats Machine.readClock Machine.readClock := by
  intro m fits
  refine .done ⟨fits.readings, fits.functions⟩ (Nat.le_succ _) fun shown => ?_
  have same : R.second m.clock.taken = m.clock.readings m.clock.taken := by
    rw [fits.readings]
    exact shown _ (Nat.lt_succ_self _)
  show Outcome.done (R.second m.clock.taken) _ = _
  rw [same]
  rfl

theorem inChild {x y : Eval α} (repeats : R.Repeats x y) :
    R.Repeats (Machine.inChild x) (Machine.inChild y) :=
  currentFrame.bind fun _ => (onHeap fun _ => rfl).bind fun k => repeats.inFrame k

end Repeats

/-! ### Names and builtin functions -/

theorem repeats_lookup (name : String) : R.Repeats (lookup name) (lookup name) := by
  refine Untimed.repeats ?_
  rintro ⟨h, f, sink, signal, clock⟩ readings
  dsimp only [lookup, retimed]
  cases h.scopes.get f name with
  | some v => exact ⟨rfl, rfl, rfl⟩
  | none => cases Builtin.ofName? name <;> exact ⟨rfl, rfl, rfl⟩

theorem repeats_rebind (name : String) (v : Value) :
    R.Repeats (rebind name v) (rebind name v) :=
  Repeats.currentFrame.bind fun _ => .onHeap fun _ => rfl

theorem repeats_define (name : String) (v : Value) :
    R.Repeats (define name v) (define name v) :=
  Repeats.currentFrame.bind fun _ => .onHeap fun _ => rfl

theorem repeats_function (ps : List String) {b : Block Unit} (spared : ∀ t ∈ b.targets, R.Spares t) :
    R.Repeats (do let f ← currentFrame; onHeap (·.newFunction ⟨ps, b, f⟩))
      (do let f ← currentFrame; onHeap (·.newFunction ⟨ps, b, f⟩)) := by
  intro m fits
  refine .done ⟨fits.readings, fun c held => ?_⟩ (Nat.le_refl _) fun _ => rfl
  rcases Array.mem_push.mp held with old | rfl
  · exact fits.functions c old
  · exact spared

theorem repeats_printLine (args : List Value) : R.Repeats (printLine args) (printLine args) := by
  refine (Repeats.consult _).bind fun line => ?_
  have written : R.Repeats (writeLine line) (writeLine line) := by
    unfold writeLine
    split
    · exact (Repeats.pure ()).bind fun _ => .write _
    · exact (Repeats.write line).bind fun _ => .write _
  exact written.bind fun _ => .pure _

theorem repeats_callBuiltin (b : Builtin) (args : List Value) :
    R.Repeats (Evaluation.callBuiltin b args) (Evaluation.callBuiltin b args) := by
  unfold Evaluation.callBuiltin
  split
  · unfold lengthOf
    split
    · exact .pure _
    · exact .consult _
    · exact .consult _
    · exact .raise _
  · exact .ofExcept _
  · exact .consult _
  · exact .consult _
  · exact Repeats.readClock.bind fun _ => .pure _
  · exact repeats_printLine _
  · exact .raise _

/-! ### Constructs over their parts -/

variable (R) in
/-- Everything that the code assigns to is spared. -/
def SparesAll (ts : List (Expr Unit)) : Prop := ∀ t ∈ ts, R.Spares t

theorem sparesAll_append {ts us : List (Expr Unit)} :
    R.SparesAll (ts ++ us) ↔ R.SparesAll ts ∧ R.SparesAll us := List.forall_mem_append

/-- The parts are repeated, so long as what they assign to is spared. -/
structure PartsRepeat (R : Replay) (p q : Parts) : Prop where
  expression : ∀ {e : Expr Unit}, R.SparesAll e.targets →
    R.Repeats (p.expression e) (q.expression e)
  statement : ∀ {s : Stmt Unit}, R.SparesAll s.targets → R.Repeats (p.statement s) (q.statement s)

section Constructs

variable {p q : Parts} (parts : PartsRepeat R p q)
include parts

theorem repeats_statements (result : Value) {ss : List (Stmt Unit)}
    (spared : R.SparesAll (Stmt.targetsList ss)) :
    R.Repeats (statements p result ss) (statements q result ss) := by
  induction ss generalizing result with
  | nil => exact .pure result
  | cons s ss ih =>
    obtain ⟨first, rest⟩ := sparesAll_append.mp spared
    rw [statements, statements]
    split
    · exact ih result rest
    · exact (parts.statement first).bind fun v => ih v rest

theorem repeats_block {b : Block Unit} (spared : R.SparesAll b.targets) :
    R.Repeats (block p b) (block q b) := by
  cases b with
  | mk _ ss => exact repeats_statements parts .null spared

theorem repeats_values {es : List (Expr Unit)} (spared : R.SparesAll (Expr.targetsList es)) :
    R.Repeats (values p es) (values q es) := by
  induction es with
  | nil => exact .pure []
  | cons e es ih =>
    obtain ⟨first, rest⟩ := sparesAll_append.mp spared
    exact (parts.expression first).bind fun v => (ih rest).bind fun vs => .pure (v :: vs)

theorem repeats_optional {e : Option (Expr Unit)} (spared : R.SparesAll (Expr.targetsOption e)) :
    R.Repeats (Evaluation.optional p e) (Evaluation.optional q e) := by
  cases e with
  | none => exact .pure none
  | some e => exact (parts.expression spared).bind fun v => .pure (some v)

theorem repeats_entries (t : Table) {ps : List (Expr Unit × Expr Unit)}
    (spared : R.SparesAll (Expr.targetsPairs ps)) :
    R.Repeats (entries p t ps) (entries q t ps) := by
  induction ps generalizing t with
  | nil => exact .pure t
  | cons pair ps ih =>
    obtain ⟨k, e⟩ := pair
    obtain ⟨key, others⟩ := sparesAll_append.mp spared
    obtain ⟨value, rest⟩ := sparesAll_append.mp others
    -- What is left to do once the name of the entry is known.
    have named (name : Value) : R.Repeats
        (do let key ← ofExcept name.key
            let v ← p.expression e
            entries p (t.put key name v).2 ps)
        (do let key ← ofExcept name.key
            let v ← q.expression e
            entries q (t.put key name v).2 ps) :=
      (Repeats.ofExcept name.key).bind fun key => (parts.expression value).bind fun v => ih _ rest
    unfold entries
    cases k with
    | identifier m i => exact (Repeats.pure (.text i.name)).bind named
    | _ => exact (parts.expression key).bind named

/-! ### Calls -/

/-- The body of a function assigns to nothing but what is spared. -/
theorem repeats_execute (id : FunctionId) (args : List Value) :
    R.Repeats (execute p id args) (execute q id args) := by
  intro m fits
  have body : R.SparesAll (m.heap.closure id).body.targets := by
    by_cases there : id < m.heap.functions.size
    · rw [Heap.closure, Array.getD, dif_pos there]
      exact fits.functions _ (Array.getElem_mem there)
    · rw [Heap.closure, Array.getD, dif_neg there]
      exact nofun
  unfold execute
  rw [Attempt.bind_run, Attempt.bind_run]
  dsimp only [consult]
  have same : (m.retimed R.second).heap.closure id = m.heap.closure id := rfl
  rw [same]
  generalize m.heap.closure id = c at body
  split
  · refine ((Repeats.onHeap fun _ => rfl).bind fun k => ?_) m fits
    refine ((repeats_block parts body).inFrame k).capture.bind fun result => ?_
    cases result with
    | ok v => exact .pure v
    | error stop =>
      cases stop with
      | error e => exact .raise e
      | returned v => exact .pure v
      | broke | continued => exact .pure _
  · exact Repeats.raise _ m fits

theorem repeats_call (callee : Value) (args : List Value) :
    R.Repeats (Evaluation.call p callee args) (Evaluation.call q callee args) := by
  have refused : R.Repeats
      (do let text ← consult fun h => .ok (h.render callee)
          raise (.notAFunction text) : Eval Value)
      (do let text ← consult fun h => .ok (h.render callee)
          raise (.notAFunction text)) := (Repeats.consult _).bind fun _ => .raise _
  cases callee with
  | function id => exact repeats_execute parts id args
  | builtin b => exact repeats_callBuiltin b args
  | _ => exact refused

/-! ### Storing -/

theorem repeats_deleteTarget {target : Expr Unit} (spared : R.SparesAll target.targets) :
    R.Repeats (deleteTarget p target) (deleteTarget q target) := by
  cases target with
  | identifier m i =>
    refine Repeats.currentFrame.bind fun f => (Repeats.onHeap fun _ => rfl).bind fun result => ?_
    cases result with
    | some v => exact .pure v
    | none => exact .raise _
  | index m container key =>
    obtain ⟨left, right⟩ := sparesAll_append.mp spared
    exact (parts.expression left).bind fun c => (parts.expression right).bind fun k => .commit _
  | _ => exact .raise _

omit parts in
theorem repeats_assignName (name : String) (op : AssignOperator) (v : Value) :
    R.Repeats (assignName name op v) (assignName name op v) := by
  refine Repeats.currentFrame.bind fun f => (Repeats.consult _).bind fun bound => ?_
  cases bound with
  | none => exact .raise _
  | some old =>
    exact (Repeats.consult _).bind fun new => (repeats_rebind name new).bind fun _ => .pure new

/-- Where the two could differ, the target is not spared. -/
theorem repeats_assign (op : AssignOperator) {target value : Expr Unit}
    (spared : R.SparesAll (target :: (target.targets ++ value.targets))) :
    R.Repeats (assign p op target value) (assignOr R.otherwise q op target value) := by
  obtain ⟨fine, others⟩ := List.forall_mem_cons.mp spared
  obtain ⟨place, operand⟩ := sparesAll_append.mp others
  refine (parts.expression operand).bind fun v => ?_
  cases target with
  | identifier m i => exact repeats_assignName i.name op v
  | index m container key =>
    obtain ⟨left, right⟩ := sparesAll_append.mp place
    dsimp only
    split
    · exact .raise _
    · exact (parts.expression left).bind fun c => (parts.expression right).bind fun k => .commit _
  | _ =>
    rcases fine with assignable | same
    · cases assignable
    · dsimp only
      rw [same]
      exact .raise _

theorem repeats_stepValue {operand : Expr Unit} (spared : R.SparesAll operand.targets)
    (delta : Int64) (before : Bool) :
    R.Repeats (stepValue p operand delta before) (stepValue q operand delta before) :=
  (parts.expression spared).bind fun _ => .pure _

theorem repeats_step {operand : Expr Unit} (spared : R.SparesAll operand.targets) (delta : Int64)
    (before : Bool) : R.Repeats (step p operand delta before) (step q operand delta before) := by
  cases operand with
  | identifier m i =>
    refine (repeats_lookup i.name).bind fun old => ?_
    cases old.stepped delta with
    | some v => exact (repeats_rebind i.name v).bind fun _ => .pure _
    | none => exact .pure _
  | index m container key =>
    obtain ⟨left, right⟩ := sparesAll_append.mp spared
    unfold step
    dsimp only
    split
    · exact repeats_stepValue parts spared delta before
    · refine (parts.expression left).bind fun c => (parts.expression right).bind fun k => ?_
      refine (Repeats.consult _).bind fun old => ?_
      cases old.stepped delta with
      | some v => exact (Repeats.commit _).bind fun _ => .pure _
      | none => exact .pure _
  | _ => exact repeats_stepValue parts spared delta before

/-! ### Loops -/

theorem repeats_whileRounds {c : Expr Unit} {b : Block Unit} (condition : R.SparesAll c.targets)
    (body : R.SparesAll b.targets) (fuel : Nat) (result : Value) :
    R.Repeats (whileRounds p c b fuel result) (whileRounds q c b fuel result) := by
  induction fuel generalizing result with
  | zero => exact .outOfFuel
  | succ fuel ih =>
    rw [whileRounds, whileRounds]
    refine (parts.expression condition).bind fun v => ?_
    split
    · refine (repeats_block parts body).capture.bind fun ended => ?_
      cases ended with
      | ok v => exact ih v
      | error stop =>
        cases stop with
        | continued => exact ih .null
        | broke => exact .pure _
        | returned v | error e => exact .fail _
    · exact .pure result

theorem repeats_loopCondition {c : Option (Expr Unit)}
    (spared : R.SparesAll (Expr.targetsOption c)) :
    R.Repeats (loopCondition p c) (loopCondition q c) := by
  cases c with
  | none => exact .pure true
  | some c => exact (parts.expression spared).bind fun v => .pure v.isTruthy

section Header

variable {c update : Option (Expr Unit)} (condition : R.SparesAll (Expr.targetsOption c))
  (advance : R.SparesAll (Expr.targetsOption update))
include condition advance

theorem repeats_loopAdvance : R.Repeats (loopAdvance p c update) (loopAdvance q c update) := by
  have next := repeats_loopCondition parts condition
  cases update with
  | none => exact (Repeats.pure ()).bind fun _ => next
  | some e => exact (parts.expression advance).bind fun _ => next

theorem repeats_endRound (value : Value) :
    R.Repeats (endRound p c update value) (endRound q c update value) := by
  refine (repeats_loopAdvance parts condition advance).capture.bind fun ended => ?_
  cases ended with
  | ok again => exact .pure (value, again)
  | error stop =>
    cases stop with
    | broke => exact .pure (value, false)
    | continued | returned v | error e => exact .fail _

theorem repeats_forRound {b : Block Unit} (body : R.SparesAll b.targets) :
    R.Repeats (forRound p c update b) (forRound q c update b) := by
  rw [forRound_eq, forRound_eq]
  refine (repeats_block parts body).capture.bind fun ended => ?_
  cases ended with
  | ok v => exact repeats_endRound parts condition advance v
  | error stop =>
    cases stop with
    | continued => exact repeats_endRound parts condition advance .null
    | broke => exact .pure _
    | returned v | error e => exact .fail _

theorem repeats_forRounds {b : Block Unit} (body : R.SparesAll b.targets) (fuel : Nat)
    (result : Value) (again : Bool) :
    R.Repeats (forRounds p c update b fuel result again)
      (forRounds q c update b fuel result again) := by
  induction fuel generalizing result again with
  | zero => exact .outOfFuel
  | succ fuel ih =>
    cases again with
    | false => exact .pure result
    | true =>
      exact (repeats_forRound parts condition advance body).inChild.bind fun next =>
        ih next.1 next.2

theorem repeats_forLoop (fuel : Nat) {first : Option (Stmt Unit)} {b : Block Unit}
    (begins : R.SparesAll (Stmt.targetsOption first)) (body : R.SparesAll b.targets) :
    R.Repeats (forLoop p fuel first c update b) (forLoop q fuel first c update b) := by
  have rounds : R.Repeats
      (do let again ← loopCondition p c
          forRounds p c update b fuel .null again)
      (do let again ← loopCondition q c
          forRounds q c update b fuel .null again) :=
    (repeats_loopCondition parts condition).bind fun again =>
      repeats_forRounds parts condition advance body fuel .null again
  cases first with
  | none => exact (Repeats.pure ()).bind fun _ => rounds
  | some s => exact (parts.statement begins).bind fun _ => rounds

end Header

/-! ### Elements -/

theorem repeats_method (whole : Expr Unit) {object called : Expr Unit}
    (receiver : R.SparesAll object.targets) (arguments : R.SparesAll called.targets) :
    R.Repeats (method p whole object called) (method q whole object called) := by
  refine (parts.expression receiver).bind fun x => ?_
  cases called with
  | call m name args =>
    obtain ⟨_, arguments⟩ := sparesAll_append.mp arguments
    exact (repeats_values parts arguments).bind fun vs => .callMethod x name.render vs
  | _ => exact .raise _

theorem repeats_index {container key : Expr Unit} (left : R.SparesAll container.targets)
    (right : R.SparesAll key.targets) :
    R.Repeats (index p container key) (index q container key) := by
  refine (parts.expression left).bind fun c => ?_
  cases key with
  | slice m low high =>
    obtain ⟨first, last⟩ := sparesAll_append.mp right
    refine (parts.expression first).bind fun l => (repeats_optional parts last).bind fun r => ?_
    refine (Repeats.consult _).bind fun part => .onHeap fun h => ?_
    cases part <;> rfl
  | _ => exact (parts.expression right).bind fun k => .consult _

/-! ### Expressions and statements -/

theorem repeats_unary (op : PrefixOperator) {operand : Expr Unit}
    (spared : R.SparesAll operand.targets) : R.Repeats (unary p op operand) (unary q op operand) := by
  have applied : R.Repeats (do let v ← p.expression operand; ofExcept (applyPrefix op v))
      (do let v ← q.expression operand; ofExcept (applyPrefix op v)) :=
    (parts.expression spared).bind fun v => .ofExcept _
  cases op with
  | increment => exact repeats_step parts spared 1 true
  | decrement => exact repeats_step parts spared (-1) true
  | negate | logicalNot => exact applied

theorem repeats_expressionOver (fuel : Nat) {e : Expr Unit} (spared : R.SparesAll e.targets) :
    R.Repeats (expressionOver p fuel e) (expressionOr R.otherwise q fuel e) := by
  cases e with
  | missing m => exact .pure _
  | identifier m i => exact repeats_lookup i.name
  | literal m l => exact .pure _
  | array m es => exact (repeats_values parts spared).bind fun vs => .onHeap fun _ => rfl
  | hash m ps => exact (repeats_entries parts .empty spared).bind fun t => .onHeap fun _ => rfl
  | function m ps b x => exact repeats_function _ spared
  | unary m op operand => exact repeats_unary parts op spared
  | binary m op l r =>
    obtain ⟨left, right⟩ := sparesAll_append.mp spared
    exact (parts.expression left).bind fun x => (parts.expression right).bind fun y => .consult _
  | step m op operand =>
    have inside : R.SparesAll operand.targets := spared
    cases op with
    | increment => exact repeats_step parts inside 1 false
    | decrement => exact repeats_step parts inside (-1) false
  | assign m op target value => exact repeats_assign parts op spared
  | conditional m c yes no =>
    obtain ⟨condition, branches⟩ := sparesAll_append.mp spared
    obtain ⟨first, second⟩ := sparesAll_append.mp branches
    refine (parts.expression condition).bind fun v => ?_
    split
    · exact repeats_block parts first
    · cases no with
      | some b => exact repeats_block parts second
      | none => exact .pure _
  | whileLoop m c b =>
    obtain ⟨condition, body⟩ := sparesAll_append.mp spared
    exact (repeats_whileRounds parts condition body fuel .null).inChild
  | forLoop m first c update b =>
    obtain ⟨begins, others⟩ := sparesAll_append.mp spared
    obtain ⟨condition, others⟩ := sparesAll_append.mp others
    obtain ⟨advance, body⟩ := sparesAll_append.mp others
    exact (repeats_forLoop parts condition advance fuel begins body).inChild
  | breakLoop m => exact .fail .broke
  | continueLoop m => exact .fail .continued
  | typeof m operand =>
    have inside : R.SparesAll operand.targets := spared
    exact (parts.expression inside).bind fun v => .pure _
  | call m callee args =>
    obtain ⟨function, arguments⟩ := sparesAll_append.mp spared
    exact (parts.expression function).bind fun f => (repeats_values parts arguments).bind fun vs =>
      repeats_call parts f vs
  | method m object called =>
    obtain ⟨receiver, arguments⟩ := sparesAll_append.mp spared
    exact repeats_method parts _ receiver arguments
  | index m container key =>
    obtain ⟨left, right⟩ := sparesAll_append.mp spared
    exact repeats_index parts left right
  | slice m low high => exact .raise _

theorem repeats_statementOver {s : Stmt Unit} (spared : R.SparesAll s.targets) :
    R.Repeats (statementOver p s) (statementOver q s) := by
  cases s with
  | letBinding m i e =>
    refine Repeats.currentFrame.bind fun f => (Repeats.consult _).bind fun old => ?_
    cases old with
    | some old => exact .raise _
    | none =>
      exact (parts.expression spared).bind fun v => (repeats_define i.name v).bind fun _ => .pure v
  | deletion m target => exact repeats_deleteTarget parts spared
  | returning m value =>
    cases value with
    | some e => exact (parts.expression spared).bind fun v => .fail (.returned v)
    | none => exact (Repeats.pure .null).bind fun v => .fail (.returned v)
  | expression m e => exact parts.expression spared

end Constructs

/-- Evaluation is repeated, with any amount of fuel. -/
theorem repeats_parts (R : Replay) (fuel : Nat) :
    PartsRepeat R (parts fuel) (partsOr R.otherwise fuel) := by
  induction fuel with
  | zero => exact ⟨fun _ => .outOfFuel, fun _ => .outOfFuel⟩
  | succ fuel ih =>
    constructor
    · intro e spared
      change R.Repeats (expression (fuel + 1) e) _
      rw [expression, Attempt.deepen_eq]
      exact Repeats.check.bind fun _ => repeats_expressionOver ih fuel spared
    · intro s spared
      change R.Repeats (statement (fuel + 1) s) _
      rw [statement, Attempt.deepen_eq]
      exact Repeats.check.bind fun _ => repeats_statementOver ih spared

end Replay

end Scripting
