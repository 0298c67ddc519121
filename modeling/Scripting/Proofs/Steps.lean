import Scripting.Proofs.Cancellation
import Scripting.Proofs.Elements
import Scripting.Proofs.IntegerArithmetic

/-!
# Stepping a place up and down

`++x` and `x += 1` are evaluated by different rules. Where `x` is a whole number they come to the
same: the place is worked out once, one is added, and the sum is stored. `x++` leaves the same
machine behind and gives the old value. The assignment looks at the signal once more, for its
constant, so that evaluation with one check less has to be compared with evaluation as it is.
-/

namespace Scripting

open Evaluation Machine

namespace PostfixOperator

/-- What a step adds. -/
def amount : PostfixOperator → Int64
  | increment => 1
  | decrement => -1

/-- The operator that steps in the same direction and stands before its operand. -/
def before : PostfixOperator → PrefixOperator
  | increment => .increment
  | decrement => .decrement

/-- The assignment that steps in the same direction if it is given a one. -/
def compound : PostfixOperator → AssignOperator
  | increment => .addAssign
  | decrement => .subtractAssign

theorem applyAssign_one (op : PostfixOperator) (h : Heap) (n : Int64) :
    applyAssign h op.compound (.integer n) (.integer 1) = .ok (.integer (n + op.amount)) := by
  cases op with
  | increment =>
    rw [compound, applyAssign_of_integers h rfl]
    exact applyInfix_of_integers h rfl (by decide)
  | decrement =>
    rw [compound, applyAssign_of_integers h rfl, amount, ← Int64.sub_eq_add_neg]
    exact applyInfix_of_integers h rfl (by decide)

end PostfixOperator

/-- A place to store to: a name, or an element under an index that is no slice. -/
def Expr.isPlace : Expr Unit → Bool
  | .identifier _ _ => true
  | .index _ _ key => !isSlice key
  | _ => false

/-- A value is stored in a place. The parts of the place are evaluated once each, container first,
and then nothing but the store happens. -/
inductive StoresTo (p : Parts) (m : Machine) (v : Value) : Expr Unit → Machine → Prop where
  | name {mark : Unit} {i : Identifier Unit} : StoresTo p m v (.identifier mark i)
      { m with heap := { m.heap with scopes := (m.heap.scopes.reset m.scope i.name v).2 } }
  | element {mark : Unit} {container key : Expr Unit} {c k : Value} {m₁ m₂ : Machine}
      {change : Change} : p.expression container m = .done c m₁ → p.expression key m₁ = .done k m₂ →
      m₂.heap.assignment c k .assign v = .ok (v, change) →
      StoresTo p m v (.index mark container key) { m₂ with heap := m₂.heap.perform change }

/-! ## Over parts -/

section Parts

variable {p : Parts} {m m₁ : Machine} {fuel : Nat} {target container key : Expr Unit} {n : Int64}

theorem exists_of_bind_done {α β : Type} {x : Eval α} {g : α → Eval β} {b : β}
    (ended : (x >>= g) m = .done b m₁) : ∃ a n, x m = .done a n ∧ g a n = .done b m₁ := by
  rw [Attempt.bind_run] at ended
  cases ran : x m with
  | done a n =>
    rw [ran] at ended
    exact ⟨a, n, rfl, ended⟩
  | failed | exhausted =>
    rw [ran] at ended
    cases ended

theorem cases_of_bind_failed {α β : Type} {x : Eval α} {g : α → Eval β} {stop : Stop}
    (ended : (x >>= g) m = .failed stop m₁) :
    x m = .failed stop m₁ ∨ ∃ a n, x m = .done a n ∧ g a n = .failed stop m₁ := by
  rw [Attempt.bind_run] at ended
  cases ran : x m with
  | done a n =>
    rw [ran] at ended
    exact .inr ⟨a, n, rfl, ended⟩
  | failed =>
    rw [ran] at ended
    cases ended
    exact .inl rfl
  | exhausted =>
    rw [ran] at ended
    cases ended

theorem ok_of_consult {α : Type} {look : Heap → Except RuntimeError α} {a : α}
    (looked : consult look m = .done a m₁) : look m.heap = .ok a ∧ m₁ = m := by
  cases found : look m.heap with
  | ok b =>
    rw [Strict.consult_of_ok found] at looked
    cases looked
    exact ⟨rfl, rfl⟩
  | error e =>
    rw [Strict.consult_of_error found] at looked
    cases looked

theorem index_of_whole (whole : isSlice key = false) :
    index p container key = (do
      let c ← p.expression container
      let k ← p.expression key
      consult (·.read c k)) := by
  cases key with
  | slice => cases whole
  | _ => rfl

theorem get_of_lookup {name : String} (found : lookup name m = .done (.integer n) m₁) :
    m.heap.scopes.get m.scope name = some (.integer n) ∧ m₁ = m := by
  unfold lookup at found
  cases bound : m.heap.scopes.get m.scope name with
  | some v =>
    rw [bound] at found
    cases found
    exact ⟨rfl, rfl⟩
  | none =>
    rw [bound] at found
    cases named : Builtin.ofName? name with
    | some | none =>
      simp only [named] at found
      cases found

/-- A number that is read is kept somewhere. -/
theorem Heap.addresses_of_read {h : Heap} {c k : Value} (reads : h.read c k = .ok (.integer n)) :
    ∃ spot, h.Addresses c k spot ∧ h.kept? spot = some (.integer n) := by
  have kept : ∀ spot, h.Addresses c k spot → h.kept? spot = some (.integer n) := by
    intro spot addressed
    rw [read_of_addresses addressed] at reads
    cases found : h.kept? spot with
    | some v =>
      rw [found] at reads
      cases reads
      rfl
    | none =>
      rw [found] at reads
      cases reads
  cases c with
  | array a =>
    rcases place_cases (h.arrays.length a) k false with ⟨p, _, named⟩ | ⟨e, failed, _⟩
    · exact ⟨_, .element named, kept _ (.element named)⟩
    · rw [read, placeWithin, failed] at reads
      cases e <;> cases reads
  | hash id =>
    cases hashable : k.key with
    | ok l => exact ⟨_, .entry hashable, kept _ (.entry hashable)⟩
    | error e =>
      rw [read, Table.get, hashable] at reads
      cases reads
  | text s =>
    rw [read] at reads
    cases placed : placeWithin s.utf8ByteSize k with
    | ok q =>
      rw [placed] at reads
      cases byte : q.bind (Text.byteAt? s) with
      | some | none =>
        simp only [bind, Except.bind, byte] at reads
        cases reads
    | error e =>
      rw [placed] at reads
      cases reads
  | _ => cases reads

/-- What becomes of a name that is bound to a whole number. -/
theorem name_forms {mark : Unit} {i : Identifier Unit}
    (bound : m.heap.scopes.get m.scope i.name = some (.integer n)) (delta : Int64) :
    ∃ m₂, StoresTo p m (.integer (n + delta)) (.identifier mark i) m₂ ∧
      (∀ before, step p (.identifier mark i) delta before m =
        .done (if before then .integer (n + delta) else .integer n) m₂) ∧
      ∀ op w, applyAssign m.heap op (.integer n) (.integer w) = .ok (.integer (n + delta)) →
        assignName i.name op (.integer w) m = .done (.integer (n + delta)) m₂ := by
  refine ⟨_, .name, fun before => ?_, fun op w computed => ?_⟩
  · have looked : lookup i.name m = .done (.integer n) m := by
      unfold lookup
      rw [bound]
    exact Strict.bind_of_done looked
  · have found : consult (fun h => .ok (h.scopes.get m.scope i.name)) m =
        .done (some (.integer n)) m := Strict.consult_of_ok (congrArg Except.ok bound)
    have worked : consult (applyAssign · op (.integer n) (.integer w)) m =
        .done (.integer (n + delta)) m := Strict.consult_of_ok computed
    have framed : currentFrame m = .done m.scope m := rfl
    unfold assignName
    rw [Strict.bind_of_done framed, Strict.bind_of_done found]
    exact Strict.bind_of_done worked

/-- What becomes of an element that is a whole number. -/
theorem element_forms {mark : Unit} {c k : Value} {m' : Machine} (whole : isSlice key = false)
    (contained : p.expression container m = .done c m') (named : p.expression key m' = .done k m₁)
    (reads : m₁.heap.read c k = .ok (.integer n)) (delta : Int64) :
    ∃ m₂, StoresTo p m (.integer (n + delta)) (.index mark container key) m₂ ∧
      (∀ before, step p (.index mark container key) delta before m =
        .done (if before then .integer (n + delta) else .integer n) m₂) ∧
      ∀ op w, applyAssign m₁.heap op (.integer n) (.integer w) = .ok (.integer (n + delta)) →
        commit (·.assignment c k op (.integer w)) m₁ = .done (.integer (n + delta)) m₂ := by
  obtain ⟨spot, addressed, kept⟩ := Heap.addresses_of_read reads
  obtain ⟨change, works, _⟩ := Heap.assignment_of_addresses addressed
  rw [kept] at works
  have stored : m₁.heap.assignment c k .assign (.integer (n + delta)) =
      .ok (.integer (n + delta), change (.integer (n + delta))) := works _ _
  refine ⟨_, .element contained named stored, fun before => ?_, fun op w computed => ?_⟩
  · have looked : consult (·.read c k) m₁ = .done (.integer n) m₁ := Strict.consult_of_ok reads
    have written : commit (·.assignment c k .assign (.integer (n + delta))) m₁ = _ :=
      Strict.commit_of_ok stored
    unfold step
    simp only [whole, Bool.false_eq_true, if_false]
    rw [Strict.bind_of_done contained, Strict.bind_of_done named, Strict.bind_of_done looked]
    exact Strict.bind_of_done written
  · have work := works op (.integer w)
    rw [Option.getD_some, computed] at work
    exact Strict.commit_of_ok work

/-- All forms of a step that start from the same machine store the same value once, and end with the
same machine. The machine of an assignment is that after its operand. -/
theorem forms_agree (place : target.isPlace)
    (yields : expressionOver p fuel target m = .done (.integer n) m₁) (op : PostfixOperator) :
    ∃ m₂, StoresTo p m (.integer (n + op.amount)) target m₂ ∧
      (∀ before, step p target op.amount before m =
        .done (if before then .integer (n + op.amount) else .integer n) m₂) ∧
      ∀ one m₀, p.expression one m₀ = .done (.integer 1) m →
        assign p op.compound target one m₀ = .done (.integer (n + op.amount)) m₂ := by
  cases target with
  | identifier mark i =>
    obtain ⟨bound, rfl⟩ := get_of_lookup yields
    obtain ⟨m₂, stores, steps, assigns⟩ := name_forms bound op.amount
    refine ⟨m₂, stores, steps, fun one m₀ operand => ?_⟩
    unfold assign
    rw [Strict.bind_of_done operand]
    exact assigns _ 1 (op.applyAssign_one _ n)
  | index mark container key =>
    have whole : isSlice key = false := by simpa [Expr.isPlace] using place
    change index p container key m = _ at yields
    rw [index_of_whole whole] at yields
    obtain ⟨c, m', contained, rest⟩ := exists_of_bind_done yields
    obtain ⟨k, m'', named, looked⟩ := exists_of_bind_done rest
    obtain ⟨reads, rfl⟩ := ok_of_consult looked
    obtain ⟨m₂, stores, steps, assigns⟩ := element_forms whole contained named reads op.amount
    refine ⟨m₂, stores, steps, fun one m₀ operand => ?_⟩
    unfold assign
    rw [Strict.bind_of_done operand]
    simp only [whole, Bool.false_eq_true, if_false]
    rw [Strict.bind_of_done contained, Strict.bind_of_done named]
    exact assigns _ 1 (op.applyAssign_one _ n)
  | _ => cases place

/-- Where the place itself times out, so does an assignment to it. -/
theorem assign_timeout (place : target.isPlace) {one : Expr Unit} {m₀ : Machine} {v : Value}
    (operand : p.expression one m₀ = .done v m)
    (cut : expressionOver p fuel target m = .failed (.error .timeout) m₁) (op : AssignOperator) :
    assign p op target one m₀ = .failed (.error .timeout) m₁ := by
  unfold assign
  rw [Strict.bind_of_done operand]
  cases target with
  | identifier mark i =>
    change lookup i.name m = _ at cut
    unfold lookup at cut
    split at cut
    · cases cut
    · split at cut <;> cases cut
  | index mark container key =>
    have whole : isSlice key = false := by simpa [Expr.isPlace] using place
    change index p container key m = _ at cut
    rw [index_of_whole whole] at cut
    simp only [whole, Bool.false_eq_true, if_false]
    rcases cases_of_bind_failed cut with stopped | ⟨c, m', contained, rest⟩
    · exact Strict.bind_of_failed stopped
    · rw [Strict.bind_of_done contained]
      rcases cases_of_bind_failed rest with stopped | ⟨k, m'', _, looked⟩
      · exact Strict.bind_of_failed stopped
      · cases found : m''.heap.read c k with
        | ok w =>
          rw [Strict.consult_of_ok found] at looked
          cases looked
        | error e =>
          rw [Strict.consult_of_error found] at looked
          cases looked
          exact absurd found (m₁.heap.read_ne_timeout c k)
  | _ => cases place

end Parts

/-! ## One check less -/

namespace Cancellation

theorem isCancelled_tick {c : Cancellation} (cancelled : c.isCancelled) : c.tick.isCancelled := by
  obtain ⟨fired, checksLeft, linesLeft⟩ := c
  cases checksLeft with
  | none => exact cancelled
  | some k =>
    cases k with
    | zero => simp [isCancelled, tick]
    | succ k =>
      have here : fired = true := by simpa [isCancelled] using cancelled
      simp [isCancelled, tick, here]

theorem tick_printed (c : Cancellation) (lines : Nat) :
    (c.printed lines).tick = c.tick.printed lines := by
  obtain ⟨fired, checksLeft, linesLeft⟩ := c
  cases checksLeft <;> cases linesLeft <;> rfl

end Cancellation

/-- The machine after one more check. -/
def Machine.ticked (m : Machine) : Machine := { m with cancellation := m.cancellation.tick }

theorem Machine.ticked_eq {m : Machine} (endless : m.cancellation.checksLeft = none) :
    m.ticked = m := by
  obtain ⟨heap, scope, sink, ⟨fired, checksLeft, linesLeft⟩, clock⟩ := m
  cases endless
  rfl

namespace Coupling

/-- A run beside one that has made one more check from the start on. -/
def ahead : Coupling where
  discipline := Heap.grounding False
  Linked m n := n = m.ticked
  Past _ _ := True
  same := by
    rintro m _ rfl
    exact ⟨rfl, rfl⟩
  relink := by
    rintro m _ h f rfl
    rfl
  reframe _ _ := trivial
  grown _ _ := trivial
  stopped _ _ := trivial
  lost _ := trivial
  resumed _ _ := trivial

theorem connected_ahead : ahead.Connected := by
  apply connected_of
  · rintro m _ rfl
    exact ⟨rfl, rfl⟩
  · rintro m _ sink lines rfl
    simp only [ahead, Machine.ticked, Cancellation.tick_printed]
  · rintro m _ clock rfl
    rfl

theorem couples_check_ahead {h : Heap} {f : FrameId} :
    ahead.Couples h f Machine.check Machine.check fun _ _ => True := by
  refine ⟨(Discipline.Keeps.check False.elim).mono fun _ _ _ => trivial,
    fun m _ _ => check_prints m, ?_⟩
  rintro m _ - - rfl
  by_cases cancelled : m.ticked.cancellation.isCancelled
  · rw [check_cancelled cancelled]
    exact .past trivial
  · have earlier : ¬m.cancellation.isCancelled := fun already =>
      cancelled (Cancellation.isCancelled_tick already)
    rw [check_passed cancelled, check_passed earlier]
    exact .done () rfl

theorem fits_ahead : ahead.Fits .standard :=
  fits_standard connected_ahead fun _ => couples_check_ahead

theorem ends_ahead (fuel : Nat) (e : Expr Unit) (m : Machine) :
    ahead.Ends (expression fuel e m) (expression fuel e m.ticked) := by
  have ends := ((Piece.expression e).couples_unconditionally fuel fits_ahead rfl m.heap
    m.scope).ends m m.ticked rfl rfl rfl
  rwa [Primitives.evaluation_standard] at ends

end Coupling

/-! ## Whole evaluations -/

namespace Machine

variable {m m₁ : Machine} {fuel : Nat} {e target : Expr Unit} {n : Int64}

theorem expression_passed (uncancelled : ¬m.cancellation.isCancelled) :
    expression (fuel + 1) e m = expressionOver (parts fuel) fuel e m.ticked := by
  rw [expression, Attempt.deepen_eq, Strict.bind_of_done (check_passed uncancelled)]
  rfl

theorem expression_cancelled (cancelled : m.cancellation.isCancelled) :
    expression (fuel + 1) e m = .failed (.error .timeout) m := by
  rw [expression, Attempt.deepen_eq]
  exact Strict.bind_of_failed (check_cancelled cancelled)

theorem uncancelled_of_done {v : Value} (ended : expression (fuel + 1) e m = .done v m₁) :
    ¬m.cancellation.isCancelled := by
  intro cancelled
  rw [expression_cancelled cancelled] at ended
  cases ended

theorem before_run (op : PostfixOperator) (uncancelled : ¬m.cancellation.isCancelled) :
    expression (fuel + 1) (.unary () op.before target) m =
      step (parts fuel) target op.amount true m.ticked := by
  rw [expression_passed uncancelled]
  cases op <;> rfl

theorem after_run (op : PostfixOperator) (uncancelled : ¬m.cancellation.isCancelled) :
    expression (fuel + 1) (.step () op target) m =
      step (parts fuel) target op.amount false m.ticked := by
  rw [expression_passed uncancelled]
  cases op <;> rfl

/-- The assignment looks at the signal twice before it comes to the place. -/
theorem compound_run (fuel : Nat) (n : Int64) (op : PostfixOperator) (place : target.isPlace)
    (uncancelled : ¬m.cancellation.isCancelled) :
    (∀ m₁, expression (fuel + 2) target m.ticked = .done (.integer n) m₁ →
      ∃ m₂, StoresTo (parts (fuel + 1)) m.ticked.ticked (.integer (n + op.amount)) target m₂ ∧
        expression (fuel + 2) (.unary () op.before target) m.ticked =
          .done (.integer (n + op.amount)) m₂ ∧
        expression (fuel + 2) (.assign () op.compound target (.literal () (.integer 1))) m =
          .done (.integer (n + op.amount)) m₂) ∧
    ∀ m₁, expression (fuel + 2) target m.ticked = .failed (.error .timeout) m₁ →
      expression (fuel + 2) (.assign () op.compound target (.literal () (.integer 1))) m =
        .failed (.error .timeout) m₁ := by
  have assigned : expression (fuel + 2)
      (.assign () op.compound target (.literal () (.integer 1))) m =
        assign (parts (fuel + 1)) op.compound target (.literal () (.integer 1)) m.ticked :=
    expression_passed uncancelled
  rw [assigned]
  constructor
  · intro m₁ yields
    have later := uncancelled_of_done yields
    rw [expression_passed later] at yields
    obtain ⟨m₂, stores, steps, assigns⟩ := forms_agree place yields op
    refine ⟨m₂, stores, (before_run op later).trans (steps true), assigns _ _ ?_⟩
    exact expression_passed later
  · intro m₁ cut
    by_cases later : m.ticked.cancellation.isCancelled
    · rw [expression_cancelled later] at cut
      cases cut
      exact Strict.bind_of_failed (expression_cancelled later)
    · rw [expression_passed later] at cut
      exact assign_timeout place (expression_passed later) cut op.compound

/-- Steps agree with assignments, for every place whose value is a whole number. The operator before
the place gives the sum modulo 2^64, the operator behind it the old value, and both evaluate the
parts of the place once and store the sum. The assignment of the sum gives the same value and the
same machine but for the one check that its constant takes. It fails only where a deadline leaves no
such check, and then as the place itself does with one check less. -/
theorem steps_agree_with_assignment (place : target.isPlace)
    (yields : expression (fuel + 2) target m = .done (.integer n) m₁) (op : PostfixOperator) :
    let new := Value.integer (.ofInt (n.toInt + op.amount.toInt))
    let assignment := Expr.assign () op.compound target (.literal () (.integer 1))
    ∃ m₂, StoresTo (parts (fuel + 1)) m.ticked new target m₂ ∧
      expression (fuel + 2) (.unary () op.before target) m = .done new m₂ ∧
      expression (fuel + 2) (.step () op target) m = .done (.integer n) m₂ ∧
      (StoresTo (parts (fuel + 1)) m.ticked.ticked new target m₂.ticked ∧
          expression (fuel + 2) assignment m = .done new m₂.ticked ∨
        m.cancellation.checksLeft.isSome ∧ ∃ m₃,
          expression (fuel + 2) target m.ticked = .failed (.error .timeout) m₃ ∧
          expression (fuel + 2) assignment m = .failed (.error .timeout) m₃) := by
  have sum : Int64.ofInt (n.toInt + op.amount.toInt) = n + op.amount := by
    rw [Int64.ofInt_add, Int64.ofInt_toInt, Int64.ofInt_toInt]
  dsimp only
  rw [sum]
  have uncancelled := uncancelled_of_done yields
  have inner := yields
  rw [expression_passed uncancelled] at inner
  obtain ⟨m₂, stores, steps, _⟩ := forms_agree place inner op
  have stepped := (before_run op uncancelled).trans (steps true)
  refine ⟨m₂, stores, stepped, (after_run op uncancelled).trans (steps false), ?_⟩
  obtain ⟨completes, fails⟩ := compound_run fuel n op place uncancelled
  have ends := Coupling.ends_ahead (fuel + 2) target m
  rw [yields] at ends
  generalize later : expression (fuel + 2) target m.ticked = right at ends
  cases ends with
  | done _ linked =>
    obtain ⟨m₃, stored, also, assigned⟩ := completes _ later
    have same : m₃ = m₂.ticked := by
      have steps := Coupling.ends_ahead (fuel + 2) (.unary () op.before target) m
      rw [stepped, also] at steps
      cases steps with
      | done _ linked => exact linked
    rw [same] at stored assigned
    exact .inl ⟨stored, assigned⟩
  | past =>
    refine .inr ⟨?_, _, rfl, fails _ later⟩
    by_contra endless
    rw [ticked_eq (by simpa using endless), yields] at later
    cases later

/-- The largest number is stepped up, in an element under an index that changes a variable. -/
theorem steps_agree_with_assignment_wrapping :
    let program : Piece := .program ⟨[
      .letBinding () ⟨"a", ()⟩ (.array () [.literal () (.integer 9223372036854775807)]),
      .letBinding () ⟨"i", ()⟩ (.literal () (.integer (-1)))]⟩
    let target : Expr Unit := .index () (.identifier () ⟨"a", ()⟩)
      (.step () .increment (.identifier () ⟨"i", ()⟩))
    ∃ m m₁ m₂, (new fun _ => "").complete (program.evaluation 9) =
        some (.value (.integer (-1)), m) ∧
      expression 9 target m = .done (.integer 9223372036854775807) m₁ ∧
      expression 9 (.unary () .increment target) m =
        .done (.integer (-9223372036854775808)) m₂ ∧
      expression 9 (.step () .increment target) m = .done (.integer 9223372036854775807) m₂ ∧
      expression 9 (.assign () .addAssign target (.literal () (.integer 1))) m =
        .done (.integer (-9223372036854775808)) m₂.ticked := by
  intro program target
  have ran : ∃ m m₁, (new fun _ => "").complete (program.evaluation 9) =
        some (.value (.integer (-1)), m) ∧
      expression 9 target m = .done (.integer 9223372036854775807) m₁ ∧
      m.cancellation.checksLeft = none := ⟨_, _, rfl, rfl, rfl⟩
  obtain ⟨m, m₁, made, yields, endless⟩ := ran
  obtain ⟨m₂, _, before, after, ⟨_, assigned⟩ | ⟨ends, _⟩⟩ :=
    steps_agree_with_assignment rfl yields .increment
  · exact ⟨m, m₁, m₂, made, yields, before, after, assigned⟩
  · rw [endless] at ends
    cases ends

end Machine

end Scripting
