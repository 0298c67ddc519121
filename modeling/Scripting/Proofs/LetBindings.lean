import Scripting.Proofs.CoupledEvaluation
import Scripting.Proofs.VeiledEvaluation

/-!
# New bindings

A `let` looks at its frame before it evaluates the value, and binds the name afterwards. In between,
a name that is not bound in the frame stays so unless the value itself has a `let` for it that goes
to the same frame. So a value that has none never makes a `let` overwrite a binding; one that has
does.
-/

namespace Scripting

namespace ScopeTree

variable {t : ScopeTree} {f : FrameId}

theorem getCurrent_define (there : f < t.frames.size) (name : String) (v : Value) :
    (t.define f name v).getCurrent f name = some v := by
  rw [getCurrent_eq_bind, define, bindings_modify, if_pos rfl, Array.getElem?_eq_getElem there]
  show Bindings.find? _ name = some v
  rw [Bindings.find?_put, if_pos rfl]

end ScopeTree

namespace Machine

open Evaluation

variable {m m' : Machine} {name : String}

/-- The frame binds only other names. -/
def lacking (f : FrameId) (name : String) : Veil := ⟨(· = f), (· ≠ name)⟩

theorem twins_lacking (grounded : m.Grounded)
    (unbound : m.heap.scopes.getCurrent m.scope name = none) {e : Expr Unit}
    (other : name ∉ e.binds) :
    (lacking m.scope name).Twins ⟨(· ∈ e.binds), fun _ => True⟩ m m where
  heap := by
    refine .refl grounded.heap ?_
    rintro f rfl
    refine ⟨grounded.scope, fun n bound => ?_⟩
    rintro rfl
    rw [unbound] at bound
    cases bound
  sink := rfl
  cancellation := rfl
  clock := rfl
  stands := by
    refine .refl grounded.heap.aged grounded.scope fun _ n inside => ?_
    rintro rfl
    exact other inside

/-- After an expression the machine is back in its frame. -/
theorem Grounded.expression (grounded : m.Grounded) {e : Expr Unit} {fuel : Nat} {v : Value}
    (ended : Evaluation.expression fuel e m = .done v m') : m'.Grounded ∧ m'.scope = m.scope := by
  have completed : m.complete ((Piece.expression e).evaluation fuel) = some (.value v, m') := by
    show m.complete (Evaluation.expression fuel e) = _
    rw [complete, ended]
  exact ⟨grounded.piece completed, (restored_of_piece completed).1⟩

/-- While an expression is evaluated that has no new binding for a name, the current frame does not
get one. -/
theorem unbound_after (grounded : m.Grounded)
    (unbound : m.heap.scopes.getCurrent m.scope name = none) {e : Expr Unit}
    (other : name ∉ e.binds) {fuel : Nat} {v : Value} (ended : expression fuel e m = .done v m') :
    m'.heap.scopes.getCurrent m.scope name = none := by
  -- The two runs are the same one; what counts is that the frame still lacks the name after it.
  have tracks := (Veil.tracks_parts (lacking m.scope name) fuel).expression e
    (u := ⟨(· ∈ e.binds), fun _ => True⟩) ⟨fun _ => id, fun _ _ => trivial⟩
  have same : (lacking m.scope name).Ends m m (expression fuel e m) (expression fuel e m) :=
    tracks m m (twins_lacking grounded unbound other)
  rw [ended] at same
  cases same with
  | done a after after' paired =>
    by_contra bound
    exact (paired.heap.thin m.scope rfl).2 name (Option.isSome_iff_ne_none.mpr bound) rfl

section Let

variable {p : Parts} {mark : Unit} {i : Identifier Unit} {e : Expr Unit}

theorem letBinding_run : statementOver p (.letBinding mark i e) m =
    match m.heap.scopes.getCurrent m.scope i.name with
    | some _ => .failed (.error (.redefined i.name)) m
    | none => (do let v ← p.expression e; define i.name v; return v : Eval Value) m := by
  show (match m.heap.scopes.getCurrent m.scope i.name with
    | some _ => raise (.redefined i.name)
    | none => do let v ← p.expression e; define i.name v; return v : Eval Value) m = _
  cases m.heap.scopes.getCurrent m.scope i.name <;> rfl

/-- A `let` that has a value has found its name unbound, and has bound it after it evaluated the
value. -/
theorem let_done {v : Value} (ended : statementOver p (.letBinding mark i e) m = .done v m') :
    m.heap.scopes.getCurrent m.scope i.name = none ∧ ∃ m₂ : Machine,
      p.expression e m = .done v m₂ ∧
      m' = { m₂ with heap := { m₂.heap with
        scopes := m₂.heap.scopes.define m₂.scope i.name v } } := by
  cases before : m.heap.scopes.getCurrent m.scope i.name with
  | some old =>
    rw [letBinding_run, before] at ended
    cases ended
  | none =>
    rw [letBinding_run, before] at ended
    dsimp only at ended
    rw [Attempt.bind_run] at ended
    cases value : p.expression e m with
    | done w m₂ =>
      rw [value] at ended
      cases ended
      exact ⟨rfl, m₂, rfl, rfl⟩
    | failed stop m₂ =>
      rw [value] at ended
      cases ended
    | exhausted =>
      rw [value] at ended
      cases ended

end Let

/-- A `let` of a name that its frame binds is refused before its value is evaluated, and nothing
changes. A `let` that has a value has bound its name to it right after the evaluation, and at that
moment the name was not bound in the frame unless the value itself binds it there. -/
theorem let_binds_names_anew (m m' : Machine) (grounded : m.Grounded) (mark : Unit)
    (i : Identifier Unit) (e : Expr Unit) (fuel : Nat) (c : Completion)
    (ended : m.complete (statement (fuel + 1) (.letBinding mark i e)) = some (c, m')) :
    (∀ old, m.heap.scopes.getCurrent m.scope i.name = some old →
      (c = .failed (.redefined i.name) ∨ m.cancellation.isCancelled ∧ c = .failed .timeout) ∧
        m'.heap = m.heap) ∧
    ∀ v, c = .value v → ∃ m₁ m₂ : Machine,
      check m = .done () m₁ ∧ expression fuel e m₁ = .done v m₂ ∧
      m' = { m₂ with heap := { m₂.heap with
        scopes := m₂.heap.scopes.define m.scope i.name v } } ∧
      m'.heap.scopes.getCurrent m.scope i.name = some v ∧
      (i.name ∉ e.binds → m₂.heap.scopes.getCurrent m.scope i.name = none) := by
  rw [complete, statement, Attempt.deepen_eq, Attempt.bind_run] at ended
  by_cases cancelled : m.cancellation.isCancelled
  · rw [check_cancelled cancelled] at ended
    cases ended
    exact ⟨fun _ _ => ⟨.inr ⟨cancelled, rfl⟩, rfl⟩, fun _ other => by cases other⟩
  -- The check changes the signal only, so what follows is about the same frames.
  have checked := check_passed cancelled
  generalize entry : { m with cancellation := m.cancellation.tick } = m₁ at checked
  have heap : m₁.heap = m.heap := by rw [← entry]
  have scope : m₁.scope = m.scope := by rw [← entry]
  rw [checked] at ended
  refine ⟨fun old bound => ?_, ?_⟩
  · rw [← heap, ← scope] at bound
    dsimp only at ended
    rw [letBinding_run, bound] at ended
    cases ended
    exact ⟨.inl rfl, heap⟩
  · rintro v rfl
    rcases complete_cases (p := statementOver _ _) ended with ⟨_, ⟨⟩, done⟩ | ⟨stop, other, -⟩
    · obtain ⟨unbound, m₂, value, rfl⟩ := let_done done
      have grounded₁ : m₁.Grounded := by
        rw [← entry]
        exact ⟨grounded.heap, grounded.scope⟩
      obtain ⟨grounded₂, back⟩ := grounded₁.expression value
      rw [← scope, ← back]
      refine ⟨m₁, m₂, checked, value, rfl, ScopeTree.getCurrent_define grounded₂.scope _ _, ?_⟩
      intro other
      rw [back]
      exact unbound_after grounded₁ unbound other value
    · cases stop <;> cases other

/-- The value has a `let` of its own in the same frame, but for another name. -/
theorem let_binds_names_anew_beside_another :
    let e : Expr Unit := .conditional () (.literal () (.boolean true))
      (.mk () [.letBinding () ⟨"b", ()⟩ (.literal () .null),
        .expression () (.identifier () ⟨"b", ()⟩)]) none
    let m := new fun _ => ""
    m.Grounded ∧ "a" ∉ e.binds ∧ ∃ m' m₂ : Machine,
      m.complete (statement 7 (.letBinding () ⟨"a", ()⟩ e)) = some (.value .null, m') ∧
      expression 6 e m = .done .null m₂ ∧
      m₂.heap.scopes.getCurrent m.scope "a" = none ∧
      m'.heap.scopes.getCurrent m.scope "a" = some .null := by
  intro e m
  have ended : ∃ m', m.complete (statement 7 (.letBinding () ⟨"a", ()⟩ e)) =
      some (.value .null, m') := ⟨_, rfl⟩
  obtain ⟨m', ended⟩ := ended
  have other : "a" ∉ e.binds := by decide
  obtain ⟨m₁, m₂, checked, value, -, bound, unbound⟩ :=
    (let_binds_names_anew m m' (grounded_new _) () ⟨"a", ()⟩ e 6 _ ended).2 .null rfl
  cases checked
  exact ⟨grounded_new _, other, m', m₂, ended, value, unbound other, bound⟩

/-- A `let` whose value binds the name in the same frame overwrites that binding. -/
theorem let_overwrites_a_binding_of_its_value :
    let e : Expr Unit := .conditional () (.literal () (.boolean true))
      (.mk () [.letBinding () ⟨"a", ()⟩ (.literal () (.integer 1)),
        .expression () (.literal () (.integer 2))]) none
    let m := new fun _ => ""
    ∃ m₁ m₂ m' : Machine, check m = .done () m₁ ∧
      expression 6 e m₁ = .done (.integer 2) m₂ ∧
      m₂.heap.scopes.getCurrent m.scope "a" = some (.integer 1) ∧
      m.complete (statement 7 (.letBinding () ⟨"a", ()⟩ e)) = some (.value (.integer 2), m') ∧
      m'.heap.scopes.getCurrent m.scope "a" = some (.integer 2) :=
  ⟨_, _, _, rfl, rfl, rfl, rfl, rfl⟩

end Machine

end Scripting
