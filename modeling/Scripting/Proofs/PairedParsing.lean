import Scripting.Proofs.FollowedParsing
import Scripting.Proofs.Reading

/-!
# Two readings side by side

The parser decides by the kinds of tokens alone. Two readings whose tokens are of the same kinds
therefore take the same way: they give trees that are equal up to places, or fail with the same
fault at tokens that stand in corresponding positions. What is to be known of the two readings
beyond that is left open. A `Bond` is any relation between places of reading that moving on, failing
and reporting an error keep, and one lemma for each construct shows that parsing keeps it.

A bond may as well tie a reading to itself. It is then an invariant of a single reading.
-/

namespace Scripting.Parser

/-- Where reading stands after an error was recorded. -/
def State.report (s : State) (e : SyntaxError) : State := { s with errors := s.errors.push e }

/-- How two readings belong together, as long as they go on and when they fail. A reading fails at
the current token or at the next one, or at the sign of an assignment that it has left behind. -/
structure Bond where
  Linked : State → State → Prop
  Failed : SyntaxError → State → SyntaxError → State → Prop
  current : ∀ {s s'}, Linked s s' → s'.current.token = s.current.token
  bump : ∀ {s s'}, Linked s s' → Linked s.bump s'.bump
  here : ∀ {s s'} fault, Linked s s' →
    Failed ⟨s.current.span.start, fault⟩ s ⟨s'.current.span.start, fault⟩ s'
  ahead : ∀ {s s'} fault, Linked s s' →
    Failed ⟨s.bump.current.span.start, fault⟩ s ⟨s'.bump.current.span.start, fault⟩ s'
  behind : ∀ {s s' t t'} literal, Linked s s' → Linked t t' →
    Failed ⟨s.current.span.start, .invalidAssignTarget literal⟩ t
      ⟨s'.current.span.start, .invalidAssignTarget literal⟩ t'
  report : ∀ {s s' e e'}, Failed e s e' s' → Linked (s.report e).bump (s'.report e').bump

variable {α β γ δ : Type}

/-- Both readings end in the same way, and they belong together there. -/
inductive Agree (B : Bond) (view : α → γ) :
    Outcome State SyntaxError α → Outcome State SyntaxError α → Prop where
  | done {a a' t t'} : view a' = view a → B.Linked t t' → Agree B view (.done a t) (.done a' t')
  | failed {e e' t t'} : B.Failed e t e' t' → Agree B view (.failed e t) (.failed e' t')
  | exhausted : Agree B view .exhausted .exhausted

/-- Both parsers take the same way from these places. -/
def Paired (B : Bond) (view : α → γ) (x x' : Parse α) (s s' : State) : Prop :=
  Agree B view (x s) (x' s')

namespace Paired

variable {B : Bond} {view : α → γ} {further : β → δ} {x x' y y' : Parse α} {f f' : α → Parse β}
  {s s' : State}

theorem pure {a a' : α} (same : view a' = view a) (linked : B.Linked s s') :
    Paired B view (Pure.pure a) (Pure.pure a') s s' := .done same linked

theorem outOfFuel : Paired B view (Attempt.outOfFuel : Parse α) .outOfFuel s s' := .exhausted

theorem failHere {fault : SyntaxFault} (linked : B.Linked s s') :
    Paired B view (failAt s.current fault : Parse α) (failAt s'.current fault) s s' :=
  .failed (B.here fault linked)

theorem failAhead {fault : SyntaxFault} (linked : B.Linked s s') :
    Paired B view (failAt s.bump.current fault : Parse α) (failAt s'.bump.current fault) s s' :=
  .failed (B.ahead fault linked)

theorem bind (first : Paired B view x x' s s')
    (rest : ∀ a a' t t', view a' = view a → B.Linked t t' →
      Paired B further (f a) (f' a') t t') :
    Paired B further (x >>= f) (x' >>= f') s s' := by
  unfold Paired at first ⊢
  rw [Attempt.bind_run, Attempt.bind_run]
  generalize x s = o, x' s' = o' at first
  cases first with
  | done same linked => exact rest _ _ _ _ same linked
  | failed fails => exact .failed fails
  | exhausted => exact .exhausted

/-- A failure of both is caught by both. -/
theorem capture {f f' : Except SyntaxError α → Parse β} (first : Paired B view x x' s s')
    (ok : ∀ a a' t t', view a' = view a → B.Linked t t' →
      Paired B further (f (.ok a)) (f' (.ok a')) t t')
    (error : ∀ e e' t t', B.Failed e t e' t' →
      Paired B further (f (.error e)) (f' (.error e')) t t') :
    Paired B further (x.capture >>= f) (x'.capture >>= f') s s' := by
  unfold Paired at first ⊢
  rw [Attempt.bind_run, Attempt.bind_run, Attempt.capture, Attempt.capture]
  generalize x s = o, x' s' = o' at first
  cases first with
  | done same linked => exact ok _ _ _ _ same linked
  | failed fails => exact error _ _ _ _ fails
  | exhausted => exact .exhausted

theorem current {f f' : SpannedToken → Parse β}
    (rest : Paired B further (f s.current) (f' s'.current) s s') :
    Paired B further (Parser.current >>= f) (Parser.current >>= f') s s' := rest

theorem peek {f f' : SpannedToken → Parse β}
    (rest : Paired B further (f s.bump.current) (f' s'.bump.current) s s') :
    Paired B further (Parser.peek >>= f) (Parser.peek >>= f') s s' := rest

theorem spanFrom {start start' : Span} {f f' : Span → Parse β}
    (rest : ∀ m m', Paired B further (f m) (f' m') s s') :
    Paired B further (Parser.spanFrom start >>= f) (Parser.spanFrom start' >>= f') s s' :=
  rest _ _

theorem bump {f f' : Unit → Parse β} (linked : B.Linked s s')
    (rest : B.Linked s.bump s'.bump → Paired B further (f ()) (f' ()) s.bump s'.bump) :
    Paired B further (Parser.bump >>= f) (Parser.bump >>= f') s s' := rest (B.bump linked)

theorem ite {c d : Prop} [Decidable c] [Decidable d] (same : d ↔ c)
    (yes : Paired B view x x' s s') (no : Paired B view y y' s s') :
    Paired B view (if c then x else y) (if d then x' else y') s s' := by
  by_cases holds : c
  · rw [if_pos holds, if_pos (same.mpr holds)]
    exact yes
  · rw [if_neg holds, if_neg (mt same.mp holds)]
    exact no

theorem peekIs {sign : Sign} (linked : B.Linked s s') (yes : Paired B view x x' s s')
    (no : Paired B view y y' s s') :
    Paired B view (Parser.peekIs sign >>= fun b => if b then x else y)
      (Parser.peekIs sign >>= fun b => if b then x' else y') s s' := by
  refine ite (c := decide (s.bump.current.token = .sign sign))
    (d := decide (s'.bump.current.token = .sign sign)) ?_ yes no
  rw [B.current (B.bump linked)]

theorem currentIs {sign : Sign} (linked : B.Linked s s') (yes : Paired B view x x' s s')
    (no : Paired B view y y' s s') :
    Paired B view (Parser.currentIs sign >>= fun b => if b then x else y)
      (Parser.currentIs sign >>= fun b => if b then x' else y') s s' := by
  refine ite (c := decide (s.current.token = .sign sign))
    (d := decide (s'.current.token = .sign sign)) ?_ yes no
  rw [B.current linked]

theorem expectPeek {sign : Sign} {f f' : Unit → Parse β} (linked : B.Linked s s')
    (rest : B.Linked s.bump s'.bump → Paired B further (f ()) (f' ()) s.bump s'.bump) :
    Paired B further (Parser.expectPeek sign >>= f) (Parser.expectPeek sign >>= f') s s' := by
  rw [expectPeek_bind, expectPeek_bind]
  refine peek ?_
  rw [B.current (B.bump linked)]
  exact ite Iff.rfl (bump linked rest) (failAhead linked)

theorem expectCurrent {sign : Sign} {f f' : Unit → Parse β} (linked : B.Linked s s')
    (rest : Paired B further (f ()) (f' ()) s s') :
    Paired B further (Parser.expectCurrent sign >>= f) (Parser.expectCurrent sign >>= f') s s' := by
  rw [expectCurrent_bind, expectCurrent_bind]
  refine current ?_
  rw [B.current linked]
  exact ite Iff.rfl rest (failHere linked)

theorem nameAfter {f f' : Identifier Span → Parse β} (linked : B.Linked s s')
    (rest : ∀ i i', (i'.map fun _ => ()) = (i.map fun _ => ()) → B.Linked s.bump s'.bump →
      Paired B further (f i) (f' i') s.bump s'.bump) :
    Paired B further (Parser.nameAfter >>= f) (Parser.nameAfter >>= f') s s' := by
  rw [nameAfter_bind, nameAfter_bind]
  refine peek ?_
  rw [B.current (B.bump linked)]
  split
  · exact bump linked (rest _ _ rfl)
  · exact failAhead linked

end Paired

/-- The parts take the same way from all places that are linked. -/
structure PartsPaired (B : Bond) (p p' : Parts) : Prop where
  expression : ∀ level s s', B.Linked s s' →
    Paired B Expr.erase (p.expression level) (p'.expression level) s s'
  block : ∀ s s', B.Linked s s' → Paired B (Block.map fun _ => ()) p.block p'.block s s'

theorem tokenLiteral_erase (e : Expr Span) : e.erase.tokenLiteral = e.tokenLiteral := by
  cases e with
  | conditional m c y no => cases no <;> rfl
  | _ => rfl

section Constructs

variable {B : Bond} {p p' : Parts} {s s' : State} (parts : PartsPaired B p p')
  (linked : B.Linked s s')

include linked

omit parts in
theorem paired_parametersRest (n : Nat) {read read' : List (Identifier Span)}
    (same : read'.map (Identifier.map fun _ => ()) = read.map (Identifier.map fun _ => ())) :
    Paired B (List.map (Identifier.map fun _ => ())) (parametersRest n read)
      (parametersRest n read') s s' := by
  induction n generalizing read read' s s' with
  | zero => exact .outOfFuel
  | succ n ih =>
    rw [parametersRest, parametersRest]
    refine .peekIs linked (.bump linked fun linked => .nameAfter linked fun i i' name linked => ?_)
      (.pure ?_ linked)
    · exact ih linked (by simp [name, same])
    · rw [List.map_reverse, List.map_reverse, same]

omit parts in
theorem paired_parameters (n : Nat) :
    Paired B (List.map (Identifier.map fun _ => ())) (parameters n) (parameters n) s s' := by
  unfold parameters
  refine .peekIs linked (.bump linked (.pure rfl)) (.nameAfter linked fun i i' name linked => ?_)
  refine (paired_parametersRest linked n (by simp [name])).bind fun is is' _ _ same linked => ?_
  exact .expectPeek linked (.pure same)

include parts

theorem paired_listRest (n : Nat) {read read' : List (Expr Span)}
    (same : read'.map Expr.erase = read.map Expr.erase) :
    Paired B (List.map Expr.erase) (listRest p n read) (listRest p' n read') s s' := by
  induction n generalizing read read' s s' with
  | zero => exact .outOfFuel
  | succ n ih =>
    rw [listRest, listRest]
    refine .peekIs linked (.bump linked fun linked => .bump linked fun linked => ?_)
      (.pure ?_ linked)
    · refine (parts.expression _ _ _ linked).bind fun e e' _ _ erased linked => ?_
      exact ih linked (by simp [erased, same])
    · rw [List.map_reverse, List.map_reverse, same]

theorem paired_listUntil (n : Nat) (close : Sign) :
    Paired B (List.map Expr.erase) (listUntil p n close) (listUntil p' n close) s s' := by
  unfold listUntil
  refine .peekIs linked (.bump linked (.pure rfl)) (.bump linked fun linked => ?_)
  refine (parts.expression _ _ _ linked).bind fun e e' _ _ erased linked => ?_
  refine (paired_listRest parts linked n (by simp [erased])).bind fun es es' _ _ same linked => ?_
  exact .expectPeek linked (.pure same)

theorem paired_pairsRest (n : Nat) {read read' : List (Expr Span × Expr Span)}
    (same : Expr.mapPairs (fun _ => ()) read' = Expr.mapPairs (fun _ => ()) read) :
    Paired B (Expr.mapPairs fun _ => ()) (pairsRest p n read) (pairsRest p' n read') s s' := by
  induction n generalizing read read' s s' with
  | zero => exact .outOfFuel
  | succ n ih =>
    rw [pairsRest, pairsRest]
    refine .bump linked fun linked => (parts.expression _ _ _ linked).bind ?_
    refine fun k k' _ _ key linked => .expectPeek linked fun linked => .bump linked fun linked => ?_
    refine (parts.expression _ _ _ linked).bind fun v v' _ _ value linked => ?_
    have longer : Expr.mapPairs (fun _ => ()) ((k', v') :: read') =
        Expr.mapPairs (fun _ => ()) ((k, v) :: read) := by
      simp only [Expr.mapPairs, Expr.erase] at key value ⊢
      rw [key, value, same]
    refine .peekIs linked (.bump linked fun linked => ih linked longer)
      (.expectPeek linked (.pure ?_))
    rw [Expr.mapPairs_eq] at longer ⊢
    rw [Expr.mapPairs_eq, List.map_reverse, List.map_reverse, longer, Expr.mapPairs_eq]

theorem paired_pairs (n : Nat) :
    Paired B (Expr.mapPairs fun _ => ()) (pairs p n) (pairs p' n) s s' := by
  unfold pairs
  exact .peekIs linked (.bump linked (.pure rfl)) (paired_pairsRest parts linked n rfl)

theorem paired_function (n : Nat) :
    Paired B Expr.erase (function p n) (function p' n) s s' := by
  unfold function
  refine .current (.expectPeek linked fun linked => ?_)
  refine (paired_parameters linked n).bind fun is is' _ _ names linked => ?_
  refine .expectPeek linked fun linked => (parts.block _ _ linked).bind ?_
  refine fun b b' _ _ body linked => .spanFrom fun _ _ => .pure ?_ linked
  simp only [Expr.erase, Expr.map, names, body]

theorem paired_condition : Paired B Expr.erase (condition p) (condition p') s s' := by
  unfold condition
  refine .expectPeek linked fun linked => (parts.expression _ _ _ linked).bind ?_
  exact fun c c' _ _ erased linked => .expectCurrent linked (.pure erased linked)

theorem paired_conditional : Paired B Expr.erase (conditional p) (conditional p') s s' := by
  unfold conditional
  refine .current ((paired_condition parts linked).bind fun c c' _ _ condition linked => ?_)
  refine .expectPeek linked fun linked => (parts.block _ _ linked).bind ?_
  refine fun b b' _ _ yes linked => .peek ?_
  rw [B.current (B.bump linked)]
  refine .ite Iff.rfl (.bump linked fun linked => .expectPeek linked fun linked => ?_) ?_
  · refine (parts.block _ _ linked).bind fun d d' _ _ no linked => ?_
    exact .spanFrom fun _ _ => .pure (by simp only [Expr.erase, Expr.map] at *; simp [*]) linked
  · exact .spanFrom fun _ _ => .pure (by simp only [Expr.erase, Expr.map] at *; simp [*]) linked

theorem paired_whileLoop : Paired B Expr.erase (whileLoop p) (whileLoop p') s s' := by
  unfold whileLoop
  refine .current ((paired_condition parts linked).bind fun c c' _ _ condition linked => ?_)
  refine .expectPeek linked fun linked => (parts.block _ _ linked).bind ?_
  refine fun b b' _ _ body linked => .spanFrom fun _ _ => .pure ?_ linked
  simp only [Expr.erase, Expr.map] at condition ⊢
  rw [condition, body]

theorem paired_binding : Paired B eraseBinding (binding p) (binding p') s s' := by
  unfold binding
  refine .nameAfter linked fun i i' name linked => .expectPeek linked fun linked => ?_
  refine .bump linked fun linked => (parts.expression _ _ _ linked).bind ?_
  refine fun v v' _ _ value linked => .pure ?_ linked
  simp only [eraseBinding, name, value]

theorem paired_letStatement (start start' : Span) :
    Paired B Stmt.erase
      (do let (name, value) ← binding p
          return .letBinding (← spanFrom start) name value)
      (do let (name, value) ← binding p'
          return .letBinding (← spanFrom start') name value) s s' := by
  refine (paired_binding parts linked).bind fun b b' _ _ erased linked => ?_
  refine .spanFrom fun _ _ => .pure ?_ linked
  simp only [eraseBinding, Prod.mk.injEq, Expr.erase] at erased
  simp only [Stmt.erase, Stmt.map, erased]

theorem paired_expressionStatement (start start' : Span) :
    Paired B Stmt.erase
      (do let e ← p.expression .lowest
          return .expression (← spanFrom start) e)
      (do let e ← p'.expression .lowest
          return .expression (← spanFrom start') e) s s' := by
  refine (parts.expression _ _ _ linked).bind fun e e' _ _ erased linked => ?_
  refine .spanFrom fun _ _ => .pure ?_ linked
  exact congrArg (Stmt.expression ()) erased

theorem paired_firstClause :
    Paired B (Stmt.mapOption fun _ => ()) (firstClause p) (firstClause p') s s' := by
  unfold firstClause
  refine .currentIs linked (.pure rfl linked) (.current ?_)
  rw [B.current linked]
  refine (Paired.ite Iff.rfl (paired_letStatement parts linked _ _)
    (paired_expressionStatement parts linked _ _)).bind fun a a' _ _ erased linked => ?_
  exact .expectPeek linked (.pure (congrArg some erased))

theorem paired_clause (close : Sign) :
    Paired B (Expr.mapOption fun _ => ()) (clause p close) (clause p' close) s s' := by
  unfold clause
  refine .bump linked fun linked => .currentIs linked (.pure rfl linked) ?_
  refine (parts.expression _ _ _ linked).bind fun e e' _ _ erased linked => ?_
  exact .expectPeek linked (.pure (congrArg some erased))

theorem paired_forLoop : Paired B Expr.erase (forLoop p) (forLoop p') s s' := by
  unfold forLoop
  refine .current (.peekIs linked (.bump linked fun linked => ?_) ?_)
  · refine (parts.block _ _ linked).bind fun b b' _ _ body linked => ?_
    refine .spanFrom fun _ _ => .pure ?_ linked
    simp only [Expr.erase, Expr.map, body]
  · refine .expectPeek linked fun linked => .bump linked fun linked => ?_
    refine (paired_firstClause parts linked).bind fun i i' _ _ first linked => ?_
    refine (paired_clause parts linked _).bind fun c c' _ _ condition linked => ?_
    refine (paired_clause parts linked _).bind fun u u' _ _ update linked => ?_
    refine .expectPeek linked fun linked => (parts.block _ _ linked).bind ?_
    refine fun b b' _ _ body linked => .spanFrom fun _ _ => .pure ?_ linked
    simp only [Expr.erase, Expr.map, first, condition, update, body]

theorem paired_grouping : Paired B Expr.erase (grouping p) (grouping p') s s' := by
  unfold grouping
  refine .bump linked fun linked => (parts.expression _ _ _ linked).bind ?_
  exact fun e e' _ _ erased linked => .expectPeek linked (.pure erased)

theorem paired_prefixed : Paired B Expr.erase (prefixed p) (prefixed p') s s' := by
  unfold prefixed
  refine .current ?_
  rw [B.current linked]
  split
  · refine .bump linked fun linked => (parts.expression _ _ _ linked).bind ?_
    refine fun e e' _ _ erased linked => .spanFrom fun _ _ => .pure ?_ linked
    exact congrArg (Expr.unary () _) erased
  · exact .failHere linked

theorem paired_operand (n : Nat) : Paired B Expr.erase (operand p n) (operand p' n) s s' := by
  unfold operand
  refine .current ?_
  rw [B.current linked]
  split
  · exact .pure (by simp only [Expr.erase, Expr.map]; rfl) linked
  · split
    · exact .pure rfl linked
    · exact .failHere linked
  · split
    · exact .pure rfl linked
    · exact .failHere linked
  any_goals exact .pure rfl linked
  · exact paired_grouping parts linked
  · refine (paired_listUntil parts linked n _).bind fun es es' _ _ erased linked => ?_
    refine .spanFrom fun _ _ => .pure ?_ linked
    simp only [Expr.erase, Expr.map, Expr.mapList_eq]
    exact congrArg (Expr.array ()) erased
  · refine (paired_pairs parts linked n).bind fun ps ps' _ _ erased linked => ?_
    exact .spanFrom fun _ _ => .pure (congrArg (Expr.hash ()) erased) linked
  · exact paired_function parts linked n
  · exact paired_conditional parts linked
  · exact paired_whileLoop parts linked
  · exact paired_forLoop parts linked
  · refine .bump linked fun linked => (parts.expression _ _ _ linked).bind ?_
    refine fun e e' _ _ erased linked => .spanFrom fun _ _ => .pure ?_ linked
    exact congrArg (Expr.typeof ()) erased
  · exact paired_prefixed parts linked

theorem paired_slice {low low' : Expr Span} (same : low'.erase = low.erase) :
    Paired B Expr.erase (slice p low) (slice p' low') s s' := by
  unfold slice
  refine .peekIs linked (.spanFrom fun _ _ => .pure ?_ linked) (.bump linked fun linked => ?_)
  · exact congrArg (Expr.slice () · none) same
  · refine (parts.expression _ _ _ linked).bind fun e e' _ _ high linked => ?_
    refine .spanFrom fun _ _ => .pure ?_ linked
    simp only [Expr.erase, Expr.map, Expr.mapOption] at same high ⊢
    rw [same, high]

theorem paired_methodCall (n : Nat) :
    Paired B Expr.erase (methodCall p n) (methodCall p' n) s s' := by
  unfold methodCall
  refine .nameAfter linked fun i i' name linked => ?_
  refine .peekIs linked (.bump linked fun linked => ?_) (.pure ?_ linked)
  · refine (paired_listUntil parts linked n _).bind fun es es' _ _ erased linked => ?_
    refine .spanFrom fun _ _ => .pure ?_ linked
    simp only [Expr.erase, Expr.map, Expr.mapList_eq, name]
    exact congrArg (Expr.call () _) erased
  · exact congrArg (Expr.identifier ()) name

theorem paired_key : Paired B Expr.erase (key p) (key p') s s' := by
  unfold key
  refine .peekIs linked (.current (.bump linked fun linked => ?_)) (.bump linked fun linked => ?_)
  · exact paired_slice parts linked rfl
  · exact parts.expression _ _ _ linked

theorem paired_assign (n : Nat) (op : AssignOperator) {left left' : Expr Span}
    (same : left'.erase = left.erase) :
    Paired B Expr.erase (continuation p n (.assign op) left) (continuation p' n (.assign op) left')
      s s' := by
  have target : left'.isAssignable = left.isAssignable := by
    rw [← isAssignable_erase left', same, isAssignable_erase]
  have literal : left'.tokenLiteral = left.tokenLiteral := by
    rw [← tokenLiteral_erase left', same, tokenLiteral_erase]
  unfold continuation
  -- An improper target is reported at the sign, once the value has been read.
  refine .current (.bump linked fun further => ?_)
  refine (parts.expression _ _ _ further).bind fun e e' _ _ value after => ?_
  rw [target, literal]
  refine .ite Iff.rfl (.spanFrom fun _ _ => .pure ?_ after) (.failed (B.behind _ linked after))
  simp only [Expr.erase, Expr.map] at same value ⊢
  rw [same, value]

theorem paired_continuation (n : Nat) (c : Continuation) {left left' : Expr Span}
    (same : left'.erase = left.erase) :
    Paired B Expr.erase (continuation p n c left) (continuation p' n c left') s s' := by
  cases c with
  | operate op =>
    unfold continuation
    refine .bump linked fun linked => (parts.expression _ _ _ linked).bind ?_
    refine fun e e' _ _ right linked => .spanFrom fun _ _ => .pure ?_ linked
    simp only [Expr.erase, Expr.map] at same right ⊢
    rw [same, right]
  | step op => exact .spanFrom fun _ _ => .pure (congrArg (Expr.step () op) same) linked
  | assign op => exact paired_assign parts linked n op same
  | call =>
    unfold continuation
    refine (paired_listUntil parts linked n _).bind fun es es' _ _ erased linked => ?_
    refine .spanFrom fun _ _ => .pure ?_ linked
    simp only [Expr.erase, Expr.map, Expr.mapList_eq] at same ⊢
    rw [same]
    exact congrArg (Expr.call () _) erased
  | method =>
    unfold continuation
    refine (paired_methodCall parts linked n).bind fun e e' _ _ called linked => ?_
    refine .spanFrom fun _ _ => .pure ?_ linked
    simp only [Expr.erase, Expr.map] at same called ⊢
    rw [same, called]
  | index =>
    unfold continuation
    refine (paired_key parts linked).bind fun k k' _ _ erased linked => ?_
    refine .expectPeek linked fun linked => .spanFrom fun _ _ => .pure ?_ linked
    simp only [Expr.erase, Expr.map] at same erased ⊢
    rw [same, erased]
  | slice => exact paired_slice parts linked same

theorem paired_climb (size : Nat) (level : Precedence) (n : Nat) {left left' : Expr Span}
    (same : left'.erase = left.erase) :
    Paired B Expr.erase (climb p size level n left) (climb p' size level n left') s s' := by
  induction n generalizing left left' s s' with
  | zero => exact .outOfFuel
  | succ n ih =>
    rw [climb, climb]
    refine .peek ?_
    rw [B.current (B.bump linked)]
    split
    · refine .ite Iff.rfl (.bump linked fun linked => ?_) (.pure same linked)
      refine (paired_continuation parts linked size _ same).bind fun e e' _ _ grown linked => ?_
      exact ih linked grown
    · exact .pure same linked

theorem paired_returned :
    Paired B (Expr.mapOption fun _ => ()) (returned p) (returned p') s s' := by
  unfold returned
  refine .peek ?_
  rw [B.current (B.bump linked)]
  split
  · exact .bump linked (.pure rfl)
  · exact .pure rfl linked
  · exact .pure rfl linked
  · refine .bump linked fun linked => (parts.expression _ _ _ linked).bind ?_
    exact fun e e' _ _ erased linked => .pure (congrArg some erased) linked

theorem paired_statement : Paired B Stmt.erase (statement p) (statement p') s s' := by
  unfold statement
  refine .current ?_
  rw [B.current linked]
  split
  · exact paired_letStatement parts linked _ _
  · refine .bump linked fun linked => (parts.expression _ _ _ linked).bind ?_
    refine fun e e' _ _ erased linked => .spanFrom fun _ _ => .pure ?_ linked
    exact congrArg (Stmt.deletion ()) erased
  · refine (paired_returned parts linked).bind fun e e' _ _ erased linked => ?_
    exact .spanFrom fun _ _ => .pure (congrArg (Stmt.returning ()) erased) linked
  · exact paired_expressionStatement parts linked _ _

/-- A statement that fails is reported by both readings, and both go on behind the token at which
they stand. -/
theorem paired_statements (ends : Token → Bool) (n : Nat) {read read' : List (Stmt Span)}
    (same : read'.map Stmt.erase = read.map Stmt.erase) :
    Paired B (List.map Stmt.erase) (statements p ends n read) (statements p' ends n read') s s' := by
  induction n generalizing read read' s s' with
  | zero => exact .outOfFuel
  | succ n ih =>
    rw [statements, statements]
    refine .current ?_
    rw [B.current linked]
    refine .ite Iff.rfl (.pure ?_ linked) ((paired_statement parts linked).capture ?_ ?_)
    · rw [List.map_reverse, List.map_reverse, same]
    · intro a a' t t' erased linked
      exact .bump linked fun linked => ih linked (by simp [erased, same])
    · intro e e' t t' fails
      exact ih (B.report fails) same

theorem paired_braced (n : Nat) :
    Paired B (Block.map fun _ => ()) (braced p n) (braced p' n) s s' := by
  unfold braced
  refine .current (.bump linked fun linked => ?_)
  refine (paired_statements parts linked _ n rfl).bind fun ss ss' _ _ erased linked => ?_
  refine .expectCurrent linked (.spanFrom fun _ _ => .pure ?_ linked)
  simp only [Block.map, Stmt.mapList_eq]
  exact congrArg (Block.mk ()) erased

end Constructs

theorem paired_parts (B : Bond) (n : Nat) : PartsPaired B (partsAt n) (partsAt n) := by
  induction n with
  | zero => exact ⟨fun _ _ _ _ => .outOfFuel, fun _ _ _ => .outOfFuel⟩
  | succ n parts =>
    refine ⟨fun level s s' linked => ?_, fun s s' linked => ?_⟩
    · show Paired B Expr.erase (expression (n + 1) level) (expression (n + 1) level) s s'
      rw [expression, Attempt.deepen_eq]
      refine .current ?_
      rw [B.current linked]
      refine .ite Iff.rfl (.pure rfl linked) ?_
      refine (paired_operand parts linked n).bind fun e e' _ _ same linked => ?_
      exact paired_climb parts linked n level n same
    · show Paired B (Block.map fun _ => ()) (block (n + 1)) (block (n + 1)) s s'
      rw [block, Attempt.deepen_eq]
      exact paired_braced parts linked n

theorem paired_program (B : Bond) (n : Nat) {s s' : State} (linked : B.Linked s s') :
    Paired B (List.map Stmt.erase) (program n) (program n) s s' :=
  paired_statements (paired_parts B n) linked _ n rfl

end Scripting.Parser
