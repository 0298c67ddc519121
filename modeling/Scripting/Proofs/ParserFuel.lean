import Scripting.Proofs.ParsedSources

/-!
# Parsing comes to an end

Fuel only bounds how far a parser may go: with more of it a parser does the same, unless the first
amount was used up (`Outlasted`, one lemma for each construct). A little more than there are tokens
is never used up, so from there on the outcome of a source is one and the same. Every statement and
every error of that outcome has a token of its own.
-/

namespace Scripting

namespace Parser

variable {α β : Type}

/-- The second parser does what the first one does, unless that one runs out of fuel. -/
def Outlasted (x y : Parse α) : Prop := ∀ s, x s = .exhausted ∨ y s = x s

namespace Outlasted

variable {x x' y y' : Parse α} {f f' : α → Parse β}

theorem refl (x : Parse α) : Outlasted x x := fun _ => .inr rfl

theorem outOfFuel : Outlasted Attempt.outOfFuel y := fun _ => .inl rfl

theorem bind (first : Outlasted x x') (rest : ∀ a, Outlasted (f a) (f' a)) :
    Outlasted (x >>= f) (x' >>= f') := by
  intro s
  rw [Attempt.bind_run, Attempt.bind_run]
  rcases first s with none | same
  · rw [none]
    exact .inl rfl
  · rw [same]
    cases x s with
    | done a t => exact rest a t
    | failed e t => exact .inr rfl
    | exhausted => exact .inl rfl

/-- The first part is the same for both. -/
theorem after (rest : ∀ a, Outlasted (f a) (f' a)) : Outlasted (x >>= f) (x >>= f') :=
  bind (refl x) rest

theorem ite {c : Prop} [Decidable c] (yes : Outlasted x x') (no : Outlasted y y') :
    Outlasted (if c then x else y) (if c then x' else y') := by
  split
  · exact yes
  · exact no

theorem capture (outlasted : Outlasted x x') : Outlasted x.capture x'.capture := by
  intro s
  unfold Attempt.capture
  rcases outlasted s with none | same
  · rw [none]
    exact .inl rfl
  · rw [same]
    exact .inr rfl

/-- What is not used up is not changed by more fuel. -/
theorem eq_of_done {a : α} {s t : State} (outlasted : Outlasted x x') (run : x s = .done a t) :
    x' s = .done a t := by
  rcases outlasted s with none | same
  · rw [run] at none
    cases none
  · rw [same, run]

end Outlasted

/-- The second parts have as much fuel as the first ones, or more. -/
structure PartsOutlasted (p p' : Parts) : Prop where
  expression : ∀ level, Outlasted (p.expression level) (p'.expression level)
  block : Outlasted p.block p'.block

section Constructs

variable {p p' : Parts} {n n' : Nat} (parts : PartsOutlasted p p')

omit parts in
theorem outlasted_parametersRest (more : n ≤ n') (read : List (Identifier Span)) :
    Outlasted (parametersRest n read) (parametersRest n' read) := by
  induction n generalizing n' read with
  | zero => exact .outOfFuel
  | succ n ih =>
    obtain ⟨m, rfl⟩ := Nat.exists_eq_add_of_le' (Nat.le_trans (Nat.succ_pos n) more)
    rw [parametersRest, parametersRest]
    exact .after fun _ => .ite (.after fun _ => .after fun _ => ih (by omega) _) (.refl _)

omit parts in
theorem outlasted_parameters (more : n ≤ n') : Outlasted (parameters n) (parameters n') := by
  unfold parameters
  refine .after fun _ => .ite (.refl _) (.after fun _ => ?_)
  exact (outlasted_parametersRest more _).bind fun _ => .refl _

include parts

theorem outlasted_listRest (more : n ≤ n') (read : List (Expr Span)) :
    Outlasted (listRest p n read) (listRest p' n' read) := by
  induction n generalizing n' read with
  | zero => exact .outOfFuel
  | succ n ih =>
    obtain ⟨m, rfl⟩ := Nat.exists_eq_add_of_le' (Nat.le_trans (Nat.succ_pos n) more)
    rw [listRest, listRest]
    refine .after fun _ => .ite (.after fun _ => .after fun _ => ?_) (.refl _)
    exact (parts.expression _).bind fun _ => ih (by omega) _

theorem outlasted_listUntil (more : n ≤ n') (close : Sign) :
    Outlasted (listUntil p n close) (listUntil p' n' close) := by
  unfold listUntil
  refine .after fun _ => .ite (.refl _) (.after fun _ => (parts.expression _).bind fun _ => ?_)
  exact (outlasted_listRest parts more _).bind fun _ => .refl _

theorem outlasted_pairsRest (more : n ≤ n') (read : List (Expr Span × Expr Span)) :
    Outlasted (pairsRest p n read) (pairsRest p' n' read) := by
  induction n generalizing n' read with
  | zero => exact .outOfFuel
  | succ n ih =>
    obtain ⟨m, rfl⟩ := Nat.exists_eq_add_of_le' (Nat.le_trans (Nat.succ_pos n) more)
    rw [pairsRest, pairsRest]
    refine .after fun _ => (parts.expression _).bind fun _ => .after fun _ => .after fun _ => ?_
    refine (parts.expression _).bind fun _ => .after fun _ => .ite (.after fun _ => ?_) (.refl _)
    exact ih (by omega) _

theorem outlasted_pairs (more : n ≤ n') : Outlasted (pairs p n) (pairs p' n') := by
  unfold pairs
  exact .after fun _ => .ite (.refl _) (outlasted_pairsRest parts more _)

theorem outlasted_function (more : n ≤ n') : Outlasted (function p n) (function p' n') := by
  unfold function
  refine .after fun _ => .after fun _ => (outlasted_parameters more).bind fun _ => ?_
  exact .after fun _ => parts.block.bind fun _ => .refl _

theorem outlasted_condition : Outlasted (condition p) (condition p') := by
  unfold condition
  exact .after fun _ => (parts.expression _).bind fun _ => .refl _

theorem outlasted_conditional : Outlasted (conditional p) (conditional p') := by
  unfold conditional
  refine .after fun _ => (outlasted_condition parts).bind fun _ => .after fun _ => ?_
  refine parts.block.bind fun _ => .after fun _ => ?_
  refine .ite (.after fun _ => .after fun _ => ?_) (.refl _)
  exact parts.block.bind fun _ => .refl _

theorem outlasted_whileLoop : Outlasted (whileLoop p) (whileLoop p') := by
  unfold whileLoop
  refine .after fun _ => (outlasted_condition parts).bind fun _ => .after fun _ => ?_
  exact parts.block.bind fun _ => .refl _

theorem outlasted_binding : Outlasted (binding p) (binding p') := by
  unfold binding
  refine .after fun _ => .after fun _ => .after fun _ => ?_
  exact (parts.expression _).bind fun _ => .refl _

theorem outlasted_firstClause : Outlasted (firstClause p) (firstClause p') := by
  unfold firstClause
  refine .after fun _ => .ite (.refl _) (.after fun _ => .bind (.ite ?_ ?_) fun _ => .refl _)
  · exact (outlasted_binding parts).bind fun _ => .refl _
  · exact (parts.expression _).bind fun _ => .refl _

theorem outlasted_clause (close : Sign) : Outlasted (clause p close) (clause p' close) := by
  unfold clause
  refine .after fun _ => .after fun _ => .ite (.refl _) ?_
  exact (parts.expression _).bind fun _ => .refl _

theorem outlasted_forLoop : Outlasted (forLoop p) (forLoop p') := by
  unfold forLoop
  refine .after fun _ => .after fun _ => .ite (.after fun _ => parts.block.bind fun _ => .refl _) ?_
  refine .after fun _ => .after fun _ => (outlasted_firstClause parts).bind fun _ => ?_
  refine (outlasted_clause parts _).bind fun _ => (outlasted_clause parts _).bind fun _ => ?_
  exact .after fun _ => parts.block.bind fun _ => .refl _

theorem outlasted_grouping : Outlasted (grouping p) (grouping p') := by
  unfold grouping
  exact .after fun _ => (parts.expression _).bind fun _ => .refl _

theorem outlasted_prefixed : Outlasted (prefixed p) (prefixed p') := by
  unfold prefixed
  refine .after fun _ => ?_
  split
  · exact .after fun _ => (parts.expression _).bind fun _ => .refl _
  · exact .refl _

theorem outlasted_operand (more : n ≤ n') : Outlasted (operand p n) (operand p' n') := by
  unfold operand
  refine .after fun _ => ?_
  split
  any_goals exact .refl _
  · exact outlasted_grouping parts
  · exact (outlasted_listUntil parts more _).bind fun _ => .refl _
  · exact (outlasted_pairs parts more).bind fun _ => .refl _
  · exact outlasted_function parts more
  · exact outlasted_conditional parts
  · exact outlasted_whileLoop parts
  · exact outlasted_forLoop parts
  · exact .after fun _ => (parts.expression _).bind fun _ => .refl _
  · exact outlasted_prefixed parts

theorem outlasted_slice (low : Expr Span) : Outlasted (slice p low) (slice p' low) := by
  unfold slice
  refine .after fun _ => .ite (.refl _) (.after fun _ => ?_)
  exact (parts.expression _).bind fun _ => .refl _

theorem outlasted_methodCall (more : n ≤ n') : Outlasted (methodCall p n) (methodCall p' n') := by
  unfold methodCall
  refine .after fun _ => .after fun _ => .ite (.after fun _ => ?_) (.refl _)
  exact (outlasted_listUntil parts more _).bind fun _ => .refl _

theorem outlasted_key : Outlasted (key p) (key p') := by
  unfold key
  refine .after fun _ => .ite (.after fun _ => .after fun _ => outlasted_slice parts _) ?_
  exact .after fun _ => parts.expression _

theorem outlasted_continuation (more : n ≤ n') (c : Continuation) (left : Expr Span) :
    Outlasted (continuation p n c left) (continuation p' n' c left) := by
  unfold continuation
  cases c with
  | operate op => exact .after fun _ => (parts.expression _).bind fun _ => .refl _
  | step op => exact .refl _
  | assign op => exact .after fun _ => .after fun _ => (parts.expression _).bind fun _ => .refl _
  | call => exact (outlasted_listUntil parts more _).bind fun _ => .refl _
  | method => exact (outlasted_methodCall parts more).bind fun _ => .refl _
  | index => exact (outlasted_key parts).bind fun _ => .refl _
  | slice => exact outlasted_slice parts left

theorem outlasted_climb {size size' : Nat} (larger : size ≤ size') (more : n ≤ n')
    (level : Precedence) (left : Expr Span) :
    Outlasted (climb p size level n left) (climb p' size' level n' left) := by
  induction n generalizing n' left with
  | zero => exact .outOfFuel
  | succ n ih =>
    obtain ⟨m, rfl⟩ := Nat.exists_eq_add_of_le' (Nat.le_trans (Nat.succ_pos n) more)
    rw [climb, climb]
    refine .after fun _ => ?_
    split
    · refine .ite (.after fun _ => ?_) (.refl _)
      exact (outlasted_continuation parts larger _ left).bind fun _ => ih (by omega) _
    · exact .refl _

theorem outlasted_returned : Outlasted (returned p) (returned p') := by
  unfold returned
  refine .after fun _ => ?_
  split
  any_goals exact .refl _
  exact .after fun _ => (parts.expression _).bind fun _ => .refl _

theorem outlasted_statement : Outlasted (statement p) (statement p') := by
  unfold statement
  refine .after fun _ => ?_
  split
  · exact (outlasted_binding parts).bind fun _ => .refl _
  · exact .after fun _ => (parts.expression _).bind fun _ => .refl _
  · exact (outlasted_returned parts).bind fun _ => .refl _
  · exact (parts.expression _).bind fun _ => .refl _

theorem outlasted_statements (more : n ≤ n') (ends : Token → Bool) (read : List (Stmt Span)) :
    Outlasted (statements p ends n read) (statements p' ends n' read) := by
  induction n generalizing n' read with
  | zero => exact .outOfFuel
  | succ n ih =>
    obtain ⟨m, rfl⟩ := Nat.exists_eq_add_of_le' (Nat.le_trans (Nat.succ_pos n) more)
    rw [statements, statements]
    refine .after fun _ => .ite (.refl _) ?_
    refine (outlasted_statement parts).capture.bind fun result => ?_
    cases result with
    | ok a => exact .after fun _ => ih (by omega) _
    | error e => exact .after fun _ => .after fun _ => ih (by omega) _

theorem outlasted_braced (more : n ≤ n') : Outlasted (braced p n) (braced p' n') := by
  unfold braced
  refine .after fun _ => .after fun _ => (outlasted_statements parts more _ _).bind fun _ => ?_
  exact .refl _

end Constructs

theorem outlasted_parts {n n' : Nat} (more : n ≤ n') : PartsOutlasted (partsAt n) (partsAt n') := by
  induction n generalizing n' with
  | zero => exact ⟨fun _ => .outOfFuel, .outOfFuel⟩
  | succ n ih =>
    obtain ⟨m, rfl⟩ := Nat.exists_eq_add_of_le' (Nat.le_trans (Nat.succ_pos n) more)
    have less : n ≤ m := by omega
    have parts := ih less
    refine ⟨fun level => ?_, ?_⟩
    · show Outlasted (expression (n + 1) level) (expression (m + 1) level)
      rw [expression, expression, Attempt.deepen_eq, Attempt.deepen_eq]
      refine .after fun _ => .ite (.refl _) ((outlasted_operand parts less).bind fun _ => ?_)
      exact outlasted_climb parts less less level _
    · show Outlasted (block (n + 1)) (block (m + 1))
      rw [block, block, Attempt.deepen_eq, Attempt.deepen_eq]
      exact outlasted_braced parts less

theorem outlasted_program {n n' : Nat} (more : n ≤ n') : Outlasted (program n) (program n') :=
  outlasted_statements (outlasted_parts more) more _ _

end Parser

/-- Parsing a source comes to an end with its statements and errors, and no amount of fuel beyond
the number of its tokens changes that. There are at most as many statements and errors together as
there are tokens. -/
theorem parsing_ends_within_tokens (source : String) :
    ∃ t : Parser.State,
      (∀ extra : Nat, Parser.program ((tokensOf source).length + 2 + extra)
        ⟨tokensOf source, finishOf source, #[]⟩ = .done (parse source).1.stmts t) ∧
      (parse source).2 = t.errors.toList ∧
      (parse source).1.stmts.length + (parse source).2.length ≤ (tokensOf source).length := by
  obtain ⟨t, run, errors, row, _⟩ := parse_row source
  refine ⟨t, fun extra => ?_, errors, ?_⟩
  · exact (Parser.outlasted_program (Nat.le_add_right _ extra)).eq_of_done run
  · have load := row.load
    rw [errors, Array.length_toList]
    simp only [List.size_toArray, List.length_nil] at load
    omega

end Scripting
