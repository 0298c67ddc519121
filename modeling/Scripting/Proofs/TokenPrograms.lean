import Scripting.Proofs.PairedParsing
import Scripting.Proofs.ParsedSources
import Scripting.Proofs.Replays

/-!
# Programs depend on their tokens only

Sources that consist of the same tokens are read as programs that are equal up to places, with the
same faults. What they do when they are run is then the same as well. It is even the same under
clocks that show different things, if the clock is not read.
-/

namespace Scripting

open Evaluation

/-- The sources consist of the same tokens, whatever stands between them. -/
def SameTokens (a b : String) : Prop :=
  (tokensOf a).map (·.token) = (tokensOf b).map (·.token)

instance (a b : String) : Decidable (SameTokens a b) := inferInstanceAs (Decidable (_ = _))

/-! ### Reading -/

namespace Parser

/-- The readings have the same tokens before them, and have found the same faults. -/
structure Alike (s s' : State) : Prop where
  tokens : s'.tokens.map (·.token) = s.tokens.map (·.token)
  faults : s'.errors.toList.map (·.fault) = s.errors.toList.map (·.fault)

theorem Alike.current {s s' : State} (alike : Alike s s') :
    s'.current.token = s.current.token := by
  have same := alike.tokens
  unfold State.current
  cases here : s.tokens with
  | nil =>
    have none : s'.tokens = [] := by simpa [here] using same
    rw [none]
    rfl
  | cons t ts =>
    obtain ⟨t', ts', there, token, _⟩ := List.map_eq_cons_iff.mp (same.trans (by rw [here]; rfl))
    rw [there]
    exact token

theorem Alike.bump {s s' : State} (alike : Alike s s') : Alike s.bump s'.bump where
  tokens := by
    show s'.tokens.tail.map _ = s.tokens.tail.map _
    rw [List.map_tail, List.map_tail, alike.tokens]
  faults := alike.faults

theorem Alike.report {s s' : State} (alike : Alike s s') {e e' : SyntaxError}
    (same : e'.fault = e.fault) : Alike (s.report e) (s'.report e') where
  tokens := alike.tokens
  faults := by
    show (s'.errors.push e').toList.map _ = (s.errors.push e).toList.map _
    rw [Array.toList_push, Array.toList_push, List.map_append, List.map_append, alike.faults]
    simp [same]

/-- Readings of the same tokens, with faults that are the same. -/
def tokenBond : Bond where
  Linked := Alike
  Failed e s e' s' := e'.fault = e.fault ∧ Alike s s'
  current := Alike.current
  bump := Alike.bump
  here _ alike := ⟨rfl, alike⟩
  ahead _ alike := ⟨rfl, alike⟩
  behind _ _ alike := ⟨rfl, alike⟩
  report := fun ⟨same, alike⟩ => (alike.report same).bump

end Parser

/-- The same tokens are read as the same program, with the same faults. -/
theorem parse_of_sameTokens {a b : String} (same : SameTokens a b) :
    (parse a).1.erase = (parse b).1.erase ∧
      (parse a).2.map (·.fault) = (parse b).2.map (·.fault) := by
  obtain ⟨s, ran, errors, _⟩ := parse_row a
  obtain ⟨t, ran', errors', _⟩ := parse_row b
  have start : Parser.Alike ⟨tokensOf a, finishOf a, #[]⟩ ⟨tokensOf b, finishOf b, #[]⟩ :=
    ⟨same.symm, rfl⟩
  have length : (tokensOf b).length = (tokensOf a).length := by
    simpa using (congrArg List.length same).symm
  have paired := Parser.paired_program Parser.tokenBond ((tokensOf a).length + 2) start
  unfold Parser.Paired at paired
  rw [length] at ran'
  rw [ran, ran'] at paired
  cases paired with
  | done erased alike =>
    constructor
    · simp only [Program.erase, Program.map, Stmt.mapList_eq]
      exact congrArg Program.mk erased.symm
    · rw [errors, errors']
      exact alike.faults.symm

theorem parseProgram_of_sameTokens {a b : String} (same : SameTokens a b) :
    (parseProgram a).mapError (List.map (·.fault)) =
      (parseProgram b).mapError (List.map (·.fault)) := by
  obtain ⟨programs, faults⟩ := parse_of_sameTokens same
  unfold parseProgram
  generalize parse a = x, parse b = y at programs faults
  obtain ⟨p, es⟩ := x
  obtain ⟨q, fs⟩ := y
  dsimp only at programs faults
  cases es with
  | nil =>
    obtain rfl : fs = [] := List.map_eq_nil_iff.mp faults.symm
    exact congrArg Except.ok programs
  | cons e es =>
    cases fs with
    | nil => cases faults
    | cons f fs => exact congrArg Except.error faults

/-! ### Running -/

namespace Machine

/-- What ends under a clock ends in the same way under one that shows the same as often as it is
read. -/
theorem evalProgram_retimed {m m' : Machine} {p : Program Unit} {v : Value}
    (ended : m.evalProgram p = some (v, m')) {readings : Nat → String}
    (same : ∀ i < m'.clock.taken, readings i = m.clock.readings i) :
    (m.retimed readings).evalProgram p = some (v, m'.retimed readings) := by
  obtain ⟨⟨c, _⟩, completed, ⟨⟩⟩ := Option.map_eq_some_iff.mp ended
  let R : Replay := ⟨m.clock.readings, readings, fun t => raise (.notAnLvalue t.render)⟩
  have spared (ts : List (Expr Unit)) : R.SparesAll ts := fun _ _ => .inr rfl
  have parts : R.PartsRepeat (parts fuel) (parts fuel) := partsOr_raise fuel ▸ R.repeats_parts fuel
  have ends := Replay.repeats_statements parts .null (spared (Stmt.targetsList p.stmts)) m
    ⟨rfl, fun _ _ => spared _⟩
  unfold evalProgram evalStatements complete
  obtain ⟨v, rfl, ran⟩ | ⟨stop, rfl, ran⟩ := complete_cases completed
  · rw [ran] at ends
    cases ends with
    | done _ _ repeated =>
      rw [repeated same]
      rfl
  · rw [ran] at ends
    cases ends with
    | failed _ _ repeated =>
      rw [repeated same]
      rfl

end Machine

/-- What is to be seen of a run: the faults of a source that has errors, or the result and all that
was printed, if the run ends. -/
def shown (run : Except (List SyntaxError) (Option (Value × Machine))) :
    Except (List SyntaxFault) (Option (String × String)) :=
  (run.mapError (List.map (·.fault))).map (Option.map fun (v, m) => (m.heap.render v, m.sink.text))

/-- No run of the source that ends has read the clock. -/
def IgnoresClock (source : String) (cancellation : Cancellation) : Prop :=
  ∀ clock v m, runProgram source cancellation clock = .ok (some (v, m)) → m.clock.taken = 0

/-- A run that ends without reading the clock ends in the same way whatever the clock shows. -/
theorem runProgram_of_unread {source : String} {cancellation : Cancellation}
    {clock other : Nat → String} {v : Value} {m : Machine}
    (ended : runProgram source cancellation clock = .ok (some (v, m))) (unread : m.clock.taken = 0) :
    runProgram source cancellation other = .ok (some (v, m.retimed other)) := by
  unfold runProgram at ended ⊢
  cases parsed : parseProgram source with
  | error errors =>
    rw [parsed] at ended
    cases ended
  | ok program =>
    rw [parsed] at ended
    have same : ∀ i < m.clock.taken, other i = clock i := by simp [unread]
    exact congrArg Except.ok (Machine.evalProgram_retimed (Except.ok.inj ended) same)

theorem shown_of_ignoresClock {source : String} {cancellation : Cancellation}
    (ignores : IgnoresClock source cancellation) (clock other : Nat → String) :
    shown (runProgram source cancellation clock) = shown (runProgram source cancellation other) := by
  cases parsed : parseProgram source with
  | error errors =>
    rw [runProgram, runProgram, parsed]
    rfl
  | ok program =>
    have ran (clock : Nat → String) : runProgram source cancellation clock =
        .ok ({ Machine.new clock with cancellation }.evalProgram program) := by
      rw [runProgram, parsed]
      rfl
    -- If one of the runs ends, so does the other. It may also be that neither of them does.
    cases first : { Machine.new clock with cancellation }.evalProgram program with
    | some result =>
      have ended := (ran clock).trans (congrArg Except.ok first)
      rw [ended, runProgram_of_unread ended (ignores _ _ _ ended)]
      rfl
    | none =>
      cases second : { Machine.new other with cancellation }.evalProgram program with
      | none => rw [ran, ran, first, second]
      | some result =>
        have ended := (ran other).trans (congrArg Except.ok second)
        rw [ended, runProgram_of_unread ended (ignores _ _ _ ended)]
        rfl

/-- Sources of the same tokens are programs that are equal up to places, with the same faults. They
run in the same way, and show the same under any clocks if they do not read them. -/
theorem programs_depend_on_tokens {a b : String} (same : SameTokens a b) :
    (parse a).1.erase = (parse b).1.erase ∧
    (parse a).2.map (·.fault) = (parse b).2.map (·.fault) ∧
    (parseProgram a).mapError (List.map (·.fault)) =
      (parseProgram b).mapError (List.map (·.fault)) ∧
    ∀ cancellation,
      (∀ clock, (runProgram a cancellation clock).mapError (List.map (·.fault)) =
        (runProgram b cancellation clock).mapError (List.map (·.fault))) ∧
      (IgnoresClock a cancellation → ∀ clock other,
        shown (runProgram a cancellation clock) = shown (runProgram b cancellation other)) := by
  have runs (cancellation : Cancellation) (clock : Nat → String) :
      (runProgram a cancellation clock).mapError (List.map (·.fault)) =
        (runProgram b cancellation clock).mapError (List.map (·.fault)) := by
    have after (source : String) : (runProgram source cancellation clock).mapError
        (List.map (·.fault)) = ((parseProgram source).mapError (List.map (·.fault))).map
          { Machine.new clock with cancellation }.evalProgram := by
      unfold runProgram
      cases parseProgram source <;> rfl
    rw [after, after, parseProgram_of_sameTokens same]
  obtain ⟨programs, faults⟩ := parse_of_sameTokens same
  refine ⟨programs, faults, parseProgram_of_sameTokens same, fun cancellation => ?_⟩
  refine ⟨runs cancellation, fun ignores clock other => ?_⟩
  rw [shown_of_ignoresClock ignores clock other, shown, runs cancellation other, shown]

/-- The second source has a comment, a line break and hardly any spaces. -/
theorem programs_depend_on_tokens_across_lines :
    let a := "let x = 2 print(x * 21)"
    let b := "let x=2 // two\nprint ( x*21 )"
    SameTokens a b ∧ IgnoresClock a .never ∧
      shown (runProgram a .never fun _ => "today") = .ok (some ("null", "42\n")) ∧
      shown (runProgram b .never fun _ => "tomorrow") = .ok (some ("null", "42\n")) := by
  intro a b
  have same : SameTokens a b := by decide +kernel
  have parsed : parseProgram a = .ok ⟨[.letBinding () ⟨"x", ()⟩ (.literal () (.integer 2)),
      .expression () (.call () (.identifier () ⟨"print", ()⟩)
        [.binary () .multiply (.identifier () ⟨"x", ()⟩) (.literal () (.integer 21))])]⟩ := by cbv
  have ignores : IgnoresClock a .never := by
    intro clock v m ended
    rw [runProgram, parsed] at ended
    cases ended
    rfl
  have first : shown (runProgram a .never fun _ => "today") = .ok (some ("null", "42\n")) := by
    rw [runProgram, parsed]
    rfl
  exact ⟨same, ignores, first,
    (((programs_depend_on_tokens same).2.2.2 _).2 ignores _ _).symm.trans first⟩

end Scripting
