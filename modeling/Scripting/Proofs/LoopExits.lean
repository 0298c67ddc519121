import Scripting.Proofs.CoupledEvaluation
import Scripting.Proofs.Jumps

/-!
# How breaks end a loop

`BreaksOff` says where a break was raised that ended a loop: in its body, or in its header, that is
in a first statement, a condition or an update. A break in the body always gives null, in whichever
round it comes. If there is no break and no continue in the header, neither of them ever leaves the
loop. A jump in the header does leave it, or ends it with the value of the last round.
-/

namespace Scripting

/-- The body of a loop ended so that the loop goes on from this machine. -/
def Outcome.GoesOn (o : Outcome Machine Stop Value) (m : Machine) : Prop :=
  (∃ v, o = .done v m) ∨ o = .failed .continued m

/-- The jump stands in what a loop has beside its body, outside the bodies of functions and other
loops. Other expressions have no header to look at. -/
def Expr.headerJumps {α : Type} (j : Jump) : Expr α → Bool
  | .whileLoop _ c _ => c.jumps j
  | .forLoop _ first c u _ =>
    Stmt.jumpsOption j first || Expr.jumpsOption j c || Expr.jumpsOption j u
  | _ => true

theorem Expr.jumps_of_header {α : Type} {j : Jump} {loop : Expr α} (inLoops : j ≠ .returned)
    (absent : loop.headerJumps j = false) : loop.jumps j = false := by
  cases loop with
  | whileLoop m c b => simpa [jumps, headerJumps, inLoops] using absent
  | forLoop m first c u b => simpa [jumps, headerJumps, inLoops] using absent
  | _ => cases absent

namespace Evaluation

open Machine

/-- The two places in a loop where a break may be raised. -/
inductive BreakSite where
  | header | body

section Breaks

variable (p : Parts)

/-- A loop with a condition, from the beginning of a round on: a break ends it and leaves the second
machine. -/
inductive WhileBreaks (c : Expr Unit) (b : Block Unit) : BreakSite → Machine → Machine → Prop where
  | header {m m' : Machine} : p.expression c m = .failed .broke m' → WhileBreaks c b .header m m'
  | body {m m₁ m' : Machine} {v : Value} : p.expression c m = .done v m₁ → v.isTruthy →
      block p b m₁ = .failed .broke m' → WhileBreaks c b .body m m'
  | later {m m₁ m₂ m' : Machine} {v : Value} {site : BreakSite} :
      p.expression c m = .done v m₁ → v.isTruthy → (block p b m₁).GoesOn m₂ →
      WhileBreaks c b site m₂ m' → WhileBreaks c b site m m'

/-- A loop with three clauses, from the beginning of a round on: a break ends it and leaves the
second machine. -/
inductive ForBreaks (c u : Option (Expr Unit)) (b : Block Unit) :
    BreakSite → Machine → Machine → Prop where
  | body {m m' : Machine} : block p b m.entered = .failed .broke m' →
      ForBreaks c u b .body m { m' with scope := m.scope }
  | header {m m₁ m' : Machine} : (block p b m.entered).GoesOn m₁ →
      loopAdvance p c u m₁ = .failed .broke m' →
      ForBreaks c u b .header m { m' with scope := m.scope }
  | later {m m₁ m₂ m' : Machine} {site : BreakSite} : (block p b m.entered).GoesOn m₁ →
      loopAdvance p c u m₁ = .done true m₂ →
      ForBreaks c u b site { m₂ with scope := m.scope } m' → ForBreaks c u b site m m'

/-- The first statement of a loop, if there is one, has a value. -/
def Begins : Option (Stmt Unit) → Machine → Machine → Prop
  | some s, m, m' => ∃ v, p.statement s m = .done v m'
  | none, m, m' => m' = m

/-- A loop, from its beginning in its own frame on: a break that was raised there ends it and leaves
the second machine. -/
def BreaksOff (site : BreakSite) : Expr Unit → Machine → Machine → Prop
  | .whileLoop _ c b, m, m' => WhileBreaks p c b site m m'
  | .forLoop _ first c u b, m, m' => ∃ m₁, Begins p first m m₁ ∧
      (site = .header ∧ loopCondition p c m₁ = .failed .broke m' ∨
        ∃ m₂, loopCondition p c m₁ = .done true m₂ ∧ ForBreaks p c u b site m₂ m')
  | _, _, _ => False

end Breaks

variable {p : Parts} {site : BreakSite} {m m' : Machine}

/-- Where a break is out of the question. -/
theorem Avoids.not_broke {α : Type} {q : Eval α} (avoids : Avoids .broke q)
    (broke : q m = .failed .broke m') : False :=
  avoids m .broke m' broke rfl

/-- What a loop with a condition does after a round that goes on. -/
theorem whileRounds_goesOn {c : Expr Unit} {b : Block Unit} {m₁ m₂ : Machine} {v : Value}
    (condition : p.expression c m = .done v m₁) (holds : v.isTruthy)
    (goesOn : (block p b m₁).GoesOn m₂) (fuel : Nat) (result : Value) :
    ∃ w, whileRounds p c b (fuel + 1) result m = whileRounds p c b fuel w m₂ := by
  rw [whileRounds, Attempt.bind_run, condition]
  dsimp only
  rw [if_pos holds, Attempt.bind_run, Attempt.capture]
  rcases goesOn with ⟨w, ended⟩ | ended
  · rw [ended]
    exact ⟨w, rfl⟩
  · rw [ended]
    exact ⟨.null, rfl⟩

theorem whileRounds_of_breaks {c : Expr Unit} {b : Block Unit}
    (breaks : WhileBreaks p c b site m m') (inBody : site = .body ∨ Avoids .broke (p.expression c))
    (fuel : Nat) (result : Value) :
    whileRounds p c b fuel result m = .exhausted ∨
      whileRounds p c b fuel result m = .done .null m' := by
  -- The break comes in this round or in a later one, for which there is less fuel.
  induction breaks generalizing fuel result with
  | header broke =>
    rcases inBody with other | avoids
    · cases other
    · exact (avoids.not_broke broke).elim
  | body condition holds broke =>
    cases fuel with
    | zero => exact .inl rfl
    | succ fuel =>
      right
      rw [whileRounds, Attempt.bind_run, condition]
      dsimp only
      rw [if_pos holds, Attempt.bind_run, Attempt.capture, broke]
      rfl
  | later condition holds goesOn _ ih =>
    cases fuel with
    | zero => exact .inl rfl
    | succ fuel =>
      obtain ⟨w, same⟩ := whileRounds_goesOn condition holds goesOn fuel result
      rw [same]
      exact ih inBody fuel w

/-- What a round of a loop with three clauses does after a body that goes on. -/
theorem forRound_goesOn {c u : Option (Expr Unit)} {b : Block Unit} {m₁ : Machine}
    (goesOn : (block p b m).GoesOn m₁) :
    ∃ w, forRound p c u b m = endRound p c u w m₁ := by
  rw [forRound, Attempt.bind_run, Attempt.capture]
  rcases goesOn with ⟨w, ended⟩ | ended
  · rw [ended]
    exact ⟨w, rfl⟩
  · rw [ended]
    exact ⟨.null, rfl⟩

theorem forRounds_succ (c u : Option (Expr Unit)) (b : Block Unit) (fuel : Nat) (result : Value) :
    forRounds p c u b (fuel + 1) result true = (do
      let next ← inChild (forRound p c u b)
      forRounds p c u b fuel next.1 next.2) := rfl

theorem forRounds_of_breaks {c u : Option (Expr Unit)} {b : Block Unit}
    (breaks : ForBreaks p c u b site m m')
    (inBody : site = .body ∨ Avoids .broke (loopAdvance p c u)) (fuel : Nat) (result : Value) :
    forRounds p c u b fuel result true m = .exhausted ∨
      forRounds p c u b fuel result true m = .done .null m' := by
  induction breaks generalizing fuel result with
  | body broke =>
    cases fuel with
    | zero => exact .inl rfl
    | succ fuel =>
      rw [forRounds_succ, Attempt.bind_run, inChild_run, forRound, Attempt.bind_run,
        Attempt.capture, broke]
      -- The round is the last one, and asks for one more unit of fuel.
      cases fuel with
      | zero => exact .inl rfl
      | succ fuel => exact .inr rfl
  | header _ broke =>
    rcases inBody with other | avoids
    · cases other
    · exact (avoids.not_broke broke).elim
  | later goesOn advanced _ ih =>
    cases fuel with
    | zero => exact .inl rfl
    | succ fuel =>
      obtain ⟨w, same⟩ := forRound_goesOn (c := c) (u := u) goesOn
      rw [forRounds_succ, Attempt.bind_run, inChild_run, same, endRound, Attempt.bind_run,
        Attempt.capture, advanced]
      exact ih inBody fuel w

/-- What a loop with three clauses does after its first statement. -/
theorem forLoop_begins {first : Option (Stmt Unit)} {c u : Option (Expr Unit)} {b : Block Unit}
    {m₁ : Machine} (begins : Begins p first m m₁) (fuel : Nat) :
    forLoop p fuel first c u b m = (do
      let again ← loopCondition p c
      forRounds p c u b fuel .null again : Eval Value) m₁ := by
  cases first with
  | none =>
    cases begins
    rfl
  | some s =>
    obtain ⟨v, ended⟩ := begins
    show (p.statement s >>= fun _ => loopCondition p c >>= fun again =>
      forRounds p c u b fuel .null again) m = _
    rw [Attempt.bind_run, ended]

/-- A break that is raised in the body of a loop gives null, and so does one in a header that cannot
raise any. -/
theorem loop_of_breaksOff {loop : Expr Unit} (parts : PartsAvoid .broke p)
    (breaks : BreaksOff p site loop m.entered m')
    (inBody : site = .body ∨ loop.headerJumps .broke = false) (fuel : Nat) :
    expressionOver p fuel loop m = .exhausted ∨
      expressionOver p fuel loop m = .done .null { m' with scope := m.scope } := by
  cases loop with
  | whileLoop mark c b =>
    have condition : site = .body ∨ Avoids .broke (p.expression c) :=
      inBody.imp_right fun absent => parts.expression c absent
    rw [expressionOver, inChild_run]
    rcases whileRounds_of_breaks breaks condition fuel .null with ended | ended
    · rw [ended]
      exact .inl rfl
    · rw [ended]
      exact .inr rfl
  | forLoop mark first c u b =>
    have absent : site = .body ∨
        Expr.jumpsOption .broke c = false ∧ Expr.jumpsOption .broke u = false := by
      refine inBody.imp_right fun absent => ?_
      simp only [Expr.headerJumps, Bool.or_eq_false_iff] at absent
      exact ⟨absent.1.2, absent.2⟩
    obtain ⟨m₁, begins, ⟨rfl, broke⟩ | ⟨m₂, holds, breaks⟩⟩ := breaks
    · rcases absent with other | ⟨condition, -⟩
      · cases other
      · exact ((avoids_loopCondition parts condition).not_broke broke).elim
    · have advance : site = .body ∨ Avoids .broke (loopAdvance p c u) :=
        absent.imp_right fun absent => avoids_loopAdvance parts absent.1 absent.2
      rw [expressionOver, inChild_run, forLoop_begins begins, Attempt.bind_run, holds]
      dsimp only
      rcases forRounds_of_breaks breaks advance fuel .null with ended | ended
      · rw [ended]
        exact .inl rfl
      · rw [ended]
        exact .inr rfl
  | _ => exact breaks.elim

end Evaluation

namespace Machine

open Evaluation

/-- No break and no continue leaves a loop that has none in its header. A break that was raised in
the body of a loop, in any round, gives null; and so does every break if there is none in the
header. -/
theorem loop_takes_its_jumps (loop : Expr Unit) (fuel : Nat) (m m' : Machine) (c : Completion)
    (ended : m.complete (expression (fuel + 1) loop) = some (c, m')) :
    (∀ j, j = .broke ∨ j = .continued → loop.headerJumps j = false → c.jump? ≠ some j) ∧
    ∀ (site : BreakSite) (m₁ n : Machine), check m = .done () m₁ →
      BreaksOff (parts fuel) site loop m₁.entered n →
      site = .body ∨ loop.headerJumps .broke = false →
        c = .value .null ∧ m' = { n with scope := m.scope } := by
  refine ⟨fun j inLoops absent => ?_, fun site m₁ n checked breaks inBody => ?_⟩
  · have inside : loop.jumps j = false := by
      refine Expr.jumps_of_header ?_ absent
      rcases inLoops with rfl | rfl <;> nofun
    exact jump?_ne_of_avoids ((avoids_parts j (fuel + 1)).expression loop inside) ended
  · have same : m₁.scope = m.scope := by
      unfold check at checked
      dsimp only at checked
      split at checked
      · cases checked
      · cases checked
        rfl
    have whole : expression (fuel + 1) loop m = expressionOver (parts fuel) fuel loop m₁ := by
      rw [expression, Attempt.deepen_eq, Attempt.bind_run, checked]
      rfl
    rw [complete, whole] at ended
    rcases loop_of_breaksOff (avoids_parts .broke fuel) breaks inBody fuel with out | done
    · rw [out] at ended
      cases ended
    · rw [done, same] at ended
      cases ended
      exact ⟨rfl, rfl⟩

/-- A loop that goes on after its first round and breaks in the second one. -/
theorem loop_takes_its_jumps_second_round :
    let i : Expr Unit := .identifier () ⟨"i", ()⟩
    let loop : Expr Unit := .forLoop ()
      (some (.letBinding () ⟨"i", ()⟩ (.literal () (.boolean false)))) none
      (some (.assign () .assign i (.literal () (.boolean true))))
      (.mk () [.expression () (.conditional () i (.mk () [.expression () (.breakLoop ())]) none)])
    let m := new fun _ => ""
    (∀ j, j = .broke ∨ j = .continued → loop.headerJumps j = false) ∧
      ∃ m' n, BreaksOff (parts 6) .body loop m.entered n ∧
        m.complete (expression 7 loop) = some (.value .null, m') ∧
        m' = { n with scope := m.scope } := by
  intro i loop m
  have absent : ∀ j, j = .broke ∨ j = .continued → loop.headerJumps j = false := by
    rintro j (rfl | rfl) <;> rfl
  have breaks : ∃ n, BreaksOff (parts 6) .body loop m.entered n :=
    ⟨_, _, ⟨_, rfl⟩, .inr ⟨_, rfl, .later (.inl ⟨_, rfl⟩) rfl (.body rfl)⟩⟩
  have ended : ∃ c m', m.complete (expression 7 loop) = some (c, m') := ⟨_, _, rfl⟩
  obtain ⟨n, breaks⟩ := breaks
  obtain ⟨c, m', ended⟩ := ended
  obtain ⟨rfl, machine⟩ := (loop_takes_its_jumps loop 6 m m' c ended).2 .body m n rfl breaks
    (.inl rfl)
  exact ⟨absent, m', n, breaks, ended, machine⟩

/-- A break in the condition of a loop leaves it, a break in the update ends it with the value of
the round, and a continue in the update leaves it. -/
theorem jumps_in_headers_escape :
    let m := new fun _ => ""
    let brk : Expr Unit := .breakLoop ()
    let five : Block Unit := .mk () [.expression () (.literal () (.integer 5))]
    (m.complete (expression 9 (.whileLoop () brk five))).map (·.1.jump?) = some (some .broke) ∧
    (m.complete (expression 9 (.forLoop () none (some brk) none five))).map (·.1.jump?) =
      some (some .broke) ∧
    (m.complete (expression 9 (.forLoop () none none (some (.continueLoop ())) five))).map
      (·.1.jump?) = some (some .continued) ∧
    ∃ m' n, BreaksOff (parts 8) .header (.forLoop () none none (some brk) five) m.entered n ∧
      m.complete (expression 9 (.forLoop () none none (some brk) five)) =
        some (.value (.integer 5), m') := by
  intro m brk five
  have breaks : ∃ n, BreaksOff (parts 8) .header (.forLoop () none none (some brk) five)
      m.entered n := ⟨_, _, rfl, .inr ⟨_, rfl, .header (.inl ⟨_, rfl⟩) rfl⟩⟩
  obtain ⟨n, breaks⟩ := breaks
  exact ⟨rfl, rfl, rfl, _, n, breaks, rfl⟩

end Machine

end Scripting
