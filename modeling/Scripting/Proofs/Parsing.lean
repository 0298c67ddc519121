import Scripting.Expr.Parser

/-!
# Parsers on given tokens

What the small parsers do on a list of tokens that is known at the front, and how an operand grows
by what follows it: `climb_step` takes one continuation, `climb_stop` ends where the next token
binds no tighter than the place allows.
-/

namespace Scripting.Parser

variable {α β : Type} {t u : SpannedToken} {ts : List SpannedToken} {finish : Position}
  {errors : Array SyntaxError}

theorem bind_done {p : Parse α} {f : α → Parse β} {s s' : State} {a : α} (run : p s = .done a s') :
    (p >>= f) s = f a s' := by
  rw [Attempt.bind_run, run]

@[simp] theorem current_run :
    current ⟨t :: ts, finish, errors⟩ = .done t ⟨t :: ts, finish, errors⟩ := rfl

@[simp] theorem peek_run :
    peek ⟨t :: u :: ts, finish, errors⟩ = .done u ⟨t :: u :: ts, finish, errors⟩ := rfl

@[simp] theorem bump_run : bump ⟨t :: ts, finish, errors⟩ = .done () ⟨ts, finish, errors⟩ := rfl

@[simp] theorem peekIs_run (s : Sign) : peekIs s ⟨t :: u :: ts, finish, errors⟩ =
    .done (decide (u.token = .sign s)) ⟨t :: u :: ts, finish, errors⟩ := rfl

@[simp] theorem spanFrom_run (start : Span) : spanFrom start ⟨t :: ts, finish, errors⟩ =
    .done (start.extend t.span) ⟨t :: ts, finish, errors⟩ := rfl

theorem expectPeek_run {s : Sign} (next : u.token = .sign s) :
    expectPeek s ⟨t :: u :: ts, finish, errors⟩ = .done () ⟨u :: ts, finish, errors⟩ := by
  unfold expectPeek
  rw [bind_done peek_run, if_pos next]
  rfl

/-- The parsers that an expression uses for what it contains. -/
def partsAt (fuel : Nat) : Parts := ⟨expression fuel, block fuel⟩

/-- An expression is an operand and what it grows to. -/
theorem expression_run {fuel : Nat} {level : Precedence} {e : Expr Span} {s : State}
    (noSemicolon : t.token ≠ .sign .semicolon)
    (first : operand (partsAt fuel) fuel ⟨t :: ts, finish, errors⟩ = .done e s) :
    expression (fuel + 1) level ⟨t :: ts, finish, errors⟩ =
      climb (partsAt fuel) fuel level fuel e s := by
  rw [expression, Attempt.deepen_eq, bind_done current_run, if_neg noSemicolon]
  exact bind_done first

theorem climb_step {p : Parts} {size fuel : Nat} {level : Precedence} {left e : Expr Span}
    {c : Continuation} {s : State} (follows : Continuation.ofToken? u.token = some c)
    (binds : level.level < c.precedence.level)
    (grown : continuation p size c left ⟨u :: ts, finish, errors⟩ = .done e s) :
    climb p size level (fuel + 1) left ⟨t :: u :: ts, finish, errors⟩ =
      climb p size level fuel e s := by
  rw [climb, bind_done peek_run, follows]
  dsimp only
  rw [if_pos binds, bind_done bump_run]
  exact bind_done grown

/-- No token in front of the text binds tighter than the level. -/
def StopsAt (level : Precedence) (rest : List SpannedToken) : Prop :=
  ∀ u ∈ rest.head?, u.token.precedence.level ≤ level.level

/-- A token that cannot follow an operand stops at every level. -/
theorem StopsAt.of_lowest {level : Precedence} (loose : u.token.precedence = .lowest) :
    StopsAt level (u :: ts) := by
  intro v member
  cases member
  rw [loose]
  exact Nat.zero_le _

theorem StopsAt.mono {level level' : Precedence} (stops : StopsAt level ts)
    (le : level.level ≤ level'.level) : StopsAt level' ts := by
  intro u member
  exact Nat.le_trans (stops u member) le

theorem climb_stop {p : Parts} {size fuel : Nat} {level : Precedence} {left : Expr Span}
    (stops : StopsAt level ts) :
    climb p size level (fuel + 1) left ⟨t :: ts, finish, errors⟩ =
      .done left ⟨t :: ts, finish, errors⟩ := by
  cases ts with
  | nil => rfl
  | cons u us =>
    have loose := stops u rfl
    rw [climb, bind_done peek_run]
    unfold Token.precedence at loose
    cases follows : Continuation.ofToken? u.token with
    | none => rfl
    | some c =>
      rw [follows] at loose
      dsimp only at loose ⊢
      rw [if_neg (by omega)]
      rfl

end Scripting.Parser
