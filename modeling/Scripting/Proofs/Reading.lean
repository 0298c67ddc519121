import Scripting.Proofs.Following
import Scripting.Proofs.TreeForms

/-!
# What a parser takes up

A parser only ever moves on, and every error that it leaves behind is paid for by a token that it
leaves behind: `Onward`. `Meets` says so of every way in which a parser may end, and something more
of what it gives when it does not fail. For a construct this is that its items fill the tokens from
where it began up to and with the current one, `Took`; the rules put such readings together one
after the other.
-/

namespace Scripting.Parser

open Parsed

/-- Where reading stands one token further on. -/
def State.bump (s : State) : State := { s with tokens := s.tokens.tail }

theorem bump_at (s : State) : bump s = .done () s.bump := rfl

@[simp] theorem State.errors_bump (s : State) : s.bump.errors = s.errors := rfl

/-- Only at the end of the tokens nothing is left. -/
theorem State.exists_cons {s : State} (inside : s.current.token ≠ .endOfFile) :
    ∃ rest, s.tokens = s.current :: rest := by
  unfold current at inside ⊢
  cases here : s.tokens with
  | nil => rw [here] at inside; exact absurd rfl inside
  | cons t ts => exact ⟨ts, rfl⟩

/-- Reading went on from the first place to the second one. No token is given back, and errors and
tokens behind the current one together never become more. -/
structure Onward (s t : State) : Prop where
  suffix : t.tokens <:+ s.tokens
  errors : s.errors.size ≤ t.errors.size
  load : t.errors.size + (t.tokens.length - 1) ≤ s.errors.size + (s.tokens.length - 1)

namespace Onward

variable {s t u : State}

theorem refl (s : State) : Onward s s := ⟨List.suffix_refl _, Nat.le_refl _, Nat.le_refl _⟩

theorem trans (first : Onward s t) (second : Onward t u) : Onward s u where
  suffix := second.suffix.trans first.suffix
  errors := Nat.le_trans first.errors second.errors
  load := Nat.le_trans second.load first.load

theorem bump (s : State) : Onward s s.bump where
  suffix := List.tail_suffix _
  errors := Nat.le_refl _
  load := by
    simp only [State.bump, List.length_tail]
    omega

end Onward

variable {α β : Type}

/-- However the parser ends, it has only moved on, and what it gives has the property. -/
def Meets (x : Parse α) (s : State) (property : α → State → Prop) : Prop :=
  match x s with
  | .done a t => Onward s t ∧ property a t
  | .failed _ t => Onward s t
  | .exhausted => True

namespace Meets

variable {x y : Parse α} {f : α → Parse β} {s : State} {property : α → State → Prop}
  {further : β → State → Prop}

theorem pure {a : α} (holds : property a s) : Meets (Pure.pure a) s property := ⟨.refl s, holds⟩

theorem failAt {t : SpannedToken} {fault : SyntaxFault} :
    Meets (failAt t fault : Parse α) s property := Onward.refl s

theorem outOfFuel : Meets (Attempt.outOfFuel : Parse α) s property := trivial

theorem mono {stronger : α → State → Prop} (meets : Meets x s stronger)
    (implies : ∀ a t, stronger a t → property a t) : Meets x s property := by
  unfold Meets at meets ⊢
  split
  · rename_i a t run
    rw [run] at meets
    exact ⟨meets.1, implies a t meets.2⟩
  · rename_i e t run
    rwa [run] at meets
  · trivial

/-- What begins later ends later still. -/
theorem from_earlier {t : State} {z : Parse α} (onward : Onward s t) (meets : Meets y t property)
    (same : z s = y t) : Meets z s property := by
  unfold Meets at meets ⊢
  rw [same]
  split
  · rename_i a u run
    rw [run] at meets
    exact ⟨onward.trans meets.1, meets.2⟩
  · rename_i e u run
    rw [run] at meets
    exact onward.trans meets
  · trivial

theorem bind (first : Meets x s property)
    (rest : ∀ a t, property a t → Meets (f a) t further) : Meets (x >>= f) s further := by
  unfold Meets at first
  cases run : x s with
  | done a t =>
    rw [run] at first
    exact from_earlier first.1 (rest a t first.2) (bind_done run)
  | failed e t =>
    rw [run] at first
    unfold Meets
    rw [Attempt.bind_run, run]
    exact first
  | exhausted =>
    unfold Meets
    rw [Attempt.bind_run, run]
    trivial

theorem current {f : SpannedToken → Parse β} (rest : Meets (f s.current) s further) :
    Meets (Parser.current >>= f) s further := rest

theorem peek {f : SpannedToken → Parse β} (rest : Meets (f s.bump.current) s further) :
    Meets (Parser.peek >>= f) s further := rest

theorem spanFrom {start : Span} {f : Span → Parse β}
    (rest : Meets (f (start.extend s.current.span)) s further) :
    Meets (Parser.spanFrom start >>= f) s further := rest

theorem bump {f : Unit → Parse β} (rest : Meets (f ()) s.bump further) :
    Meets (Parser.bump >>= f) s further := from_earlier (.bump s) rest rfl

theorem peekIs {sign : Sign} (found : s.bump.current.token = .sign sign → Meets x s property)
    (absent : s.bump.current.token ≠ .sign sign → Meets y s property) :
    Meets (Parser.peekIs sign >>= fun b => if b then x else y) s property := by
  show Meets (if decide (s.bump.current.token = .sign sign) then x else y) s property
  by_cases next : s.bump.current.token = .sign sign
  · rw [if_pos (decide_eq_true next)]
    exact found next
  · rw [if_neg (by simpa using next)]
    exact absent next

theorem currentIs {sign : Sign} (found : s.current.token = .sign sign → Meets x s property)
    (absent : s.current.token ≠ .sign sign → Meets y s property) :
    Meets (Parser.currentIs sign >>= fun b => if b then x else y) s property := by
  show Meets (if decide (s.current.token = .sign sign) then x else y) s property
  by_cases here : s.current.token = .sign sign
  · rw [if_pos (decide_eq_true here)]
    exact found here
  · rw [if_neg (by simpa using here)]
    exact absent here

theorem expectPeek {sign : Sign} {f : Unit → Parse β}
    (rest : s.bump.current.token = .sign sign → Meets (f ()) s.bump further) :
    Meets (Parser.expectPeek sign >>= f) s further := by
  rw [expectPeek_bind]
  refine peek ?_
  split
  · exact bump (rest ‹_›)
  · exact failAt

theorem expectCurrent {sign : Sign} {f : Unit → Parse β}
    (rest : s.current.token = .sign sign → Meets (f ()) s further) :
    Meets (Parser.expectCurrent sign >>= f) s further := by
  rw [expectCurrent_bind]
  refine current ?_
  split
  · exact rest ‹_›
  · exact failAt

theorem nameAfter {f : Identifier Span → Parse β}
    (rest : ∀ name, s.bump.current.token = .identifier name →
      Meets (f ⟨name, s.bump.current.span⟩) s.bump further) :
    Meets (Parser.nameAfter >>= f) s further := by
  rw [nameAfter_bind]
  refine peek ?_
  split
  · exact bump (rest _ ‹_›)
  · exact failAt

end Meets

/-- The items fill the tokens from the first place up to the second one, of which the current token
is not among them. They are clean if no error was reported on the way. -/
def Passed (s : State) (items : List Item) (t : State) : Prop :=
  s.errors.size ≤ t.errors.size ∧ ∃ ts, s.tokens = ts ++ t.tokens ∧
    Fills (t.errors.size = s.errors.size) items ts

/-- The items fill the tokens from the first place up to the second one, of which the current token
is the last that they take up. -/
def Took (s : State) (items : List Item) (t : State) : Prop :=
  s.errors.size ≤ t.errors.size ∧ ∃ front last rest, s.tokens = front ++ last :: rest ∧
    t.tokens = last :: rest ∧ Fills (t.errors.size = s.errors.size) items (front ++ [last])

theorem Passed.trans {s t u : State} {items rest : List Item} (first : Passed s items t)
    (second : Passed t rest u) : Passed s (items ++ rest) u := by
  obtain ⟨grown, ts, here, filled⟩ := first
  obtain ⟨grown', us, there, filled'⟩ := second
  refine ⟨Nat.le_trans grown grown', ts ++ us, by rw [here, there, List.append_assoc], ?_⟩
  exact (filled.weaken (by omega)).append (filled'.weaken (by omega))

namespace Took

variable {s t u : State} {items rest : List Item}

/-- The current token is taken up by itself. -/
theorem here (inside : s.current.token ≠ .endOfFile) : Took s [.token s.current] s := by
  obtain ⟨rest, there⟩ := State.exists_cons inside
  exact ⟨Nat.le_refl _, [], s.current, rest, there, there, .token .nil⟩

theorem passed (took : Took s items t) : Passed s items t.bump := by
  obtain ⟨grown, front, last, rest, here, there, filled⟩ := took
  refine ⟨grown, front ++ [last], ?_, filled⟩
  simp only [State.bump, here, there, List.tail_cons, List.append_assoc, List.singleton_append]

theorem of_passed (passed : Passed s items t) (took : Took t rest u) :
    Took s (items ++ rest) u := by
  obtain ⟨grown, ts, here, filled⟩ := passed
  obtain ⟨grown', front, last, rest, there, further, filled'⟩ := took
  refine ⟨Nat.le_trans grown grown', ts ++ front, last, rest, ?_, further, ?_⟩
  · rw [here, there, List.append_assoc]
  · rw [List.append_assoc]
    exact (filled.weaken (by omega)).append (filled'.weaken (by omega))

/-- What starts with the next token is taken up as well. -/
theorem next (took : Took s items t) (more : Took t.bump rest u) : Took s (items ++ rest) u :=
  of_passed took.passed more

/-- The next token is taken up as well. -/
theorem token (took : Took s items t) (inside : t.bump.current.token ≠ .endOfFile) :
    Took s (items ++ [.token t.bump.current]) t.bump :=
  took.next (here inside)

/-- Items in one of the forms are a node. -/
theorem form {n : Parsed.Node} {opened : List Sign} (took : Took s items t)
    (form : Form (t.errors.size = s.errors.size) n opened items s.current t.current) :
    Took s [.node n opened] t := by
  obtain ⟨grown, front, last, rest, here, there, filled⟩ := took
  have first : (front ++ [last]).head? = some s.current := by
    unfold State.current
    rw [here]
    cases front <;> rfl
  have final : t.current = last := by
    unfold State.current
    rw [there]
    rfl
  refine ⟨grown, front, last, rest, here, there, ?_⟩
  have node := Fills.node form filled first (by rw [final]; simp) .nil
  rwa [List.append_nil] at node

/-- An expression is taken up with the parentheses around it. -/
theorem grouped {e : Expr Span} (took : Took s.bump [.expr e] t)
    (opening : s.current.token = .sign .leftParen)
    (closing : t.bump.current.token = .sign .rightParen) :
    Took s [.expr e] t.bump := by
  obtain ⟨tokens, here⟩ := State.exists_cons (s := s) (by rw [opening]; nofun)
  obtain ⟨left, there⟩ := State.exists_cons (s := t.bump) (by rw [closing]; nofun)
  obtain ⟨grown, ts, between, filled⟩ := took.passed
  have inside : tokens = ts ++ t.bump.current :: left := by
    rw [← there, ← between, State.bump, here, List.tail_cons]
  refine ⟨grown, s.current :: ts, t.bump.current, left, ?_, there, ?_⟩
  · rw [here, inside, List.cons_append]
  · exact .grouped opening filled closing .nil

end Took

end Scripting.Parser
