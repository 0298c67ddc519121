import Scripting.Position
import Scripting.Text.Bytes

/-!
# Reading a text character by character

A `Cursor` stands between the characters already read and those still to come, and keeps its
`Position`. Every move is a number of characters, `skip`; the lemmas below say what a move does to
the three parts, so that nothing else has to look inside.
-/

namespace Scripting

/-- A place in a text together with what was read before it and what comes after it. -/
structure Cursor where
  /-- The characters already read, the last one first. -/
  consumed : List Char
  /-- The characters still to come. -/
  rest : List Char
  position : Position
deriving Repr

namespace Cursor

/-- The cursor before the first character of a text. -/
def ofString (source : String) : Cursor := ⟨[], source.toList, .start⟩

/-- The next character. -/
def peek (c : Cursor) : Option Char := c.rest.head?

/-- The character after the next one. -/
def peekSecond (c : Cursor) : Option Char := c.rest.tail.head?

/-- Moves over `n` characters, or to the end where fewer are left. -/
def skip : Nat → Cursor → Cursor
  | 0, c => c
  | n + 1, c =>
    match c.rest with
    | [] => c
    | ch :: rest => skip n ⟨ch :: c.consumed, rest, c.position.advance ch⟩

/-- Reads the next character. At the end there is none, and the cursor stays. -/
def take (c : Cursor) : Option Char × Cursor := (c.peek, c.skip 1)

/-- Reads the next character only if it is `target`, and says whether it was. -/
def takeIf (target : Char) (c : Cursor) : Bool × Cursor :=
  if c.peek = some target then (true, c.skip 1) else (false, c)

/-- Reads on while the next character passes the test. -/
def takeWhile (test : Char → Bool) (c : Cursor) : Cursor := c.skip (c.rest.takeWhile test).length

/-- The text from the byte offset `start` up to the cursor. There is none if the offset lies after
the cursor or inside a character. -/
def lexemeFrom (start : Nat) (c : Cursor) : Option String :=
  (Text.dropBytes start c.consumed.reverse).map String.ofList

@[simp] theorem rest_skip (n : Nat) (c : Cursor) : (c.skip n).rest = c.rest.drop n := by
  induction n generalizing c with
  | zero => rfl
  | succ n ih => unfold skip; split <;> simp_all

@[simp] theorem consumed_skip (n : Nat) (c : Cursor) :
    (c.skip n).consumed = (c.rest.take n).reverse ++ c.consumed := by
  induction n generalizing c with
  | zero => rfl
  | succ n ih => unfold skip; split <;> simp_all

@[simp] theorem position_skip (n : Nat) (c : Cursor) :
    (c.skip n).position = c.position.after (c.rest.take n) := by
  induction n generalizing c with
  | zero => rfl
  | succ n ih => unfold skip; split <;> simp_all

end Cursor

end Scripting
