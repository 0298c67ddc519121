/-!
# Places in a source text

A `Position` counts what stands before it: the bytes of the UTF-8 encoding, the lines and, within
the line, the characters. Reading a text moves the position one character at a time by `advance`,
so the position after any text is the fold `Position.after`. A `Span` is a pair of positions.
-/

namespace Scripting

/-- A place in a source text: the number of bytes before it, its line and its column. Lines and
columns are counted from one, and a column is a character. -/
structure Position where
  byte : Nat
  line : Nat
  column : Nat
deriving DecidableEq, Inhabited, Repr

namespace Position

/-- The place before the first character. -/
def start : Position := ⟨0, 1, 1⟩

/-- The place one character further on. Only a line feed starts a new line. -/
def advance (p : Position) (c : Char) : Position :=
  if c = '\n' then ⟨p.byte + c.utf8Size, p.line + 1, 1⟩
  else ⟨p.byte + c.utf8Size, p.line, p.column + 1⟩

/-- The place after a whole text. -/
def after (p : Position) (text : List Char) : Position := text.foldl advance p

/-- Positions are ordered by byte, then by line, then by column. -/
def order (p q : Position) : Ordering :=
  (compare p.byte q.byte).then ((compare p.line q.line).then (compare p.column q.column))

instance : Ord Position := ⟨order⟩

/-- The earlier of two places. -/
def earlier (p q : Position) : Position := if p.order q = .gt then q else p

/-- The later of two places. -/
def later (p q : Position) : Position := if p.order q = .gt then p else q

/-- Line and column, the form in which messages name a place. -/
def text (p : Position) : String := toString p.line ++ ":" ++ toString p.column

@[simp] theorem after_nil (p : Position) : p.after [] = p := rfl

@[simp] theorem after_cons (p : Position) (c : Char) (cs : List Char) :
    p.after (c :: cs) = (p.advance c).after cs := rfl

theorem after_append (p : Position) (s t : List Char) : p.after (s ++ t) = (p.after s).after t :=
  List.foldl_append

@[simp] theorem byte_advance (p : Position) (c : Char) :
    (p.advance c).byte = p.byte + c.utf8Size := by
  unfold advance; split <;> rfl

end Position

/-- A stretch of source text, from its first character to just after its last one. -/
structure Span where
  start : Position
  stop : Position
deriving DecidableEq, Inhabited, Repr

namespace Span

/-- The least stretch that holds both. -/
def extend (a b : Span) : Span := ⟨a.start.earlier b.start, a.stop.later b.stop⟩

/-- The empty stretch at one place. -/
def empty (p : Position) : Span := ⟨p, p⟩

end Span

end Scripting
