import Scripting.Cursor
import Scripting.Token

/-!
# From characters to tokens

Between two tokens stands a gap of blanks and comments, whose size is `gapLength`. What follows a
gap is one token, and `Token.scan` says which one and how many characters it takes. Both are
functions of the characters alone; a `Cursor` adds the positions.
-/

namespace Scripting

/-- Characters that separate tokens. -/
def isBlank (c : Char) : Bool := c == ' ' || c == '\t' || c == '\n' || c == '\r'

/-- Characters that may start a name. -/
def isNameStart (c : Char) : Bool := c.isAlpha || c == '_'

/-- Characters that may follow in a name. -/
def isNameChar (c : Char) : Bool := c.isAlphanum || c == '_'

/-- Characters of a number: any dot among them makes it a float. -/
def isNumberChar (c : Char) : Bool := c.isDigit || c == '.'

/-- The size of the gap in front: blanks, and comments from `//` up to the end of the line. The
flag says that the text starts inside a comment. -/
def gapLength (inComment : Bool) : List Char → Nat
  | [] => 0
  | c :: cs =>
    if inComment then gapLength (c != '\n') cs + 1
    else if isBlank c then gapLength false cs + 1
    else if c == '/' && cs.head? == some '/' then gapLength true cs + 1
    else 0

/-- The longest sign that starts with `c`, given the character after it, and its size. -/
def Sign.scan (c : Char) (next : Option Char) : Option (Sign × Nat) :=
  match c with
  | '(' => some (.leftParen, 1)
  | ')' => some (.rightParen, 1)
  | '\x7b' => some (.leftBrace, 1)
  | '\x7d' => some (.rightBrace, 1)
  | '[' => some (.leftBracket, 1)
  | ']' => some (.rightBracket, 1)
  | ',' => some (.comma, 1)
  | ';' => some (.semicolon, 1)
  | ':' => some (.colon, 1)
  | '.' => some (.dot, 1)
  | '%' => some (.percent, 1)
  | '+' =>
    if next = some '=' then some (.plusEq, 2)
    else if next = some '+' then some (.increment, 2)
    else some (.plus, 1)
  | '-' =>
    if next = some '=' then some (.minusEq, 2)
    else if next = some '-' then some (.decrement, 2)
    else some (.minus, 1)
  | '*' => if next = some '=' then some (.asteriskEq, 2) else some (.asterisk, 1)
  | '/' => if next = some '=' then some (.slashEq, 2) else some (.slash, 1)
  | '=' => if next = some '=' then some (.doubleEq, 2) else some (.equals, 1)
  | '!' => if next = some '=' then some (.bangEq, 2) else some (.bang, 1)
  | '<' => if next = some '=' then some (.leftAngleEq, 2) else some (.leftAngle, 1)
  | '>' => if next = some '=' then some (.rightAngleEq, 2) else some (.rightAngle, 1)
  | '&' => if next = some '&' then some (.and, 2) else none
  | '|' => if next = some '|' then some (.or, 2) else none
  | _ => none

namespace Token

/-- A text in quotes. It runs up to the next such quote, there are no escapes, and without a
closing quote the whole rest of the source is illegal. -/
def scanText (quote : Char) (rest : List Char) : Token × Nat :=
  let contents := rest.takeWhile (· != quote)
  if contents.length < rest.length then (.text (String.ofList contents), contents.length + 2)
  else (.illegal (String.ofList (quote :: contents)), contents.length + 1)

/-- Digits and dots. -/
def scanNumber (c : Char) (rest : List Char) : Token × Nat :=
  let digits := c :: rest.takeWhile isNumberChar
  if digits.contains '.' then (.float (String.ofList digits), digits.length)
  else (.integer (String.ofList digits), digits.length)

/-- A keyword or a name. -/
def scanWord (c : Char) (rest : List Char) : Token × Nat :=
  let word := c :: rest.takeWhile isNameChar
  (.ofWord (String.ofList word), word.length)

/-- The token at the front of a text that starts with `c`, and the number of its characters. -/
def scan (c : Char) (rest : List Char) : Token × Nat :=
  match Sign.scan c rest.head? with
  | some (s, size) => (.sign s, size)
  | none =>
    if c = '"' ∨ c = '\'' then scanText c rest
    else if c.isDigit then scanNumber c rest
    else if isNameStart c then scanWord c rest
    else (.illegal (String.singleton c), 1)

end Token

namespace Cursor

/-- Moves over the blanks and comments in front. -/
def skipGap (c : Cursor) : Cursor := c.skip (gapLength false c.rest)

/-- Reads the next token. At the end of the text this is `endOfFile`, however often it is asked. -/
def next (c : Cursor) : SpannedToken × Cursor :=
  let c := c.skipGap
  match c.rest with
  | [] => (⟨.endOfFile, .empty c.position⟩, c)
  | ch :: rest =>
    let (token, size) := Token.scan ch rest
    let d := c.skip size
    (⟨token, ⟨c.position, d.position⟩⟩, d)

/-- Reads at most `n` tokens and puts them in front of those read before, the last one first. -/
def collect : Nat → Cursor → List SpannedToken → List SpannedToken × Cursor
  | 0, c, read => (read, c)
  | n + 1, c, read =>
    let (t, d) := c.next
    if t.token = .endOfFile then (read, c) else collect n d (t :: read)

/-- Reads every token up to the end of the text. A token takes at least one character, so there
are no more tokens than characters. -/
def tokens (c : Cursor) : List SpannedToken × Cursor :=
  let (read, d) := c.collect c.rest.length []
  (read.reverse, d)

end Cursor

end Scripting
