import Scripting.Position

/-!
# Tokens

The words of the language: signs, keywords, names, literals and stretches that are no word at all.
Every token has a spelling in the source (`literal`) and a kind that messages call it by
(`kindName`). Numbers keep their digits as text; their value is worked out where they are used.
-/

namespace Scripting

/-- Delimiters and operators. -/
inductive Sign where
  | leftParen | rightParen | leftBrace | rightBrace | leftBracket | rightBracket
  | comma | semicolon | colon | dot
  | plus | plusEq | increment
  | minus | minusEq | decrement
  | asterisk | asteriskEq
  | slash | slashEq
  | percent
  | bang | bangEq
  | equals | doubleEq
  | leftAngle | leftAngleEq
  | rightAngle | rightAngleEq
  | and | or
deriving DecidableEq, Repr

/-- How a sign is written. -/
def Sign.spelling : Sign → String
  | leftParen => "("
  | rightParen => ")"
  | leftBrace => "\x7b"
  | rightBrace => "\x7d"
  | leftBracket => "["
  | rightBracket => "]"
  | comma => ","
  | semicolon => ";"
  | colon => ":"
  | dot => "."
  | plus => "+"
  | plusEq => "+="
  | increment => "++"
  | minus => "-"
  | minusEq => "-="
  | decrement => "--"
  | asterisk => "*"
  | asteriskEq => "*="
  | slash => "/"
  | slashEq => "/="
  | percent => "%"
  | bang => "!"
  | bangEq => "!="
  | equals => "="
  | doubleEq => "=="
  | leftAngle => "<"
  | leftAngleEq => "<="
  | rightAngle => ">"
  | rightAngleEq => ">="
  | and => "&&"
  | or => "||"

/-- Words with a fixed meaning. -/
inductive Keyword where
  | letWord | deleteWord | returnWord | functionWord | ifWord | elseWord | whileWord | forWord
  | breakWord | continueWord | typeofWord | nullWord | trueWord | falseWord
deriving DecidableEq, Repr

namespace Keyword

/-- How a keyword is written. -/
def spelling : Keyword → String
  | letWord => "let"
  | deleteWord => "delete"
  | returnWord => "return"
  | functionWord => "function"
  | ifWord => "if"
  | elseWord => "else"
  | whileWord => "while"
  | forWord => "for"
  | breakWord => "break"
  | continueWord => "continue"
  | typeofWord => "typeof"
  | nullWord => "null"
  | trueWord => "true"
  | falseWord => "false"

/-- What messages call a keyword. -/
def kindName : Keyword → String
  | letWord => "LET"
  | deleteWord => "DELETE"
  | returnWord => "RETURN"
  | functionWord => "FUNCTION"
  | ifWord => "IF"
  | elseWord => "ELSE"
  | whileWord => "WHILE"
  | forWord => "FOR"
  | breakWord => "BREAK"
  | continueWord => "CONTINUE"
  | typeofWord => "TYPEOF"
  | nullWord => "NULL"
  | trueWord => "TRUE"
  | falseWord => "FALSE"

/-- Every keyword. -/
def all : List Keyword :=
  [letWord, deleteWord, returnWord, functionWord, ifWord, elseWord, whileWord, forWord, breakWord,
    continueWord, typeofWord, nullWord, trueWord, falseWord]

/-- The keyword with this spelling. -/
def ofSpelling? (word : String) : Option Keyword := all.find? (·.spelling == word)

end Keyword

/-- A word of the language. -/
inductive Token where
  | sign (s : Sign)
  | keyword (k : Keyword)
  | identifier (name : String)
  | integer (digits : String)
  | float (digits : String)
  /-- A quoted text, without its quotes. -/
  | text (contents : String)
  /-- A stretch of source that is no word: a stray character, or a text whose quote never closes. -/
  | illegal (source : String)
  | endOfFile
deriving DecidableEq, Repr

namespace Token

/-- The keyword or the name that a word spells. -/
def ofWord (word : String) : Token :=
  match Keyword.ofSpelling? word with
  | some k => .keyword k
  | none => .identifier word

/-- The token as it is written, a quoted text without its quotes. -/
def literal : Token → String
  | sign s => s.spelling
  | keyword k => k.spelling
  | identifier name => name
  | integer digits => digits
  | float digits => digits
  | text contents => contents
  | illegal source => source
  | endOfFile => ""

/-- What messages call a token. -/
def kindName : Token → String
  | sign s => s.spelling
  | keyword k => k.kindName
  | identifier _ => "IDENT"
  | integer _ => "INT"
  | float _ => "FLOAT"
  | text _ => "STRING"
  | illegal _ => "ILLEGAL"
  | endOfFile => "EOF"

end Token

/-- A token and the stretch of source that it takes up. -/
structure SpannedToken where
  token : Token
  span : Span
deriving DecidableEq, Repr

end Scripting
