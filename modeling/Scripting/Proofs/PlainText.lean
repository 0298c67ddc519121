import Scripting.Expr.Parser
import Scripting.Proofs.IntegerText
import Scripting.Proofs.Lexing

/-!
# Expressions that can be read back

`Expr.Plain` singles out the expressions whose text is a text of the language again: no text or
float literals, no functions, loops and assignments, and no negative integer literals. The text of
such an expression reads as the tokens `Expr.words`, wherever it stands.
-/

namespace Scripting

variable {α : Type}

/-- A row of letters, digits and underscores that no digit starts. -/
def IsWord (word : String) : Prop :=
  ∃ c cs, word.toList = c :: cs ∧ isNameStart c ∧ cs.all isNameChar

/-- A word that is no keyword. -/
def IsName (name : String) : Prop := IsWord name ∧ Keyword.ofSpelling? name = none

/-- The sign of an operator before its operand. -/
def PrefixOperator.sign : PrefixOperator → Sign
  | negate => .minus
  | logicalNot => .bang
  | increment => .increment
  | decrement => .decrement

/-- The sign of an operator between its operands. -/
def InfixOperator.sign : InfixOperator → Sign
  | add => .plus
  | subtract => .minus
  | multiply => .asterisk
  | divide => .slash
  | modulo => .percent
  | equalTo => .doubleEq
  | notEqualTo => .bangEq
  | greaterThan => .rightAngle
  | greaterEq => .rightAngleEq
  | lessThan => .leftAngle
  | lessEq => .leftAngleEq
  | and => .and
  | or => .or

/-- The sign of an operator after its operand. -/
def PostfixOperator.sign : PostfixOperator → Sign
  | increment => .increment
  | decrement => .decrement

theorem PrefixOperator.symbol_eq (op : PrefixOperator) : op.symbol = op.sign.spelling := by
  cases op <;> rfl

theorem InfixOperator.symbol_eq (op : InfixOperator) : op.symbol = op.sign.spelling := by
  cases op <;> rfl

theorem PostfixOperator.symbol_eq (op : PostfixOperator) : op.symbol = op.sign.spelling := by
  cases op <;> rfl

theorem PrefixOperator.ofToken_sign (op : PrefixOperator) :
    PrefixOperator.ofToken? (.sign op.sign) = some op := by
  cases op <;> rfl

theorem Continuation.ofToken_infix (op : InfixOperator) :
    Continuation.ofToken? (.sign op.sign) = some (.operate op) := by
  cases op <;> rfl

theorem Continuation.ofToken_postfix (op : PostfixOperator) :
    Continuation.ofToken? (.sign op.sign) = some (.step op) := by
  cases op <;> rfl

namespace Expr

/-- The expression is an integer, whose text a dot would carry on. -/
def isInteger : Expr α → Bool
  | literal _ (.integer _) => true
  | _ => false

/-- Expressions that are read back from their text. A slice stands as a key only, with both of its
ends, and the object of a method is no integer. -/
inductive Plain : Expr α → Prop
  | identifier (m : α) {i : Identifier α} (name : IsName i.name) : Plain (.identifier m i)
  | integer (m : α) {n : Int64} (nonneg : 0 ≤ n.toInt) : Plain (.literal m (.integer n))
  | boolean (m : α) (b : Bool) : Plain (.literal m (.boolean b))
  | null (m : α) : Plain (.literal m .null)
  | array (m : α) {es : List (Expr α)} (elements : ∀ e ∈ es, Plain e) : Plain (.array m es)
  | hash (m : α) {ps : List (Expr α × Expr α)} (keys : ∀ p ∈ ps, Plain p.1)
      (values : ∀ p ∈ ps, Plain p.2) : Plain (.hash m ps)
  | unary (m : α) (op : PrefixOperator) {e : Expr α} (operand : Plain e) : Plain (.unary m op e)
  | binary (m : α) (op : InfixOperator) {l r : Expr α} (left : Plain l) (right : Plain r) :
      Plain (.binary m op l r)
  | step (m : α) (op : PostfixOperator) {e : Expr α} (operand : Plain e) : Plain (.step m op e)
  | call (m : α) {c : Expr α} {as : List (Expr α)} (callee : Plain c)
      (arguments : ∀ a ∈ as, Plain a) : Plain (.call m c as)
  | method (m n k : α) {o : Expr α} {i : Identifier α} {as : List (Expr α)} (object : Plain o)
      (noInteger : o.isInteger = false) (name : IsName i.name) (arguments : ∀ a ∈ as, Plain a) :
      Plain (.method m o (.call n (.identifier k i) as))
  | index (m : α) {c k : Expr α} (container : Plain c) (key : Plain k) : Plain (.index m c k)
  | sliced (m n : α) {c l h : Expr α} (container : Plain c) (low : Plain l) (high : Plain h) :
      Plain (.index m c (.slice n l (some h)))

end Expr

/-- The words of a constant, where it is written as one. -/
def Literal.words : Literal → List Token
  | integer n => [.integer (integerText n)]
  | boolean b => [.keyword (if b then .trueWord else .falseWord)]
  | null => [.keyword .nullWord]
  | float _ | text _ => []

/-- Words in groups, with commas between the groups. -/
def Token.commas (groups : List (List Token)) : List Token := [Token.sign .comma].intercalate groups

mutual

/-- The words that the text of a plain expression is made of. -/
def Expr.words : Expr α → List Token
  | .identifier _ i => [.identifier i.name]
  | .literal _ l => l.words
  | .array _ es => .sign .leftBracket :: (Token.commas (Expr.wordsList es) ++ [.sign .rightBracket])
  | .hash _ ps => .sign .leftBrace :: (Token.commas (Expr.wordsPairs ps) ++ [.sign .rightBrace])
  | .unary _ op e => .sign .leftParen :: .sign op.sign :: (e.words ++ [.sign .rightParen])
  | .binary _ op l r =>
    .sign .leftParen :: (l.words ++ .sign op.sign :: (r.words ++ [.sign .rightParen]))
  | .step _ op e => .sign .leftParen :: (e.words ++ [.sign op.sign, .sign .rightParen])
  | .call _ c as =>
    c.words ++ .sign .leftParen :: (Token.commas (Expr.wordsList as) ++ [.sign .rightParen])
  | .method _ o c => o.words ++ .sign .dot :: c.words
  | .index _ c k => .sign .leftParen ::
      (c.words ++ .sign .leftBracket :: (k.words ++ [.sign .rightBracket, .sign .rightParen]))
  | .slice _ l h =>
    .sign .leftParen :: (l.words ++ .sign .colon :: (Expr.wordsOption h ++ [.sign .rightParen]))
  | .missing _ | .function _ _ _ _ | .assign _ _ _ _ | .conditional _ _ _ _ | .whileLoop _ _ _
  | .forLoop _ _ _ _ _ | .breakLoop _ | .continueLoop _ | .typeof _ _ => []

/-- The words of each expression. -/
def Expr.wordsList : List (Expr α) → List (List Token)
  | [] => []
  | e :: es => e.words :: Expr.wordsList es

/-- The words of each pair of a hash. -/
def Expr.wordsPairs : List (Expr α × Expr α) → List (List Token)
  | [] => []
  | (k, v) :: ps => (k.words ++ .sign .colon :: v.words) :: Expr.wordsPairs ps

/-- The words of an expression, or none. -/
def Expr.wordsOption : Option (Expr α) → List Token
  | none => []
  | some e => e.words

end

/-- Characters that carry on a word or a number. -/
def isWordChar (c : Char) : Bool := isNameChar c || c == '.'

/-- Characters that a plain expression may start with. -/
def opensOperand (c : Char) : Bool := isNameChar c || c == '(' || c == '[' || c == '\x7b'

/-- Characters that carry on the last word of an expression. -/
def Expr.carriedOn (e : Expr α) : Char → Bool := if e.isInteger then isWordChar else isNameChar

theorem Sign.carriedOn_of_opensOperand (s : Sign) {c : Char} (opens : opensOperand c) :
    s.carriedOn c = false := by
  have other : ∀ d, opensOperand d = false → c ≠ d := by
    intro d closed same
    rw [same, closed] at opens
    cases opens
  have notEqual : c ≠ '=' := other _ (by decide)
  have notPlus : c ≠ '+' := other _ (by decide)
  have notMinus : c ≠ '-' := other _ (by decide)
  have notSlash : c ≠ '/' := other _ (by decide)
  cases s <;> simp [Sign.carriedOn, notEqual, notPlus, notMinus, notSlash]

open Token in
/-- The text of an expression starts as an operand does and reads as the words of the expression. -/
structure Expr.SpelledOut (e : Expr α) : Prop where
  opening : ∃ c cs, e.render.toList = c :: cs ∧ opensOperand c
  spelled : Spelled e.carriedOn e.render.toList e.words

open Token

variable {e : Expr α}

theorem isWordChar_of_carriedOn {c : Char} (carried : e.carriedOn c) : isWordChar c := by
  unfold Expr.carriedOn at carried
  split at carried
  · exact carried
  · simp [isWordChar, carried]

theorem Expr.SpelledOut.spelled_word (out : e.SpelledOut) :
    Spelled isWordChar e.render.toList e.words :=
  out.spelled.weaken fun _ => isWordChar_of_carriedOn

/-- A text between brackets reads as its words between the brackets. -/
theorem spelled_enclosed (opening closing : Sign) {o c : Char} {text : List Char}
    {words : List Token} (opens : opening.spelling.toList = [o])
    (closes : closing.spelling.toList = [c]) (alone : ∀ d, opening.carriedOn d = false)
    (alone' : ∀ d, closing.carriedOn d = false) (noWord : isWordChar c = false)
    (inner : Spelled isWordChar text words) :
    Spelled isNameChar (o :: (text ++ [c])) (.sign opening :: (words ++ [.sign closing])) := by
  have closed := (inner.append_sign closes noWord).sign_append opens alone
  apply closed.weaken
  intro d carried
  rw [alone' d] at carried
  cases carried

theorem spelled_parens {text : List Char} {words : List Token}
    (inner : Spelled isWordChar text words) : Spelled isNameChar ('(' :: (text ++ [')']))
      (.sign .leftParen :: (words ++ [.sign .rightParen])) :=
  spelled_enclosed .leftParen .rightParen rfl rfl (fun _ => rfl) (fun _ => rfl) (by decide) inner

theorem spelled_brackets {text : List Char} {words : List Token}
    (inner : Spelled isWordChar text words) : Spelled isNameChar ('[' :: (text ++ [']']))
      (.sign .leftBracket :: (words ++ [.sign .rightBracket])) :=
  spelled_enclosed .leftBracket .rightBracket rfl rfl (fun _ => rfl) (fun _ => rfl) (by decide)
    inner

/-- Texts with commas between them read as their words with commas between them. -/
theorem spelled_commas (parts : List (List Char × List Token))
    (each : ∀ p ∈ parts, Spelled isWordChar p.1 p.2) :
    Spelled isWordChar ([',', ' '].intercalate (parts.map (·.1))) (commas (parts.map (·.2))) := by
  unfold commas
  induction parts with
  | nil => exact Spelled.nil
  | cons p ps ih =>
    have first := each p List.mem_cons_self
    have others := ih fun q member => each q (List.mem_cons_of_mem _ member)
    cases ps with
    | nil => simpa using first
    | cons q qs =>
      have blank : Spelled isWordChar (' ' :: [',', ' '].intercalate ((q :: qs).map (·.1))) _ :=
        Spelled.blank.append others fun _ _ _ _ => rfl
      have comma := blank.sign_append (c := ',') (s := .comma) rfl fun _ => rfl
      have joined := first.append_cons comma (by decide)
      simpa using joined

theorem Expr.renderList_eq (es : List (Expr α)) : Expr.renderList es = es.map Expr.render := by
  induction es with
  | nil => rfl
  | cons e es ih => rw [Expr.renderList, ih, List.map_cons]

theorem Expr.wordsList_eq (es : List (Expr α)) : Expr.wordsList es = es.map Expr.words := by
  induction es with
  | nil => rfl
  | cons e es ih => rw [Expr.wordsList, ih, List.map_cons]

theorem Expr.renderPairs_eq (ps : List (Expr α × Expr α)) :
    Expr.renderPairs ps = ps.map fun p => p.1.render ++ ":" ++ p.2.render := by
  induction ps with
  | nil => rfl
  | cons p ps ih => rw [Expr.renderPairs, ih, List.map_cons]

theorem Expr.wordsPairs_eq (ps : List (Expr α × Expr α)) :
    Expr.wordsPairs ps = ps.map fun p => p.1.words ++ .sign .colon :: p.2.words := by
  induction ps with
  | nil => rfl
  | cons p ps ih => rw [Expr.wordsPairs, ih, List.map_cons]

theorem spelled_list {es : List (Expr α)} (each : ∀ e ∈ es, e.SpelledOut) :
    Spelled isWordChar (", ".intercalate (Expr.renderList es)).toList
      (commas (Expr.wordsList es)) := by
  have joined := spelled_commas (es.map fun e => (e.render.toList, e.words)) (by
    intro p member
    obtain ⟨e, inside, rfl⟩ := List.mem_map.mp member
    exact (each e inside).spelled_word)
  rw [String.toList_intercalate, Expr.renderList_eq, Expr.wordsList_eq]
  simpa [Function.comp_def] using joined

theorem spelled_pairs {ps : List (Expr α × Expr α)} (keys : ∀ p ∈ ps, p.1.SpelledOut)
    (values : ∀ p ∈ ps, p.2.SpelledOut) :
    Spelled isWordChar (", ".intercalate (Expr.renderPairs ps)).toList
      (commas (Expr.wordsPairs ps)) := by
  have joined := spelled_commas
    (ps.map fun p => (p.1.render.toList ++ ':' :: p.2.render.toList,
      p.1.words ++ .sign .colon :: p.2.words)) (by
    intro part member
    obtain ⟨p, inside, rfl⟩ := List.mem_map.mp member
    have value := (values p inside).spelled_word.sign_append (c := ':') (s := .colon) rfl
      fun _ => rfl
    exact (keys p inside).spelled_word.append_cons value (by decide))
  rw [String.toList_intercalate, Expr.renderPairs_eq, Expr.wordsPairs_eq]
  simpa [Function.comp_def] using joined

theorem spelled_word {word : String} (valid : IsWord word) :
    Spelled isNameChar word.toList [ofWord word] := by
  obtain ⟨c, cs, chars, start, others⟩ := valid
  intro tail stops
  have same : String.ofList (c :: cs) = word := by rw [← chars, String.ofList_toList]
  rw [chars, sequence_word start (List.all_eq_true.mp others) stops, same]
  rfl

theorem spelled_name {name : String} (valid : IsName name) :
    Spelled isNameChar name.toList [.identifier name] := by
  have known : ofWord name = .identifier name := by rw [ofWord, valid.2]
  exact known ▸ spelled_word valid.1

theorem Keyword.isWord_spelling (k : Keyword) : IsWord k.spelling := by
  cases k <;> exact ⟨_, _, rfl, by decide, by decide⟩

theorem spelled_keyword (k : Keyword) : Spelled isNameChar k.spelling.toList [.keyword k] := by
  have known : ofWord k.spelling = .keyword k := by cases k <;> decide
  exact known ▸ spelled_word k.isWord_spelling

theorem isWordChar_of_isNumberChar {c : Char} (number : isNumberChar c) : isWordChar c := by
  unfold isNumberChar at number
  unfold isWordChar
  rcases Bool.or_eq_true_iff.mp number with digit | dot
  · rw [isNameChar_of_isDigit digit, Bool.true_or]
  · rw [dot, Bool.or_true]

theorem spelled_integer {n : Int64} (nonneg : 0 ≤ n.toInt) :
    Spelled isWordChar (integerText n).toList [.integer (integerText n)] := by
  intro tail stops
  have digits := toList_integerText_of_nonneg nonneg
  have same : String.ofList (Nat.toDigits 10 n.toInt.toNat) = integerText n := by
    rw [← digits, String.ofList_toList]
  have ends : Stops isNumberChar tail := stops.mono fun _ => isWordChar_of_isNumberChar
  rw [digits, sequence_digits Nat.toDigits_ne_nil (fun _ => Decimal.toDigits_isDigit) ends, same]
  rfl

namespace Expr

theorem SpelledOut.of_name (m : α) {i : Identifier α} (valid : IsName i.name) :
    (identifier m i).SpelledOut where
  opening := by
    obtain ⟨c, cs, chars, start, _⟩ := valid.1
    exact ⟨c, cs, chars, by simp [opensOperand, isNameChar_of_isNameStart start]⟩
  spelled := spelled_name valid

theorem SpelledOut.of_keyword (m : α) {l : Literal} {k : Keyword} (text : l.render = k.spelling)
    (word : l.words = [.keyword k]) (noInteger : (literal m l).isInteger = false) :
    (literal m l).SpelledOut where
  opening := by
    obtain ⟨c, cs, chars, start, _⟩ := k.isWord_spelling
    refine ⟨c, cs, ?_, ?_⟩
    · rw [render, text, chars]
    · simp [opensOperand, isNameChar_of_isNameStart start]
  spelled := by
    rw [render, words, text, word, carriedOn, noInteger]
    exact spelled_keyword k

theorem SpelledOut.of_integer (m : α) {n : Int64} (nonneg : 0 ≤ n.toInt) :
    (literal m (.integer n)).SpelledOut where
  opening := by
    have chars := toList_integerText_of_nonneg nonneg
    cases digits : Nat.toDigits 10 n.toInt.toNat with
    | nil => exact absurd digits Nat.toDigits_ne_nil
    | cons c cs =>
      have digit : c.isDigit :=
        Decimal.toDigits_isDigit (n := n.toInt.toNat) (by rw [digits]; exact List.mem_cons_self)
      refine ⟨c, cs, ?_, ?_⟩
      · rw [render, Literal.render, chars, digits]
      · simp [opensOperand, isNameChar_of_isDigit digit]
  spelled := spelled_integer nonneg

theorem SpelledOut.of_spelled {o : Char} {text : List Char} {tokens : List Token}
    (spelled : Spelled isNameChar (o :: text) tokens) (opens : opensOperand o)
    (noInteger : e.isInteger = false) (chars : e.render.toList = o :: text)
    (same : e.words = tokens) : e.SpelledOut where
  opening := ⟨o, text, chars, opens⟩
  spelled := by
    rw [chars, same, carriedOn, noInteger]
    exact spelled

/-- A sign before an operand, which never carries it on. -/
theorem SpelledOut.spelled_signed (out : e.SpelledOut) (s : Sign) :
    Spelled isWordChar (s.spelling.toList ++ e.render.toList) (.sign s :: e.words) := by
  obtain ⟨c, cs, chars, opens⟩ := out.opening
  have operand := out.spelled_word
  rw [chars] at operand ⊢
  exact (Spelled.sign s).append_cons operand (s.carriedOn_of_opensOperand opens)

theorem SpelledOut.spelled_between {l r : Expr α} (left : l.SpelledOut) (right : r.SpelledOut)
    (s : Sign) : Spelled isWordChar
      (l.render.toList ++ ' ' :: (s.spelling.toList ++ ' ' :: r.render.toList))
      (l.words ++ .sign s :: r.words) := by
  have operand : Spelled isWordChar (' ' :: r.render.toList) r.words :=
    Spelled.blank.append right.spelled_word fun _ _ _ _ => rfl
  have signed := (Spelled.sign s).append_cons operand (by cases s <;> decide)
  have spaced : Spelled isWordChar (' ' :: (s.spelling.toList ++ ' ' :: r.render.toList)) _ :=
    Spelled.blank.append signed fun _ _ _ _ => rfl
  exact left.spelled_word.append_cons spaced (by decide)

theorem spelled_arguments {as : List (Expr α)} (arguments : ∀ a ∈ as, a.SpelledOut) :
    Spelled isNameChar ('(' :: ((", ".intercalate (renderList as)).toList ++ [')']))
      (.sign .leftParen :: (commas (wordsList as) ++ [.sign .rightParen])) :=
  spelled_parens (spelled_list arguments)

theorem isWordChar_of_isNameChar (c : Char) (letter : isNameChar c = true) :
    isWordChar c = true := by
  rw [isWordChar, letter, Bool.true_or]

/-- A key in brackets after its container. -/
theorem SpelledOut.of_index (m : α) {c k : Expr α} (container : c.SpelledOut)
    (key : Spelled isWordChar k.render.toList k.words) : (index m c k).SpelledOut := by
  have brackets := spelled_brackets key
  have inner := container.spelled_word.append_cons brackets (by decide)
  have outer := spelled_parens (inner.weaken isWordChar_of_isNameChar)
  exact .of_spelled outer (by decide) rfl (by simp [render]) (by simp [words])

/-- The text of a plain expression reads as its words. -/
theorem Plain.spelledOut (plain : e.Plain) : e.SpelledOut := by
  induction plain with
  | identifier m name => exact .of_name m name
  | integer m nonneg => exact .of_integer m nonneg
  | boolean m b =>
    cases b with
    | true => exact .of_keyword m (k := .trueWord) rfl rfl rfl
    | false => exact .of_keyword m (k := .falseWord) rfl rfl rfl
  | null m => exact .of_keyword m (k := .nullWord) rfl rfl rfl
  | array m _ elements =>
    have brackets := spelled_brackets (spelled_list elements)
    exact .of_spelled brackets (by decide) rfl (by simp [render]) (by simp [words])
  | hash m _ _ keys values =>
    have braces := spelled_enclosed .leftBrace .rightBrace (o := '\x7b') (c := '\x7d')
      rfl rfl (fun _ => rfl) (fun _ => rfl) (by decide) (spelled_pairs keys values)
    exact .of_spelled braces (by decide) rfl (by simp [render]) (by simp [words])
  | unary m op _ operand =>
    have parens := spelled_parens (operand.spelled_signed op.sign)
    exact .of_spelled parens (by decide) rfl (by simp [render, op.symbol_eq]) (by simp [words])
  | binary m op _ _ left right =>
    have parens := spelled_parens (left.spelled_between right op.sign)
    exact .of_spelled parens (by decide) rfl (by simp [render, op.symbol_eq]) (by simp [words])
  | step m op _ operand =>
    have stepped := operand.spelled_word.append (Spelled.sign op.sign) (by
      intro tail _
      cases op <;> exact Stops.cons (by decide) _)
    have parens := spelled_parens (stepped.weaken (by cases op <;> exact nofun))
    exact .of_spelled parens (by decide) rfl (by simp [render, op.symbol_eq]) (by simp [words])
  | call m _ _ callee arguments =>
    obtain ⟨c, cs, chars, opens⟩ := callee.opening
    have whole := callee.spelled_word.append_cons (spelled_arguments arguments) (by decide)
    rw [chars] at whole
    exact .of_spelled whole opens rfl (by simp [render, chars]) (by simp [words])
  | method m n k _ noInteger name _ object arguments =>
    obtain ⟨c, cs, chars, opens⟩ := object.opening
    have called := (spelled_name name).append_cons (spelled_arguments arguments) (by decide)
    have dotted := called.sign_append (c := '.') (s := .dot) rfl fun _ => rfl
    have whole := object.spelled.append_cons dotted (by rw [carriedOn, noInteger]; decide)
    rw [chars] at whole
    exact .of_spelled whole opens rfl (by simp [render, chars]) (by simp [words])
  | index m _ _ container key => exact .of_index m container key.spelled_word
  | sliced m n _ _ _ container low high =>
    have upper := high.spelled_word.sign_append (c := ':') (s := .colon) rfl fun _ => rfl
    have parens := spelled_parens (low.spelled_word.append_cons upper (by decide))
    apply SpelledOut.of_index m container
    have key := parens.weaken isWordChar_of_isNameChar
    simpa [render, renderOption, words, wordsOption] using key

theorem Plain.sequence_render (plain : e.Plain) : sequence e.render.toList = e.words := by
  have spelled := plain.spelledOut.spelled [] (Stops.nil _)
  simpa using spelled

end Expr

end Scripting
