import Scripting.Token.Lexer

/-!
# The words of a text

`Token.sequence` reads a text without keeping count of places. A cursor reads the same tokens, so
what a text is made of can be worked out from its characters alone: a sign, a word or a number
stands at the front as long as the character behind it does not carry it on.
-/

namespace Scripting

/-- Nothing that passes the test stands at the front. -/
def Stops (test : Char → Bool) (text : List Char) : Prop := ∀ c ∈ text.head?, test c = false

theorem Stops.nil (test : Char → Bool) : Stops test [] := by
  intro c member
  cases member

theorem Stops.cons {test : Char → Bool} {c : Char} (failed : test c = false) (text : List Char) :
    Stops test (c :: text) := by
  intro d member
  cases member
  exact failed

theorem Stops.mono {test test' : Char → Bool} {text : List Char} (stops : Stops test text)
    (less : ∀ c, test' c = true → test c = true) : Stops test' text := by
  intro c member
  have failed := stops c member
  cases passed : test' c with
  | false => rfl
  | true =>
    rw [less c passed] at failed
    cases failed

/-- Reading on while the test holds takes exactly a stretch that passes in front of one that
does not. -/
theorem takeWhile_append_of_stops {test : Char → Bool} {word tail : List Char}
    (passed : ∀ c ∈ word, test c) (stops : Stops test tail) :
    (word ++ tail).takeWhile test = word := by
  rw [List.takeWhile_append_of_pos passed]
  cases tail with
  | nil => simp
  | cons c cs =>
    have failed : test c = false := stops c rfl
    simp [failed]

namespace Token

/-- A sign takes at least one character. -/
theorem scan_sign_pos {c : Char} {next : Option Char} {s : Sign} {size : Nat}
    (found : Sign.scan c next = some (s, size)) : 0 < size := by
  unfold Sign.scan at found
  split at found <;> grind

/-- A token takes at least one character, and no token in a text is the end of it. -/
theorem scan_proper (c : Char) (rest : List Char) :
    0 < (scan c rest).2 ∧ (scan c rest).1 ≠ .endOfFile := by
  unfold scan
  cases found : Sign.scan c rest.head? with
  | some pair => exact ⟨scan_sign_pos found, nofun⟩
  | none =>
    dsimp only
    unfold scanText scanNumber scanWord ofWord
    grind

/-- The tokens of a text, without their places. -/
def sequence (text : List Char) : List Token :=
  match _inside : text.drop (gapLength false text) with
  | [] => []
  | c :: rest => (scan c rest).1 :: sequence ((c :: rest).drop (scan c rest).2)
termination_by text.length
decreasing_by
  have taken := (scan_proper c rest).1
  have left := congrArg List.length _inside
  simp only [List.length_drop, List.length_cons] at left ⊢
  omega

theorem sequence_eq_nil {text : List Char} (blank : text.drop (gapLength false text) = []) :
    sequence text = [] := by
  unfold sequence
  split
  · rfl
  · rename_i c rest inside
    rw [blank] at inside
    cases inside

theorem sequence_eq_cons {text : List Char} {c : Char} {rest : List Char}
    (here : text.drop (gapLength false text) = c :: rest) :
    sequence text = (scan c rest).1 :: sequence ((c :: rest).drop (scan c rest).2) := by
  rw [sequence]
  split
  · rename_i inside
    rw [here] at inside
    cases inside
  · rename_i d more inside
    rw [here] at inside
    cases inside
    rfl

end Token

namespace Cursor

theorem next_of_nil {c : Cursor} (blank : c.rest.drop (gapLength false c.rest) = []) :
    c.next.1.token = .endOfFile := by
  have empty : c.skipGap.rest = [] := by rw [skipGap, rest_skip, blank]
  unfold next
  dsimp only
  rw [empty]

theorem next_of_cons {c : Cursor} {ch : Char} {rest : List Char}
    (here : c.rest.drop (gapLength false c.rest) = ch :: rest) :
    c.next.1.token = (Token.scan ch rest).1 ∧
      c.next.2.rest = (ch :: rest).drop (Token.scan ch rest).2 := by
  have front : c.skipGap.rest = ch :: rest := by rw [skipGap, rest_skip, here]
  unfold next
  dsimp only
  rw [front]
  dsimp only
  rw [rest_skip, front]
  exact ⟨rfl, rfl⟩

/-- A token takes at least one of the characters that are left. -/
theorem length_rest_next_lt {c : Cursor} {ch : Char} {rest : List Char}
    (here : c.rest.drop (gapLength false c.rest) = ch :: rest) :
    c.next.2.rest.length < c.rest.length := by
  have taken := (Token.scan_proper ch rest).1
  have behind := congrArg List.length here
  rw [(next_of_cons here).2]
  simp only [List.length_drop, List.length_cons] at behind ⊢
  omega

/-- With fuel for the characters that are left, a cursor collects all their tokens. -/
theorem tokens_collect (n : Nat) (c : Cursor) (read : List SpannedToken)
    (enough : c.rest.length ≤ n) :
    (c.collect n read).1.map (·.token) =
      (Token.sequence c.rest).reverse ++ read.map (·.token) := by
  induction n generalizing c read with
  | zero =>
    have empty : c.rest = [] := List.eq_nil_of_length_eq_zero (Nat.le_zero.mp enough)
    rw [empty, Token.sequence_eq_nil rfl]
    rfl
  | succ n ih =>
    unfold collect
    dsimp only
    cases here : c.rest.drop (gapLength false c.rest) with
    | nil =>
      rw [if_pos (next_of_nil here), Token.sequence_eq_nil here]
      rfl
    | cons ch rest =>
      obtain ⟨token, left⟩ := next_of_cons here
      have proper := (Token.scan_proper ch rest).2
      have shorter := length_rest_next_lt here
      rw [if_neg (token ▸ proper), ih _ _ (by omega), Token.sequence_eq_cons here, left,
        List.map_cons, token, List.reverse_cons, List.append_assoc, List.singleton_append]

/-- A cursor reads the tokens of the text in front of it. -/
theorem tokens_eq_sequence (c : Cursor) :
    c.tokens.1.map (·.token) = Token.sequence c.rest := by
  unfold tokens
  dsimp only
  rw [List.map_reverse, tokens_collect _ _ _ (Nat.le_refl _), List.map_nil, List.append_nil,
    List.reverse_reverse]

end Cursor

namespace Token

@[simp] theorem sequence_nil : sequence [] = [] := sequence_eq_nil rfl

/-- A blank only separates. -/
theorem sequence_blank {c : Char} (blank : isBlank c) (text : List Char) :
    sequence (c :: text) = sequence text := by
  have gap : gapLength false (c :: text) = gapLength false text + 1 := by simp [gapLength, blank]
  cases here : text.drop (gapLength false text) with
  | nil =>
    rw [sequence_eq_nil here, sequence_eq_nil (by rw [gap, List.drop_succ_cons, here])]
  | cons d rest =>
    rw [sequence_eq_cons here, sequence_eq_cons (by rw [gap, List.drop_succ_cons, here])]

/-- What stands at the front, where there is no gap, is the first token. -/
theorem sequence_of_scan {c : Char} {rest tail : List Char} {t : Token} {size : Nat}
    (flush : gapLength false (c :: rest) = 0) (found : scan c rest = (t, size))
    (left : (c :: rest).drop size = tail) : sequence (c :: rest) = t :: sequence tail := by
  have here : (c :: rest).drop (gapLength false (c :: rest)) = c :: rest := by rw [flush]; rfl
  rw [sequence_eq_cons here, found, left]

end Token

/-- The characters that would make a longer sign, or a comment, out of a sign before them. -/
def Sign.carriedOn : Sign → Char → Bool
  | .plus, c => c = '=' || c = '+'
  | .minus, c => c = '=' || c = '-'
  | .slash, c => c = '=' || c = '/'
  | .asterisk, c | .equals, c | .bang, c | .leftAngle, c | .rightAngle, c => c = '='
  | _, _ => false

/-- A sign is recognised by its spelling, where nothing carries it on. -/
theorem Sign.scan_spelling {s : Sign} {c : Char} {cs tail : List Char}
    (spelled : s.spelling.toList = c :: cs) (stops : Stops s.carriedOn tail) :
    Sign.scan c (cs ++ tail).head? = some (s, cs.length + 1) := by
  have notEqual := stops '='
  have notPlus := stops '+'
  have notMinus := stops '-'
  cases s <;> simp [Sign.spelling] at spelled <;> obtain ⟨rfl, rfl⟩ := spelled <;>
    simp_all [Sign.scan, Sign.carriedOn]

/-- No sign starts a gap, where nothing carries it on. -/
theorem Sign.gapLength_spelling {s : Sign} {c : Char} {cs tail : List Char}
    (spelled : s.spelling.toList = c :: cs) (stops : Stops s.carriedOn tail) :
    gapLength false (c :: (cs ++ tail)) = 0 := by
  have notSlash := stops '/'
  cases s <;> simp [Sign.spelling] at spelled <;> obtain ⟨rfl, rfl⟩ := spelled <;>
    simp_all [gapLength, isBlank, Sign.carriedOn]

namespace Token

theorem sequence_sign (s : Sign) {tail : List Char} (stops : Stops s.carriedOn tail) :
    sequence (s.spelling.toList ++ tail) = .sign s :: sequence tail := by
  cases spelled : s.spelling.toList with
  | nil => cases s <;> simp [Sign.spelling] at spelled
  | cons c cs =>
    apply sequence_of_scan (Sign.gapLength_spelling spelled stops)
    · rw [scan, Sign.scan_spelling spelled stops]
    · simp

/-- No sign, quote or gap starts with a letter, a digit or an underscore. -/
theorem scan_of_isNameChar {c : Char} (letter : isNameChar c) (rest : List Char) :
    gapLength false (c :: rest) = 0 ∧
      scan c rest = if c.isDigit then scanNumber c rest else if isNameStart c then scanWord c rest
        else (.illegal (String.singleton c), 1) := by
  have other : ∀ d, isNameChar d = false → c ≠ d := by
    intro d plain same
    rw [same, plain] at letter
    cases letter
  have noSign : Sign.scan c rest.head? = none := by
    unfold Sign.scan
    split <;> first | rfl | exact absurd rfl (other _ (by decide))
  constructor
  · have notBlank : isBlank c = false := by
      simp only [isBlank, Bool.or_eq_false_iff, beq_eq_false_iff_ne]
      exact ⟨⟨⟨other _ (by decide), other _ (by decide)⟩, other _ (by decide)⟩, other _ (by decide)⟩
    have notSlash : c ≠ '/' := other _ (by decide)
    simp [gapLength, notBlank, notSlash]
  · have noQuote : ¬(c = '"' ∨ c = '\'') := by
      intro quoted
      rcases quoted with quote | quote
      · exact other _ (by decide) quote
      · exact other _ (by decide) quote
    rw [scan, noSign]
    dsimp only
    rw [if_neg noQuote]

theorem isNameChar_of_isNameStart {c : Char} (start : isNameStart c) : isNameChar c := by
  unfold isNameStart at start
  unfold isNameChar Char.isAlphanum
  grind

theorem isNameChar_of_isDigit {c : Char} (digit : c.isDigit) : isNameChar c := by
  unfold isNameChar Char.isAlphanum
  grind

/-- A digit starts no name. -/
theorem isNameStart_eq_false_of_isDigit {c : Char} (digit : c.isDigit) : isNameStart c = false := by
  have low : 48 ≤ c.val.toNat ∧ c.val.toNat ≤ 57 := by
    simpa [Char.isDigit, UInt32.le_iff_toNat_le] using digit
  have notUnderscore : c ≠ '_' := by
    rintro rfl
    exact absurd low.2 (by decide)
  have notUpper : c.isUpper = false := by
    show decide ('A'.val ≤ c.val ∧ c.val ≤ 'Z'.val) = false
    rw [decide_eq_false_iff_not, UInt32.le_iff_toNat_le]
    have first : 'A'.val.toNat = 65 := rfl
    omega
  have notLower : c.isLower = false := by
    show (decide ('a'.val ≤ c.val) && decide (c.val ≤ 'z'.val)) = false
    rw [Bool.and_eq_false_iff, decide_eq_false_iff_not, UInt32.le_iff_toNat_le]
    have first : 'a'.val.toNat = 97 := rfl
    omega
  have notAlpha : c.isAlpha = false := by
    show (c.isUpper || c.isLower) = false
    rw [notUpper, notLower]
    rfl
  rw [isNameStart, notAlpha, beq_eq_false_iff_ne.mpr notUnderscore]
  rfl

/-- A row of name characters that nothing carries on is one word. -/
theorem sequence_word {c : Char} {cs tail : List Char} (start : isNameStart c)
    (chars : ∀ d ∈ cs, isNameChar d) (stops : Stops isNameChar tail) :
    sequence (c :: cs ++ tail) = ofWord (String.ofList (c :: cs)) :: sequence tail := by
  obtain ⟨flush, found⟩ := scan_of_isNameChar (isNameChar_of_isNameStart start) (cs ++ tail)
  have noDigit : ¬c.isDigit := by
    intro digit
    rw [isNameStart_eq_false_of_isDigit digit] at start
    cases start
  rw [if_neg noDigit, if_pos start, scanWord] at found
  rw [takeWhile_append_of_stops chars stops] at found
  exact sequence_of_scan flush found (by simp)

/-- Digits and dots behind a digit that nothing carries on are one number, and a dot tells its
kind. -/
theorem sequence_number {c : Char} {cs tail : List Char} (digit : c.isDigit)
    (numbers : ∀ d ∈ cs, isNumberChar d) (stops : Stops isNumberChar tail) :
    sequence (c :: cs ++ tail) =
      (if (c :: cs).contains '.' then .float (String.ofList (c :: cs))
        else .integer (String.ofList (c :: cs))) :: sequence tail := by
  obtain ⟨flush, found⟩ := scan_of_isNameChar (isNameChar_of_isDigit digit) (cs ++ tail)
  have number : scan c (cs ++ tail) = (if (c :: cs).contains '.' then
      .float (String.ofList (c :: cs)) else .integer (String.ofList (c :: cs)),
      (c :: cs).length) := by
    rw [found, if_pos digit, scanNumber, takeWhile_append_of_stops numbers stops]
    split <;> rfl
  exact sequence_of_scan flush number (by simp)

/-- A row of digits that nothing carries on is one integer. -/
theorem sequence_digits {digits tail : List Char} (nonempty : digits ≠ [])
    (passed : ∀ d ∈ digits, d.isDigit) (stops : Stops isNumberChar tail) :
    sequence (digits ++ tail) = .integer (String.ofList digits) :: sequence tail := by
  cases digits with
  | nil => exact absurd rfl nonempty
  | cons c cs =>
    have numbers : ∀ d ∈ cs, isNumberChar d := by
      intro d member
      simp [isNumberChar, passed d (List.mem_cons_of_mem _ member)]
    have noDot : (c :: cs).contains '.' = false := by
      rw [List.contains_eq_mem, decide_eq_false_iff_not]
      intro member
      exact absurd (passed '.' member) (by decide)
    rw [sequence_number (passed c List.mem_cons_self) numbers stops, noDot]
    rfl

/-- A stretch of text reads as some words, in front of whatever does not carry it on. -/
def Spelled (carriedOn : Char → Bool) (text : List Char) (words : List Token) : Prop :=
  ∀ tail, Stops carriedOn tail → sequence (text ++ tail) = words ++ sequence tail

namespace Spelled

variable {carriedOn carriedOn' : Char → Bool} {text text' : List Char} {words words' : List Token}

theorem nil : Spelled carriedOn [] [] := by
  intro tail _
  rfl

theorem sign (s : Sign) : Spelled s.carriedOn s.spelling.toList [.sign s] := by
  intro tail stops
  exact sequence_sign s stops

theorem blank : Spelled (fun _ => false) [' '] [] := by
  intro tail _
  exact sequence_blank rfl tail

theorem weaken (spelled : Spelled carriedOn text words)
    (more : ∀ c, carriedOn c = true → carriedOn' c = true) : Spelled carriedOn' text words := by
  intro tail stops
  exact spelled tail (stops.mono more)

/-- Two stretches may stand side by side if the second does not carry the first one on. -/
theorem append (first : Spelled carriedOn text words) (second : Spelled carriedOn' text' words')
    (apart : ∀ tail, Stops carriedOn' tail → Stops carriedOn (text' ++ tail)) :
    Spelled carriedOn' (text ++ text') (words ++ words') := by
  intro tail stops
  rw [List.append_assoc, first _ (apart tail stops), second _ stops, List.append_assoc]

theorem append_cons {c : Char} (first : Spelled carriedOn text words)
    (second : Spelled carriedOn' (c :: text') words') (apart : carriedOn c = false) :
    Spelled carriedOn' (text ++ c :: text') (words ++ words') :=
  first.append second fun _ _ => Stops.cons apart _

theorem append_sign {c : Char} {s : Sign} (first : Spelled carriedOn text words)
    (spelled : s.spelling.toList = [c]) (apart : carriedOn c = false) :
    Spelled s.carriedOn (text ++ [c]) (words ++ [.sign s]) :=
  first.append_cons (spelled ▸ sign s) apart

theorem sign_append {c : Char} {s : Sign} (second : Spelled carriedOn text words)
    (spelled : s.spelling.toList = [c]) (apart : ∀ d, s.carriedOn d = false) :
    Spelled carriedOn (c :: text) (.sign s :: words) :=
  (spelled ▸ sign s).append second fun _ _ d _ => apart d

end Spelled

end Token

end Scripting
