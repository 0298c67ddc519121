import Scripting.Proofs.Layout

/-!
# Texts joined by a line feed

A line feed carries nothing on: it ends a comment and stands in no sign, word or number. Only an
open quote would reach across it. So where every word of the first of two texts is proper, the
words of both texts with a line feed between them are the words of one and then of the other.
-/

namespace Scripting

/-- The token is a word of the language, neither a stretch that is none nor the end of the text. -/
def Token.isProper : Token → Bool
  | illegal _ | endOfFile => false
  | _ => true

theorem Token.isProper_eq_false {t : Token} (improper : t.isProper = false) :
    (∃ source, t = .illegal source) ∨ t = .endOfFile := by
  cases t with
  | illegal source => exact .inl ⟨source, rfl⟩
  | endOfFile => exact .inr rfl
  | _ => cases improper

/-- What is no word of the language is none of its words. -/
theorem Token.ne_of_isProper {t word : Token} (improper : t.isProper = false)
    (proper : word.isProper) : t ≠ word := by
  rintro rfl
  rw [proper] at improper
  cases improper

section Gaps

variable {inComment : Bool} {text : List Char}

/-- Whether a character belongs to a gap, and to a comment, does not hang on a line feed further
on. -/
theorem gapLength_cons_newline (inComment : Bool) (c : Char) (cs tail : List Char) :
    (∃ inside, gapLength inComment (c :: cs) = gapLength inside cs + 1 ∧
      gapLength inComment (c :: (cs ++ '\n' :: tail)) =
        gapLength inside (cs ++ '\n' :: tail) + 1) ∨
      (gapLength inComment (c :: cs) = 0 ∧
        gapLength inComment (c :: (cs ++ '\n' :: tail)) = 0) := by
  have second : ((cs ++ '\n' :: tail).head? == some '/') = (cs.head? == some '/') := by
    cases cs <;> rfl
  simp only [gapLength.eq_2, second]
  split
  · exact .inl ⟨_, rfl, rfl⟩
  · split
    · exact .inl ⟨_, rfl, rfl⟩
    · split
      · exact .inl ⟨_, rfl, rfl⟩
      · exact .inr ⟨rfl, rfl⟩

/-- A gap that ends inside a text ends at the same place when a line feed follows the text. -/
theorem gapLength_append_of_lt (short : gapLength inComment text < text.length)
    (tail : List Char) :
    gapLength inComment (text ++ '\n' :: tail) = gapLength inComment text := by
  induction text generalizing inComment with
  | nil => cases short
  | cons c cs ih =>
    rw [List.cons_append]
    rcases gapLength_cons_newline inComment c cs tail with ⟨inside, alone, joined⟩ | ⟨alone, joined⟩
    · rw [alone, List.length_cons] at short
      rw [alone, joined, ih (by omega)]
    · rw [alone, joined]

/-- A gap that takes up a whole text goes on through a line feed after it. -/
theorem gapLength_append_of_le (whole : text.length ≤ gapLength inComment text)
    (tail : List Char) :
    gapLength inComment (text ++ '\n' :: tail) = text.length + (gapLength false tail + 1) := by
  induction text generalizing inComment with
  | nil => cases inComment <;> simp [gapLength.eq_2, isBlank]
  | cons c cs ih =>
    rw [List.cons_append]
    rcases gapLength_cons_newline inComment c cs tail with ⟨inside, alone, joined⟩ | ⟨alone, joined⟩
    · rw [alone, List.length_cons] at whole
      rw [joined, ih (by omega), List.length_cons]
      omega
    · rw [alone, List.length_cons] at whole
      omega

end Gaps

/-- No sign is carried on by a line feed. -/
theorem Sign.scan_newline (c : Char) : Sign.scan c (some '\n') = Sign.scan c none := by
  unfold Sign.scan
  split <;> rfl

/-- What stands in front of a line feed is read on up to the line feed at most. -/
theorem takeWhile_newline {test : Char → Bool} (stops : test '\n' = false)
    (text tail : List Char) : (text ++ '\n' :: tail).takeWhile test = text.takeWhile test := by
  rw [List.takeWhile_append]
  split
  · rw [List.takeWhile_cons_of_neg (by rw [stops]; decide), List.append_nil]
    exact (List.IsPrefix.eq_of_length (List.takeWhile_prefix test) ‹_›).symm
  · rfl

namespace Token

/-- A text that closes is the same text whatever follows. -/
theorem scanText_append {quote : Char} {rest : List Char}
    (proper : (scanText quote rest).1.isProper) (tail : List Char) :
    scanText quote (rest ++ tail) = scanText quote rest := by
  unfold scanText at proper ⊢
  dsimp only at proper ⊢
  by_cases closed : (rest.takeWhile (· != quote)).length < rest.length
  · have same : (rest ++ tail).takeWhile (· != quote) = rest.takeWhile (· != quote) := by
      rw [List.takeWhile_append, if_neg (by omega)]
    rw [same, if_pos closed, if_pos (by rw [List.length_append]; omega)]
  · rw [if_neg closed] at proper
    cases proper

/-- A proper token in front of a line feed is the same token as at the end of the text. -/
theorem scan_newline {c : Char} {rest : List Char} (proper : (scan c rest).1.isProper)
    (tail : List Char) : scan c (rest ++ '\n' :: tail) = scan c rest := by
  have sign : Sign.scan c (rest ++ '\n' :: tail).head? = Sign.scan c rest.head? := by
    cases rest with
    | nil => exact Sign.scan_newline c
    | cons d ds => rfl
  unfold scan at proper ⊢
  rw [sign]
  cases found : Sign.scan c rest.head? with
  | some pair => rfl
  | none =>
    rw [found] at proper
    dsimp only at proper ⊢
    by_cases quoted : c = '"' ∨ c = '\''
    · rw [if_pos quoted] at proper ⊢
      rw [if_pos quoted, scanText_append proper]
    · rw [if_neg quoted, if_neg quoted]
      unfold scanNumber scanWord
      rw [takeWhile_newline (by decide), takeWhile_newline (by decide)]

/-- A token takes no more characters than there are. -/
theorem scan_size_le (c : Char) (rest : List Char) : (scan c rest).2 ≤ (c :: rest).length := by
  have front (test : Char → Bool) : (rest.takeWhile test).length ≤ rest.length :=
    (List.takeWhile_prefix test).length_le
  unfold scan
  cases found : Sign.scan c rest.head? with
  | some pair =>
    obtain ⟨s, size⟩ := pair
    rcases Sign.spelling_of_scan found with ⟨rfl, _⟩ | ⟨d, second, rfl, _⟩
    · exact Nat.le_add_left 1 rest.length
    · cases rest with
      | nil => cases second
      | cons e es => exact Nat.le_add_left 2 es.length
  | none =>
    have number := front isNumberChar
    have word := front isNameChar
    have text := front (· != c)
    dsimp only
    unfold scanText scanNumber scanWord
    grind

/-- The words of two texts with a line feed between them. -/
theorem sequence_append_newline {text : List Char} (proper : ∀ t ∈ sequence text, t.isProper)
    (tail : List Char) : sequence (text ++ '\n' :: tail) = sequence text ++ sequence tail := by
  induction size : text.length using Nat.strongRecOn generalizing text with
  | ind n ih =>
    subst size
    cases here : text.drop (gapLength false text) with
    | nil =>
      have whole : text.length ≤ gapLength false text := List.drop_eq_nil_iff.mp here
      have past : (text ++ '\n' :: tail).drop (gapLength false (text ++ '\n' :: tail)) =
          tail.drop (gapLength false tail) := by
        rw [gapLength_append_of_le whole, List.drop_length_add_append, List.drop_succ_cons]
      rw [sequence_eq_nil here, List.nil_append]
      cases behind : tail.drop (gapLength false tail) with
      | nil => rw [sequence_eq_nil behind, sequence_eq_nil (past.trans behind)]
      | cons c rest => rw [sequence_eq_cons behind, sequence_eq_cons (past.trans behind)]
    | cons c rest =>
      have short : gapLength false text < text.length := by
        have left := congrArg List.length here
        rw [List.length_drop, List.length_cons] at left
        omega
      rw [sequence_eq_cons here] at proper
      have same := scan_newline (proper _ List.mem_cons_self) tail
      have joined : (text ++ '\n' :: tail).drop (gapLength false (text ++ '\n' :: tail)) =
          c :: (rest ++ '\n' :: tail) := by
        rw [gapLength_append_of_lt short, List.drop_append_of_le_length (Nat.le_of_lt short), here,
          List.cons_append]
      have shorter : ((c :: rest).drop (scan c rest).2).length < text.length := by
        have taken := (scan_proper c rest).1
        have left := congrArg List.length here
        simp only [List.length_drop, List.length_cons] at left ⊢
        omega
      rw [sequence_eq_cons here, sequence_eq_cons joined, same, ← List.cons_append,
        List.drop_append_of_le_length (scan_size_le c rest),
        ih _ shorter (fun t member => proper t (List.mem_cons_of_mem _ member)) rfl,
        List.cons_append]

end Token

end Scripting
