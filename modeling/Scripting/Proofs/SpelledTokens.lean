import Scripting.Proofs.LineBreaks
import Scripting.Proofs.PlainText

/-!
# Tokens that are written out

Every token that can stand in a source has a spelling, a text in quotes that it avoids. Spellings
with gaps between them read as the tokens that were spelled: a gap starts with a blank, and a blank
carries nothing on. The main statement is `written_tokens_read_back`.
-/

namespace Scripting

/-- What the token holds can stand in a source. -/
def Token.Writable : Token → Prop
  | sign _ | keyword _ => True
  | identifier name => IsName name
  | integer digits => digits ≠ "" ∧ ∀ c ∈ digits.toList, c.isDigit
  | float digits => (∃ c ∈ digits.toList.head?, c.isDigit) ∧ '.' ∈ digits.toList ∧
      ∀ c ∈ digits.toList, c.isDigit ∨ c = '.'
  | text contents => '"' ∉ contents.toList ∨ '\'' ∉ contents.toList
  | illegal _ | endOfFile => False

/-- Blanks, and comments up to the line feed that ends them. -/
inductive Filler : List Char → Prop where
  | nil : Filler []
  | blank {c : Char} {gap : List Char} : c ∈ [' ', '\t', '\r', '\n'] → Filler gap →
      Filler (c :: gap)
  | comment {body gap : List Char} : '\n' ∉ body → Filler gap →
      Filler ('/' :: '/' :: (body ++ '\n' :: gap))

/-- A gap that keeps two tokens apart: it starts with a blank. -/
structure Separator (gap : List Char) : Prop where
  filler : Filler gap
  opening : ∃ c ∈ gap.head?, c ∈ [' ', '\t', '\r', '\n']

/-- The tokens are written in this way, with a gap between each two of them. -/
inductive WrittenOut : List Token → List Char → Prop where
  | nil : WrittenOut [] []
  | last {t : Token} {word : List Char} : t.IsWrittenAs word → WrittenOut [t] word
  | next {t u : Token} {ts : List Token} {word gap rest : List Char} : t.IsWrittenAs word →
      Separator gap → WrittenOut (u :: ts) rest → WrittenOut (t :: u :: ts) (word ++ (gap ++ rest))

/-! ## Gaps -/

/-- A comment without its line feed is all gap. -/
theorem gapLength_comment {body : List Char} (noFeed : '\n' ∉ body) :
    gapLength true body = body.length := by
  induction body with
  | nil => rfl
  | cons c cs ih =>
    simp only [List.mem_cons, not_or] at noFeed
    obtain ⟨other, later⟩ := noFeed
    have still : (c != '\n') = true := bne_iff_ne.mpr (Ne.symm other)
    rw [gapLength, if_pos rfl, still, ih later, List.length_cons]

namespace Token

theorem sequence_comment {body : List Char} (noFeed : '\n' ∉ body) (text : List Char) :
    sequence ('/' :: '/' :: (body ++ '\n' :: text)) = sequence text := by
  have gap : gapLength false ('/' :: '/' :: body) = ('/' :: '/' :: body).length := by
    have inside : '\n' ∉ '/' :: body := by simp [noFeed]
    exact congrArg (· + 1) (gapLength_comment inside)
  have blank : sequence ('/' :: '/' :: body) = [] :=
    sequence_eq_nil (by rw [gap, List.drop_length])
  have proper : ∀ t ∈ sequence ('/' :: '/' :: body), t.isProper := by simp [blank]
  have joined := sequence_append_newline proper text
  rwa [blank] at joined

theorem sequence_filler {gap : List Char} (filler : Filler gap) (text : List Char) :
    sequence (gap ++ text) = sequence text := by
  induction filler with
  | nil => rfl
  | blank blank _ ih => rw [List.cons_append, sequence_blank (isBlank_iff.mpr blank), ih]
  | @comment body gap noFeed _ ih =>
    have moved : '/' :: '/' :: (body ++ '\n' :: gap) ++ text =
        '/' :: '/' :: (body ++ '\n' :: (gap ++ text)) := by simp
    rw [moved, sequence_comment noFeed, ih]

/-! ## Spellings -/

/-- A text in quotes that it avoids is one token, whatever follows. -/
theorem sequence_quoted {q : Char} (quote : q = '"' ∨ q = '\'') {contents : List Char}
    (avoided : q ∉ contents) (tail : List Char) :
    sequence (q :: (contents ++ [q]) ++ tail) =
      .text (String.ofList contents) :: sequence tail := by
  have moved : q :: (contents ++ [q]) ++ tail = q :: (contents ++ q :: tail) := by simp
  have flush : gapLength false (q :: (contents ++ q :: tail)) = 0 := by
    rcases quote with rfl | rfl <;> simp [gapLength, isBlank]
  have noSign : Sign.scan q (contents ++ q :: tail).head? = none := by
    rcases quote with rfl | rfl <;> rfl
  have inside : (contents ++ q :: tail).takeWhile (· != q) = contents := by
    apply takeWhile_append_of_stops
    · intro c member
      exact bne_iff_ne.mpr fun same => avoided (same ▸ member)
    · exact Stops.cons (by simp) _
  have closed : contents.length < (contents ++ q :: tail).length := by simp
  have found : scan q (contents ++ q :: tail) =
      (.text (String.ofList contents), contents.length + 2) := by
    simp only [scan, noSign, if_pos quote, scanText, inside, if_pos closed]
  rw [moved]
  exact sequence_of_scan flush found (by simp)

/-- In front of a gap nothing is carried on. -/
theorem Spelled.before_gap {carriedOn : Char → Bool} {text : List Char} {words : List Token}
    (spelled : Spelled carriedOn text words) (blanks : ∀ c, isBlank c → carriedOn c = false) :
    Spelled (fun c => !isBlank c) text words := by
  apply spelled.weaken
  intro c carried
  cases blank : isBlank c with
  | false => rfl
  | true =>
    rw [blanks c blank] at carried
    cases carried

/-- A test that fails at each of the four blanks fails at all of them. -/
theorem forall_isBlank {test : Char → Bool} (space : test ' ' = false) (tab : test '\t' = false)
    (feed : test '\n' = false) (carriage : test '\r' = false) (c : Char) (blank : isBlank c) :
    test c = false := by
  have named := isBlank_iff.mp blank
  simp only [List.mem_cons, List.not_mem_nil, or_false] at named
  rcases named with rfl | rfl | rfl | rfl <;> assumption

/-- A token that can stand in a source reads as itself in front of a gap. -/
theorem Writable.spelled {t : Token} {word : List Char} (writable : t.Writable)
    (written : t.IsWrittenAs word) : Spelled (fun c => !isBlank c) word [t] := by
  have names : ∀ c, isBlank c → isNameChar c = false := forall_isBlank rfl rfl rfl rfl
  have numbers : ∀ c, isBlank c → isNumberChar c = false := forall_isBlank rfl rfl rfl rfl
  cases t with
  | sign s =>
    cases written
    exact (Spelled.sign s).before_gap (forall_isBlank (by cases s <;> rfl) (by cases s <;> rfl)
      (by cases s <;> rfl) (by cases s <;> rfl))
  | keyword k =>
    cases written
    exact (spelled_keyword k).before_gap names
  | identifier name =>
    cases written
    exact (spelled_name writable).before_gap names
  | integer digits =>
    cases written
    obtain ⟨nonempty, passed⟩ := writable
    have proper : digits.toList ≠ [] := fun empty => nonempty (String.toList_eq_nil_iff.mp empty)
    have spelled : Spelled isNumberChar digits.toList [.integer digits] := by
      intro tail stops
      have read := sequence_digits proper passed stops
      rwa [String.ofList_toList] at read
    exact spelled.before_gap numbers
  | float digits =>
    cases written
    obtain ⟨⟨c, first, digit⟩, dotted, chars⟩ := writable
    obtain ⟨cs, row⟩ := List.head?_eq_some_iff.mp first
    have others : ∀ d ∈ cs, isNumberChar d := by
      intro d member
      have known := chars d (row ▸ List.mem_cons_of_mem _ member)
      simpa [isNumberChar] using known
    have spelled : Spelled isNumberChar digits.toList [.float digits] := by
      intro tail stops
      have read := sequence_number digit others stops
      rw [← row, String.ofList_toList, List.contains_iff_mem.mpr dotted] at read
      exact read
    exact spelled.before_gap numbers
  | text contents =>
    obtain ⟨q, quote, avoided, rfl⟩ := written
    intro tail _
    have read := sequence_quoted quote avoided tail
    rwa [String.ofList_toList] at read
  | illegal source => exact writable.elim
  | endOfFile => exact writable.elim

theorem sequence_writtenOut {tokens : List Token} {text : List Char}
    (written : WrittenOut tokens text) (writable : ∀ t ∈ tokens, t.Writable) :
    sequence text = tokens := by
  induction written with
  | nil => exact sequence_nil
  | last word =>
    have read := (writable _ List.mem_cons_self).spelled word [] (Stops.nil _)
    rwa [List.append_nil, sequence_nil] at read
  | @next t u ts word gap rest spelling separator _ ih =>
    have stops : Stops (fun c => !isBlank c) (gap ++ rest) := by
      obtain ⟨c, front, blank⟩ := separator.opening
      obtain ⟨more, rfl⟩ := List.head?_eq_some_iff.mp front
      exact Stops.cons (by rw [isBlank_iff.mpr blank]; rfl) _
    rw [(writable t List.mem_cons_self).spelled spelling _ stops, sequence_filler separator.filler,
      ih fun v member => writable v (List.mem_cons_of_mem _ member)]
    rfl

end Token

/-- Tokens that are written out, with any gaps between them, are read back. -/
theorem written_tokens_read_back {tokens : List Token} {source : String}
    (writable : ∀ t ∈ tokens, t.Writable) (written : WrittenOut tokens source.toList) :
    (Cursor.ofString source).tokens.1.map (·.token) = tokens := by
  rw [Cursor.tokens_eq_sequence]
  exact Token.sequence_writtenOut written writable

/-- A slash before a comment, a dot between numbers, signs that begin longer ones, a name that
begins as a keyword, and quotes and slashes within texts. -/
theorem written_tokens_read_back_of_neighbours :
    let tokens : List Token := [.keyword .letWord, .identifier "lets", .sign .slash, .sign .slashEq,
      .integer "07", .sign .dot, .float "1..", .text "it's //", .text "\"", .sign .plus,
      .sign .increment]
    let source := "let lets / //+\n\t/= 07 . 1..\r\"it's //\" '\"' + ++"
    (∀ t ∈ tokens, t.Writable) ∧ WrittenOut tokens source.toList ∧
      (Cursor.ofString source).tokens.1.map (·.token) = tokens := by
  intro tokens source
  have blank (c : Char) (member : c ∈ [' ', '\t', '\r', '\n']) : Separator [c] :=
    ⟨.blank member .nil, c, rfl, member⟩
  have space := blank ' ' (by decide)
  have comment : Separator [' ', '/', '/', '+', '\n', '\t'] :=
    ⟨.blank (by decide) (@Filler.comment ['+'] _ (by decide) (.blank (by decide) .nil)),
      ' ', rfl, by decide⟩
  have row : WrittenOut tokens _ :=
    .next (t := .keyword .letWord) rfl space <|
    .next (t := .identifier "lets") rfl space <|
    .next (t := .sign .slash) rfl comment <|
    .next (t := .sign .slashEq) rfl space <|
    .next (t := .integer "07") rfl space <|
    .next (t := .sign .dot) rfl space <|
    .next (t := .float "1..") rfl (blank '\r' (by decide)) <|
    .next (t := .text "it's //") ⟨'"', .inl rfl, by decide, rfl⟩ space <|
    .next (t := .text "\"") ⟨'\'', .inr rfl, by decide, rfl⟩ space <|
    .next (t := .sign .plus) rfl space <|
    .last (t := .sign .increment) rfl
  have written : WrittenOut tokens source.toList := by
    simpa [source, Token.literal, Keyword.spelling, Sign.spelling] using row
  have writable : ∀ t ∈ tokens, t.Writable := by
    simp only [tokens, List.forall_mem_cons]
    refine ⟨trivial, ⟨⟨'l', ['e', 't', 's'], rfl, by decide, by decide⟩, by decide⟩, trivial,
      trivial, ⟨by decide, by simp⟩, trivial, ⟨⟨'1', rfl, by decide⟩, by decide, by simp⟩,
      .inl (by decide), .inr (by decide), trivial, trivial, fun t member => ?_⟩
    cases member
  exact ⟨writable, written, written_tokens_read_back writable written⟩

end Scripting
