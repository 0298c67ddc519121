import Scripting.Proofs.Lexing

/-!
# How a source is laid out

Reading the tokens of a source loses nothing: the source is the words of the tokens with gaps around
them, `Layout`. A gap is made of blanks and comments, and a word is what its token is written as.
-/

namespace Scripting

/-- The text is made of blanks and comments, and stands in front of `tail`. A comment runs up to a
line feed, which it leaves out, or to the end of everything. -/
inductive Gap (tail : List Char) : List Char → Prop where
  | nil : Gap tail []
  | blank {c : Char} {gap : List Char} : c ∈ [' ', '\t', '\r', '\n'] → Gap tail gap →
      Gap tail (c :: gap)
  | comment {body gap : List Char} : '\n' ∉ body → (∀ c ∈ (gap ++ tail).head?, c = '\n') →
      Gap tail gap → Gap tail ('/' :: '/' :: (body ++ gap))

/-- The word is what the token is written as. A text stands between quotes of one kind, and that
quote does not occur in it. -/
def Token.IsWrittenAs : Token → List Char → Prop
  | .text s, word => ∃ q, (q = '"' ∨ q = '\'') ∧ q ∉ s.toList ∧ word = q :: (s.toList ++ [q])
  | t, word => word = t.literal.toList

/-- The text between the two ends of a span. There is none if an end lies inside a character. -/
def Span.textIn (source : List Char) (s : Span) : Option (List Char) :=
  (Text.dropBytes s.start.byte source).bind fun rest =>
    (Text.dropBytes (s.stop.byte - s.start.byte) rest).map fun tail =>
      rest.take (rest.length - tail.length)

/-- What comes after `before` in the source is laid out as the tokens: a gap, the word of the first
token, which is the text of its span, and so on up to a last gap. -/
inductive Layout (source : List Char) : List Char → List SpannedToken → Prop where
  | last {before gap : List Char} : source = before ++ gap → Gap [] gap → Layout source before []
  | token {before gap word rest : List Char} {t : SpannedToken} {ts : List SpannedToken} :
      source = before ++ gap ++ word ++ rest → Gap (word ++ rest) gap → word ≠ [] →
      t.token.IsWrittenAs word → t.span.textIn source = some word →
      Layout source (before ++ gap ++ word) ts → Layout source before (t :: ts)

/-! ### Gaps -/

theorem isBlank_iff {c : Char} : isBlank c ↔ c ∈ [' ', '\t', '\r', '\n'] := by
  simp only [isBlank, Bool.or_eq_true, beq_iff_eq, List.mem_cons, List.not_mem_nil, or_false]
  grind

/-- A text whose front is the rest of a comment, and then a gap. -/
def CommentThenGap (tail text : List Char) : Prop :=
  ∃ body gap, text = body ++ gap ∧ '\n' ∉ body ∧ Gap tail gap ∧
    ∀ c ∈ (gap ++ tail).head?, c = '\n'

/-- `gapLength` measures a gap, and inside a comment the rest of the comment with the gap after
it. -/
theorem gap_take (text : List Char) :
    Gap (text.drop (gapLength false text)) (text.take (gapLength false text)) ∧
      CommentThenGap (text.drop (gapLength true text)) (text.take (gapLength true text)) := by
  induction text with
  | nil => exact ⟨.nil, [], [], rfl, nofun, .nil, nofun⟩
  | cons c cs ih =>
    obtain ⟨outside, inside⟩ := ih
    constructor
    · rw [gapLength]
      simp only [Bool.false_eq_true, if_false]
      split
      · rename_i blank
        exact .blank (isBlank_iff.mp blank) outside
      · split
        · rename_i slashes
          obtain ⟨rfl, second⟩ : c = '/' ∧ cs.head? = some '/' := by simpa using slashes
          obtain ⟨ds, rfl⟩ := List.head?_eq_some_iff.mp second
          obtain ⟨body, gap, split, noFeed, isGap, stop⟩ := inside
          -- The second slash belongs to the comment, since it is no line feed.
          cases body with
          | nil =>
            have whole := List.take_append_drop (gapLength true ('/' :: ds)) ('/' :: ds)
            rw [split, List.nil_append] at whole
            rw [whole] at stop
            exact absurd (stop '/' rfl) (by decide)
          | cons d body =>
            have first : d = '/' := by
              have whole := List.take_append_drop (gapLength true ('/' :: ds)) ('/' :: ds)
              rw [split] at whole
              exact (List.cons.inj whole).1
            subst first
            rw [List.take_succ_cons, List.drop_succ_cons, split, List.cons_append]
            exact .comment (fun member => noFeed (List.mem_cons_of_mem _ member)) stop isGap
        · exact .nil
    · rw [gapLength]
      simp only [if_true, List.take_succ_cons, List.drop_succ_cons]
      by_cases feed : c = '\n'
      · subst feed
        refine ⟨[], '\n' :: _, rfl, nofun, .blank (by simp) outside, ?_⟩
        intro d member
        cases member
        rfl
      · obtain ⟨body, gap, split, noFeed, isGap, stop⟩ := inside
        have still : (c != '\n') = true := by simpa using feed
        rw [still]
        refine ⟨c :: body, gap, by rw [split, List.cons_append], ?_, isGap, stop⟩
        intro member
        rcases List.mem_cons.mp member with same | deeper
        · exact feed same.symm
        · exact noFeed deeper

/-! ### Words -/

/-- A sign that is found is the character, or the character and the next one. -/
theorem Sign.spelling_of_scan {c : Char} {next : Option Char} {s : Sign} {size : Nat}
    (found : Sign.scan c next = some (s, size)) :
    (size = 1 ∧ s.spelling.toList = [c]) ∨
      ∃ d, next = some d ∧ size = 2 ∧ s.spelling.toList = [c, d] := by
  unfold Sign.scan at found
  split at found <;> (repeat' split at found) <;> cases found <;> subst_vars <;>
    first | exact .inl ⟨rfl, rfl⟩ | exact .inr ⟨_, rfl, rfl, rfl⟩

theorem Sign.take_of_scan {c : Char} {rest : List Char} {s : Sign} {size : Nat}
    (found : Sign.scan c rest.head? = some (s, size)) :
    (c :: rest).take size = s.spelling.toList := by
  rcases Sign.spelling_of_scan found with ⟨rfl, spelled⟩ | ⟨d, here, rfl, spelled⟩
  · rw [spelled]
    rfl
  · obtain ⟨tail, rfl⟩ := List.head?_eq_some_iff.mp here
    rw [spelled]
    rfl

theorem Keyword.spelling_of_ofSpelling? {word : String} {k : Keyword}
    (found : Keyword.ofSpelling? word = some k) : k.spelling = word := by
  simpa using List.find?_some found

/-- Reading on while a test holds takes the characters that passed it. -/
theorem take_takeWhile_length (test : Char → Bool) (text : List Char) :
    text.take (text.takeWhile test).length = text.takeWhile test :=
  (List.prefix_iff_eq_take.mp (List.takeWhile_prefix test)).symm

/-- Where that does not reach the end, the next character fails the test. -/
theorem take_takeWhile_length_succ {test : Char → Bool} {text : List Char}
    (short : (text.takeWhile test).length < text.length) :
    ∃ c, test c = false ∧
      text.take ((text.takeWhile test).length + 1) = text.takeWhile test ++ [c] := by
  have whole := List.takeWhile_append_dropWhile (p := test) (l := text)
  have failed := List.head?_dropWhile_not test text
  cases left : text.dropWhile test with
  | nil =>
    rw [left, List.append_nil] at whole
    rw [whole] at short
    exact absurd short (Nat.lt_irrefl _)
  | cons c tail =>
    rw [left] at whole failed
    refine ⟨c, failed, ?_⟩
    generalize text.takeWhile test = front at whole
    rw [← whole, List.take_length_add_append, List.take_succ_cons, List.take_zero]

namespace Token

theorem literal_ofWord (word : String) : (ofWord word).literal = word := by
  unfold ofWord
  split
  · rename_i k found
    exact Keyword.spelling_of_ofSpelling? found
  · rfl

theorem isWrittenAs_ofWord (word : List Char) : (ofWord (String.ofList word)).IsWrittenAs word := by
  have spelled := literal_ofWord (String.ofList word)
  unfold ofWord at spelled ⊢
  split at spelled <;> simp only [IsWrittenAs, spelled, String.toList_ofList]

theorem isWrittenAs_scanText {quote : Char} (isQuote : quote = '"' ∨ quote = '\'')
    (rest : List Char) :
    (scanText quote rest).1.IsWrittenAs ((quote :: rest).take (scanText quote rest).2) := by
  unfold scanText
  dsimp only
  split
  · rename_i closed
    obtain ⟨q, failed, taken⟩ := take_takeWhile_length_succ closed
    obtain rfl : q = quote := by simpa using failed
    refine ⟨q, isQuote, ?_, ?_⟩
    · rw [String.toList_ofList]
      intro member
      simpa using List.all_eq_true.mp List.all_takeWhile q member
    · rw [String.toList_ofList, List.take_succ_cons, taken]
  · dsimp only
    rw [List.take_succ_cons, take_takeWhile_length]
    exact String.toList_ofList.symm

/-- The characters that a token takes are what it is written as. -/
theorem isWrittenAs_scan (c : Char) (rest : List Char) :
    (scan c rest).1.IsWrittenAs ((c :: rest).take (scan c rest).2) := by
  unfold scan
  split
  · rename_i s size found
    exact Sign.take_of_scan found
  · split
    · rename_i quoted
      exact isWrittenAs_scanText quoted rest
    · split
      · unfold scanNumber
        dsimp only
        split <;> simp only [IsWrittenAs, literal, String.toList_ofList, List.length_cons,
          List.take_succ_cons, take_takeWhile_length]
      · split
        · unfold scanWord
          dsimp only
          rw [List.length_cons, List.take_succ_cons, take_takeWhile_length]
          exact isWrittenAs_ofWord _
        · simp [IsWrittenAs, literal]

end Token

/-! ### Places -/

theorem Position.byte_after (p : Position) (text : List Char) :
    (p.after text).byte = p.byte + Text.byteLength text := by
  induction text generalizing p with
  | nil => rfl
  | cons c cs ih => rw [after_cons, ih, byte_advance, Text.byteLength, Nat.add_assoc]

namespace Cursor

/-- The cursor stands in the source, and its position says where. -/
structure Within (source : List Char) (c : Cursor) : Prop where
  whole : c.consumed.reverse ++ c.rest = source
  position : c.position = Position.start.after c.consumed.reverse

/-- The cursor after some calls of `next`. -/
def afterCalls (c : Cursor) : Nat → Cursor
  | 0 => c
  | n + 1 => c.next.2.afterCalls n

/-- What a call of `next` gives after some others. -/
def call (c : Cursor) (n : Nat) : SpannedToken := (c.afterCalls n).next.1

theorem call_zero (c : Cursor) : c.call 0 = c.next.1 := rfl

theorem call_succ (c : Cursor) (n : Nat) : c.call (n + 1) = c.next.2.call n := rfl

theorem map_call_range_succ (c : Cursor) (n : Nat) :
    (List.range (n + 1)).map c.call = c.next.1 :: (List.range n).map c.next.2.call := by
  rw [List.range_succ_eq_map, List.map_cons, List.map_map]
  rfl

/-- Collecting tokens is calling until the first end of file. -/
theorem collect_eq_calls {c : Cursor} {n fuel : Nat}
    (proper : ∀ k < n, (c.call k).token ≠ .endOfFile) (ended : (c.call n).token = .endOfFile)
    (enough : n ≤ fuel) (read : List SpannedToken) :
    (c.collect fuel read).1 = ((List.range n).map c.call).reverse ++ read := by
  induction n generalizing c fuel read with
  | zero =>
    cases fuel with
    | zero => rfl
    | succ fuel =>
      rw [call_zero] at ended
      unfold collect
      dsimp only
      rw [if_pos ended]
      rfl
  | succ n ih =>
    obtain ⟨fuel, rfl⟩ : ∃ m, fuel = m + 1 := ⟨fuel - 1, by omega⟩
    have first := proper 0 (by omega)
    rw [call_zero] at first
    unfold collect
    dsimp only
    rw [if_neg first, ih (fun k small => proper (k + 1) (by omega)) ended (by omega)]
    rw [map_call_range_succ, List.reverse_cons, List.append_assoc, List.singleton_append]

namespace Within

variable {source : List Char} {c : Cursor}

theorem ofString (source : String) : Within source.toList (Cursor.ofString source) := ⟨rfl, rfl⟩

theorem skip (within : Within source c) (n : Nat) : Within source (c.skip n) where
  whole := by
    rw [consumed_skip, rest_skip, List.reverse_append, List.reverse_reverse, List.append_assoc,
      List.take_append_drop]
    exact within.whole
  position := by
    rw [position_skip, consumed_skip, List.reverse_append, List.reverse_reverse,
      Position.after_append, within.position]

theorem byte_position (within : Within source c) :
    c.position.byte = Text.byteLength c.consumed.reverse := by
  rw [within.position, Position.byte_after]
  exact Nat.zero_add _

/-- What a cursor moves over is the text between its two positions. -/
theorem textIn_skip (within : Within source c) (n : Nat) :
    Span.textIn source ⟨c.position, (c.skip n).position⟩ = some (c.rest.take n) := by
  have size : (c.skip n).position.byte - c.position.byte = Text.byteLength (c.rest.take n) := by
    rw [position_skip, Position.byte_after, Nat.add_sub_cancel_left]
  have front : Text.dropBytes c.position.byte source = some c.rest := by
    rw [within.byte_position, ← within.whole]
    exact Text.dropBytes_byteLength_append _ _
  have back : Text.dropBytes (Text.byteLength (c.rest.take n)) c.rest = some (c.rest.drop n) := by
    have cut := Text.dropBytes_byteLength_append (c.rest.take n) (c.rest.drop n)
    rwa [List.take_append_drop] at cut
  unfold Span.textIn
  dsimp only
  rw [size, front, Option.bind_some, back, Option.map_some, List.length_drop]
  congr 1
  by_cases inside : n ≤ c.rest.length
  · rw [Nat.sub_sub_self inside]
  · rw [List.take_of_length_le (by omega), List.take_of_length_le (by omega)]

/-- Where nothing but a gap is left, a call gives the end of the source, and leaves nothing. -/
theorem next_blank (within : Within source c) (blank : c.rest.drop (gapLength false c.rest) = []) :
    c.next.1 = ⟨.endOfFile, .empty (Position.start.after source)⟩ ∧ c.next.2.rest = [] ∧
      Within source c.next.2 := by
  have moved : Within source c.skipGap := within.skip _
  have empty : c.skipGap.rest = [] := by rw [skipGap, rest_skip, blank]
  have final : c.skipGap.position = Position.start.after source := by
    rw [moved.position, ← moved.whole, empty, List.append_nil]
  unfold next
  dsimp only
  rw [empty]
  exact ⟨by rw [← final], empty, moved⟩

/-- From there on every call gives the end of the source. -/
theorem call_blank (within : Within source c) (blank : c.rest.drop (gapLength false c.rest) = [])
    (n : Nat) : c.call n = ⟨.endOfFile, .empty (Position.start.after source)⟩ := by
  induction n generalizing c with
  | zero => exact (within.next_blank blank).1
  | succ n ih =>
    obtain ⟨_, empty, moved⟩ := within.next_blank blank
    rw [call_succ]
    exact ih moved (by rw [empty]; rfl)

/-- Elsewhere a call passes the gap and the word behind it, and the word is the text of the
span. -/
theorem next_word (within : Within source c) {ch : Char} {rest : List Char}
    (here : c.rest.drop (gapLength false c.rest) = ch :: rest) :
    c.next.1.span.textIn source = some ((ch :: rest).take (Token.scan ch rest).2) ∧
      c.next.2.consumed.reverse = c.consumed.reverse ++ c.rest.take (gapLength false c.rest) ++
        (ch :: rest).take (Token.scan ch rest).2 ∧
      Within source c.next.2 := by
  have moved : Within source c.skipGap := within.skip _
  have front : c.skipGap.rest = ch :: rest := by rw [skipGap, rest_skip, here]
  have spanned := moved.textIn_skip (Token.scan ch rest).2
  have after := moved.skip (Token.scan ch rest).2
  have read : (c.skipGap.skip (Token.scan ch rest).2).consumed.reverse = c.consumed.reverse ++
      c.rest.take (gapLength false c.rest) ++ (ch :: rest).take (Token.scan ch rest).2 := by
    rw [consumed_skip, front, skipGap, consumed_skip]
    simp
  rw [front] at spanned
  unfold next
  dsimp only
  rw [front]
  exact ⟨spanned, read, after⟩

end Within

/-- The calls before the first end of the source give the tokens that are laid out in it, and the
calls from then on give the end. -/
structure CallsLayOut (source : List Char) (c : Cursor) (n : Nat) : Prop where
  layout : Layout source c.consumed.reverse ((List.range n).map c.call)
  proper : ∀ k < n, (c.call k).token ≠ .endOfFile
  ended : ∀ k, n ≤ k → c.call k = ⟨.endOfFile, .empty (Position.start.after source)⟩

namespace CallsLayOut

variable {source : List Char} {c : Cursor} {n : Nat}

theorem of_blank (within : Within source c)
    (blank : c.rest.drop (gapLength false c.rest) = []) : CallsLayOut source c 0 where
  layout := by
    obtain ⟨gap, _⟩ := gap_take c.rest
    have all : c.rest.take (gapLength false c.rest) = c.rest := by
      have whole := List.take_append_drop (gapLength false c.rest) c.rest
      rwa [blank, List.append_nil] at whole
    rw [blank, all] at gap
    exact .last within.whole.symm gap
  proper := nofun
  ended k _ := within.call_blank blank k

theorem of_word (within : Within source c) {ch : Char} {rest : List Char}
    (here : c.rest.drop (gapLength false c.rest) = ch :: rest)
    (later : CallsLayOut source c.next.2 n) : CallsLayOut source c (n + 1) where
  layout := by
    obtain ⟨token, left⟩ := next_of_cons here
    obtain ⟨spanned, read, after⟩ := within.next_word here
    obtain ⟨taken, _⟩ := Token.scan_proper ch rest
    obtain ⟨gap, _⟩ := gap_take c.rest
    have laid := later.layout
    have whole := after.whole
    rw [read] at laid whole
    rw [here] at gap
    rw [map_call_range_succ]
    refine .token whole.symm ?_ ?_ ?_ spanned laid
    · rw [left, List.take_append_drop]
      exact gap
    · intro empty
      rcases List.take_eq_nil_iff.mp empty with none | none
      · omega
      · cases none
    · rw [token]
      exact Token.isWrittenAs_scan ch rest
  proper := by
    intro k small
    cases k with
    | zero =>
      rw [call_zero, (next_of_cons here).1]
      exact (Token.scan_proper ch rest).2
    | succ k =>
      rw [call_succ]
      exact later.proper k (Nat.lt_of_succ_lt_succ small)
  ended := by
    intro k large
    cases k with
    | zero => cases large
    | succ k =>
      rw [call_succ]
      exact later.ended k (Nat.le_of_succ_le_succ large)

end CallsLayOut

namespace Within

variable {source : List Char} {c : Cursor}

/-- Every word takes a character, so there are at most as many tokens as characters. -/
theorem exists_callsLayOut (within : Within source c) :
    ∃ n ≤ c.rest.length, CallsLayOut source c n := by
  induction size : c.rest.length using Nat.strongRecOn generalizing c with
  | ind n ih =>
    subst size
    cases here : c.rest.drop (gapLength false c.rest) with
    | nil => exact ⟨0, Nat.zero_le _, .of_blank within here⟩
    | cons ch rest =>
      obtain ⟨_, _, after⟩ := within.next_word here
      have shorter := length_rest_next_lt here
      obtain ⟨m, few, later⟩ := ih _ shorter after rfl
      exact ⟨m + 1, Nat.lt_of_le_of_lt few shorter, .of_word within here later⟩

end Within

/-- Tokens are read without loss: the source is laid out as the tokens that the calls give before
the first end of file, which are those that `tokens` collects. From then on every call gives the
end of file, with an empty span at the end of the source. -/
theorem lexing_lossless (source : String) :
    ∃ n, (ofString source).tokens.1 = (List.range n).map (ofString source).call ∧
      Layout source.toList [] ((List.range n).map (ofString source).call) ∧
      (∀ k < n, ((ofString source).call k).token ≠ .endOfFile) ∧
      ∀ k, n ≤ k → (ofString source).call k =
        ⟨.endOfFile, .empty (Position.start.after source.toList)⟩ := by
  obtain ⟨n, few, calls⟩ := (Within.ofString source).exists_callsLayOut
  refine ⟨n, ?_, calls.layout, calls.proper, calls.ended⟩
  have ended : ((ofString source).call n).token = .endOfFile := by
    rw [calls.ended n (Nat.le_refl n)]
  unfold tokens
  dsimp only
  rw [collect_eq_calls calls.proper ended few, List.append_nil, List.reverse_reverse]

end Cursor

end Scripting
