import Mathlib.Data.List.DropRight
import Mathlib.Data.String.Basic
import Scripting.Proofs.Layout

/-!
# Where a cursor stands

A scanner looks one or two characters ahead and takes characters, one at a time or as long as they
pass a test. `CursorOp.Takes` says of each such operation what it gives back and what it takes from
the text in front, and does not speak of cursors. A cursor carries out any row of operations in this
way, and its position is worked out from what was taken: it is the place `Position.behind` that
text. The main statement is `position_after_run`.
-/

namespace Scripting

namespace Text

/-- The bytes that are counted are those of the encoded text. -/
theorem byteLength_eq_utf8Len (cs : List Char) : byteLength cs = String.utf8Len cs := by
  induction cs with
  | nil => rfl
  | cons c cs ih => rw [byteLength, ih, String.utf8Len_cons, Nat.add_comm]

theorem byteLength_eq_utf8ByteSize (cs : List Char) :
    byteLength cs = (String.ofList cs).utf8ByteSize := by
  rw [byteLength_eq_utf8Len, String.utf8ByteSize_ofList]

/-- Only an offset at the end of a first part leaves a second part. -/
theorem dropBytes_eq_some_iff {n : Nat} {cs t : List Char} :
    dropBytes n cs = some t ↔ ∃ s, cs = s ++ t ∧ byteLength s = n := by
  constructor
  · intro dropped
    induction cs generalizing n with
    | nil =>
      cases n with
      | zero => exact ⟨[], Option.some.inj dropped, rfl⟩
      | succ n => cases dropped
    | cons c cs ih =>
      cases n with
      | zero => exact ⟨[], Option.some.inj dropped, rfl⟩
      | succ n =>
        -- The first character is dropped as a whole, or the offset lies inside it.
        rw [dropBytes] at dropped
        split at dropped
        · rename_i fits
          obtain ⟨s, rfl, size⟩ := ih dropped
          exact ⟨c :: s, rfl, by rw [byteLength, size]; omega⟩
        · cases dropped
  · rintro ⟨s, rfl, rfl⟩
    exact dropBytes_byteLength_append s t

end Text

namespace Position

/-- The place behind a text with which a source begins. The line is one more than the line feeds of
the text, and the column one more than the characters after the last of them. -/
def behind (text : List Char) : Position where
  byte := (String.ofList text).utf8ByteSize
  line := 1 + text.count '\n'
  column := 1 + (text.rtakeWhile (· != '\n')).length

/-- Every further character advances the place. -/
theorem behind_concat (text : List Char) (c : Char) :
    behind (text ++ [c]) = (behind text).advance c := by
  have size : (String.ofList (text ++ [c])).utf8ByteSize =
      (String.ofList text).utf8ByteSize + c.utf8Size := by
    rw [String.utf8ByteSize_ofList, String.utf8ByteSize_ofList, String.utf8Len_append,
      String.utf8Len_cons, String.utf8Len_nil, Nat.zero_add]
  unfold behind advance
  rw [size]
  by_cases feed : c = '\n'
  · subst feed
    rw [if_pos rfl, List.rtakeWhile_concat_neg _ _ _ (by decide), List.count_append]
    rfl
  · rw [if_neg feed, List.rtakeWhile_concat_pos _ _ _ (by simpa using feed), List.count_append,
      List.count_singleton, if_neg (by simpa using feed), List.length_append]
    rfl

/-- Keeping count character by character gives the place behind the text. -/
theorem after_start (text : List Char) : start.after text = behind text := by
  induction text using List.reverseRecOn with
  | nil => rfl
  | append_singleton text c ih => rw [after_append, ih, behind_concat, after_cons, after_nil]

example : behind "ab\né".toList = ⟨5, 2, 2⟩ := by decide

end Position

/-- What can be done with a cursor. -/
inductive CursorOp where
  | peek
  | peekSecond
  | take
  | takeIf (target : Char)
  | takeWhile (test : Char → Bool)

/-- What an operation gives back. -/
inductive CursorAnswer where
  /-- A character, if there is one. -/
  | character (c : Option Char)
  /-- Whether something was taken. -/
  | taken (whether : Bool)
  | done

namespace CursorOp

/-- What an operation gives back in front of a text, which word it takes, and what it leaves. -/
inductive Takes : CursorOp → List Char → CursorAnswer → List Char → List Char → Prop where
  | peek (text : List Char) : Takes .peek text (.character text[0]?) [] text
  | peekSecond (text : List Char) : Takes .peekSecond text (.character text[1]?) [] text
  | take (c : Char) (tail : List Char) : Takes .take (c :: tail) (.character (some c)) [c] tail
  | takeAtEnd : Takes .take [] (.character none) [] []
  | takeIf (c : Char) (tail : List Char) : Takes (.takeIf c) (c :: tail) (.taken true) [c] tail
  | takeIfNot {target : Char} {text : List Char} : text.head? ≠ some target →
      Takes (.takeIf target) text (.taken false) [] text
  /-- The word passes the test, and what is left starts with a character that does not, or is
  empty. -/
  | takeWhile {test : Char → Bool} {word tail : List Char} : (∀ c ∈ word, test c) →
      Stops test tail → Takes (.takeWhile test) (word ++ tail) .done word tail

/-- The same for operations in turn. -/
inductive TakesAll :
    List CursorOp → List Char → List CursorAnswer → List Char → List Char → Prop where
  | nil (text : List Char) : TakesAll [] text [] [] text
  | cons {op : CursorOp} {ops : List CursorOp} {answer : CursorAnswer}
      {answers : List CursorAnswer} {text middle tail word words : List Char} :
      Takes op text answer word middle → TakesAll ops middle answers words tail →
      TakesAll (op :: ops) text (answer :: answers) (word ++ words) tail

end CursorOp

namespace Cursor

open CursorOp (Takes TakesAll)

/-- Carries out one operation. Looking ahead leaves the cursor where it is. -/
def step (c : Cursor) : CursorOp → CursorAnswer × Cursor
  | .peek => (.character c.peek, c)
  | .peekSecond => (.character c.peekSecond, c)
  | .take => (.character c.take.1, c.take.2)
  | .takeIf target => (.taken (c.takeIf target).1, (c.takeIf target).2)
  | .takeWhile test => (.done, c.takeWhile test)

/-- Carries out operations in turn, and gives back their answers. -/
def run : Cursor → List CursorOp → List CursorAnswer × Cursor
  | c, [] => ([], c)
  | c, op :: ops => ((c.step op).1 :: (run (c.step op).2 ops).1, (run (c.step op).2 ops).2)

/-! ### Reading on while a test holds -/

theorem skip_succ {c : Cursor} {ch : Char} {tail : List Char} (here : c.rest = ch :: tail)
    (n : Nat) : c.skip (n + 1) = (c.skip 1).skip n := by
  simp only [skip, here]

theorem rest_take_of_cons {c : Cursor} {ch : Char} {tail : List Char}
    (here : c.rest = ch :: tail) : c.take.2.rest = tail := by
  rw [take, rest_skip, here, List.drop_succ_cons, List.drop_zero]

section TakeWhile

variable {test : Char → Bool} {c : Cursor}

/-- A round takes a character that passes, and goes on from there. -/
theorem takeWhile_of_pass {ch : Char} {tail : List Char} (here : c.rest = ch :: tail)
    (passed : test ch) : c.takeWhile test = c.take.2.takeWhile test := by
  have left := rest_take_of_cons here
  unfold takeWhile
  rw [left, here, List.takeWhile_cons_of_pos passed, List.length_cons, skip_succ here]
  rfl

/-- There is no round in front of a character that fails, or at the end. -/
theorem takeWhile_of_stops (stops : Stops test c.rest) : c.takeWhile test = c := by
  have passed : ∀ ch ∈ ([] : List Char), test ch := nofun
  have none : c.rest.takeWhile test = [] := takeWhile_append_of_stops passed stops
  unfold takeWhile
  rw [none]
  rfl

/-- The rounds take the characters that pass, up to the first one that fails. -/
theorem exists_takeWhile (test : Char → Bool) (c : Cursor) :
    ∃ n, c.takeWhile test = c.skip n ∧ (∀ ch ∈ c.rest.take n, test ch) ∧
      Stops test (c.rest.drop n) := by
  -- By induction on what is left, of which each round takes one character.
  generalize here : c.rest = rest
  induction rest generalizing c with
  | nil => exact ⟨0, takeWhile_of_stops (here ▸ .nil test), nofun, .nil test⟩
  | cons ch tail ih =>
    cases passed : test ch with
    | false =>
      have stops : Stops test (ch :: tail) := .cons passed tail
      exact ⟨0, takeWhile_of_stops (here ▸ stops), nofun, stops⟩
    | true =>
      obtain ⟨n, moved, word, stops⟩ := ih c.take.2 (rest_take_of_cons here)
      refine ⟨n + 1, ?_, ?_, stops⟩
      · rw [takeWhile_of_pass here passed, moved, skip_succ here]
        rfl
      · rw [List.take_succ_cons]
        exact List.forall_mem_cons.mpr ⟨passed, word⟩

end TakeWhile

/-! ### Operations -/

/-- An operation moves the cursor over the characters that it takes. -/
theorem takes_step (c : Cursor) (op : CursorOp) :
    ∃ n, (c.step op).2 = c.skip n ∧
      Takes op c.rest (c.step op).1 (c.rest.take n) (c.rest.drop n) := by
  cases op with
  | peek =>
    refine ⟨0, rfl, ?_⟩
    rw [step, peek, List.head?_eq_getElem?]
    exact .peek c.rest
  | peekSecond =>
    refine ⟨0, rfl, ?_⟩
    rw [step, peekSecond, List.head?_eq_getElem?, List.getElem?_tail]
    exact .peekSecond c.rest
  | take =>
    refine ⟨1, rfl, ?_⟩
    unfold step take peek
    cases c.rest with
    | nil => exact .takeAtEnd
    | cons ch tail => exact .take ch tail
  | takeIf target =>
    by_cases next : c.peek = some target
    · obtain ⟨tail, here⟩ := List.head?_eq_some_iff.mp next
      refine ⟨1, by rw [step, takeIf, if_pos next], ?_⟩
      rw [step, takeIf, if_pos next, here]
      exact .takeIf target tail
    · refine ⟨0, by rw [step, takeIf, if_neg next]; rfl, ?_⟩
      rw [step, takeIf, if_neg next]
      exact .takeIfNot next
  | takeWhile test =>
    obtain ⟨n, moved, word, stops⟩ := exists_takeWhile test c
    have takes := Takes.takeWhile word stops
    rw [List.take_append_drop] at takes
    exact ⟨n, moved, takes⟩

namespace Within

variable {source : List Char} {c : Cursor}

/-- What an operation takes is added to what was consumed, and the position keeps up. -/
theorem step (within : Within source c) (op : CursorOp) :
    ∃ word, Takes op c.rest (c.step op).1 word (c.step op).2.rest ∧
      (c.step op).2.consumed.reverse = c.consumed.reverse ++ word ∧
      Within source (c.step op).2 := by
  obtain ⟨n, moved, takes⟩ := takes_step c op
  refine ⟨c.rest.take n, ?_, ?_, ?_⟩
  · rw [moved, rest_skip]
    exact takes
  · rw [moved, consumed_skip, List.reverse_append, List.reverse_reverse]
  · rw [moved]
    exact within.skip n

/-- By induction the same holds of operations in turn. -/
theorem run (within : Within source c) (ops : List CursorOp) :
    ∃ words, TakesAll ops c.rest (c.run ops).1 words (c.run ops).2.rest ∧
      (c.run ops).2.consumed.reverse = c.consumed.reverse ++ words ∧
      Within source (c.run ops).2 := by
  induction ops generalizing c with
  | nil => exact ⟨[], .nil c.rest, (List.append_nil _).symm, within⟩
  | cons op ops ih =>
    obtain ⟨word, takes, first, moved⟩ := within.step op
    obtain ⟨words, later, rest, inside⟩ := ih moved
    refine ⟨word ++ words, .cons takes later, ?_, inside⟩
    rw [← List.append_assoc, ← first]
    exact rest

end Within

/-! ### What a cursor shows -/

/-- There is a text from an offset to the cursor exactly if what was consumed can be cut at the
offset, and then it is the second part. -/
theorem lexemeFrom_eq_some_iff {c : Cursor} {start : Nat} {word : String} :
    c.lexemeFrom start = some word ↔ ∃ front, c.consumed.reverse = front ++ word.toList ∧
      (String.ofList front).utf8ByteSize = start := by
  have same (text : List Char) : String.ofList text = word ↔ text = word.toList := by
    rw [← String.ofList_inj, String.ofList_toList]
  simp only [lexemeFrom, Option.map_eq_some_iff, same, exists_eq_right, Text.dropBytes_eq_some_iff,
    Text.byteLength_eq_utf8ByteSize]

namespace Within

variable {source : String} {c : Cursor}

theorem byte_eq_utf8Len (within : Within source.toList c) :
    c.position.byte = String.utf8Len c.consumed.reverse := by
  rw [within.byte_position, Text.byteLength_eq_utf8Len]

/-- At the byte of the position the source goes on with what is left. -/
theorem get?_position (within : Within source.toList c) :
    String.Pos.Raw.get? source ⟨c.position.byte⟩ = c.rest.head? := by
  have there := String.get?_of_valid c.consumed.reverse c.rest
  rwa [within.whole, String.ofList_toList, ← within.byte_eq_utf8Len] at there

/-- That text is cut out of the source by the offset and the byte of the position. -/
theorem extract_lexeme (within : Within source.toList c) {start : Nat} {word : String}
    (found : c.lexemeFrom start = some word) :
    String.Pos.Raw.extract source ⟨start⟩ ⟨c.position.byte⟩ = word := by
  obtain ⟨front, taken, rfl⟩ := lexemeFrom_eq_some_iff.mp found
  have cut := String.extract_of_valid front word.toList c.rest
  rw [← taken, within.whole, String.ofList_toList, String.ofList_toList, ← String.utf8Len_append,
    ← taken, ← within.byte_eq_utf8Len] at cut
  rwa [String.utf8ByteSize_ofList]

end Within

/-- The cursor stands in a source between what it has consumed and what is left, and what it shows
follows from these two. -/
structure StandsBetween (source : String) (before rest : List Char) (c : Cursor) : Prop where
  whole : source.toList = before ++ rest
  consumed : c.consumed.reverse = before
  left : c.rest = rest
  position : c.position = .behind before
  /-- The byte of the position is where the source goes on with what is left. -/
  next : String.Pos.Raw.get? source ⟨c.position.byte⟩ = rest.head?
  /-- There is a text from an offset exactly if what was consumed can be cut there, and then it is
  the second part. -/
  lexeme : ∀ start word, c.lexemeFrom start = some word ↔
    ∃ front, before = front ++ word.toList ∧ (String.ofList front).utf8ByteSize = start
  /-- It is what stands in the source from the offset to the byte of the position. -/
  cut : ∀ start word, c.lexemeFrom start = some word →
    String.Pos.Raw.extract source ⟨start⟩ ⟨c.position.byte⟩ = word

theorem Within.standsBetween {source : String} {c : Cursor} (within : Within source.toList c) :
    StandsBetween source c.consumed.reverse c.rest c where
  whole := within.whole.symm
  consumed := rfl
  left := rfl
  position := by rw [within.position, Position.after_start]
  next := within.get?_position
  lexeme _ _ := lexemeFrom_eq_some_iff
  cut _ _ := within.extract_lexeme

/-- Whatever is done with a cursor, the operations give back what they should and take their words
off the front of the source one after another, and the position is the place behind these. -/
theorem position_after_run (source : String) (ops : List CursorOp) :
    ∃ before rest,
      TakesAll ops source.toList ((ofString source).run ops).1 before rest ∧
      StandsBetween source before rest ((ofString source).run ops).2 := by
  obtain ⟨words, takes, consumed, within⟩ := (Within.ofString source).run ops
  have stands := within.standsBetween
  rw [consumed] at stands
  exact ⟨words, _, takes, stands⟩

end Cursor

end Scripting
