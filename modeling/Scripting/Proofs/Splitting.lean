import Scripting.Proofs.ArrayStore
import Scripting.Value.Method

/-!
# Splitting a text loses nothing

A text falls into a part before the first occurrence of the separator and what comes after it, and
so on until there is no occurrence left: `Text.Falls`. Everything else follows from this relation by
induction. The main statement is `split_loses_nothing`, for the method of texts.
-/

namespace Scripting

namespace Text

variable {separator text part rest : List Char} {parts : List (List Char)}

/-- The first occurrence of a separator in a text comes after `n` characters. -/
structure FirstAt (separator text : List Char) (n : Nat) : Prop where
  occurs : separator <+: text.drop n
  earliest : ∀ m < n, ¬separator <+: text.drop m

/-- The text falls into the parts at the first occurrence of the separator, at the first one in what
is left after it, and so on. -/
inductive Falls (separator : List Char) : List Char → List (List Char) → Prop where
  | last {text : List Char} : ¬separator <:+: text → Falls separator text [text]
  | more {part rest : List Char} {parts : List (List Char)} :
      FirstAt separator (part ++ (separator ++ rest)) part.length → Falls separator rest parts →
      Falls separator (part ++ (separator ++ rest)) (part :: parts)

/-- What splitting promises, without saying how the parts are found. -/
structure SplitInto (separator text : List Char) (parts : List (List Char)) : Prop where
  nonempty : parts ≠ []
  joined : separator.intercalate parts = text
  clear : ∀ part ∈ parts, ¬separator <:+: part
  /-- A part that is not the last one ends where the separator first occurs in what is left of the
  text after the parts before it and their separators. -/
  leftmost : ∀ before part next after, parts = before ++ part :: next :: after →
    ∃ left, text = before.flatMap (· ++ separator) ++ left ∧ part <+: left ∧
      FirstAt separator left part.length

/-! ## Occurrences -/

theorem infix_iff_exists_drop : separator <:+: text ↔ ∃ n, separator <+: text.drop n := by
  constructor
  · rintro ⟨before, after, rfl⟩
    exact ⟨before.length, after, by simp⟩
  · rintro ⟨n, here⟩
    exact here.isInfix.trans (List.drop_suffix n text).isInfix

/-- An occurrence starts before the end. -/
theorem lt_length_of_occurs (nonempty : separator ≠ []) {n : Nat}
    (occurs : separator <+: text.drop n) : n < text.length := by
  apply Nat.lt_of_not_le
  intro beyond
  rw [List.drop_eq_nil_of_le beyond, List.prefix_nil] at occurs
  exact nonempty occurs

/-- The separator does not occur within what stands in front of its first occurrence. -/
theorem FirstAt.clear (nonempty : separator ≠ [])
    (first : FirstAt separator (part ++ rest) part.length) : ¬separator <:+: part := by
  intro inside
  obtain ⟨m, occurs⟩ := infix_iff_exists_drop.mp inside
  have early := lt_length_of_occurs nonempty occurs
  apply first.earliest m early
  rw [List.drop_append_of_le_length (Nat.le_of_lt early)]
  exact occurs.trans (List.prefix_append _ _)

/-! ## What the parts are -/

/-- Characters of the last occurrence are passed over. -/
theorem splitFrom_skip (separator : List Char) (skip : Nat) (part text : List Char) :
    splitFrom separator skip part text = splitFrom separator 0 part (text.drop skip) := by
  induction skip generalizing text with
  | zero => rfl
  | succ skip ih =>
    cases text with
    | nil => rfl
    | cons c cs => rw [splitFrom, ih, List.drop_succ_cons]

/-- `part` holds what was read since the last occurrence, its last character first, and nowhere in
it a separator starts. -/
theorem falls_splitFrom (nonempty : separator ≠ []) (part text : List Char)
    (clear : ∀ m < part.length, ¬separator <+: (part.reverse ++ text).drop m) :
    Falls separator (part.reverse ++ text) (splitFrom separator 0 part text) := by
  induction size : text.length using Nat.strongRecOn generalizing part text with
  | ind n ih =>
    subst size
    cases text with
    | nil =>
      rw [splitFrom, List.append_nil]
      apply Falls.last
      intro inside
      obtain ⟨m, occurs⟩ := infix_iff_exists_drop.mp inside
      have early := lt_length_of_occurs nonempty occurs
      rw [List.length_reverse] at early
      exact clear m early (by rwa [List.append_nil])
    | cons c cs =>
      rw [splitFrom]
      by_cases here : separator <+: c :: cs
      · obtain ⟨rest, whole⟩ := here
        have left : cs.drop (separator.length - 1) = rest := by
          have pos := List.length_pos_iff.mpr nonempty
          have dropped := congrArg (List.drop separator.length) whole
          obtain ⟨k, size⟩ : ∃ k, separator.length = k + 1 := ⟨separator.length - 1, by omega⟩
          rw [List.drop_left, size, List.drop_succ_cons] at dropped
          rw [size, Nat.add_sub_cancel, dropped]
        have shorter : rest.length < (c :: cs).length := by
          have pos := List.length_pos_iff.mpr nonempty
          rw [← whole, List.length_append]
          omega
        have later : Falls separator rest (splitFrom separator 0 [] rest) :=
          ih rest.length shorter [] rest nofun rfl
        rw [if_pos (List.isPrefixOf_iff_prefix.mpr ⟨rest, whole⟩), splitFrom_skip, left, ← whole]
        apply Falls.more _ later
        constructor
        · rw [List.drop_left]
          exact List.prefix_append _ _
        · intro m early
          rw [List.length_reverse] at early
          rw [whole]
          exact clear m early
      · rw [if_neg (fun test => here (List.isPrefixOf_iff_prefix.mp test))]
        have moved : part.reverse ++ c :: cs = (c :: part).reverse ++ cs := by simp
        rw [moved] at clear ⊢
        apply ih cs.length (Nat.lt_succ_self _) (c :: part) cs _ rfl
        intro m early
        rcases Nat.lt_succ_iff_lt_or_eq.mp early with before | same
        · exact clear m before
        · rw [same, ← moved, ← List.length_reverse, List.drop_left]
          exact here

theorem Falls.splitInto (nonempty : separator ≠ []) (falls : Falls separator text parts) :
    SplitInto separator text parts := by
  induction falls with
  | last clear =>
    refine ⟨nofun, by simp, ?_, ?_⟩
    · intro part member
      rwa [List.mem_singleton.mp member]
    · intro before part next after same
      have sizes := congrArg List.length same
      simp only [List.length_append, List.length_cons, List.length_nil] at sizes
      omega
  | @more part rest parts first _ ih =>
    refine ⟨nofun, ?_, ?_, ?_⟩
    · cases parts with
      | nil => exact absurd rfl ih.nonempty
      | cons next after => rw [List.intercalate_cons_cons, ih.joined, List.append_assoc]
    · intro other member
      rcases List.mem_cons.mp member with rfl | later
      · exact first.clear nonempty
      · exact ih.clear other later
    · intro before other next after same
      cases before with
      | nil =>
        obtain ⟨rfl, _⟩ := List.cons.inj same
        exact ⟨_, rfl, List.prefix_append _ _, first⟩
      | cons one others =>
        obtain ⟨rfl, later⟩ := List.cons.inj same
        obtain ⟨left, whole, starts, ends⟩ := ih.leftmost others other next after later
        exact ⟨left, by simp [whole], starts, ends⟩

theorem splitInto_split (nonempty : separator ≠ []) (text : List Char) :
    SplitInto separator text (split separator text) := by
  have falls := falls_splitFrom nonempty [] text nofun
  rw [split, if_neg (by simpa using nonempty)]
  exact falls.splitInto nonempty

/-- Of occurrences that overlap only the first one counts. -/
example : split ['a', 'a'] ['a', 'a', 'a', 'b'] = [[], ['a', 'b']] := by decide

end Text

namespace Heap

/-- A new array holds the elements that it was made with. -/
theorem elements_newArray (h : Heap) (xs : Array Value) :
    (h.newArray xs).2.arrays.elements h.arrays.views.size = xs.toList := by
  change (h.arrays.new xs).2.elements h.arrays.views.size = _
  unfold ArrayStore.elements
  rw [ArrayStore.slots_eq, ArrayStore.view_new, if_pos rfl, ArrayStore.storageAt_new, if_pos rfl]
  exact List.take_of_length_le (Nat.le_refl _)

/-- Splitting loses nothing. For every separator that is not empty the parts, at least one, make up
the text again with the separator between them, none of them contains it, and it is looked for from
left to right. The empty separator takes the text apart into its characters. -/
theorem split_loses_nothing (h : Heap) (s separator : String) :
    ∃ (parts : List String) (a : ArrayId) (h' : Heap),
      callMethod (.text s) "split" [.text separator] h = .done (.array a) h' ∧
      h'.arrays.elements a = parts.map Value.text ∧
      (separator ≠ "" →
        Text.SplitInto separator.toList s.toList (parts.map String.toList)) ∧
      (separator = "" →
        parts = s.toList.map String.singleton ∧ String.join parts = s ∧ (s = "" → parts = [])) := by
  let rows := Text.split separator.toList s.toList
  have given : (rows.map String.ofList).map String.toList = rows := by simp [Function.comp_def]
  have held := elements_newArray h (rows.map fun row => Value.text (String.ofList row)).toArray
  refine ⟨rows.map String.ofList, h.arrays.views.size, _, rfl, held.trans ?_, ?_, ?_⟩
  · rw [List.map_map]
    rfl
  · intro proper
    rw [given]
    exact Text.splitInto_split (fun empty => proper (String.toList_eq_nil_iff.mp empty)) s.toList
  · rintro rfl
    have single : rows.map String.ofList = s.toList.map String.singleton := by
      change ((s.toList.map ([·])).map String.ofList) = _
      rw [List.map_map]
      exact List.map_congr_left fun c _ => String.singleton_eq_ofList.symm
    rw [single]
    refine ⟨rfl, ?_, ?_⟩
    · apply String.toList_inj.mp
      rw [String.toList_join, List.flatMap_map]
      simp
    · rintro rfl
      rfl

end Heap

end Scripting
