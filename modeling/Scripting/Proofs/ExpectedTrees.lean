import Scripting.Proofs.IntegerText
import Scripting.Proofs.ParsedSources
import Scripting.Proofs.PlainText
import Scripting.Proofs.Replays

/-!
# Trees as evaluation expects them

Evaluation has an answer for every tree, but the parser does not build every tree. What is assigned
to is a name or an element, what stands behind a dot is a name or a call of one, and so on:
`Program.Expected`. Hence an assignment refuses what is on its left in one case only, that of an
element whose key is a slice. In any other case evaluation might do whatever it likes, and no program
that was read would notice.
-/

namespace Scripting

open Evaluation Parsed

/-! ### Words -/

/-- A name is one, and an integer is a row of digits. -/
def Token.IsSpelled : Token → Prop
  | identifier name => IsName name
  | integer digits => ∀ c ∈ digits.toList, c.isDigit
  | _ => True

namespace Token

theorem isSpelled_scanText (quote : Char) (rest : List Char) : (scanText quote rest).1.IsSpelled := by
  unfold scanText
  dsimp only
  split <;> trivial

/-- A number without a dot has nothing but digits. -/
theorem isSpelled_scanNumber {c : Char} (digit : c.isDigit) (rest : List Char) :
    (scanNumber c rest).1.IsSpelled := by
  unfold scanNumber
  dsimp only
  split
  · trivial
  · rename_i noDot
    show ∀ d ∈ (String.ofList (c :: rest.takeWhile isNumberChar)).toList, d.isDigit
    rw [String.toList_ofList]
    intro d member
    have other : d ≠ '.' := by
      rintro rfl
      exact noDot (List.contains_iff_mem.mpr member)
    rcases List.mem_cons.mp member with rfl | member
    · exact digit
    · simpa [isNumberChar, other] using List.mem_takeWhile_imp member

theorem isSpelled_scanWord {c : Char} (start : isNameStart c) (rest : List Char) :
    (scanWord c rest).1.IsSpelled := by
  show (ofWord (String.ofList (c :: rest.takeWhile isNameChar))).IsSpelled
  unfold ofWord
  split
  · trivial
  · rename_i noKeyword
    refine ⟨⟨c, rest.takeWhile isNameChar, String.toList_ofList, start, ?_⟩, noKeyword⟩
    exact List.all_eq_true.mpr fun d member => List.mem_takeWhile_imp member

theorem isSpelled_scan (c : Char) (rest : List Char) : (scan c rest).1.IsSpelled := by
  unfold scan
  split
  · trivial
  · split_ifs with quoted digit start
    · exact isSpelled_scanText c rest
    · exact isSpelled_scanNumber digit rest
    · exact isSpelled_scanWord start rest
    · trivial

theorem isSpelled_of_mem_sequence {text : List Char} {t : Token} (member : t ∈ sequence text) :
    t.IsSpelled := by
  fun_induction sequence text with
  | case1 => cases member
  | case2 text c rest _ ih =>
    rcases List.mem_cons.mp member with rfl | member
    · exact isSpelled_scan c rest
    · exact ih member

end Token

theorem isSpelled_of_mem_tokensOf {source : String} {t : SpannedToken}
    (member : t ∈ tokensOf source) : t.token.IsSpelled :=
  Token.isSpelled_of_mem_sequence (map_token_tokensOf source ▸ List.mem_map_of_mem member)

/-- Digits without a sign are read as an integer that is not negative. -/
theorem Decimal.nonneg_of_readInteger {digits : String} {n : Int64}
    (passed : ∀ c ∈ digits.toList, c.isDigit) (read : readInteger digits = some n) :
    0 ≤ n.toInt := by
  unfold readInteger at read
  rw [splitSign_of_isDigit passed] at read
  dsimp only at read
  split at read
  · cases read
  · rw [if_neg Bool.false_ne_true] at read
    split at read
    · rename_i bounds
      cases read
      rw [Int64.toInt_minValue, Int64.toInt_maxValue] at bounds
      rw [Int64.toInt_ofInt_of_le bounds.1 (by omega)]
      exact Int.natCast_nonneg _
    · cases read

/-! ### Nodes -/

/-- The trees of a program are as evaluation expects them. -/
structure Program.Expected (p : Program Span) : Prop where
  /-- A name or an element is assigned to. -/
  targets : ∀ {m op target value}, p.Holds (.expr (.assign m op target value)) →
    (∃ k i, target = .identifier k i) ∨ ∃ k container key, target = .index k container key
  /-- A name or a call of a name stands behind a dot. -/
  members : ∀ {m object called}, p.Holds (.expr (.method m object called)) →
    (∃ k i, called = .identifier k i) ∨ ∃ k l i args, called = .call k (.identifier l i) args
  /-- A loop starts with a binding or an expression, if with anything. -/
  clauses : ∀ {m first condition update body},
    p.Holds (.expr (.forLoop m (some first) condition update body)) →
    (∃ k i e, first = .letBinding k i e) ∨ ∃ k e, first = .expression k e
  integers : ∀ {m n}, p.Holds (.expr (.literal m (.integer n))) → 0 ≤ n.toInt
  /-- What is used, bound or a parameter has a name that is one. -/
  names : ∀ {i}, p.Holds (.name i) → IsName i.name

/-- Every node of a program has a form, which starts with a token of the source. -/
theorem form_of_holds {source : String} {n : Parsed.Node} (held : (parse source).1.Holds n) :
    ∃ opened items first last, Form ((parse source).2 = []) n opened items first last ∧
      first ∈ tokensOf source := by
  obtain ⟨ts, inside, opened, items, first, last, form, _, head, _⟩ := occupies_of_holds held
  exact ⟨opened, items, first, last, form, inside.subset (List.mem_of_head? head)⟩

theorem nonneg_of_atom {t : SpannedToken} {m : Span} {n : Int64}
    (found : atom? t = some (.literal m (.integer n))) (spelled : t.token.IsSpelled) :
    0 ≤ n.toInt := by
  unfold atom? at found
  split at found
  case h_2 digits here =>
    obtain ⟨k, read, same⟩ := Option.map_eq_some_iff.mp found
    cases same
    rw [here] at spelled
    exact Decimal.nonneg_of_readInteger spelled read
  case h_3 =>
    obtain ⟨x, _, same⟩ := Option.map_eq_some_iff.mp found
    cases same
  all_goals cases found

theorem expected_parse (source : String) : (parse source).1.Expected where
  targets := by
    intro m op target value held
    obtain ⟨_, _, _, _, form, _⟩ := form_of_holds held
    cases form with
    | atom found => cases (children_of_atom found).1
    | assign _ assignable =>
      cases target with
      | identifier k i => exact .inl ⟨k, i, rfl⟩
      | index k container key => exact .inr ⟨k, container, key, rfl⟩
      | _ => cases assignable
  members := by
    intro m object called held
    obtain ⟨_, _, _, _, form, _⟩ := form_of_holds held
    cases form with
    | atom found => cases (children_of_atom found).1
    | method _ member =>
      unfold Expr.isMember at member
      split at member
      · exact .inl ⟨_, _, rfl⟩
      · exact .inr ⟨_, _, _, _, rfl⟩
      · cases member
  clauses := by
    intro m first condition update body held
    obtain ⟨_, _, _, _, form, _⟩ := form_of_holds held
    cases form with
    | atom found => cases (children_of_atom found).1
    | forLoop _ _ _ _ _ clause =>
      have starts : first.isClause := clause first rfl
      cases first with
      | letBinding k i e => exact .inl ⟨k, i, e, rfl⟩
      | expression k e => exact .inr ⟨k, e, rfl⟩
      | _ => cases starts
  integers := by
    intro m n held
    obtain ⟨_, _, first, _, form, member⟩ := form_of_holds held
    cases form with
    | atom found => exact nonneg_of_atom found (isSpelled_of_mem_tokensOf member)
    | fromStart => exact Int.le_refl 0
  names := by
    intro i held
    obtain ⟨_, _, first, _, form, member⟩ := form_of_holds held
    cases form with
    | name here =>
      have spelled := isSpelled_of_mem_tokensOf member
      rw [here] at spelled
      exact spelled

/-! ### Assignments -/

/-- All that an expected program assigns to is a name or an element. -/
theorem Program.Expected.isAssignable {p : Program Span} (expected : p.Expected) :
    ∀ t ∈ Stmt.targetsList p.erase.stmts, t.isAssignable := by
  intro t member
  simp only [Program.erase, Program.map, Stmt.mapList_eq] at member
  obtain ⟨_, held, inside⟩ := Stmt.mem_targetsList.mp member
  obtain ⟨s, there, rfl⟩ := List.mem_map.mp held
  have inside : t ∈ (Node.stmt s).targets := inside
  obtain ⟨m, op, target, value, below, rfl⟩ := Node.exists_assign_of_mem_targets inside
  rcases expected.targets ⟨s, there, below⟩ with ⟨k, i, rfl⟩ | ⟨k, container, key, rfl⟩
  · rfl
  · rfl

namespace Heap

/-- The functions assign to names and elements only. -/
def AssignsPlaces (h : Heap) : Prop := ∀ c ∈ h.functions, ∀ t ∈ c.body.targets, t.isAssignable

/-- Expected programs were run on the heap, one after the other, and nothing else. -/
inductive RanExpected : Heap → Prop where
  | new (clock : Nat → String) : RanExpected (Machine.new clock).heap
  | run {m m' : Machine} {p : Program Span} {c : Completion} : RanExpected m.heap → p.Expected →
      m.evalStatements p.erase.stmts = some (c, m') → RanExpected m'.heap

end Heap

section Evaluated

variable {m m' : Machine} {ss : List (Stmt Unit)} (places : m.heap.AssignsPlaces)
  (targets : ∀ t ∈ Stmt.targetsList ss, t.isAssignable)
include places targets

/-- How evaluation ends, whatever it does where an assignment has something else on its left. -/
theorem ends_of_isAssignable (otherwise : Expr Unit → Eval Value) (fuel : Nat) :
    (Replay.mk m.clock.readings m.clock.readings otherwise).Ends m
      (statements (parts fuel) .null ss m) (statements (partsOr otherwise fuel) .null ss m) :=
  Replay.repeats_statements (Replay.repeats_parts _ fuel) .null
    (fun t inside => .inl (targets t inside)) m
    ⟨rfl, fun c held t inside => .inl (places c held t inside)⟩

theorem assignsPlaces_of_evalStatements {c : Completion}
    (ended : m.evalStatements ss = some (c, m')) : m'.heap.AssignsPlaces := by
  -- An evaluation that would never end elsewhere spares nothing but places.
  let R : Replay := ⟨m.clock.readings, m.clock.readings, fun _ => .outOfFuel⟩
  have ends : R.Ends m (statements (parts Machine.fuel) .null ss m) _ :=
    ends_of_isAssignable places targets R.otherwise Machine.fuel
  have kept (fits : R.Fits m') : m'.heap.AssignsPlaces := fun c held t inside =>
    (fits.functions c held t inside).resolve_right fun same => nomatch congrFun same m
  obtain ⟨v, _, ran⟩ | ⟨stop, _, ran⟩ := Machine.complete_cases ended
  · rw [ran] at ends
    cases ends with
    | done fits => exact kept fits
  · rw [ran] at ends
    cases ends with
    | failed fits => exact kept fits

end Evaluated

theorem Heap.RanExpected.assignsPlaces {h : Heap} (ran : h.RanExpected) : h.AssignsPlaces := by
  induction ran with
  | new clock => exact nofun
  | run _ expected ended places =>
    exact assignsPlaces_of_evalStatements places expected.isAssignable ended

/-- No run of an expected program would differ, whatever assignments did with anything that is
neither a name nor an element. -/
theorem Program.Expected.statements_eq {p : Program Span} (expected : p.Expected) {m : Machine}
    (ran : m.heap.RanExpected) (otherwise : Expr Unit → Eval Value) (fuel : Nat) :
    statements (partsOr otherwise fuel) .null p.erase.stmts m =
      statements (parts fuel) .null p.erase.stmts m :=
  (ends_of_isAssignable ran.assignsPlaces expected.isAssignable otherwise fuel).eq rfl

/-- The parser builds the trees that evaluation expects, also if there are errors. So when they are
evaluated, an assignment refuses what is on its left only if that is an element whose key is a
slice: what else it would refuse never comes up. -/
theorem parsed_trees_are_expected (source : String) :
    (parse source).1.Expected ∧
      ∀ m : Machine, m.heap.RanExpected → ∀ (otherwise : Expr Unit → Eval Value) (fuel : Nat),
        statements (partsOr otherwise fuel) .null (parse source).1.erase.stmts m =
          statements (parts fuel) .null (parse source).1.erase.stmts m := by
  have expected := expected_parse source
  exact ⟨expected, fun _ ran => expected.statements_eq ran⟩

/-- A program binds a function that assigns to an element. On the machine that it leaves, the next
one calls the function and then assigns to a slice, which alone is refused. -/
theorem parsed_trees_are_expected_after_program :
    let first := "let a = [1] let f = function(x) { a[0] = x }"
    let second := "f(2) a[0:1] = 3"
    ∃ m₁ m₂, (Machine.new fun _ => "").evalStatements (parse first).1.erase.stmts =
        some (.value (.function 0), m₁) ∧
      m₁.heap.RanExpected ∧
      m₁.evalStatements (parse second).1.erase.stmts =
        some (.failed (.notAnLvalue "(a[(0:1)])"), m₂) ∧
      ∀ (otherwise : Expr Unit → Eval Value) (fuel : Nat),
        statements (partsOr otherwise fuel) .null (parse second).1.erase.stmts m₁ =
          statements (parts fuel) .null (parse second).1.erase.stmts m₁ := by
  intro first second
  have parsed₁ : (parse first).1.erase.stmts = [
      .letBinding () ⟨"a", ()⟩ (.array () [.literal () (.integer 1)]),
      .letBinding () ⟨"f", ()⟩ (.function () [⟨"x", ()⟩] ⟨(), [.expression () (.assign () .assign
        (.index () (.identifier () ⟨"a", ()⟩) (.literal () (.integer 0)))
        (.identifier () ⟨"x", ()⟩))]⟩ ())] := by cbv
  have parsed₂ : (parse second).1.erase.stmts = [
      .expression () (.call () (.identifier () ⟨"f", ()⟩) [.literal () (.integer 2)]),
      .expression () (.assign () .assign (.index () (.identifier () ⟨"a", ()⟩)
        (.slice () (.literal () (.integer 0)) (some (.literal () (.integer 1)))))
        (.literal () (.integer 3)))] := by cbv
  have ran : ∃ m₁ m₂, (Machine.new fun _ => "").evalStatements (parse first).1.erase.stmts =
      some (.value (.function 0), m₁) ∧ m₁.evalStatements (parse second).1.erase.stmts =
        some (.failed (.notAnLvalue "(a[(0:1)])"), m₂) := by
    rw [parsed₁, parsed₂]
    exact ⟨_, _, rfl, rfl⟩
  obtain ⟨m₁, m₂, ran₁, ran₂⟩ := ran
  have held : m₁.heap.RanExpected := .run (.new _) (parsed_trees_are_expected first).1 ran₁
  exact ⟨m₁, m₂, ran₁, held, ran₂, (parsed_trees_are_expected second).2 m₁ held⟩

/-- An element whose key is a slice is refused. -/
example : ∃ m, runProgram "let a = [1] a[0:1] = 2" .never (fun _ => "") =
    .ok (some (.error (RuntimeError.notAnLvalue "(a[(0:1)])").message, m)) := by
  have parsed : parseProgram "let a = [1] a[0:1] = 2" = .ok ⟨[
      .letBinding () ⟨"a", ()⟩ (.array () [.literal () (.integer 1)]),
      .expression () (.assign () .assign (.index () (.identifier () ⟨"a", ()⟩)
        (.slice () (.literal () (.integer 0)) (some (.literal () (.integer 1)))))
        (.literal () (.integer 2)))]⟩ := by cbv
  rw [runProgram, parsed]
  exact ⟨_, rfl⟩

end Scripting
