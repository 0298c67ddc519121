import Scripting.Proofs.Chains
import Scripting.Session

/-!
# Integers as programs

The text of an integer is a program: a numeral, behind a minus sign if the integer is negative, which
evaluates to the integer. The digits are read before the sign is applied, so they have to be an
integer themselves. This is so for every integer but the least one, whose digits without the sign are
one too large.
-/

namespace Scripting

/-! ### The tokens of an integer -/

theorem toList_integerText (n : Int64) : (integerText n).toList =
    (if n.toInt < 0 then ['-'] else []) ++ Nat.toDigits 10 n.toInt.natAbs := by
  by_cases negative : n.toInt < 0
  · have magnitude : (-n.toInt).toNat = n.toInt.natAbs := by omega
    rw [toList_integerText_of_neg negative, if_pos negative, magnitude]
    rfl
  · have magnitude : n.toInt.toNat = n.toInt.natAbs := by omega
    rw [toList_integerText_of_nonneg (by omega), if_neg negative, magnitude]
    rfl

/-- The digits of a number that fits an integer. -/
def Numeral.ofNat (n : Nat) (fits : (n : Int) ≤ Int64.maxValue.toInt) : Numeral where
  digits := Nat.toDigits 10 n
  nonempty := Nat.toDigits_ne_nil
  isDigit _ := Decimal.toDigits_isDigit
  fits := by rwa [Nat.ofDigitChars_ten_toDigits]

theorem Numeral.value_ofNat {n : Nat} (fits : (n : Int) ≤ Int64.maxValue.toInt) :
    (Numeral.ofNat n fits).value = .ofNat n := by
  rw [value, ofNat, Nat.ofDigitChars_ten_toDigits]

theorem natAbs_le_maxValue {n : Int64} (notLeast : n ≠ .minValue) :
    (n.toInt.natAbs : Int) ≤ Int64.maxValue.toInt := by
  have low := n.minValue_le_toInt
  have high := n.toInt_le
  have different : n.toInt ≠ Int64.minValue.toInt := fun same => notLeast (Int64.toInt_inj.mp same)
  rw [Int64.toInt_minValue] at low different
  rw [Int64.toInt_maxValue] at high ⊢
  omega

/-- An integer as an operand: its magnitude, behind a minus if it is negative. -/
def integerOperand (n : Int64) (notLeast : n ≠ .minValue) : Operand where
  prefixes := if n.toInt < 0 then [.negate] else []
  atom := .integer (.ofNat n.toInt.natAbs (natAbs_le_maxValue notLeast))
  postfixes := []

/-- No digit carries on a minus. -/
theorem stops_toDigits (n : Nat) : Stops Sign.minus.carriedOn (Nat.toDigits 10 n) := by
  intro c first
  have digit : c.isDigit := Decimal.toDigits_isDigit (List.mem_of_mem_head? first)
  apply Sign.carriedOn_of_opensOperand
  simp [opensOperand, Token.isNameChar_of_isDigit digit]

theorem sequence_integerText {n : Int64} (notLeast : n ≠ .minValue) :
    Token.sequence (integerText n).toList = (integerOperand n notLeast).words := by
  have digits : Token.sequence (Nat.toDigits 10 n.toInt.natAbs) =
      [.integer (String.ofList (Nat.toDigits 10 n.toInt.natAbs))] := by
    simpa using Token.sequence_digits Nat.toDigits_ne_nil
      (fun _ => Decimal.toDigits_isDigit) (Stops.nil _)
  rw [toList_integerText]
  unfold integerOperand Operand.words
  by_cases negative : n.toInt < 0
  · rw [if_pos negative, if_pos negative]
    have signed := Token.sequence_sign .minus (stops_toDigits n.toInt.natAbs)
    rw [digits] at signed
    exact signed
  · rw [if_neg negative, if_neg negative]
    exact digits

/-! ### The program of an operand -/

/-- An in-order sequence of one operand is that operand. -/
theorem Expr.eq_of_inorder {e u : Expr Unit} (alone : e.inorder = [.operand u]) : e = u := by
  unfold inorder at alone
  split at alone
  · rcases List.append_eq_singleton_iff.mp alone with ⟨_, rest⟩ | ⟨_, rest⟩
    · cases rest
    · cases rest
  · cases alone
    rfl

theorem Operand.isMissing_tree (u : Operand) : u.tree.isMissing = false := by
  unfold tree
  apply List.foldrRecOn (motive := fun e : Expr Unit => e.isMissing = false)
  · apply List.foldlRecOn (motive := fun e : Expr Unit => e.isMissing = false)
    · cases u.atom <;> rfl
    · intros
      rfl
  · intros
    rfl

/-- A source that is made of an operand is a program of one expression. -/
theorem Operand.parseProgram_of_words {u : Operand} {source : String}
    (words : (Cursor.ofString source).tokens.1.map (·.token) = u.words) :
    parseProgram source = .ok ⟨[.expression () u.tree]⟩ := by
  have same : (Cursor.ofString source).tokens.1.map (·.token) = (Chain.mk u []).words := by
    rw [words, Chain.words, Chain.linkWords, List.flatMap_nil, List.append_nil]
  obtain ⟨mark, e, parsed, ordered, _⟩ :=
    Chain.isReadAs_parseTokens same (Cursor.ofString source).tokens.2.next.1.span.start
  have tree : e.erase = u.tree := Expr.eq_of_inorder ordered
  have read : parse source = (⟨[.expression mark e]⟩, []) := parsed
  rw [parseProgram, read, ← tree]
  rfl

theorem parseProgram_integerText {n : Int64} (notLeast : n ≠ .minValue) :
    parseProgram (integerText n) = .ok ⟨[.expression () (integerOperand n notLeast).tree]⟩ := by
  apply Operand.parseProgram_of_words
  rw [Cursor.tokens_eq_sequence]
  exact sequence_integerText notLeast

/-! ### The value of an integer -/

namespace Machine

variable {m : Machine}

theorem check_of_never (never : m.cancellation = .never) : check m = .done () m := by
  obtain ⟨heap, scope, sink, cancellation, clock⟩ := m
  cases never
  rfl

theorem evaluates_literal (never : m.cancellation = .never) (fuel : Nat) (n : Int64) :
    Evaluation.expression (fuel + 1) (.literal () (.integer n)) m = .done (.integer n) m := by
  rw [Evaluation.expression, Attempt.deepen_eq, Attempt.bind_run, check_of_never never]
  rfl

theorem evaluates_negated (never : m.cancellation = .never) (fuel : Nat) (n : Int64) :
    Evaluation.expression (fuel + 2) (.unary () .negate (.literal () (.integer n))) m =
      .done (.integer (-n)) m := by
  rw [Evaluation.expression, Attempt.deepen_eq, Attempt.bind_run, check_of_never never]
  change (Evaluation.expression (fuel + 1) (.literal () (.integer n)) >>=
    fun v => ofExcept (applyPrefix .negate v)) m = _
  rw [Attempt.bind_run, evaluates_literal never]
  rfl

/-- An operand that is an integer has it as its value. -/
theorem evaluates_integerOperand (never : m.cancellation = .never) (fuel : Nat) {n : Int64}
    (notLeast : n ≠ .minValue) :
    Evaluation.expression (fuel + 2) (integerOperand n notLeast).tree m =
      .done (.integer n) m := by
  unfold integerOperand Operand.tree
  simp only [Atom.tree, Numeral.value_ofNat, List.foldl_nil]
  have restored : Int64.ofInt n.toInt = n := Int64.ofInt_toInt n
  by_cases negative : n.toInt < 0
  · rw [if_pos negative]
    have signed : -Int64.ofNat n.toInt.natAbs = n := by
      rw [← Int64.ofInt_eq_ofNat, ← Int64.ofInt_neg, Int.ofNat_natAbs_of_nonpos (by omega),
        Int.neg_neg, restored]
    have evaluates := evaluates_negated never fuel (.ofNat n.toInt.natAbs)
    rwa [signed] at evaluates
  · rw [if_neg negative]
    have unsigned : Int64.ofNat n.toInt.natAbs = n := by
      rw [← Int64.ofInt_eq_ofNat, Int.natAbs_of_nonneg (by omega), restored]
    have evaluates := evaluates_literal never (fuel + 1) (.ofNat n.toInt.natAbs)
    rw [unsigned] at evaluates ⊢
    exact evaluates

/-- A program of one expression has the value of the expression. -/
theorem evalProgram_of_expression (never : m.cancellation = .never) {e : Expr Unit} {v : Value}
    (present : e.isMissing = false)
    (evaluates : ∀ fuel, Evaluation.expression (fuel + 2) e m = .done v m) :
    m.evalProgram ⟨[.expression () e]⟩ = some (v, m) := by
  obtain ⟨k, enough⟩ : ∃ k, fuel = k + 3 := ⟨fuel - 3, rfl⟩
  have stated : (Evaluation.parts fuel).statement (.expression () e) m = .done v m := by
    rw [enough]
    change Evaluation.statement (k + 3) (.expression () e) m = _
    rw [Evaluation.statement, Attempt.deepen_eq, Attempt.bind_run, check_of_never never]
    exact evaluates k
  have run : Evaluation.statements (Evaluation.parts fuel) .null [.expression () e] m =
      .done v m := by
    rw [Evaluation.statements, Stmt.isEmpty, present, if_neg Bool.false_ne_true, Attempt.bind_run,
      stated]
    rfl
  rw [evalProgram, evalStatements, complete, run]
  rfl

end Machine

theorem integerText_minValue : integerText .minValue = "-9223372036854775808" := by
  rw [integerText, Int64.toInt_minValue]
  rfl

/-- The digits of the least integer are no integer without its sign. -/
theorem parseProgram_least : parseProgram (integerText .minValue) =
    .error [⟨⟨1, 1, 2⟩, .invalidInteger "9223372036854775808"⟩] := by
  have errors : (parse "-9223372036854775808").2 =
      [⟨⟨1, 1, 2⟩, .invalidInteger "9223372036854775808"⟩] := by decide +kernel
  rw [integerText_minValue, parseProgram]
  generalize parse "-9223372036854775808" = parsed at errors ⊢
  obtain ⟨program, found⟩ := parsed
  cases errors
  rfl

/-- The text of an integer is a program that evaluates to the integer, on the machine on which it
started, with nothing printed. The least integer alone is refused: its digits without the sign are no
integer of 64 bits. -/
theorem integer_texts_are_programs (h : Heap) (n : Int64) (clock : Nat → String) :
    runProgram (h.render (.integer n)) .never clock =
      if n = .minValue then .error [⟨⟨1, 1, 2⟩, .invalidInteger "9223372036854775808"⟩]
      else .ok (some (.integer n, .new clock)) := by
  change runProgram (integerText n) .never clock = _
  by_cases least : n = .minValue
  · rw [if_pos least, least, runProgram, parseProgram_least]
    rfl
  · have ran : (Machine.new clock).evalProgram
        ⟨[.expression () (integerOperand n least).tree]⟩ = some (.integer n, .new clock) := by
      apply Machine.evalProgram_of_expression rfl (Operand.isMissing_tree _)
      exact fun fuel => Machine.evaluates_integerOperand rfl fuel least
    rw [if_neg least, runProgram, parseProgram_integerText least]
    exact congrArg Except.ok ran

/-- The text of the least integer is no program. -/
theorem least_integer_is_no_program :
    Heap.empty.render (.integer .minValue) = "-9223372036854775808" ∧
      ¬∃ m, runProgram (Heap.empty.render (.integer .minValue)) .never (fun _ => "") =
        .ok (some (.integer .minValue, m)) := by
  refine ⟨integerText_minValue, ?_⟩
  rintro ⟨m, ran⟩
  change (parseProgram (integerText .minValue)).map _ = _ at ran
  rw [parseProgram_least] at ran
  cases ran

end Scripting
