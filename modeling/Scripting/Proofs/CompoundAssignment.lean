import Scripting.Value.Arithmetic

/-!
# Compound assignments and their operators

`x += y` and `x + y` are worked out by different rules, and so are the other three pairs. They come
to the same but in one corner: a sum joins texts if either operand is a text, and the assignment of a
sum only if a text is there already. Outside of that corner `Agreement` lists what may become of the
two side by side.
-/

namespace Scripting

variable {compound : AssignOperator} {op : InfixOperator} {old new : Value}

/-- A text is to be added to a value that is no text. -/
def AddsTextToOther (compound : AssignOperator) (old new : Value) : Prop :=
  compound = .addAssign ∧ new.kind = .string ∧ old.kind ≠ .string

/-- A compound assignment and its operator make the same of two values: they have one value, divide
by zero both, or are refused with their own symbols. -/
inductive Agreement (compound : AssignOperator) (op : InfixOperator) (old new : Value) :
    Except RuntimeError Value → Except RuntimeError Value → Prop where
  | value (v : Value) : Agreement compound op old new (.ok v) (.ok v)
  | byZero : Agreement compound op old new (.error .divideByZero) (.error .divideByZero)
  | refused : Agreement compound op old new
      (.error (.unsupportedInfix compound.symbol old.kind new.kind))
      (.error (.unsupportedInfix op.symbol old.kind new.kind))

/-! ### Numbers -/

/-- The operator of a compound assignment computes, on integers and on doubles. -/
theorem computes_of_arithmetic (arithmetic : compound.arithmetic? = some op) :
    (∀ x y, compareFloats x y op = none) ∧ (∀ a b, ∃ n, integerArithmetic a b op = some n) ∧
      ∀ x y, ∃ z, floatArithmetic x y op = some z := by
  cases compound with
  | assign => cases arithmetic
  | addAssign | subtractAssign | multiplyAssign | divideAssign =>
    cases arithmetic
    exact ⟨fun _ _ => rfl, fun _ _ => ⟨_, rfl⟩, fun _ _ => ⟨_, rfl⟩⟩

theorem Value.exists_toFloat {v : Value} (number : v.isNumber) : ∃ x, v.toFloat? = some x := by
  cases v with
  | integer | float => exact ⟨_, rfl⟩
  | _ => cases number

/-- Arithmetic on two numbers has a value, unless it is a division by zero. -/
theorem applyNumeric_cases (arithmetic : compound.arithmetic? = some op) (left : old.isNumber)
    (right : new.isNumber) :
    (∃ v, applyNumeric op old new = .ok v) ∨ applyNumeric op old new = .error .divideByZero := by
  obtain ⟨noComparison, whole, double⟩ := computes_of_arithmetic arithmetic
  obtain ⟨x, first⟩ := Value.exists_toFloat left
  obtain ⟨y, second⟩ := Value.exists_toFloat right
  obtain ⟨z, computed⟩ := double x y
  simp only [applyNumeric, first, second, noComparison]
  by_cases zero : op.divides && new.isZero
  · rw [if_pos zero]
    exact .inr rfl
  · rw [if_neg zero]
    left
    split
    · rename_i a b
      obtain ⟨n, counted⟩ := whole a b
      simp only [counted]
      exact ⟨_, rfl⟩
    · simp only [computed]
      exact ⟨_, rfl⟩

theorem agreement_of_numbers (h : Heap) (arithmetic : compound.arithmetic? = some op)
    (numbers : old.isNumber && new.isNumber) :
    Agreement compound op old new (applyAssign h compound old new) (applyInfix h op old new) := by
  have assigned : applyAssign h compound old new = applyNumeric op old new := by
    unfold applyAssign
    simp only [arithmetic, if_pos numbers]
  have operated : applyInfix h op old new = applyNumeric op old new := by
    cases compound with
    | assign => cases arithmetic
    | addAssign | subtractAssign | multiplyAssign | divideAssign =>
      cases arithmetic
      exact if_pos numbers
  obtain ⟨left, right⟩ := Bool.and_eq_true_iff.mp numbers
  rw [assigned, operated]
  rcases applyNumeric_cases arithmetic left right with ⟨v, worked⟩ | failed
  · rw [worked]
    exact .value v
  · rw [failed]
    exact .byZero

/-! ### Texts and other values -/

theorem applyInfix_of_others (h : Heap) (arithmetic : compound.arithmetic? = some op)
    (others : ¬(old.isNumber && new.isNumber)) :
    applyInfix h op old new =
      if compound = .addAssign ∧ (old.kind = .string ∨ new.kind = .string) then
        .ok (.text (h.render old ++ h.render new))
      else .error (.unsupportedInfix op.symbol old.kind new.kind) := by
  cases compound with
  | assign => cases arithmetic
  | addAssign | subtractAssign | multiplyAssign | divideAssign =>
    cases arithmetic
    simp [applyInfix, others]

theorem applyAssign_of_others (h : Heap) (arithmetic : compound.arithmetic? = some op)
    (others : ¬(old.isNumber && new.isNumber)) :
    applyAssign h compound old new =
      if compound = .addAssign ∧ old.kind = .string then .ok (.text (h.render old ++ h.render new))
      else .error (.unsupportedInfix compound.symbol old.kind new.kind) := by
  unfold applyAssign
  simp only [arithmetic, if_neg others]
  split
  · rfl
  · rename_i mixed
    rw [if_neg]
    rintro ⟨sum, text⟩
    cases old with
    | text s => exact mixed s rfl sum
    | _ => cases text

/-- The one corner in which an assignment is refused and its operator is not. -/
theorem outcomes_of_addsTextToOther (h : Heap) (arithmetic : compound.arithmetic? = some op)
    (adds : AddsTextToOther compound old new) :
    applyInfix h op old new = .ok (.text (h.render old ++ h.render new)) ∧
      applyAssign h compound old new =
        .error (.unsupportedInfix compound.symbol old.kind new.kind) := by
  obtain ⟨sum, text, other⟩ := adds
  have others : ¬(old.isNumber && new.isNumber) := by
    cases new with
    | text => simp [Value.isNumber]
    | _ => cases text
  constructor
  · rw [applyInfix_of_others h arithmetic others, if_pos ⟨sum, .inr text⟩]
  · rw [applyAssign_of_others h arithmetic others, if_neg fun both => other both.2]

/-- Everywhere else the two agree. -/
theorem agreement_of_not_addsTextToOther (h : Heap) (arithmetic : compound.arithmetic? = some op)
    (plain : ¬AddsTextToOther compound old new) :
    Agreement compound op old new (applyAssign h compound old new) (applyInfix h op old new) := by
  by_cases numbers : old.isNumber && new.isNumber
  · exact agreement_of_numbers h arithmetic numbers
  · rw [applyAssign_of_others h arithmetic numbers, applyInfix_of_others h arithmetic numbers]
    by_cases joins : compound = .addAssign ∧ old.kind = .string
    · rw [if_pos joins, if_pos ⟨joins.1, .inl joins.2⟩]
      exact .value _
    · rw [if_neg joins, if_neg]
      · exact .refused
      · rintro ⟨sum, left | right⟩
        · exact joins ⟨sum, left⟩
        · exact plain ⟨sum, right, fun left => joins ⟨sum, left⟩⟩

/-- Compound assignments agree with their operators. What the assignment works out, the operator
works out as well. What the operator works out, so does the assignment, unless a text is to be added
to a value that is no text; there the operator joins the texts of both, and the assignment is
refused. One of them divides by zero if and only if the other does, and every other failure of the
assignment names its own symbol and the kinds of the two values. -/
theorem compound_agrees_with_infix (h : Heap) (arithmetic : compound.arithmetic? = some op)
    (old new : Value) :
    (∀ v, applyAssign h compound old new = .ok v → applyInfix h op old new = .ok v) ∧
    (∀ v, applyInfix h op old new = .ok v →
      (applyAssign h compound old new = .ok v ↔ ¬AddsTextToOther compound old new)) ∧
    (AddsTextToOther compound old new →
      applyInfix h op old new = .ok (.text (h.render old ++ h.render new)) ∧
      applyAssign h compound old new =
        .error (.unsupportedInfix compound.symbol old.kind new.kind)) ∧
    (applyAssign h compound old new = .error .divideByZero ↔
      applyInfix h op old new = .error .divideByZero) ∧
    ∀ e, applyAssign h compound old new = .error e → e ≠ .divideByZero →
      e = .unsupportedInfix compound.symbol old.kind new.kind := by
  by_cases adds : AddsTextToOther compound old new
  · obtain ⟨operated, assigned⟩ := outcomes_of_addsTextToOther h arithmetic adds
    rw [operated, assigned]
    simp [adds]
  · have agree := agreement_of_not_addsTextToOther h arithmetic adds
    generalize applyAssign h compound old new = assigned at agree
    generalize applyInfix h op old new = operated at agree
    cases agree <;> simp [adds]

/-- A text is added to an empty array. -/
theorem compound_agrees_with_infix_text_to_array :
    let (a, h) := Heap.empty.newArray #[]
    AssignOperator.addAssign.arithmetic? = some .add ∧
      applyInfix h .add a (.text "!") = .ok (.text "[]!") ∧
      applyAssign h .addAssign a (.text "!") = .error (.unsupportedInfix "+=" .array .string) := by
  have arithmetic : AssignOperator.addAssign.arithmetic? = some .add := rfl
  have agree := compound_agrees_with_infix (Heap.empty.newArray #[]).2 arithmetic
    (Heap.empty.newArray #[]).1 (.text "!")
  obtain ⟨operated, assigned⟩ := agree.2.2.1 ⟨rfl, rfl, nofun⟩
  exact ⟨arithmetic, operated, assigned⟩

end Scripting
