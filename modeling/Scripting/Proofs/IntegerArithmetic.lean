import Scripting.Proofs.Doubles

/-!
# Arithmetic on integers

Integers have 64 bits. Sums, differences and products are the exact ones modulo 2^64. Division is by
anything but zero and goes toward zero; it is exact for all operands but one pair, where the
quotient has one bit too many and wraps around.
-/

namespace Scripting

variable {a b c : Int64} {op : InfixOperator}

/-- Two integers are worked out as integers, unless one of them is divided by zero. -/
theorem applyInfix_of_integers (h : Heap) (worked : integerArithmetic a b op = some c)
    (divisible : op.divides → b ≠ 0) :
    applyInfix h op (.integer a) (.integer b) = .ok (.integer c) := by
  cases op with
  | add | subtract | multiply =>
    cases worked
    rfl
  | divide | modulo =>
    have nonzero : (b == 0) = false := beq_false_of_ne (divisible rfl)
    cases worked
    simp [applyInfix, applyNumeric, Value.isNumber, Value.toFloat?, compareFloats, Value.isZero,
      nonzero, integerArithmetic]
  | _ => cases worked

theorem applyInfix_by_zero (h : Heap) (divides : op.divides) (a : Int64) :
    applyInfix h op (.integer a) (.integer 0) = .error .divideByZero := by
  cases op with
  | divide | modulo => rfl
  | _ => cases divides

theorem applyAssign_of_integers (h : Heap) {compound : AssignOperator}
    (arithmetic : compound.arithmetic? = some op) (a b : Int64) :
    applyAssign h compound (.integer a) (.integer b) =
      applyInfix h op (.integer a) (.integer b) := by
  cases compound with
  | assign => cases arithmetic
  | addAssign | subtractAssign | multiplyAssign | divideAssign =>
    cases arithmetic
    rfl

/-! ### Sums, differences and products -/

/-- What an operator that does not divide makes of two whole numbers without bounds. -/
def InfixOperator.exact? : InfixOperator → Option (Int → Int → Int)
  | .add => some (· + ·)
  | .subtract => some (· - ·)
  | .multiply => some (· * ·)
  | _ => none

theorem InfixOperator.not_divides {f : Int → Int → Int} (exact : op.exact? = some f) :
    ¬op.divides := by
  intro divides
  cases op with
  | divide | modulo => cases exact
  | _ => cases divides

theorem bmod_modEq (i : Int) : i.bmod (2 ^ 64) ≡ i [ZMOD 2 ^ 64] := Int.bmod_emod

theorem integerArithmetic_modEq (a b : Int64) {f : Int → Int → Int} (exact : op.exact? = some f) :
    ∃ c, integerArithmetic a b op = some c ∧ c.toInt ≡ f a.toInt b.toInt [ZMOD 2 ^ 64] := by
  cases op with
  | add =>
    cases exact
    refine ⟨a + b, rfl, ?_⟩
    rw [Int64.toInt_add]
    exact bmod_modEq _
  | subtract =>
    cases exact
    refine ⟨a - b, rfl, ?_⟩
    rw [Int64.toInt_sub]
    exact bmod_modEq _
  | multiply =>
    cases exact
    refine ⟨a * b, rfl, ?_⟩
    rw [Int64.toInt_mul]
    exact bmod_modEq _
  | _ => cases exact

/-! ### Quotients and remainders -/

/-- The first integer divided by the second one has this quotient and this remainder. -/
structure IsDivision (a b quotient remainder : Int64) : Prop where
  whole : a.toInt ≡ quotient.toInt * b.toInt + remainder.toInt [ZMOD 2 ^ 64]
  small : |remainder.toInt| < |b.toInt|
  sign : remainder = 0 ∨ remainder.toInt.sign = a.toInt.sign
  truncated : ¬(a = .minValue ∧ b = -1) → quotient.toInt = a.toInt.tdiv b.toInt
  /-- The one quotient that has no room in 64 bits. -/
  wrapped : a = .minValue ∧ b = -1 → quotient = .minValue ∧ remainder = 0

theorem isDivision_div_mod (a : Int64) (nonzero : b ≠ 0) : IsDivision a b (a / b) (a % b) where
  whole := by
    have quotient : (a / b).toInt ≡ a.toInt.tdiv b.toInt [ZMOD 2 ^ 64] := by
      rw [Int64.toInt_div]
      exact bmod_modEq _
    have divided := (quotient.mul_right b.toInt).add_right (a % b).toInt
    rw [Int64.toInt_mod, Int.tdiv_mul_add_tmod, ← Int64.toInt_mod] at divided
    exact divided.symm
  small := by
    have divisor : b.toInt ≠ 0 := fun zero => nonzero (Int64.toInt_inj.mp zero)
    rw [Int64.toInt_mod, ← Int.natCast_natAbs, ← Int.natCast_natAbs, Int.natAbs_tmod]
    exact Int.ofNat_lt.mpr (Nat.mod_lt _ (Int.natAbs_pos.mpr divisor))
  sign := by
    have sign := Int.sign_tmod a.toInt b.toInt
    rw [← Int64.toInt_mod] at sign
    split at sign
    · exact .inl (Int64.toInt_inj.mp (Int.sign_eq_zero_iff_zero.mp sign))
    · exact .inr sign
  truncated := by
    intro ordinary
    by_cases least : a = .minValue
    · exact Int64.toInt_div_of_ne_right a b fun minusOne => ordinary ⟨least, minusOne⟩
    · exact Int64.toInt_div_of_ne_left a b least
  wrapped := by
    rintro ⟨rfl, rfl⟩
    exact ⟨rfl, rfl⟩

/-- The operators on integers. A sum, a difference and a product is the exact one modulo 2^64. A
division fails if and only if it is by zero, and gives quotient and remainder otherwise; that the
divisor is zero is seen on its double, which is zero for no other integer. A compound assignment
does what its operator does. -/
theorem integer_arithmetic_exact (h : Heap) (a b : Int64) :
    (∀ (op : InfixOperator) (f : Int → Int → Int), op.exact? = some f →
      ∃ c, applyInfix h op (.integer a) (.integer b) = .ok (.integer c) ∧
        c.toInt ≡ f a.toInt b.toInt [ZMOD 2 ^ 64]) ∧
    (∀ op : InfixOperator, op.divides →
      (applyInfix h op (.integer a) (.integer b) = .error .divideByZero ↔ b = 0)) ∧
    (b ≠ 0 → ∃ quotient remainder,
      applyInfix h .divide (.integer a) (.integer b) = .ok (.integer quotient) ∧
      applyInfix h .modulo (.integer a) (.integer b) = .ok (.integer remainder) ∧
      IsDivision a b quotient remainder) ∧
    (∀ (compound : AssignOperator) (op : InfixOperator), compound.arithmetic? = some op →
      applyAssign h compound (.integer a) (.integer b) =
        applyInfix h op (.integer a) (.integer b)) ∧
    ∀ y, (Value.integer b).toFloat? = some y → ((y == 0.0) = true ↔ b = 0) := by
  have nonzeroWorks : b ≠ 0 → ∀ op : InfixOperator, ∀ c, integerArithmetic a b op = some c →
      applyInfix h op (.integer a) (.integer b) = .ok (.integer c) :=
    fun nonzero op c worked => applyInfix_of_integers h worked fun _ => nonzero
  refine ⟨fun op f exact => ?_, fun op divides => ⟨fun failed => ?_, ?_⟩, fun nonzero => ?_,
    fun compound op arithmetic => applyAssign_of_integers h arithmetic a b, fun y double => ?_⟩
  · obtain ⟨c, worked, congruent⟩ := integerArithmetic_modEq a b exact
    exact ⟨c, applyInfix_of_integers h worked fun divides =>
      absurd divides (InfixOperator.not_divides exact), congruent⟩
  · by_contra nonzero
    cases op with
    | divide | modulo =>
      rw [nonzeroWorks nonzero _ _ rfl] at failed
      cases failed
    | _ => cases divides
  · rintro rfl
    exact applyInfix_by_zero h divides a
  · exact ⟨a / b, a % b, nonzeroWorks nonzero _ _ rfl, nonzeroWorks nonzero _ _ rfl,
      isDivision_div_mod a nonzero⟩
  · rw [← Value.isZero_eq double]
    exact beq_iff_eq

/-- The least integer divided by minus one. -/
theorem integer_arithmetic_exact_at_least_integer : (-1 : Int64) ≠ 0 ∧
    applyInfix .empty .divide (.integer .minValue) (.integer (-1)) = .ok (.integer .minValue) ∧
    applyInfix .empty .modulo (.integer .minValue) (.integer (-1)) = .ok (.integer 0) := by
  have nonzero : (-1 : Int64) ≠ 0 := by decide
  obtain ⟨_, _, divided, _⟩ := integer_arithmetic_exact .empty .minValue (-1)
  obtain ⟨quotient, remainder, first, second, division⟩ := divided nonzero
  obtain ⟨rfl, rfl⟩ := division.wrapped ⟨rfl, rfl⟩
  exact ⟨nonzero, first, second⟩

end Scripting
