import Scripting.Decimal.Reader
import Scripting.Expr.Printer

/-!
# Written integers read back

The text of an integer is a minus sign, if it is negative, and the decimal digits of its magnitude.
Reading such a text gives the integer back. `Decimal.Denotes` describes all texts that are read.
-/

namespace Scripting

namespace Decimal

/-- The value of a row of digits, as the library has it. -/
theorem digitsValue_eq_ofDigitChars (digits : List Char) :
    digitsValue 0 digits = Nat.ofDigitChars 10 digits 0 := by
  rw [Nat.ofDigitChars_eq_foldl]
  rfl

/-- The digits of a number have that number as their value. -/
theorem digitsValue_toDigits (n : Nat) : digitsValue 0 (Nat.toDigits 10 n) = n := by
  rw [digitsValue_eq_ofDigitChars, Nat.ofDigitChars_ten_toDigits]

theorem toDigits_isDigit {n : Nat} {c : Char} (member : c ∈ Nat.toDigits 10 n) : c.isDigit :=
  Nat.isDigit_of_mem_toDigits (by decide) (by decide) member

/-- A digit is no sign, so a row of digits has none to split off. -/
theorem splitSign_of_isDigit {digits : List Char} (passed : ∀ c ∈ digits, c.isDigit) :
    splitSign digits = (false, digits) := by
  cases digits with
  | nil => rfl
  | cons c cs =>
    have digit : c.isDigit := passed c List.mem_cons_self
    unfold splitSign
    split
    · rename_i same; cases same; exact absurd digit (by decide)
    · rename_i same; cases same; exact absurd digit (by decide)
    · rfl

/-- Digits after an optional sign are read as the integer that they denote. -/
theorem readInteger_of_split {s : String} {negative : Bool} {digits : List Char} {n : Int64}
    (split : splitSign s.toList = (negative, digits)) (nonempty : digits ≠ [])
    (passed : ∀ c ∈ digits, c.isDigit)
    (value : (if negative then -(digitsValue 0 digits : Int) else digitsValue 0 digits) =
      n.toInt) : readInteger s = some n := by
  have readable : (digits.isEmpty || !digits.all Char.isDigit) = false := by
    rw [List.isEmpty_eq_false_iff.mpr nonempty, List.all_eq_true.mpr passed]
    rfl
  unfold readInteger
  rw [split]
  dsimp only
  rw [readable, value, if_neg Bool.false_ne_true, if_pos ⟨n.minValue_le_toInt, n.toInt_le⟩,
    Int64.ofInt_toInt]

/-- An optional sign and at least one decimal digit, which denote the integer. -/
inductive Denotes : List Char → Int → Prop where
  | unsigned {digits : List Char} : digits ≠ [] → (∀ c ∈ digits, c.isDigit) →
      Denotes digits (Nat.ofDigitChars 10 digits 0)
  | plus {digits : List Char} : digits ≠ [] → (∀ c ∈ digits, c.isDigit) →
      Denotes ('+' :: digits) (Nat.ofDigitChars 10 digits 0)
  | minus {digits : List Char} : digits ≠ [] → (∀ c ∈ digits, c.isDigit) →
      Denotes ('-' :: digits) (-Nat.ofDigitChars 10 digits 0)

theorem denotes_of_split {cs digits : List Char} {negative : Bool}
    (split : splitSign cs = (negative, digits)) (nonempty : digits ≠ [])
    (passed : ∀ c ∈ digits, c.isDigit) :
    Denotes cs (if negative then -(digitsValue 0 digits : Int) else digitsValue 0 digits) := by
  rw [digitsValue_eq_ofDigitChars]
  unfold splitSign at split
  split at split
  · cases split
    exact .minus nonempty passed
  · cases split
    exact .plus nonempty passed
  · cases split
    exact .unsigned nonempty passed

theorem denotes_of_readInteger {s : String} {n : Int64} (read : readInteger s = some n) :
    Denotes s.toList n.toInt := by
  unfold readInteger at read
  generalize parts : splitSign s.toList = split at read
  obtain ⟨negative, digits⟩ := split
  dsimp only at read
  by_cases readable : digits.isEmpty || !digits.all Char.isDigit
  · rw [if_pos readable] at read
    cases read
  · rw [if_neg readable] at read
    simp only [Bool.or_eq_true, List.isEmpty_iff, Bool.not_eq_true', not_or, Bool.not_eq_false,
      List.all_eq_true] at readable
    obtain ⟨bounds, same⟩ := Option.ite_none_right_eq_some.mp read
    rw [Int64.toInt_minValue, Int64.toInt_maxValue] at bounds
    rw [← Option.some.inj same, Int64.toInt_ofInt_of_le bounds.1 (by omega)]
    exact denotes_of_split parts readable.1 readable.2

theorem readInteger_of_denotes {s : String} {n : Int64} (denotes : Denotes s.toList n.toInt) :
    readInteger s = some n := by
  generalize chars : s.toList = cs at denotes
  generalize value : n.toInt = i at denotes
  cases denotes with
  | unsigned nonempty passed =>
    apply readInteger_of_split _ nonempty passed
    · rw [value, digitsValue_eq_ofDigitChars, if_neg Bool.false_ne_true]
    · rw [chars, splitSign_of_isDigit passed]
  | plus nonempty passed =>
    apply readInteger_of_split _ nonempty passed
    · rw [value, digitsValue_eq_ofDigitChars, if_neg Bool.false_ne_true]
    · rw [chars, splitSign]
  | minus nonempty passed =>
    apply readInteger_of_split _ nonempty passed
    · rw [value, digitsValue_eq_ofDigitChars, if_pos rfl]
    · rw [chars, splitSign]

/-- The texts that are read as an integer are those that denote it. -/
theorem readInteger_eq_some_iff {s : String} {n : Int64} :
    readInteger s = some n ↔ Denotes s.toList n.toInt :=
  ⟨denotes_of_readInteger, readInteger_of_denotes⟩

end Decimal

/-- The text of an integer that is not negative holds its digits only. -/
theorem toList_integerText_of_nonneg {n : Int64} (nonneg : 0 ≤ n.toInt) :
    (integerText n).toList = Nat.toDigits 10 n.toInt.toNat := by
  unfold integerText
  rw [Int.toString_eq_repr, Int.repr_eq_if, if_pos nonneg, Nat.toList_repr]

/-- The text of a negative integer is a minus sign and the digits of its magnitude. -/
theorem toList_integerText_of_neg {n : Int64} (negative : n.toInt < 0) :
    (integerText n).toList = '-' :: Nat.toDigits 10 (-n.toInt).toNat := by
  unfold integerText
  rw [Int.toString_eq_repr, Int.repr_eq_if, if_neg (by omega), String.toList_append,
    Nat.toList_repr]
  rfl

/-- An integer is read back from its text. -/
theorem readInteger_integerText (n : Int64) : Decimal.readInteger (integerText n) = some n := by
  have digits : ∀ magnitude : Nat, ∀ c ∈ Nat.toDigits 10 magnitude, c.isDigit :=
    fun _ _ => Decimal.toDigits_isDigit
  rcases Int.lt_or_le n.toInt 0 with negative | nonneg
  · apply Decimal.readInteger_of_split _ Nat.toDigits_ne_nil (digits (-n.toInt).toNat)
    · rw [if_pos rfl, Decimal.digitsValue_toDigits]
      omega
    · rw [toList_integerText_of_neg negative]
      rfl
  · apply Decimal.readInteger_of_split _ Nat.toDigits_ne_nil (digits n.toInt.toNat)
    · rw [if_neg Bool.false_ne_true, Decimal.digitsValue_toDigits]
      omega
    · rw [toList_integerText_of_nonneg nonneg, Decimal.splitSign_of_isDigit (digits _)]

end Scripting
