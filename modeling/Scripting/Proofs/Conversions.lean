import Scripting.Proofs.IntegerText
import Scripting.Session

/-!
# Conversions between integers and texts

`string` gives the text of an integer, and `int` and `number` read it back. Both read every text that
denotes an integer of 64 bits, and `int` reads no other.
-/

namespace Scripting

namespace Machine

variable {m : Machine} {s : String} {n : Int64}

theorem callBuiltin_string (m : Machine) (n : Int64) :
    m.callBuiltin .string [.integer n] = some (.value (.text (integerText n)), m) := rfl

theorem callBuiltin_int_of_some (read : Decimal.readInteger s = some n) :
    m.callBuiltin .int [.text s] = some (.value (.integer n), m) := by
  have converted : Evaluation.toInteger m.heap (.text s) = .ok (.integer n) := by
    rw [Evaluation.toInteger, read]
  simp only [callBuiltin, complete, Evaluation.callBuiltin, consult, converted]

theorem callBuiltin_int_of_none (unread : Decimal.readInteger s = none) :
    m.callBuiltin .int [.text s] = some (.failed (.notAnInteger s), m) := by
  have refused : Evaluation.toInteger m.heap (.text s) = .error (.notAnInteger s) := by
    rw [Evaluation.toInteger, unread]
  simp only [callBuiltin, complete, Evaluation.callBuiltin, consult, refused, Completion.ofStop]

theorem callBuiltin_int_iff :
    m.callBuiltin .int [.text s] = some (.value (.integer n), m) ↔
      Decimal.Denotes s.toList n.toInt := by
  rw [← Decimal.readInteger_eq_some_iff]
  constructor
  · intro called
    cases read : Decimal.readInteger s with
    | some k =>
      rw [callBuiltin_int_of_some read] at called
      cases called
      rfl
    | none =>
      rw [callBuiltin_int_of_none read] at called
      cases called
  · exact callBuiltin_int_of_some

/-- A text that denotes an integer is that integer for `number` as well. -/
theorem callBuiltin_number_of_denotes (denotes : Decimal.Denotes s.toList n.toInt) :
    m.callBuiltin .number [.text s] = some (.value (.integer n), m) := by
  have converted : Evaluation.toNumber (.text s) = .ok (.integer n) := by
    rw [Evaluation.toNumber, Decimal.readInteger_of_denotes denotes]
  simp only [callBuiltin, complete, Evaluation.callBuiltin, converted]
  rfl

/-- Conversions undo rendering. The text of an integer is converted back to it. Exactly the texts that
denote an integer of 64 bits are converted to it by `int`, and by `number` as well; `int` refuses
every other text. Nothing else happens on the machine. -/
theorem conversions_undo_rendering (m : Machine) :
    (∀ n : Int64, ∃ s, m.callBuiltin .string [.integer n] = some (.value (.text s), m) ∧
      m.callBuiltin .int [.text s] = some (.value (.integer n), m) ∧
      m.callBuiltin .number [.text s] = some (.value (.integer n), m)) ∧
    (∀ (s : String) (n : Int64),
      (m.callBuiltin .int [.text s] = some (.value (.integer n), m) ↔
        Decimal.Denotes s.toList n.toInt) ∧
      (m.callBuiltin .int [.text s] = some (.value (.integer n), m) →
        m.callBuiltin .number [.text s] = some (.value (.integer n), m))) ∧
    (∀ (s : String) (i : Int), Decimal.Denotes s.toList i → Int64.minValue.toInt ≤ i →
      i ≤ Int64.maxValue.toInt →
        m.callBuiltin .int [.text s] = some (.value (.integer (.ofInt i)), m)) ∧
    ∀ s : String, (∀ n : Int64, ¬Decimal.Denotes s.toList n.toInt) →
      m.callBuiltin .int [.text s] = some (.failed (.notAnInteger s), m) := by
  refine ⟨fun n => ?_, fun s n => ⟨callBuiltin_int_iff, fun called => ?_⟩,
    fun s i denotes least greatest => ?_, fun s denotesNone => ?_⟩
  · have read := readInteger_integerText n
    have denotes := Decimal.denotes_of_readInteger read
    exact ⟨integerText n, callBuiltin_string m n, callBuiltin_int_iff.mpr denotes,
      callBuiltin_number_of_denotes denotes⟩
  · exact callBuiltin_number_of_denotes (callBuiltin_int_iff.mp called)
  · rw [Int64.toInt_minValue] at least
    rw [Int64.toInt_maxValue] at greatest
    have same : (Int64.ofInt i).toInt = i := Int64.toInt_ofInt_of_le least (by omega)
    exact callBuiltin_int_iff.mpr (same.symm ▸ denotes)
  · apply callBuiltin_int_of_none
    apply Option.eq_none_iff_forall_not_mem.mpr
    intro n read
    exact denotesNone n (Decimal.denotes_of_readInteger read)

end Machine

end Scripting
