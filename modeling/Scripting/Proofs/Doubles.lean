import Mathlib
import Scripting.Value.Arithmetic

/-!
# The doubles of integers

Numbers are tested for zero on doubles. An integer is rounded when it becomes a double, but rounding
never takes a whole number to zero: every step from an integer other than zero to its double leaves
53 binary digits of which the first one is not zero. `Full` says so of a double that is taken apart,
and `Value.isZero_eq` is what follows for the test.
-/

namespace Scripting

namespace Decimal

open Float.Model Float.Model.UnpackedFloat

/-- A number of 53 binary digits above the least exponent, or an infinity. -/
def Full : UnpackedFloat → Prop
  | .finite _ m e _ => m.log2 = 52 ∧ -1074 ≤ e
  | .infinity _ => True
  | .zero _ | .notANumber => False

theorem Full.beq_zero {x : UnpackedFloat} (full : Full x) (s : UnpackedFloat.Sign) :
    x.beq (.zero s) = false := by
  cases x with
  | zero | notANumber => exact full.elim
  | infinity t | finite t => cases t <;> rfl

theorem Full.neg {x : UnpackedFloat} (full : Full x) : Full x.neg := by
  cases x with
  | zero | notANumber => exact full.elim
  | infinity | finite => exact full

/-! ### Rounding -/

theorem mantissa_shiftRight (em : ExtendedMantissa) (n : Nat) :
    (em >>> n).mantissa = em.mantissa / 2 ^ n := by
  change (n.repeat ExtendedMantissa.shiftRightOne em).mantissa = _
  induction n with
  | zero => simp [Nat.repeat]
  | succ n ih =>
    rw [Nat.repeat, ExtendedMantissa.shiftRightOne, ih, Nat.div_div_eq_div_mul, Nat.pow_succ]

theorem le_roundedMantissa (em : ExtendedMantissa) : em.mantissa ≤ em.roundedMantissa := by
  obtain ⟨m, round, sticky⟩ := em
  cases round <;> cases sticky <;>
    simp only [ExtendedMantissa.roundedMantissa, ExtendedMantissa.accuracy,
      Accuracy.roundToNearestEven] <;> omega

theorem log2_mul_pow {m : Nat} (positive : 0 < m) (n : Nat) : (m * 2 ^ n).log2 = m.log2 + n := by
  have low := Nat.log2_self_le (Nat.pos_iff_ne_zero.mp positive)
  have high := @Nat.lt_log2_self m
  have unit := Nat.two_pow_pos n
  rw [Nat.log2_eq_iff (Nat.pos_iff_ne_zero.mp (Nat.mul_pos positive unit))]
  constructor
  · rw [Nat.pow_add]
    exact Nat.mul_le_mul_right _ low
  · rw [Nat.add_right_comm, Nat.pow_add]
    exact Nat.mul_lt_mul_of_pos_right high unit

theorem log2_div_pow {m n : Nat} (positive : 0 < m) (below : n ≤ m.log2) :
    (m / 2 ^ n).log2 = m.log2 - n := by
  have low := Nat.log2_self_le (Nat.pos_iff_ne_zero.mp positive)
  have high := @Nat.lt_log2_self m
  have split : 2 ^ (m.log2 - n) * 2 ^ n = 2 ^ m.log2 := by rw [← Nat.pow_add]; congr 1; omega
  have least : 2 ^ (m.log2 - n) ≤ m / 2 ^ n := by
    rw [Nat.le_div_iff_mul_le (Nat.two_pow_pos n), split]
    exact low
  rw [Nat.log2_eq_iff (by have := Nat.two_pow_pos (m.log2 - n); omega)]
  refine ⟨least, ?_⟩
  rw [Nat.div_lt_iff_lt_mul (Nat.two_pow_pos n), Nat.pow_succ, Nat.mul_right_comm, split]
  rwa [Nat.pow_succ] at high

theorem targetExponent_eq {m : Nat} {e : Int} (large : -1022 ≤ m.log2 + e) :
    Format.binary64.targetExponent (totalExponent m e) = m.log2 - 52 + e := by
  have smallest : Format.binary64.minExponent = -1074 := rfl
  have width : Format.binary64.mantissaBits = 53 := rfl
  rw [Format.targetExponent, totalExponent, smallest, width]
  omega

/-- Where there are digits to spare, shifting drops all but 53 of them. -/
theorem shiftToTargetExponent_full {m : Nat} {e : Int} {a : Accuracy}
    (precise : 52 ≤ m.log2) (large : -1022 ≤ m.log2 + e) :
    (shiftToTargetExponent .binary64 m e a).1.mantissa = m / 2 ^ (m.log2 - 52) ∧
    (shiftToTargetExponent .binary64 m e a).2 = e + (m.log2 - 52 : Nat) := by
  have amount : (Format.binary64.targetExponent (totalExponent m e) - e).toNat = m.log2 - 52 := by
    rw [targetExponent_eq large]
    omega
  have start : (ExtendedMantissa.ofMantissaAndAccuracy m a).mantissa = m := by
    cases a with
    | exact => rfl
    | inexact o => cases o <;> rfl
  simp only [shiftToTargetExponent, shiftToExponent, amount, mantissa_shiftRight, start]
  trivial

theorem full_roundWithAccuracy (s : UnpackedFloat.Sign) {m : Nat} {e : Int} (positive : 0 < m)
    (precise : 52 ≤ m.log2) (large : -1022 ≤ m.log2 + e) :
    Full (roundWithAccuracy .binary64 s m e .exact) := by
  obtain ⟨shifted, moved⟩ := shiftToTargetExponent_full (a := .exact) precise large
  unfold roundWithAccuracy
  generalize shiftToTargetExponent .binary64 m e .exact = first at shifted moved
  obtain ⟨em, e₁⟩ := first
  dsimp only at shifted moved ⊢
  -- One step up may carry into the next binary digit, and then one more digit is dropped.
  have width : em.mantissa.log2 = 52 := by
    rw [shifted, log2_div_pow positive (by omega)]
    omega
  have least : 2 ^ 52 ≤ em.roundedMantissa := by
    have nonzero : em.mantissa ≠ 0 := by
      intro zero
      rw [zero] at width
      cases width
    have low := Nat.log2_self_le nonzero
    rw [width] at low
    exact Nat.le_trans low (le_roundedMantissa em)
  generalize em.roundedMantissa = r at least
  have rounded : 52 ≤ r.log2 := (Nat.le_log2 (by omega)).mpr least
  obtain ⟨final, raised⟩ := shiftToTargetExponent_full (m := r) (e := e₁) (a := .exact) rounded
    (by omega)
  generalize shiftToTargetExponent .binary64 r e₁ .exact = second at final raised
  obtain ⟨em₂, e₂⟩ := second
  dsimp only at final raised ⊢
  have kept : em₂.mantissa.log2 = 52 := by
    rw [final, log2_div_pow (by omega) (by omega)]
    omega
  split
  · rename_i zero
    rw [zero] at kept
    cases kept
  · exact ⟨kept, by omega⟩

theorem full_round (s : UnpackedFloat.Sign) {m : Nat} (positive : 0 < m) :
    Full (UnpackedFloat.round .binary64 s m 0) := by
  have target : Format.binary64.targetExponent (totalExponent m 0) = m.log2 - 52 := by
    rw [targetExponent_eq (by omega)]
    omega
  unfold UnpackedFloat.round decreaseExponent
  simp only [target]
  have wide : (m <<< ((0 : Int) - (m.log2 - 52)).toNat).log2 =
      m.log2 + ((0 : Int) - (m.log2 - 52)).toNat := by
    rw [Nat.shiftLeft_eq, log2_mul_pow positive]
  apply full_roundWithAccuracy
  · rw [Nat.shiftLeft_eq]
    exact Nat.mul_pos positive (Nat.two_pow_pos _)
  · omega
  · omega

/-! ### Packing -/

theorem unpack_packedInfinity (s : UnpackedFloat.Sign) :
    ∃ t, UnpackedFloat.unpack .binary64 (packedInfinity .binary64 s) = .infinity t := by
  unfold UnpackedFloat.unpack packedInfinity
  simp

/-- With an exponent field that is neither all zeros nor all ones the leading bit is implied. -/
theorem full_unpack_packComponents (s : UnpackedFloat.Sign) {b : BitVec 11} (f : BitVec 52)
    (notZeros : b ≠ 0#11) (notOnes : b ≠ -1#11) :
    Full (UnpackedFloat.unpack .binary64 (packComponents .binary64 s b f)) := by
  have bias : Format.binary64.exponentBias = 1023 := rfl
  have field : 0 < b.toNat := Nat.pos_iff_ne_zero.mpr fun zero =>
    notZeros (BitVec.eq_of_toNat_eq zero)
  have fraction := f.isLt
  have mantissa : (1#1 ++ f).toNat = 2 ^ 52 + f.toNat := by
    rw [BitVec.toNat_append, ← Nat.shiftLeft_add_eq_or_of_lt fraction]
    rfl
  unfold UnpackedFloat.unpack
  simp only [unpackMantissa_packComponents, unpackExponent_packComponents, if_neg notOnes,
    if_neg notZeros]
  refine ⟨?_, ?_⟩
  · rw [mantissa, Nat.log2_eq_iff (by omega)]
    omega
  · rw [bias]
    omega

theorem Full.unpack_pack {x : UnpackedFloat} (full : Full x) :
    Full (Float.Model.pack x).unpack := by
  change Full (UnpackedFloat.unpack .binary64 (UnpackedFloat.pack .binary64 x))
  cases x with
  | zero | notANumber => exact full.elim
  | infinity s =>
    obtain ⟨t, unpacked⟩ := unpack_packedInfinity s
    rw [UnpackedFloat.pack, unpacked]
    trivial
  | finite s m e positive =>
    obtain ⟨width, large⟩ := full
    have normal : m.log2 + 1 = Format.binary64.mantissaBits := by rw [width]; rfl
    have bias : Format.binary64.exponentBias = 1023 := rfl
    simp only [UnpackedFloat.pack, if_pos normal, bias]
    generalize field : (e + (1023 : Nat) + (52 : Nat)).toNat = b
    split
    · obtain ⟨t, unpacked⟩ := unpack_packedInfinity s
      rw [unpacked]
      trivial
    · rename_i fits
      have held : (BitVec.ofNat 11 b).toNat = b := Nat.mod_eq_of_lt (by omega)
      apply full_unpack_packComponents
      · intro zeros
        have empty : b = 0 := held.symm.trans (congrArg BitVec.toNat zeros)
        omega
      · intro ones
        have filled : b = 2047 := held.symm.trans (congrArg BitVec.toNat ones)
        omega

/-! ### Integers -/

theorem unpack_one : (Float.ofBits 0x3FF0000000000000).toModel.unpack =
    .finite .positive (2 ^ 52) (-52) (by decide) := rfl

theorem Full.mul_one {x : Float} (full : Full x.toModel.unpack) :
    Full (x * Float.ofBits 0x3FF0000000000000).toModel.unpack := by
  change Full (Float.Model.pack (UnpackedFloat.mul .binary64 x.toModel.unpack
    (Float.ofBits 0x3FF0000000000000).toModel.unpack)).unpack
  apply Full.unpack_pack
  rw [unpack_one]
  generalize x.toModel.unpack = u at full
  cases u with
  | zero | notANumber => exact full.elim
  | infinity => trivial
  | finite s m e left =>
    obtain ⟨width, large⟩ := full
    have wide := log2_mul_pow left 52
    apply full_roundWithAccuracy
    · exact Nat.mul_pos left (Nat.two_pow_pos 52)
    · omega
    · omega

theorem full_toFloat {n : UInt64} (positive : 0 < n.toNat) : Full n.toFloat.toModel.unpack := by
  have above : compare (n.toNat : Int) 0 = .gt := Int.compare_eq_gt.mpr (by omega)
  change Full (Float.Model.pack (UnpackedFloat.normalize .binary64 n.toNat 0 .positive)).unpack
  apply Full.unpack_pack
  unfold UnpackedFloat.normalize
  rw [above]
  exact full_round _ positive

theorem full_ofScientific {n : Nat} (positive : 0 < n) :
    Full (Float.Model.ofScientific n 0).unpack := by
  have bits : Format.binary64.mantissaBits = 53 := rfl
  have bound : ¬ (0 : Int) < -((2 ^ Format.binary64.exponentBits : Int) + n.log2) := by
    dsimp only
    omega
  have wide := log2_mul_pow positive 53
  apply Full.unpack_pack
  unfold UnpackedFloat.ofScientific
  rw [dif_neg (by omega), if_neg (by decide), if_neg bound, if_pos (by decide)]
  simp only [UnpackedFloat.mul, bits, Nat.shiftLeft_eq, Int.toNat_zero, Nat.pow_zero, Nat.mul_one]
  apply full_roundWithAccuracy
  · exact Nat.mul_pos positive (Nat.two_pow_pos 53)
  · omega
  · omega

theorem full_ofNat {n : Nat} (positive : 0 < n) : Full (Float.ofNat n).toModel.unpack := by
  change Full (Float.ofScientific n false 0).toModel.unpack
  unfold Float.ofScientific
  split
  · rename_i small
    have same : n.toUInt64.toNat = n := Nat.mod_eq_of_lt (by omega)
    exact (full_toFloat (by omega)).mul_one
  · exact full_ofScientific positive

theorem full_ofInt {i : Int} (nonzero : i ≠ 0) : Full (Float.ofInt i).toModel.unpack := by
  cases i with
  | ofNat n =>
    have positive : 0 < n := Nat.pos_iff_ne_zero.mpr fun zero => nonzero (by rw [zero]; rfl)
    exact full_ofNat positive
  | negSucc n =>
    change Full (Float.Model.pack (Float.ofNat (n + 1)).toModel.unpack.neg).unpack
    exact (full_ofNat (Nat.succ_pos n)).neg.unpack_pack

/-- Zero is the only integer whose double is zero. -/
theorem ofInt64_beq_zero (n : Int64) : (ofInt64 n == 0.0) = (n == 0) := by
  by_cases zero : n = 0
  · subst zero
    decide
  · have nonzero : n.toInt ≠ 0 := fun same => zero (Int64.toInt_inj.mp same)
    have distinct : (n == 0) = false := beq_false_of_ne zero
    rw [distinct]
    exact (full_ofInt nonzero).beq_zero .positive

end Decimal

/-- The test for zero is the one on doubles. -/
theorem Value.isZero_eq {v : Value} {x : Float} (number : v.toFloat? = some x) :
    v.isZero = (x == 0.0) := by
  cases v with
  | integer n =>
    cases number
    exact (Decimal.ofInt64_beq_zero n).symm
  | float y =>
    cases number
    rfl
  | _ => cases number

end Scripting
