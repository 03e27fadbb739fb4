import ArmProgram.Number
import Mathlib

/-!
The exact values of doubles. A finite double is a fraction, and doubles compare
as their fractions do: the one with the larger exponent is larger, because its
mantissa has all its bits.
-/

namespace ArmProgram.Decimal

open Float.Model (UnpackedFloat Format)

def Fraction.value (fraction : Fraction) : ℚ :=
  (if fraction.negative then -(fraction.num : ℚ) else fraction.num) / fraction.den

def value? (x : Float) : Option ℚ :=
  (fraction? x).map Fraction.value

def factor : UnpackedFloat.Sign → ℚ
  | .negative => -1
  | .positive => 1

def valueOf? : UnpackedFloat → Option ℚ
  | .zero _ => some 0
  | .finite sign mantissa exponent _ => some (factor sign * (mantissa * 2 ^ exponent))
  | .infinity _ | .notANumber => none

theorem dyadic_value (mantissa : Nat) (exponent : Int) :
    ((dyadic mantissa exponent).1 : ℚ) / (dyadic mantissa exponent).2 =
      mantissa * 2 ^ exponent := by
  cases exponent with
  | ofNat up => simp [dyadic]
  | negSucc down => simp [dyadic, zpow_negSucc, div_eq_mul_inv]

theorem value?_unpack (x : Float) : value? x = valueOf? x.toModel.unpack := by
  unfold value? fraction?
  cases x.toModel.unpack with
  | notANumber => rfl
  | infinity sign => rfl
  | zero sign => simp [Fraction.value, valueOf?]
  | finite sign mantissa exponent positive =>
      have value := dyadic_value mantissa exponent
      cases sign with
      | positive =>
          simp only [Option.map_some, Fraction.value, valueOf?, factor, one_mul, ← value]
          rfl
      | negative =>
          simp only [Option.map_some, Fraction.value, valueOf?, factor, ← value,
            ← neg_div, neg_one_mul]
          rfl

theorem isFinite_iff (x : Float) : isFinite x = true ↔ ∃ value, value? x = some value := by
  unfold isFinite value?
  cases fraction? x <;> simp

/-! The shape of a double. -/

/-- A mantissa with all its bits, or one that is short at the least exponent. -/
def IsShaped (mantissa : Nat) (exponent : Int) : Prop :=
  mantissa < 2 ^ 53 ∧ -1074 ≤ exponent ∧ (2 ^ 52 ≤ mantissa ∨ exponent = -1074)

theorem leading_one (mantissa : BitVec 52) :
    (1#1 ++ mantissa).toNat = 2 ^ 52 + mantissa.toNat := by
  rw [BitVec.toNat_append, ← Nat.shiftLeft_add_eq_or_of_lt mantissa.isLt]
  rfl

theorem unpack_shaped (bits : BitVec Format.binary64.numBits) (sign : UnpackedFloat.Sign)
    (mantissa : Nat) (exponent : Int) (positive : 0 < mantissa)
    (unpacked : UnpackedFloat.unpack .binary64 bits = .finite sign mantissa exponent positive) :
    IsShaped mantissa exponent := by
  unfold UnpackedFloat.unpack at unpacked
  simp only at unpacked
  split at unpacked
  · split at unpacked <;> cases unpacked
  · split at unpacked
    · rename_i small
      split at unpacked
      · cases unpacked
      · cases unpacked
        have bound := (UnpackedFloat.unpackMantissa bits).isLt
        have least : (UnpackedFloat.unpackExponent bits).toNat = 0 := by rw [small]; rfl
        have bias : Format.binary64.exponentBias = 1023 := rfl
        refine ⟨?_, ?_, Or.inr ?_⟩
        · omega
        · omega
        · omega
    · rename_i large
      cases unpacked
      have bound := (UnpackedFloat.unpackMantissa bits).isLt
      have above : (UnpackedFloat.unpackExponent bits).toNat ≠ 0 :=
        fun zero => large (BitVec.eq_of_toNat_eq zero)
      have bias : Format.binary64.exponentBias = 1023 := rfl
      have whole : (1#1 ++ UnpackedFloat.unpackMantissa bits).toNat =
          2 ^ 52 + (UnpackedFloat.unpackMantissa bits).toNat := leading_one _
      refine ⟨?_, ?_, Or.inl ?_⟩
      · omega
      · omega
      · omega

/-- Mantissas and exponents of this shape are ordered by the exponent first. -/
theorem shaped_lt {mantissa other : Nat} {exponent beyond : Int}
    (shaped : IsShaped mantissa exponent) (again : IsShaped other beyond)
    (less : exponent < beyond) :
    (mantissa : ℚ) * 2 ^ exponent < other * 2 ^ beyond := by
  obtain ⟨bound, least, -⟩ := shaped
  obtain ⟨-, -, full⟩ := again
  have full : 2 ^ 52 ≤ other := by
    rcases full with full | lowest
    · exact full
    · omega
  have small : (mantissa : ℚ) < 2 ^ 53 := by exact_mod_cast bound
  have large : (2 : ℚ) ^ 52 ≤ other := by exact_mod_cast full
  have positive : (0 : ℚ) < 2 ^ exponent := by positivity
  have step : (2 : ℚ) ^ (exponent + 1) ≤ 2 ^ beyond :=
    zpow_le_zpow_right₀ (by norm_num) (by omega)
  calc (mantissa : ℚ) * 2 ^ exponent
      < 2 ^ 53 * 2 ^ exponent := by exact mul_lt_mul_of_pos_right small positive
    _ = 2 ^ 52 * 2 ^ (exponent + 1) := by
        rw [zpow_add₀ (by norm_num : (2 : ℚ) ≠ 0)]
        ring
    _ ≤ 2 ^ 52 * 2 ^ beyond := by exact mul_le_mul_of_nonneg_left step (by norm_num)
    _ ≤ other * 2 ^ beyond := by exact mul_le_mul_of_nonneg_right large (by positivity)

theorem compare_shaped {mantissa other : Nat} {exponent beyond : Int}
    (shaped : IsShaped mantissa exponent) (again : IsShaped other beyond) :
    (compare exponent beyond).then (compare mantissa other) =
      compare ((mantissa : ℚ) * 2 ^ exponent) (other * 2 ^ beyond) := by
  rcases lt_trichotomy exponent beyond with less | rfl | more
  · rw [compare_lt_iff_lt.mpr less, compare_lt_iff_lt.mpr (shaped_lt shaped again less)]
    rfl
  · have positive : (0 : ℚ) < 2 ^ exponent := by positivity
    rw [compare_eq_iff_eq.mpr rfl]
    rcases lt_trichotomy mantissa other with less | rfl | more
    · have scaled :=
        mul_lt_mul_of_pos_right (Nat.cast_lt.mpr less : (mantissa : ℚ) < other) positive
      rw [compare_lt_iff_lt.mpr less, compare_lt_iff_lt.mpr scaled]
      rfl
    · rw [compare_eq_iff_eq.mpr rfl, compare_eq_iff_eq.mpr rfl]
      rfl
    · have scaled :=
        mul_lt_mul_of_pos_right (Nat.cast_lt.mpr more : (other : ℚ) < mantissa) positive
      rw [compare_gt_iff_gt.mpr more, compare_gt_iff_gt.mpr scaled]
      rfl
  · rw [compare_gt_iff_gt.mpr more, compare_gt_iff_gt.mpr (shaped_lt again shaped more)]
    rfl

theorem magnitude_positive {mantissa : Nat} (exponent : Int) (positive : 0 < mantissa) :
    (0 : ℚ) < mantissa * 2 ^ exponent := by
  have counted : (0 : ℚ) < mantissa := Nat.cast_pos.mpr positive
  positivity

def HasShape : UnpackedFloat → Prop
  | .finite _ mantissa exponent _ => IsShaped mantissa exponent
  | _ => True

theorem compare_neg (left right : ℚ) : compare (-left) (-right) = (compare left right).swap := by
  rcases lt_trichotomy left right with less | rfl | more
  · rw [compare_lt_iff_lt.mpr less, compare_gt_iff_gt.mpr (neg_lt_neg less)]
    rfl
  · rw [compare_eq_iff_eq.mpr rfl, compare_eq_iff_eq.mpr rfl]
    rfl
  · rw [compare_gt_iff_gt.mpr more, compare_lt_iff_lt.mpr (neg_lt_neg more)]
    rfl

/-- Doubles compare as their exact values. -/
theorem compare_values {one other : UnpackedFloat} {left right : ℚ} (shaped : HasShape one)
    (again : HasShape other) (value : valueOf? one = some left)
    (beyond : valueOf? other = some right) :
    one.compare other = some (compare left right) := by
  -- Only numbers of one sign have to be compared digit by digit, and by their shape they can be.
  cases one with
  | notANumber | infinity => cases value
  | zero sign =>
      cases value
      cases other with
      | notANumber | infinity => cases beyond
      | zero sign => cases beyond; rfl
      | finite sign mantissa exponent positive =>
          cases beyond
          have large := magnitude_positive exponent positive
          cases sign with
          | positive =>
              rw [compare_lt_iff_lt.mpr (by simpa [factor] using large)]
              rfl
          | negative =>
              rw [compare_gt_iff_gt.mpr (by simpa [factor] using large)]
              rfl
  | finite sign mantissa exponent positive =>
      cases value
      have large := magnitude_positive exponent positive
      cases other with
      | notANumber | infinity => cases beyond
      | zero sign' =>
          cases beyond
          cases sign with
          | positive =>
              rw [compare_gt_iff_gt.mpr (by simpa [factor] using large)]
              rfl
          | negative =>
              rw [compare_lt_iff_lt.mpr (by simpa [factor] using large)]
              rfl
      | finite sign' mantissa' exponent' positive' =>
          cases beyond
          have large' := magnitude_positive exponent' positive'
          have ordered := compare_shaped shaped again
          cases sign <;> cases sign' <;> simp only [factor, one_mul, neg_one_mul]
          case positive.positive => rw [← ordered]; rfl
          case negative.negative => rw [compare_neg, ← ordered]; rfl
          case positive.negative =>
              rw [compare_gt_iff_gt.mpr (by linarith)]
              rfl
          case negative.positive =>
              rw [compare_lt_iff_lt.mpr (by linarith)]
              rfl

theorem unpack_hasShape (x : Float) : HasShape x.toModel.unpack := by
  unfold HasShape
  split
  · rename_i sign mantissa exponent positive unpacked
    exact unpack_shaped _ sign mantissa exponent positive unpacked
  · exact True.intro

theorem lt_iff_unpack_lt (x y : Float) :
    x < y ↔ UnpackedFloat.lt x.toModel.unpack y.toModel.unpack = true := by
  show Float.lt x y = true ↔ _
  unfold Float.lt
  exact decide_eq_true_iff

theorem lt_iff_value_lt (x y : Float) (left right : ℚ) (value : value? x = some left)
    (beyond : value? y = some right) : x < y ↔ left < right := by
  rw [value?_unpack] at value beyond
  have compared := compare_values (unpack_hasShape x) (unpack_hasShape y) value beyond
  rw [lt_iff_unpack_lt]
  unfold UnpackedFloat.lt
  rw [compared]
  simp [compare_lt_iff_lt]

end ArmProgram.Decimal
