import ArmProgram.Proofs.Decimal.Exact

/-!
Integers turned into doubles. The mantissa of a double holds 53 bits: an
integer that fits keeps its value, and a larger one is rounded to something
that is no smaller than the first that does not fit.
-/

namespace ArmProgram.Decimal

open Float.Model (UnpackedFloat Format totalExponent)
open Float.Model.UnpackedFloat

/-! Packing a mantissa that has all its bits loses nothing. -/

theorem sign_components (sign : Sign) (exponent : BitVec 11) (mantissa : BitVec 52) :
    Sign.ofBitVec (unpackSign (packComponents .binary64 sign exponent mantissa)) = sign := by
  simp only [unpackSign, packComponents, BitVec.extractLsb]
  rw [BitVec.extractLsb'_append_eq_of_le (by omega),
    BitVec.extractLsb'_append_eq_of_le (by omega)]
  cases sign <;> rfl

theorem unpack_infinity (sign : Sign) :
    UnpackedFloat.unpack .binary64 (packedInfinity .binary64 sign) = .infinity sign := by
  cases sign <;> rfl

theorem log2_of_full (mantissa : Nat) (full : 2 ^ 52 ≤ mantissa) (bound : mantissa < 2 ^ 53) :
    mantissa.log2 = 52 := by
  have present : mantissa ≠ 0 := by omega
  exact (Nat.log2_eq_iff present).mpr ⟨full, bound⟩

theorem biased_bits (biased : Nat) (least : 0 < biased) (most : biased < 2047) :
    (BitVec.ofNat 11 biased).toNat = biased ∧ BitVec.ofNat 11 biased ≠ -1#11 ∧
      BitVec.ofNat 11 biased ≠ 0#11 := by
  have same : (BitVec.ofNat 11 biased).toNat = biased := by
    rw [BitVec.toNat_ofNat, Nat.mod_eq_of_lt (by omega)]
  refine ⟨same, fun ones => ?_, fun zeros => ?_⟩
  · have bits := congrArg BitVec.toNat ones
    rw [same] at bits
    have top : (-1#11).toNat = 2047 := rfl
    omega
  · have bits := congrArg BitVec.toNat zeros
    rw [same] at bits
    have none : (0#11).toNat = 0 := rfl
    omega

theorem mantissa_bits (mantissa : Nat) (full : 2 ^ 52 ≤ mantissa) (bound : mantissa < 2 ^ 53) :
    (1#1 ++ BitVec.ofNat 52 mantissa).toNat = mantissa := by
  have rest : (BitVec.ofNat 52 mantissa).toNat = mantissa % 2 ^ 52 := BitVec.toNat_ofNat mantissa 52
  rw [leading_one, rest]
  omega

theorem unpack_pack_full (sign : Sign) (mantissa : Nat) (exponent : Int)
    (positive : 0 < mantissa) (full : 2 ^ 52 ≤ mantissa) (bound : mantissa < 2 ^ 53)
    (least : -1074 ≤ exponent) :
    (Float.Model.pack (.finite sign mantissa exponent positive)).unpack =
      if exponent ≤ 971 then .finite sign mantissa exponent positive else .infinity sign := by
  have bits := log2_of_full mantissa full bound
  have bias : Format.binary64.exponentBias = 1023 := rfl
  have width : Format.binary64.mantissaBits = 53 := rfl
  obtain ⟨biased, known⟩ : ∃ biased : Nat, (biased : Int) = exponent + 1075 :=
    ⟨(exponent + 1075).toNat, by omega⟩
  have same : (exponent + (1023 : Nat) + (52 : Nat)).toNat = biased := by
    rw [Int.add_assoc, show ((1023 : Nat) : Int) + (52 : Nat) = 1075 from rfl, ← known]
    exact Int.toNat_natCast biased
  show UnpackedFloat.unpack .binary64
    (UnpackedFloat.pack .binary64 (.finite sign mantissa exponent positive)) = _
  unfold UnpackedFloat.pack
  simp only [bits, bias, width, ↓reduceIte, same]
  split
  · rename_i huge
    rw [if_neg (by omega)]
    exact unpack_infinity sign
  · rename_i fits
    obtain ⟨exponentBits, notOnes, notZeros⟩ := biased_bits biased (by omega) (by omega)
    have whole := mantissa_bits mantissa full bound
    rw [if_pos (by omega)]
    unfold UnpackedFloat.unpack
    simp only [unpackMantissa_packComponents, unpackExponent_packComponents, sign_components,
      notOnes, notZeros, ↓reduceIte, exponentBits, whole, bias]
    congr 1
    omega

/-! Rounding. -/

theorem shift_mantissa (extended : ExtendedMantissa) (count : Nat) :
    (extended >>> count).mantissa = extended.mantissa / 2 ^ count := by
  induction count with
  | zero => simp [HShiftRight.hShiftRight, Nat.repeat]
  | succ count ih =>
      show (extended >>> count).mantissa / 2 = _
      rw [ih, Nat.div_div_eq_div_mul, Nat.pow_succ]

theorem rounded_bounds (extended : ExtendedMantissa) :
    extended.mantissa ≤ extended.roundedMantissa ∧
      extended.roundedMantissa ≤ extended.mantissa + 1 := by
  obtain ⟨mantissa, roundBit, stickyBit⟩ := extended
  cases roundBit <;> cases stickyBit <;>
    simp only [ExtendedMantissa.roundedMantissa, ExtendedMantissa.accuracy,
      Accuracy.roundToNearestEven] <;> omega

def cut (mantissa count : Nat) : ExtendedMantissa :=
  ExtendedMantissa.ofMantissaAndAccuracy mantissa .exact >>> count

theorem cut_mantissa (mantissa count : Nat) :
    (cut mantissa count).mantissa = mantissa / 2 ^ count :=
  shift_mantissa _ count

theorem cut_bounds (mantissa count : Nat) (present : mantissa ≠ 0)
    (bits : mantissa.log2 = 52 + count) :
    2 ^ 52 ≤ (cut mantissa count).roundedMantissa ∧
      (cut mantissa count).roundedMantissa ≤ 2 ^ 53 := by
  obtain ⟨least, most⟩ := rounded_bounds (cut mantissa count)
  obtain ⟨low, high⟩ := (Nat.log2_eq_iff present).mp bits
  have whole := cut_mantissa mantissa count
  have above : 2 ^ 52 ≤ mantissa / 2 ^ count := by
    rw [Nat.le_div_iff_mul_le (Nat.two_pow_pos count), ← Nat.pow_add]
    exact low
  have below : mantissa / 2 ^ count < 2 ^ 53 := by
    rw [Nat.div_lt_iff_lt_mul (Nat.two_pow_pos count), ← Nat.pow_add]
    exact Nat.lt_of_lt_of_le high (Nat.pow_le_pow_right (by omega) (by omega))
  omega

theorem cut_roundBit (mantissa count : Nat) :
    (cut mantissa (count + 1)).roundBit = (mantissa / 2 ^ count % 2 != 0) := by
  rw [← cut_mantissa]
  rfl

/-- A cut rounds up to the next power of two from the middle of the last two
mantissas on: the last one is odd, so a half goes up. -/
theorem cut_carries (mantissa count : Nat) (bits : mantissa.log2 = 53 + count) :
    (cut mantissa (count + 1)).roundedMantissa = 2 ^ 53 ↔
      (2 ^ 54 - 1) * 2 ^ count ≤ mantissa := by
  have whole := cut_mantissa mantissa (count + 1)
  have half := cut_roundBit mantissa count
  have small : mantissa / 2 ^ count < 2 ^ 54 := by
    rw [Nat.div_lt_iff_lt_mul (Nat.two_pow_pos count), ← Nat.pow_add]
    exact Nat.lt_of_lt_of_le Nat.lt_log2_self (Nat.pow_le_pow_right (by omega) (by omega))
  rw [← Nat.le_div_iff_mul_le (Nat.two_pow_pos count)]
  rw [Nat.pow_succ, ← Nat.div_div_eq_div_mul] at whole
  generalize mantissa / 2 ^ count = kept at whole half small
  obtain ⟨least, most⟩ := rounded_bounds (cut mantissa (count + 1))
  constructor
  · intro carried
    have last : kept / 2 = 2 ^ 53 - 1 := by omega
    rcases Nat.mod_two_eq_zero_or_one kept with even | odd
    · -- Without the half the last mantissa stays as it is.
      exfalso
      generalize cut mantissa (count + 1) = extended at *
      obtain ⟨mantissa', roundBit, stickyBit⟩ := extended
      simp only [even, bne_self_eq_false] at whole half carried
      subst whole half
      cases stickyBit <;>
        simp only [ExtendedMantissa.roundedMantissa, ExtendedMantissa.accuracy,
          Accuracy.roundToNearestEven] at carried <;> omega
    · omega
  · intro beyond
    have top : kept = 2 ^ 54 - 1 := by omega
    subst top
    generalize cut mantissa (count + 1) = extended at *
    obtain ⟨mantissa', roundBit, stickyBit⟩ := extended
    have full : mantissa' = 2 ^ 53 - 1 := whole
    have set : roundBit = true := half
    subst full set
    cases stickyBit <;> rfl

theorem shift_target (mantissa : Nat) (exponent : Int) (count : Nat)
    (bits : mantissa.log2 = 52 + count) (least : -1074 ≤ exponent + count) :
    shiftToTargetExponent .binary64 mantissa exponent .exact =
      (cut mantissa count, exponent + count) := by
  have target : Format.binary64.targetExponent (totalExponent mantissa exponent) =
      exponent + count := by
    have width : Format.binary64.mantissaBits = 53 := rfl
    have lowest : Format.binary64.minExponent = -1074 := rfl
    simp only [Format.targetExponent, totalExponent, bits, width, lowest]
    omega
  have amount : (exponent + count - exponent).toNat = count := by omega
  simp only [shiftToTargetExponent, shiftToExponent, target, amount]
  rfl

/-- A mantissa with at least as many bits as a double holds is cut once, and once
more if it was rounded up to the next power of two. -/
theorem round_cut (sign : Sign) (mantissa : Nat) (exponent : Int) (count : Nat)
    (present : mantissa ≠ 0) (bits : mantissa.log2 = 52 + count)
    (least : -1074 ≤ exponent + count) :
    ∃ rounded beyond positive,
      roundWithAccuracy .binary64 sign mantissa exponent .exact =
        .finite sign rounded beyond positive ∧
      2 ^ 52 ≤ rounded ∧ rounded < 2 ^ 53 ∧ exponent + count ≤ beyond ∧
      ((cut mantissa count).roundedMantissa < 2 ^ 53 →
        rounded = (cut mantissa count).roundedMantissa ∧ beyond = exponent + count) ∧
      ((cut mantissa count).roundedMantissa = 2 ^ 53 → beyond = exponent + count + 1) := by
  obtain ⟨low, high⟩ := cut_bounds mantissa count present bits
  unfold roundWithAccuracy
  rw [shift_target mantissa exponent count bits least]
  simp only
  generalize (cut mantissa count).roundedMantissa = rounded at low high
  by_cases fits : rounded < 2 ^ 53
  · have full := log2_of_full rounded low fits
    have whole : (cut rounded 0).mantissa = rounded := by
      rw [cut_mantissa, Nat.pow_zero, Nat.div_one]
    rw [shift_target rounded (exponent + count) 0 full (by omega)]
    refine ⟨rounded, exponent + count, by omega, ?_, low, fits, le_rfl, fun _ => ⟨rfl, rfl⟩,
      fun top => absurd fits (by omega)⟩
    simp only [whole, Nat.cast_zero, add_zero]
    rw [dif_neg (by omega)]
  · -- All bits are set and the cut rounds up.
    have top : rounded = 2 ^ 53 := by omega
    subst top
    have half : (cut (2 ^ 53) 1).mantissa = 2 ^ 52 := cut_mantissa (2 ^ 53) 1
    rw [shift_target (2 ^ 53) (exponent + count) 1 (Nat.log2_two_pow) (by omega)]
    refine ⟨2 ^ 52, exponent + count + 1, by decide, ?_, le_rfl, by decide, by omega,
      fun less => absurd less fits, fun _ => rfl⟩
    simp only [half]
    rfl

theorem div_one (n : Nat) (positive : 0 < n) :
    UnpackedFloat.div .binary64 (.finite .positive n 0 positive)
        (.finite .positive 1 0 Nat.one_pos) =
      roundWithAccuracy .binary64 .positive (n * 2 ^ (53 - n.log2)) (-(53 - n.log2 : Nat))
        .exact := by
  have target : min ((0 : Int) - 0) (Format.binary64.targetExponent
      (totalExponent n 0 - totalExponent 1 0)) = -((53 - n.log2 : Nat) : Int) := by
    have width : Format.binary64.mantissaBits = 53 := rfl
    have lowest : Format.binary64.minExponent = -1074 := rfl
    have one : Nat.log2 1 = 0 := rfl
    simp only [Format.targetExponent, totalExponent, width, lowest, one]
    omega
  have amount : ((0 : Int) - 0 - -((53 - n.log2 : Nat) : Int)).toNat = 53 - n.log2 := by omega
  simp only [UnpackedFloat.div, divCore, target, amount, Nat.div_one, Nat.mod_one,
    accuracyOfFraction, Nat.shiftLeft_eq, ↓reduceIte]
  rfl

theorem cut_even (half : Nat) : (cut (2 * half) 1).roundedMantissa = half := by
  have bit : (2 * half % 2 != 0) = false := by simp
  have quotient : 2 * half / 2 = half := by omega
  show ExtendedMantissa.roundedMantissa ⟨2 * half / 2, 2 * half % 2 != 0, false⟩ = half
  rw [bit, quotient]
  rfl

theorem log2_scaled (n count : Nat) (present : n ≠ 0) :
    (n * 2 ^ count).log2 = n.log2 + count := by
  have scaled : n * 2 ^ count ≠ 0 := Nat.mul_ne_zero present (Nat.two_pow_pos count).ne'
  have low := Nat.log2_self_le present
  have high := Nat.lt_log2_self (n := n)
  refine (Nat.log2_eq_iff scaled).mpr ⟨?_, ?_⟩
  · rw [Nat.pow_add]
    exact Nat.mul_le_mul_right _ low
  · rw [Nat.add_right_comm, Nat.pow_add]
    exact Nat.mul_lt_mul_of_pos_right high (Nat.two_pow_pos count)

/-- The least integer whose nearest double would be infinite. -/
def leastInfinite : Nat := 2 ^ 1024 - 2 ^ 970

/-- The middle between the last mantissa of a size and the next power of two. -/
theorem lt_middle_iff (n count least : Nat) (present : n ≠ 0)
    (known : least = 2 ^ (54 + count) - 2 ^ count) :
    n < least ↔
      n.log2 < 53 + count ∨ n.log2 = 53 + count ∧ n < (2 ^ 54 - 1) * 2 ^ count := by
  have low : n.log2 < 53 + count ↔ n < 2 ^ (53 + count) := Nat.log2_lt present
  have high : n.log2 < 54 + count ↔ n < 2 ^ (54 + count) := Nat.log2_lt present
  rw [Nat.pow_add] at low high known
  generalize 2 ^ count = unit at *
  omega

/-- Only integers of 1024 bits are examined by more than their size. -/
theorem lt_leastInfinite_iff (n : Nat) (present : n ≠ 0) :
    n < leastInfinite ↔
      n.log2 < 1023 ∨ n.log2 = 1023 ∧ n < (2 ^ 54 - 1) * 2 ^ 970 :=
  lt_middle_iff n 970 leastInfinite present (by simp only [leastInfinite, Nat.reduceAdd])

theorem div_one_shape (n : Nat) (positive : 0 < n) :
    ∃ mantissa exponent present,
      UnpackedFloat.div .binary64 (.finite .positive n 0 positive)
          (.finite .positive 1 0 Nat.one_pos) = .finite .positive mantissa exponent present ∧
      2 ^ 52 ≤ mantissa ∧ mantissa < 2 ^ 53 ∧ (n.log2 : Int) - 52 ≤ exponent ∧
      (exponent ≤ 971 ↔ n < leastInfinite) ∧
      (n < 2 ^ 53 → (mantissa : ℚ) * 2 ^ exponent = n) := by
  have present : n ≠ 0 := by omega
  have scaled := log2_scaled n (53 - n.log2) present
  have large : n * 2 ^ (53 - n.log2) ≠ 0 := Nat.mul_ne_zero present (Nat.two_pow_pos _).ne'
  obtain ⟨rounded, beyond, there, result, full, bound, above, exactly, carried⟩ :=
    round_cut .positive (n * 2 ^ (53 - n.log2)) (-(53 - n.log2 : Nat))
      (n.log2 + (53 - n.log2) - 52) large (by omega) (by omega)
  rw [div_one]
  refine ⟨rounded, beyond, there, result, full, bound, by omega, ?_, fun fits => ?_⟩
  · obtain ⟨-, carry⟩ := cut_bounds _ (n.log2 + (53 - n.log2) - 52) large (by omega)
    rw [lt_leastInfinite_iff n present]
    by_cases last : n.log2 = 1023
    · have carries : (cut n 971).roundedMantissa = 2 ^ 53 ↔ (2 ^ 54 - 1) * 2 ^ 970 ≤ n :=
        cut_carries n 970 last
      simp only [last, Nat.reduceSub, Nat.reduceAdd, Nat.pow_zero, Nat.mul_one]
        at exactly carried carry
      generalize (2 ^ 54 - 1) * 2 ^ 970 = least at *
      rcases Nat.lt_or_eq_of_le carry with less | top
      · obtain ⟨-, rfl⟩ := exactly less
        omega
      · have next := carried top
        omega
    · omega
  -- An integer that fits is scaled up by at least one bit, which is cut off again.
  have short : n.log2 ≤ 52 := by
    have less := (Nat.log2_lt present).mpr fits
    omega
  have once : n.log2 + (53 - n.log2) - 52 = 1 := by omega
  have even : n * 2 ^ (53 - n.log2) = 2 * (n * 2 ^ (52 - n.log2)) := by
    rw [show 53 - n.log2 = 52 - n.log2 + 1 by omega, Nat.pow_succ]
    ring
  rw [once, even, cut_even] at exactly
  have half : n * 2 ^ (52 - n.log2) < 2 ^ 53 := by
    have bits := log2_scaled n (52 - n.log2) present
    have less := Nat.lt_log2_self (n := n * 2 ^ (52 - n.log2))
    rwa [bits, show n.log2 + (52 - n.log2) + 1 = 53 by omega] at less
  obtain ⟨rfl, rfl⟩ := exactly half
  have undone : (-((53 - n.log2 : Nat) : Int) + (1 : Nat)) = -((52 - n.log2 : Nat) : Int) := by
    omega
  rw [undone, zpow_neg, zpow_natCast]
  push_cast
  rw [mul_assoc, mul_inv_cancel₀ (by positivity), mul_one]

/-! Integers as doubles. -/

def signOf (negative : Bool) : Sign :=
  if negative then .negative else .positive

theorem unpack_ofRatio_one (negative : Bool) (n : Nat) (positive : 0 < n) :
    ∃ mantissa exponent present,
      (ofRatio negative n 1).toModel.unpack =
        (if exponent ≤ 971 then .finite (signOf negative) mantissa exponent present
          else .infinity (signOf negative)) ∧
      2 ^ 52 ≤ mantissa ∧ (n.log2 : Int) - 52 ≤ exponent ∧
      (exponent ≤ 971 ↔ n < leastInfinite) ∧
      (n < 2 ^ 53 → (mantissa : ℚ) * 2 ^ exponent = n) := by
  obtain ⟨mantissa, exponent, present, result, full, bound, above, fits, exactly⟩ :=
    div_one_shape n positive
  have least : -1074 ≤ exponent := by omega
  have magnitude : (ofRatio false n 1).toModel.unpack =
      if exponent ≤ 971 then .finite .positive mantissa exponent present
      else .infinity .positive := by
    rw [← unpack_pack_full .positive mantissa exponent present full bound least, ← result]
    simp only [ofRatio, positive, Nat.one_pos, ↓reduceDIte, Bool.false_eq_true, ↓reduceIte]
  refine ⟨mantissa, exponent, present, ?_, full, above, fits, exactly⟩
  cases negative with
  | false => exact magnitude
  | true =>
      have turned : ofRatio true n 1 = -ofRatio false n 1 := rfl
      have opposite : (-ofRatio false n 1).toModel.unpack =
          (Float.Model.pack (ofRatio false n 1).toModel.unpack.neg).unpack := rfl
      rw [turned, opposite, magnitude]
      split
      · rename_i small
        have again := unpack_pack_full .negative mantissa exponent present full bound least
        rw [if_pos small] at again
        exact again
      · exact unpack_infinity .negative

/-- Exactly the integers from the least on have an infinite nearest double. -/
theorem isInf_ofInt (n : Int) : (ofInt n).isInf = true ↔ leastInfinite ≤ n.natAbs := by
  by_cases zero : n = 0
  · subst zero
    have least : 1 < leastInfinite := (lt_leastInfinite_iff 1 (by decide)).mpr (Or.inl (by decide))
    have finite : (ofInt 0).isInf = false := rfl
    rw [finite]
    constructor
    · intro infinite
      cases infinite
    · intro beyond
      simp only [Int.natAbs_zero] at beyond
      omega
  · have positive : 0 < n.natAbs := Int.natAbs_pos.mpr zero
    obtain ⟨mantissa, exponent, present, unpacked, -, -, fits, -⟩ :=
      unpack_ofRatio_one (decide (n < 0)) n.natAbs positive
    have same : (ofInt n).isInf = (if exponent ≤ 971 then
        UnpackedFloat.finite (signOf (decide (n < 0))) mantissa exponent present
          else .infinity (signOf (decide (n < 0)))).isInf := congrArg UnpackedFloat.isInf unpacked
    rw [same, ← Nat.not_lt, ← fits]
    split
    · rename_i small
      simp [small, UnpackedFloat.isInf]
    · rename_i large
      simp [large, UnpackedFloat.isInf]

theorem magnitude_large (n mantissa : Nat) (exponent : Int) (full : 2 ^ 52 ≤ mantissa)
    (above : (n.log2 : Int) - 52 ≤ exponent) (large : 2 ^ 53 ≤ n) :
    (2 : ℚ) ^ 53 ≤ mantissa * 2 ^ exponent := by
  have bits : 53 ≤ n.log2 := (Nat.le_log2 (by omega)).mpr large
  have low : (2 : ℚ) ^ 52 ≤ mantissa := by exact_mod_cast full
  have scale : (2 : ℚ) ^ (1 : Int) ≤ 2 ^ exponent := zpow_le_zpow_right₀ (by norm_num) (by omega)
  calc (2 : ℚ) ^ 53 = (2 : ℚ) ^ 52 * (2 : ℚ) ^ (1 : Int) := by norm_num
    _ ≤ (mantissa : ℚ) * 2 ^ exponent := mul_le_mul low scale (by norm_num) (by positivity)

/-- An integer that 53 bits hold keeps its value as a double. A larger one stays
at least as large as the first that they do not hold. -/
theorem value?_ofInt (n : Int) (finite : (ofInt n).isInf = false) :
    ∃ value, value? (ofInt n) = some value ∧ (n.natAbs < 2 ^ 53 → value = n) ∧
      (2 ^ 53 ≤ n → 2 ^ 53 ≤ value) ∧ (n ≤ -2 ^ 53 → value ≤ -2 ^ 53) := by
  by_cases zero : n = 0
  · subst zero
    have unpacked : (ofInt 0).toModel.unpack = .zero .positive := rfl
    refine ⟨0, ?_, fun _ => by norm_num, fun large => ?_, fun large => ?_⟩
    · rw [value?_unpack, unpacked]
      rfl
    · norm_num at large
    · norm_num at large
  · have positive : 0 < n.natAbs := Int.natAbs_pos.mpr zero
    obtain ⟨mantissa, exponent, present, unpacked, full, above, -, exactly⟩ :=
      unpack_ofRatio_one (decide (n < 0)) n.natAbs positive
    have same : (ofInt n).toModel.unpack =
        (if exponent ≤ 971 then .finite (signOf (decide (n < 0))) mantissa exponent present
          else .infinity (signOf (decide (n < 0)))) := unpacked
    have fits : exponent ≤ 971 := by
      by_contra beyond
      have infinite : (ofInt n).isInf = (ofInt n).toModel.unpack.isInf := rfl
      rw [infinite, same, if_neg beyond] at finite
      cases finite
    rw [if_pos fits] at same
    refine ⟨factor (signOf (decide (n < 0))) * (mantissa * 2 ^ exponent), ?_, ?_, ?_, ?_⟩
    · rw [value?_unpack, same]
      rfl
    · intro small
      rw [exactly small]
      rcases lt_or_gt_of_ne zero with negative | natural
      · have magnitude : ((n.natAbs : Nat) : ℚ) = -n := by
          rw [Nat.cast_natAbs, abs_of_neg negative]
          push_cast
          ring
        simp [negative, signOf, factor, magnitude]
      · have magnitude : ((n.natAbs : Nat) : ℚ) = n := by
          rw [Nat.cast_natAbs, abs_of_pos natural]
        simp [not_lt.mpr natural.le, signOf, factor, magnitude]
    · intro large
      have natural : ¬ n < 0 := by omega
      have beyond := magnitude_large n.natAbs mantissa exponent full above (by omega)
      simpa [natural, signOf, factor] using beyond
    · intro large
      have negative : n < 0 := by omega
      have beyond := magnitude_large n.natAbs mantissa exponent full above (by omega)
      simp only [negative, decide_true, signOf, ↓reduceIte, factor, neg_one_mul]
      exact neg_le_neg beyond

end ArmProgram.Decimal
