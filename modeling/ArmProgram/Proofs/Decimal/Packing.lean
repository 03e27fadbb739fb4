import ArmProgram.Proofs.Decimal.Integer

/-!
Doubles and their bits. Taking a finite double apart and packing what comes out
gives the double back, and what has the shape of a double is packed without
loss.
-/

namespace ArmProgram.Decimal

open Float.Model (UnpackedFloat Format)
open Float.Model.UnpackedFloat

theorem toBitVec_ofBitVec (bit : BitVec 1) : (Sign.ofBitVec bit).toBitVec = bit := by
  revert bit
  decide

theorem toNat_append_add {width other : ℕ} (high : BitVec width) (low : BitVec other) :
    (high ++ low).toNat = high.toNat * 2 ^ other + low.toNat := by
  rw [BitVec.toNat_append, ← Nat.shiftLeft_add_eq_or_of_lt low.isLt, Nat.shiftLeft_eq]

theorem packComponents_unpack (bits : BitVec Format.binary64.numBits) :
    packComponents .binary64 (Sign.ofBitVec (unpackSign bits)) (unpackExponent bits)
      (unpackMantissa bits) = bits := by
  apply BitVec.eq_of_toNat_eq
  have sign : (unpackSign bits).toNat = bits.toNat / 2 ^ 63 % 2 := by
    simp [unpackSign, Nat.shiftRight_eq_div_pow]
  have exponent : (unpackExponent bits).toNat = bits.toNat / 2 ^ 52 % 2 ^ 11 := by
    simp [unpackExponent, Nat.shiftRight_eq_div_pow]
  have mantissa : (unpackMantissa bits).toNat = bits.toNat % 2 ^ 52 := by
    simp [unpackMantissa, Nat.shiftRight_eq_div_pow]
  have bound : bits.toNat < 2 ^ 64 := bits.isLt
  unfold packComponents
  rw [toBitVec_ofBitVec, toNat_append_add, toNat_append_add, sign, exponent, mantissa]
  show (bits.toNat / 2 ^ 63 % 2 * 2 ^ 11 + bits.toNat / 2 ^ 52 % 2 ^ 11) * 2 ^ 52 +
    bits.toNat % 2 ^ 52 = bits.toNat
  omega

theorem pack_normal (sign : Sign) (mantissa : ℕ) (exponent : Int) (positive : 0 < mantissa)
    (full : 2 ^ 52 ≤ mantissa) (bound : mantissa < 2 ^ 53) (least : -1074 ≤ exponent)
    (most : exponent ≤ 971) :
    UnpackedFloat.pack .binary64 (.finite sign mantissa exponent positive) =
      packComponents .binary64 sign (BitVec.ofNat 11 (exponent + 1075).toNat)
        (BitVec.ofNat 52 mantissa) := by
  have biased : (exponent + (Format.binary64.exponentBias : Int) +
      (Format.binary64.mantissaBitsWithoutImplicit : Int)).toNat = (exponent + 1075).toNat := by
    have bias : Format.binary64.exponentBias = 1023 := rfl
    have width : Format.binary64.mantissaBitsWithoutImplicit = 52 := rfl
    rw [bias, width]
    congr 1
    omega
  have bits := log2_of_full mantissa full bound
  have fits : ¬ 2 ^ Format.binary64.exponentBits ≤ (exponent + 1075).toNat + 1 := by
    show ¬ 2 ^ 11 ≤ _
    omega
  unfold UnpackedFloat.pack
  simp only [biased, fits, bits, ↓reduceIte]
  rfl

theorem pack_subnormal (sign : Sign) (mantissa : ℕ) (positive : 0 < mantissa)
    (short : mantissa < 2 ^ 52) :
    UnpackedFloat.pack .binary64 (.finite sign mantissa (-1074) positive) =
      packComponents .binary64 sign 0#11 (BitVec.ofNat 52 mantissa) := by
  have bits : mantissa.log2 < 52 := (Nat.log2_lt (by omega)).mpr short
  have missing : ¬ mantissa.log2 + 1 = Format.binary64.mantissaBits := by
    show ¬ mantissa.log2 + 1 = 53
    omega
  unfold UnpackedFloat.pack
  simp only [missing, ↓reduceIte]
  rfl

/-- Packing what finite bits were taken apart into gives them back. -/
theorem pack_unpack_bits (bits : BitVec Format.binary64.numBits)
    (finite : (valueOf? (UnpackedFloat.unpack .binary64 bits)).isSome = true) :
    UnpackedFloat.pack .binary64 (UnpackedFloat.unpack .binary64 bits) = bits := by
  have bias : Format.binary64.exponentBias = 1023 := rfl
  have again := packComponents_unpack bits
  have bound : (unpackMantissa bits).toNat < 2 ^ 52 := (unpackMantissa bits).isLt
  have below : (unpackExponent bits).toNat < 2 ^ 11 := (unpackExponent bits).isLt
  unfold UnpackedFloat.unpack at finite ⊢
  simp only at finite ⊢
  split at finite
  · split at finite <;> cases finite
  · rename_i some
    rw [if_neg some]
    have notOnes : (unpackExponent bits).toNat ≠ 2047 :=
      fun same => some (BitVec.eq_of_toNat_eq same)
    split
    · rename_i least
      rw [least] at again
      split
      · rename_i none
        rw [none] at again
        exact again
      · rename_i some
        have exponent : ((unpackExponent bits).toNat : Int) -
            ((Format.binary64.exponentBias : Int) + (52 : ℕ)) + 1 = -1074 := by
          rw [least, bias]
          rfl
        simp only [exponent]
        rw [pack_subnormal _ _ _ bound, BitVec.ofNat_toNat, BitVec.setWidth_eq]
        exact again
    · rename_i more
      have notZeros : (unpackExponent bits).toNat ≠ 0 :=
        fun same => more (BitVec.eq_of_toNat_eq same)
      have whole := leading_one (unpackMantissa bits)
      have exponent : (((unpackExponent bits).toNat : Int) -
          ((Format.binary64.exponentBias : Int) + (52 : ℕ)) + 1075).toNat =
          (unpackExponent bits).toNat := by
        rw [bias]
        omega
      have kept : BitVec.ofNat 52 (1#1 ++ unpackMantissa bits).toNat = unpackMantissa bits := by
        apply BitVec.eq_of_toNat_eq
        rw [BitVec.toNat_ofNat, whole, Nat.add_mod_left, Nat.mod_eq_of_lt bound]
      rw [pack_normal _ _ _ _ (by omega) (by omega) (by omega) (by omega), exponent, kept,
        BitVec.ofNat_toNat, BitVec.setWidth_eq]
      exact again

theorem pack_unpack (x : Float) (finite : isFinite x = true) :
    Float.ofModel (Float.Model.pack x.toModel.unpack) = x := by
  obtain ⟨⟨⟨bits⟩, valid⟩⟩ := x
  have same : UnpackedFloat.pack .binary64 (UnpackedFloat.unpack .binary64 bits) = bits := by
    apply pack_unpack_bits
    obtain ⟨value, known⟩ := (isFinite_iff _).mp finite
    rw [value?_unpack] at known
    exact Option.isSome_iff_exists.mpr ⟨value, known⟩
  simp only [Float.Model.pack, Float.Model.unpack, same]

theorem unpack_pack_subnormal (sign : Sign) (mantissa : ℕ) (positive : 0 < mantissa)
    (short : mantissa < 2 ^ 52) :
    (Float.Model.pack (.finite sign mantissa (-1074) positive)).unpack =
      .finite sign mantissa (-1074) positive := by
  have kept : (BitVec.ofNat 52 mantissa).toNat = mantissa := by
    rw [BitVec.toNat_ofNat, Nat.mod_eq_of_lt short]
  have some : BitVec.ofNat 52 mantissa ≠ 0#52 := by
    intro none
    rw [none] at kept
    exact positive.ne kept
  have notOnes : (0#11 : BitVec 11) ≠ -1#11 := by decide
  have least : (((0#11 : BitVec 11).toNat : Int) -
      ((Format.binary64.exponentBias : Int) + (52 : ℕ)) + 1) = -1074 := rfl
  show UnpackedFloat.unpack .binary64
    (UnpackedFloat.pack .binary64 (.finite sign mantissa (-1074) positive)) = _
  rw [pack_subnormal sign mantissa positive short]
  unfold UnpackedFloat.unpack
  simp only [unpackMantissa_packComponents, unpackExponent_packComponents, sign_components,
    notOnes, some, ↓reduceIte, ↓reduceDIte, kept, least]

/-- What is shaped as a double and small enough is packed without loss. -/
theorem unpack_pack_shaped (sign : Sign) {mantissa : ℕ} {exponent : Int}
    (shaped : IsShaped mantissa exponent) (positive : 0 < mantissa) (most : exponent ≤ 971) :
    (Float.Model.pack (.finite sign mantissa exponent positive)).unpack =
      .finite sign mantissa exponent positive := by
  obtain ⟨bound, least, filled⟩ := shaped
  by_cases full : 2 ^ 52 ≤ mantissa
  · rw [unpack_pack_full sign mantissa exponent positive full bound least, if_pos most]
  · have lowest := filled.resolve_left full
    subst lowest
    exact unpack_pack_subnormal sign mantissa positive (by omega)

theorem unpack_most (bits : BitVec Format.binary64.numBits) (sign : Sign)
    (mantissa : Nat) (exponent : Int) (positive : 0 < mantissa)
    (unpacked : UnpackedFloat.unpack .binary64 bits = .finite sign mantissa exponent positive) :
    exponent ≤ 971 := by
  have bias : Format.binary64.exponentBias = 1023 := rfl
  have below : (unpackExponent bits).toNat < 2 ^ 11 := (unpackExponent bits).isLt
  unfold UnpackedFloat.unpack at unpacked
  simp only at unpacked
  split at unpacked
  · split at unpacked <;> cases unpacked
  · rename_i some
    have notOnes : (unpackExponent bits).toNat ≠ 2047 :=
      fun same => some (BitVec.eq_of_toNat_eq same)
    split at unpacked
    · rename_i least
      split at unpacked
      · cases unpacked
      · cases unpacked
        have zero : (unpackExponent bits).toNat = 0 := by rw [least]; rfl
        omega
    · cases unpacked
      omega

end ArmProgram.Decimal
