import ArmProgram.Proofs.Decimal.Packing
import ArmProgram.Decimal.Shortest

/-!
Reading decimals. A double stands for every number that rounds to it: an
interval around its value, which begins closer below a power of two. Reading
rounds once, and a decimal in the interval of a double is read as that double.
-/

namespace ArmProgram.Decimal

open Float.Model (UnpackedFloat Format totalExponent)
open Float.Model.UnpackedFloat

/-- The number an extended mantissa is what is left of. What was cut off is nothing, less than
a half, a half, or more. -/
def Represents : ExtendedMantissa → ℚ → Prop
  | ⟨mantissa, false, false⟩, x => x = mantissa
  | ⟨mantissa, false, true⟩, x => (mantissa : ℚ) < x ∧ x < mantissa + 1 / 2
  | ⟨mantissa, true, false⟩, x => x = mantissa + 1 / 2
  | ⟨mantissa, true, true⟩, x => (mantissa : ℚ) + 1 / 2 < x ∧ x < mantissa + 1

theorem represents_exact (mantissa : ℕ) :
    Represents (ExtendedMantissa.ofMantissaAndAccuracy mantissa .exact) mantissa :=
  rfl

theorem represents_fraction (num den : ℕ) (positive : 0 < den) :
    Represents (ExtendedMantissa.ofMantissaAndAccuracy (num / den)
      (accuracyOfFraction (num % den) den)) (num / den : ℚ) := by
  have present : (0 : ℚ) < den := by exact_mod_cast positive
  have whole : (num : ℚ) = den * (num / den : ℕ) + (num % den : ℕ) := by
    exact_mod_cast (Nat.div_add_mod num den).symm
  have split : (num : ℚ) / den = (num / den : ℕ) + ((num % den : ℕ) : ℚ) / den := by
    rw [eq_div_of_mul_eq present.ne'
        (by ring : ((num / den : ℕ) : ℚ) * den = den * (num / den : ℕ)),
      ← add_div, ← whole]
  have bound := Nat.mod_lt num positive
  rw [split]
  generalize num / den = quotient
  generalize num % den = rest at bound
  have below : (rest : ℚ) / den < 1 := by
    rw [div_lt_one present]
    exact_mod_cast bound
  unfold accuracyOfFraction
  split
  · rename_i none
    subst none
    simp [Represents, ExtendedMantissa.ofMantissaAndAccuracy]
  · rename_i some
    have above : (0 : ℚ) < rest / den := by
      apply div_pos _ present
      exact_mod_cast Nat.pos_of_ne_zero some
    rcases lt_trichotomy (2 * rest) den with less | same | more
    · have short : (rest : ℚ) / den < 1 / 2 := by
        rw [div_lt_div_iff₀ present (by norm_num)]
        exact_mod_cast (by omega : rest * 2 < 1 * den)
      rw [compare_lt_iff_lt.mpr less]
      exact ⟨by linarith, by linarith⟩
    · have half : (rest : ℚ) / den = 1 / 2 := by
        rw [div_eq_div_iff present.ne' (by norm_num)]
        exact_mod_cast (by omega : rest * 2 = 1 * den)
      rw [compare_eq_iff_eq.mpr same, half]
      rfl
    · have long : (1 : ℚ) / 2 < rest / den := by
        rw [div_lt_div_iff₀ (by norm_num) present]
        exact_mod_cast (by omega : 1 * den < rest * 2)
      rw [compare_gt_iff_gt.mpr more]
      exact ⟨by linarith, by linarith⟩

theorem Represents.half {extended : ExtendedMantissa} {x : ℚ} (kept : Represents extended x) :
    Represents extended.shiftRightOne (x / 2) := by
  obtain ⟨mantissa, roundBit, stickyBit⟩ := extended
  have whole : (mantissa : ℚ) = 2 * (mantissa / 2 : ℕ) + (mantissa % 2 : ℕ) := by
    exact_mod_cast (Nat.div_add_mod mantissa 2).symm
  rcases Nat.mod_two_eq_zero_or_one mantissa with even | odd
  · have bit : (mantissa % 2 != 0) = false := by rw [even]; rfl
    rw [even, Nat.cast_zero, add_zero] at whole
    show Represents ⟨mantissa / 2, mantissa % 2 != 0, roundBit || stickyBit⟩ (x / 2)
    rw [bit]
    cases roundBit <;> cases stickyBit <;>
      simp only [Represents, Bool.or_false, Bool.or_true] at kept ⊢
    · linarith
    · constructor <;> linarith
    · constructor <;> linarith
    · constructor <;> linarith
  · have bit : (mantissa % 2 != 0) = true := by rw [odd]; rfl
    rw [odd, Nat.cast_one] at whole
    show Represents ⟨mantissa / 2, mantissa % 2 != 0, roundBit || stickyBit⟩ (x / 2)
    rw [bit]
    cases roundBit <;> cases stickyBit <;>
      simp only [Represents, Bool.or_false, Bool.or_true] at kept ⊢
    · linarith
    · constructor <;> linarith
    · constructor <;> linarith
    · constructor <;> linarith

theorem Represents.shift {extended : ExtendedMantissa} {x : ℚ} (kept : Represents extended x)
    (count : ℕ) : Represents (extended >>> count) (x / 2 ^ count) := by
  induction count with
  | zero => simpa [HShiftRight.hShiftRight, Nat.repeat] using kept
  | succ count ih =>
      rw [pow_succ, ← div_div]
      exact ih.half

theorem Represents.bounds {extended : ExtendedMantissa} {x : ℚ} (kept : Represents extended x) :
    (extended.mantissa : ℚ) ≤ x ∧ x < extended.mantissa + 1 := by
  obtain ⟨mantissa, roundBit, stickyBit⟩ := extended
  cases roundBit <;> cases stickyBit <;> simp only [Represents] at kept ⊢ <;>
    constructor <;> linarith

/-- The whole number that `x` is rounded to: a half away at most, and just a half only if it is
even. -/
structure IsNearest (whole : ℕ) (x : ℚ) : Prop where
  low : (whole : ℚ) - 1 / 2 ≤ x
  high : x ≤ whole + 1 / 2
  tie : whole % 2 = 1 → (whole : ℚ) - 1 / 2 < x ∧ x < whole + 1 / 2

theorem Represents.rounded {extended : ExtendedMantissa} {x : ℚ} (kept : Represents extended x) :
    IsNearest extended.roundedMantissa x := by
  obtain ⟨mantissa, roundBit, stickyBit⟩ := extended
  cases roundBit <;> cases stickyBit <;>
    simp only [Represents, ExtendedMantissa.roundedMantissa, ExtendedMantissa.accuracy,
      Accuracy.roundToNearestEven] at kept ⊢
  · exact ⟨by linarith, by linarith, fun _ => ⟨by linarith, by linarith⟩⟩
  · exact ⟨by linarith, by linarith, fun _ => ⟨by linarith, by linarith⟩⟩
  · -- Halfway the even neighbour is taken.
    rcases Nat.mod_two_eq_zero_or_one mantissa with even | odd
    · rw [even, add_zero]
      exact ⟨by linarith, by linarith, fun odd => by omega⟩
    · rw [odd]
      refine ⟨?_, ?_, ?_⟩
      · push_cast; linarith
      · push_cast; linarith
      · intro other
        omega
  · refine ⟨?_, ?_, fun _ => ⟨?_, ?_⟩⟩ <;> push_cast <;> linarith

theorem IsNearest.unique {whole other : ℕ} {x : ℚ} (nearest : IsNearest whole x)
    (again : IsNearest other x) : whole = other := by
  have close : ∀ {whole other : ℕ}, IsNearest whole x → IsNearest other x → other ≤ whole := by
    intro whole other nearest again
    have step : other ≤ whole + 1 := by
      exact_mod_cast (by linarith [again.low, nearest.high] : (other : ℚ) ≤ whole + 1)
    by_contra above
    have next : other = whole + 1 := by omega
    subst next
    -- The middle between neighbours belongs to the even one alone.
    rcases Nat.mod_two_eq_zero_or_one whole with even | odd
    · have middle := (again.tie (by omega)).1
      push_cast at middle
      linarith [nearest.high]
    · have middle := (nearest.tie odd).2
      have low := again.low
      push_cast at low
      linarith
  exact le_antisymm (close again nearest) (close nearest again)

/-! The numbers that round to a double. -/

def Interval.Holds (interval : Interval) (x : ℚ) : Prop :=
  (interval.low : ℚ) ≤ x ∧ x ≤ interval.high ∧
    (interval.closed = false → (interval.low : ℚ) < x ∧ x < interval.high)

def RoundsTo (mantissa : ℕ) (exponent : Int) (x : ℚ) : Prop :=
  (Interval.of mantissa exponent).Holds (x / 2 ^ (exponent - 2))

/-- What the interval says when the last place of the mantissa is the unit. -/
theorem RoundsTo.scaled {mantissa : ℕ} {exponent : Int} {x : ℚ} (positive : 0 < mantissa)
    (rounds : RoundsTo mantissa exponent (x * 2 ^ exponent)) :
    IsNearest mantissa x ∧
      (mantissa = 2 ^ 52 → -1074 < exponent → (mantissa : ℚ) - 1 / 4 ≤ x) := by
  have units : x * 2 ^ exponent / 2 ^ (exponent - 2) = 4 * x := by
    rw [zpow_sub₀ (by norm_num)]
    field_simp
    norm_num
  unfold RoundsTo at rounds
  rw [units] at rounds
  obtain ⟨low, high, inside⟩ := rounds
  simp only [Interval.of, decide_eq_false_iff_not] at low high inside
  push_cast at high
  have least : 4 * (mantissa : ℚ) - 2 ≤ (4 * mantissa - (if mantissa = 0x10000000000000 ∧
      -1074 < exponent then 1 else 2) : ℕ) := by
    split
    · rw [Nat.cast_sub (by omega)]
      push_cast
      linarith
    · rw [Nat.cast_sub (by omega)]
      push_cast
      linarith
  refine ⟨⟨by linarith, by linarith, fun odd => ?_⟩, fun bottom above => ?_⟩
  · obtain ⟨below, beyond⟩ := inside (by omega)
    push_cast at beyond
    constructor <;> linarith
  · rw [if_pos ⟨by omega, above⟩, Nat.cast_sub (by omega)] at low
    push_cast at low
    linarith

/-- A number of the interval that has its last place below the mantissa's rounds up to the power
of two at which the mantissas begin: nothing else of the interval reaches below them. -/
theorem RoundsTo.below {mantissa : ℕ} {exponent place : Int} {x : ℚ}
    (shaped : IsShaped mantissa exponent) (positive : 0 < mantissa)
    (rounds : RoundsTo mantissa exponent (x * 2 ^ (place - exponent) * 2 ^ exponent))
    (bound : x < 2 ^ 53) (least : -1074 ≤ place) (less : place < exponent) :
    IsNearest (2 ^ 53) x ∧ mantissa = 2 ^ 52 ∧ exponent = place + 1 := by
  obtain ⟨⟨low, -, -⟩, bottom⟩ := rounds.scaled positive
  have filled : 2 ^ 52 ≤ mantissa := shaped.2.2.resolve_right (by omega)
  have large : (2 : ℚ) ^ 52 ≤ mantissa := by exact_mod_cast filled
  have scale : ∀ count : Int, count ≤ exponent - place →
      x * 2 ^ (place - exponent) < 2 ^ 53 * 2 ^ (-count) := by
    intro count away
    have step : (2 : ℚ) ^ (place - exponent) ≤ 2 ^ (-count) :=
      zpow_le_zpow_right₀ (by norm_num) (by omega)
    have power : (0 : ℚ) < 2 ^ (place - exponent) := by positivity
    nlinarith
  have once := scale 1 (by omega)
  norm_num at once
  have lowest : mantissa = 2 ^ 52 := by
    have close : (mantissa : ℚ) < 2 ^ 52 + 1 := by linarith
    have close : mantissa < 2 ^ 52 + 1 := by exact_mod_cast close
    omega
  have edge := bottom lowest (by omega)
  have next : exponent = place + 1 := by
    by_contra apart
    have twice := scale 2 (by omega)
    norm_num at twice
    linarith
  have half : (2 : ℚ) ^ (place - exponent) = 1 / 2 := by
    rw [next, sub_add_cancel_left]
    norm_num
  rw [half] at edge
  refine ⟨⟨?_, ?_, fun odd => by omega⟩, lowest, next⟩
  · push_cast
    linarith
  · push_cast
    linarith

/-- A number of the interval, rounded at the last place of its own size, is the mantissa or the
power of two that has the mantissa's place. -/
theorem RoundsTo.rounded {mantissa whole : ℕ} {exponent place : Int} {x : ℚ}
    (shaped : IsShaped mantissa exponent) (positive : 0 < mantissa)
    (rounds : RoundsTo mantissa exponent (x * 2 ^ place)) (bound : x < 2 ^ 53)
    (least : -1074 ≤ place) (full : 2 ^ 52 ≤ x ∨ place = -1074)
    (nearest : IsNearest whole x) :
    whole = mantissa ∧ place = exponent ∨
      whole = 2 ^ 53 ∧ mantissa = 2 ^ 52 ∧ exponent = place + 1 := by
  have moved : x * 2 ^ place = x * 2 ^ (place - exponent) * 2 ^ exponent := by
    rw [mul_assoc, ← zpow_add₀ (by norm_num), sub_add_cancel]
  rw [moved] at rounds
  rcases lt_trichotomy place exponent with less | rfl | more
  · obtain ⟨top, lowest, next⟩ := rounds.below shaped positive bound least less
    exact Or.inr ⟨nearest.unique top, lowest, next⟩
  · rw [sub_self, zpow_zero, mul_one] at rounds
    exact Or.inl ⟨nearest.unique (rounds.scaled positive).1, rfl⟩
  · -- The number would be too large.
    exfalso
    have high := (rounds.scaled positive).1.high
    have short : (mantissa : ℚ) + 1 ≤ 2 ^ 53 := by exact_mod_cast shaped.1
    have lowest := shaped.2.1
    have filled : (2 : ℚ) ^ 52 ≤ x := full.resolve_right (by omega)
    have double : (2 : ℚ) ^ (1 : Int) ≤ 2 ^ (place - exponent) :=
      zpow_le_zpow_right₀ (by norm_num) (by omega)
    have large : (2 : ℚ) ^ 52 * 2 ^ (1 : Int) ≤ x * 2 ^ (place - exponent) :=
      mul_le_mul filled double (by norm_num) (by linarith)
    norm_num at large
    linarith

/-! Rounding. -/

theorem ofMantissaAndAccuracy_mantissa (mantissa : ℕ) (accuracy : Accuracy) :
    (ExtendedMantissa.ofMantissaAndAccuracy mantissa accuracy).mantissa = mantissa := by
  rcases accuracy with _ | (_ | _ | _) <;> rfl

theorem target_eq (mantissa : ℕ) (exponent : Int) :
    Format.binary64.targetExponent (totalExponent mantissa exponent) =
      max ((mantissa.log2 : Int) + exponent - 52) (-1074) := by
  have width : Format.binary64.mantissaBits = 53 := rfl
  have lowest : Format.binary64.minExponent = -1074 := rfl
  simp only [Format.targetExponent, totalExponent, width, lowest]
  omega

theorem shift_fits (mantissa : ℕ) (exponent : Int) (bound : mantissa < 2 ^ 53)
    (least : -1074 ≤ exponent) :
    shiftToTargetExponent .binary64 mantissa exponent .exact =
      (⟨mantissa, false, false⟩, exponent) := by
  have bits : mantissa.log2 ≤ 52 := by
    by_cases zero : mantissa = 0
    · subst zero
      decide
    · have := (Nat.log2_lt zero).mpr bound
      omega
  have amount : (max ((mantissa.log2 : Int) + exponent - 52) (-1074) - exponent).toNat = 0 := by
    omega
  simp only [shiftToTargetExponent, shiftToExponent, target_eq, amount]
  simp [HShiftRight.hShiftRight, Nat.repeat, ExtendedMantissa.ofMantissaAndAccuracy]

/-- The first shift leaves a number below the mantissas' end, and among the mantissas unless its
place is the last there is. -/
theorem shifted_bounds {kept count : ℕ} {start : Int} {x : ℚ} (low : (kept : ℚ) ≤ x)
    (high : x < kept + 1)
    (amount : (count : Int) = max ((kept.log2 : Int) + start - 52) (-1074) - start) :
    x / 2 ^ count < 2 ^ 53 ∧ (2 ^ 52 ≤ x / 2 ^ count ∨ start + count = -1074) := by
  constructor
  · have size : kept + 1 ≤ 2 ^ (53 + count) :=
      Nat.lt_of_lt_of_le Nat.lt_log2_self (Nat.pow_le_pow_right (by omega) (by omega))
    have size : (kept : ℚ) + 1 ≤ 2 ^ (53 + count) := by exact_mod_cast size
    rw [div_lt_iff₀ (by positivity), ← pow_add]
    exact high.trans_le size
  · by_cases least : (kept.log2 : Int) + start - 52 ≤ -1074
    · exact Or.inr (by omega)
    · left
      have bits : kept.log2 = 52 + count := by omega
      have present : kept ≠ 0 := by
        intro zero
        rw [zero, Nat.log2_zero] at bits
        omega
      have size : (2 : ℚ) ^ (52 + count) ≤ kept := by
        rw [← bits]
        exact_mod_cast Nat.log2_self_le present
      rw [le_div_iff₀ (by positivity), ← pow_add]
      exact size.trans low

/-- What the first shift leaves of a number stands for it at another place. -/
theorem shift_represents {kept : ℕ} {start : Int} {x : ℚ} {accuracy : Accuracy}
    (represents : Represents (ExtendedMantissa.ofMantissaAndAccuracy kept accuracy) x)
    (enough : start ≤ Format.binary64.targetExponent (totalExponent kept start)) :
    ∃ extended place y,
      shiftToTargetExponent .binary64 kept start accuracy = (extended, place) ∧
      Represents extended y ∧ x * 2 ^ start = y * 2 ^ place ∧ y < 2 ^ 53 ∧ -1074 ≤ place ∧
      (2 ^ 52 ≤ y ∨ place = -1074) := by
  obtain ⟨low, high⟩ := represents.bounds
  rw [ofMantissaAndAccuracy_mantissa] at low high
  rw [target_eq] at enough
  obtain ⟨count, amount⟩ : ∃ count : ℕ, (count : Int) =
      max ((kept.log2 : Int) + start - 52) (-1074) - start :=
    ⟨(max ((kept.log2 : Int) + start - 52) (-1074) - start).toNat, by omega⟩
  obtain ⟨bound, full⟩ := shifted_bounds low high amount
  refine ⟨_, start + count, x / 2 ^ count, ?_, represents.shift count, ?_, bound, by omega, full⟩
  · simp only [shiftToTargetExponent, shiftToExponent, target_eq, ← amount, Int.toNat_natCast]
  · rw [zpow_add₀ (by norm_num), zpow_natCast]
    field_simp

theorem Represents.rounded_le {extended : ExtendedMantissa} {y : ℚ}
    (kept : Represents extended y) (bound : y < 2 ^ 53) : extended.roundedMantissa ≤ 2 ^ 53 := by
  have low := kept.rounded.low
  have close : (extended.roundedMantissa : ℚ) < 2 ^ 53 + 1 := by linarith
  have close : extended.roundedMantissa < 2 ^ 53 + 1 := by exact_mod_cast close
  omega

/-- Rounding is over with the first shift, except that the next power of two loses its last bit,
a zero. -/
theorem round_first (sign : Sign) {kept : ℕ} {start place : Int} {accuracy : Accuracy}
    {extended : ExtendedMantissa}
    (first : shiftToTargetExponent .binary64 kept start accuracy = (extended, place))
    (least : -1074 ≤ place) (bound : extended.roundedMantissa ≤ 2 ^ 53) :
    roundWithAccuracy .binary64 sign kept start accuracy =
      if zero : extended.roundedMantissa = 0 then .zero sign
      else if extended.roundedMantissa < 2 ^ 53 then
        .finite sign extended.roundedMantissa place (Nat.pos_of_ne_zero zero)
      else .finite sign (2 ^ 52) (place + 1) (by decide) := by
  unfold roundWithAccuracy
  rw [first]
  simp only
  generalize extended.roundedMantissa = whole at bound
  by_cases short : whole < 2 ^ 53
  · simp only [shift_fits whole place short least, short, ↓reduceIte]
  · have top : whole = 2 ^ 53 := by omega
    have half : (cut (2 ^ 53) 1).mantissa = 2 ^ 52 := cut_mantissa (2 ^ 53) 1
    have again := shift_target (2 ^ 53) place 1 Nat.log2_two_pow (by omega)
    subst top
    simp only [again, half]
    rfl

/-- What is left of a number of the interval is rounded to the mantissa. -/
theorem round_nearest (sign : Sign) {mantissa kept : ℕ} {exponent start : Int} {x : ℚ}
    {accuracy : Accuracy} (shaped : IsShaped mantissa exponent) (positive : 0 < mantissa)
    (represents : Represents (ExtendedMantissa.ofMantissaAndAccuracy kept accuracy) x)
    (enough : start ≤ Format.binary64.targetExponent (totalExponent kept start))
    (rounds : RoundsTo mantissa exponent (x * 2 ^ start)) :
    roundWithAccuracy .binary64 sign kept start accuracy =
      .finite sign mantissa exponent positive := by
  obtain ⟨extended, place, y, first, left, same, bound, least, full⟩ :=
    shift_represents represents enough
  rw [same] at rounds
  rw [round_first sign first least (left.rounded_le bound)]
  rcases rounds.rounded shaped positive bound least full left.rounded with
    ⟨whole, rfl⟩ | ⟨whole, lowest, rfl⟩
  · simp only [whole, positive.ne', shaped.1, ↓reduceDIte, ↓reduceIte]
  · subst lowest
    simp only [whole]
    rfl

theorem div_nearest {mantissa : ℕ} {exponent : Int} (shaped : IsShaped mantissa exponent)
    (positive : 0 < mantissa) {num den : ℕ} (left : 0 < num) (right : 0 < den)
    (rounds : RoundsTo mantissa exponent (num / den)) :
    UnpackedFloat.div .binary64 (.finite .positive num 0 left) (.finite .positive den 0 right) =
      .finite .positive mantissa exponent positive := by
  obtain ⟨shift, amount⟩ : ∃ shift : ℕ, (shift : Int) =
      -min 0 (max ((num.log2 : Int) - den.log2 - 53) (-1074)) :=
    ⟨(-min 0 (max ((num.log2 : Int) - den.log2 - 53) (-1074))).toNat, by omega⟩
  have target : min ((0 : Int) - 0) (Format.binary64.targetExponent
      (totalExponent num 0 - totalExponent den 0)) = -(shift : Int) := by
    have width : Format.binary64.mantissaBits = 53 := rfl
    have lowest : Format.binary64.minExponent = -1074 := rfl
    simp only [Format.targetExponent, totalExponent, width, lowest]
    omega
  have places : ((0 : Int) - 0 - -(shift : Int)).toNat = shift := by omega
  have enough : -(shift : Int) ≤
      Format.binary64.targetExponent (totalExponent (num * 2 ^ shift / den) (-(shift : Int))) := by
    rw [target_eq]
    by_cases least : (num.log2 : Int) - den.log2 - 53 ≤ -1074
    · omega
    · -- The quotient has all the bits of a mantissa at least.
      have size : 2 ^ 52 ≤ num * 2 ^ shift / den := by
        rw [Nat.le_div_iff_mul_le right]
        calc 2 ^ 52 * den ≤ 2 ^ 52 * 2 ^ (den.log2 + 1) :=
              Nat.mul_le_mul_left _ Nat.lt_log2_self.le
          _ = 2 ^ (52 + (den.log2 + 1)) := (Nat.pow_add 2 52 _).symm
          _ ≤ 2 ^ (num.log2 + shift) := Nat.pow_le_pow_right (by omega) (by omega)
          _ = 2 ^ num.log2 * 2 ^ shift := Nat.pow_add 2 _ _
          _ ≤ num * 2 ^ shift := Nat.mul_le_mul_right _ (Nat.log2_self_le (by omega))
      have bits : 52 ≤ (num * 2 ^ shift / den).log2 := (Nat.le_log2 (by omega)).mpr size
      omega
  have exactly : ((num * 2 ^ shift : ℕ) : ℚ) / den * 2 ^ (-(shift : Int)) = num / den := by
    rw [zpow_neg, zpow_natCast]
    push_cast
    field_simp
  rw [← exactly] at rounds
  simp only [UnpackedFloat.div, divCore, target, places, Nat.shiftLeft_eq]
  exact round_nearest _ shaped positive (represents_fraction _ _ right) enough rounds

/-- A product with a power of two in front of it, which makes it exact, rounds likewise. -/
theorem mul_nearest {mantissa : ℕ} {exponent : Int} (shaped : IsShaped mantissa exponent)
    (positive : 0 < mantissa) {one other : ℕ} (left : 0 < one <<< 53) (right : 0 < other)
    (rounds : RoundsTo mantissa exponent (one * other)) :
    UnpackedFloat.mul .binary64 (.finite .positive (one <<< 53) (-(53 : ℕ)) left)
        (.finite .positive other 0 right) = .finite .positive mantissa exponent positive := by
  have exactly : ((one <<< 53 * other : ℕ) : ℚ) * 2 ^ (-((53 : ℕ) : Int) + 0) = one * other := by
    rw [Nat.shiftLeft_eq, add_zero, zpow_neg, zpow_natCast, Nat.cast_mul, Nat.cast_mul,
      Nat.cast_pow]
    field_simp
    rfl
  have size : 2 ^ 53 ≤ one <<< 53 * other := by
    rw [Nat.shiftLeft_eq] at left ⊢
    have some : 0 < one := Nat.pos_of_mul_pos_right left
    calc 2 ^ 53 = 1 * 2 ^ 53 * 1 := by omega
      _ ≤ one * 2 ^ 53 * other := Nat.mul_le_mul (Nat.mul_le_mul_right _ some) right
  have bits : 53 ≤ (one <<< 53 * other).log2 := (Nat.le_log2 (by omega)).mpr size
  have enough : -((53 : ℕ) : Int) + 0 ≤
      Format.binary64.targetExponent
        (totalExponent (one <<< 53 * other) (-((53 : ℕ) : Int) + 0)) := by
    rw [target_eq]
    omega
  rw [← exactly] at rounds
  exact round_nearest _ shaped positive (represents_exact _) enough rounds

/-- A double in whose interval a number lies is not far from it. -/
theorem RoundsTo.bounds {mantissa : ℕ} {exponent : Int} {x : ℚ}
    (shaped : IsShaped mantissa exponent) (positive : 0 < mantissa) (most : exponent ≤ 971)
    (rounds : RoundsTo mantissa exponent x) :
    (2 : ℚ) ^ (-1075 : Int) ≤ x ∧ x ≤ 2 ^ (1024 : Int) := by
  have unit : (0 : ℚ) < 2 ^ exponent := by positivity
  have same : x = x / 2 ^ exponent * 2 ^ exponent := by
    field_simp
  rw [same] at rounds ⊢
  obtain ⟨⟨low, high, -⟩, -⟩ := rounds.scaled positive
  generalize x / 2 ^ exponent = scaled at low high
  have some : (1 : ℚ) ≤ mantissa := by exact_mod_cast positive
  have short : (mantissa : ℚ) + 1 ≤ 2 ^ 53 := by exact_mod_cast shaped.1
  constructor
  · calc (2 : ℚ) ^ (-1075 : Int) ≤ 2 ^ (-1 + exponent) :=
          zpow_le_zpow_right₀ (by norm_num) (by have := shaped.2.1; omega)
      _ = 1 / 2 * 2 ^ exponent := by
          rw [zpow_add₀ (by norm_num)]
          norm_num
      _ ≤ scaled * 2 ^ exponent := mul_le_mul_of_nonneg_right (by linarith) unit.le
  · calc scaled * 2 ^ exponent ≤ 2 ^ (53 : Int) * 2 ^ exponent :=
          mul_le_mul_of_nonneg_right (by norm_num; linarith) unit.le
      _ = 2 ^ (53 + exponent) := (zpow_add₀ (by norm_num) _ _).symm
      _ ≤ 2 ^ (1024 : Int) := zpow_le_zpow_right₀ (by norm_num) (by omega)

theorem power_not_large {digits : ℕ} {power : Int} (some : digits ≠ 0)
    (high : (digits : ℚ) * 10 ^ power ≤ 2 ^ (1024 : Int)) : power ≤ 2048 := by
  by_contra large
  have one : (1 : ℚ) ≤ digits := by exact_mod_cast Nat.one_le_iff_ne_zero.mpr some
  have beyond : (2 : ℚ) ^ (1024 : Int) < digits * 10 ^ power :=
    calc (2 : ℚ) ^ (1024 : Int) < 10 ^ (1024 : Int) :=
          zpow_lt_zpow_left₀ (by norm_num) (by norm_num) (by norm_num)
      _ ≤ 10 ^ power := zpow_le_zpow_right₀ (by norm_num) (by omega)
      _ ≤ digits * 10 ^ power := le_mul_of_one_le_left (by positivity) one
  exact absurd high (not_le.mpr beyond)

theorem power_not_small {digits : ℕ} {power : Int}
    (low : (2 : ℚ) ^ (-1075 : Int) ≤ digits * 10 ^ power) :
    -(2048 + (digits.log2 : Int)) ≤ power := by
  by_contra small
  obtain ⟨count, rfl⟩ : ∃ count : ℕ, power = -(count : Int) := ⟨(-power).toNat, by omega⟩
  have size : (digits : ℚ) < 2 ^ (digits.log2 + 1) := by exact_mod_cast Nat.lt_log2_self
  have beneath : (digits : ℚ) * 10 ^ (-(count : Int)) < 2 ^ (-1075 : Int) :=
    calc (digits : ℚ) * 10 ^ (-(count : Int)) ≤ digits * 2 ^ (-(count : Int)) := by
          apply mul_le_mul_of_nonneg_left _ (by positivity)
          rw [zpow_neg, zpow_neg, zpow_natCast, zpow_natCast]
          exact inv_anti₀ (by positivity) (pow_le_pow_left₀ (by norm_num) (by norm_num) _)
      _ < 2 ^ (digits.log2 + 1) * 2 ^ (-(count : Int)) :=
          mul_lt_mul_of_pos_right size (by positivity)
      _ = 2 ^ (((digits.log2 + 1 : ℕ) : Int) + -(count : Int)) := by
          rw [zpow_add₀ (by norm_num), zpow_natCast]
      _ ≤ 2 ^ (-1075 : Int) := zpow_le_zpow_right₀ (by norm_num) (by omega)
  exact absurd low (not_le.mpr beneath)

/-- The nearest double of a decimal that lies in the interval of a double is that double. -/
theorem ofScientific_nearest {mantissa : ℕ} {exponent : Int} (shaped : IsShaped mantissa exponent)
    (positive : 0 < mantissa) (most : exponent ≤ 971) {digits : ℕ} {power : Int}
    (rounds : RoundsTo mantissa exponent (digits * 10 ^ power)) :
    UnpackedFloat.ofScientific .binary64 digits power =
      .finite .positive mantissa exponent positive := by
  obtain ⟨low, high⟩ := rounds.bounds shaped positive most
  have some : digits ≠ 0 := by
    intro zero
    subst zero
    have above : (0 : ℚ) < 2 ^ (-1075 : Int) := by positivity
    rw [Nat.cast_zero, zero_mul] at low
    linarith
  have exponents : (2 : Int) ^ Format.binary64.exponentBits = 2048 := rfl
  have notLarge := power_not_large some high
  have notSmall := power_not_small low
  unfold UnpackedFloat.ofScientific
  rw [dif_neg some, if_neg (by omega), if_neg (by omega)]
  split
  · rename_i natural
    have same : ((10 ^ power.toNat : ℕ) : ℚ) = 10 ^ power := by
      obtain ⟨count, rfl⟩ := Int.eq_ofNat_of_zero_le natural
      simp
    rw [← same] at rounds
    exact mul_nearest shaped positive _ _ rounds
  · rename_i negative
    have same : (digits : ℚ) * 10 ^ power = digits / (10 ^ (-power).toNat : ℕ) := by
      obtain ⟨count, rfl⟩ : ∃ count : ℕ, power = -(count : Int) := ⟨(-power).toNat, by omega⟩
      simp [div_eq_mul_inv]
    rw [same] at rounds
    exact div_nearest shaped positive _ _ rounds

/-- A decimal in the interval of a double is read as that double. -/
theorem ofDecimal_nearest (x : Float) {sign : Sign} {mantissa : ℕ} {exponent : Int}
    {positive : 0 < mantissa}
    (unpacked : x.toModel.unpack = .finite sign mantissa exponent positive) {digits : ℕ}
    {power : Int} (rounds : RoundsTo mantissa exponent (digits * 10 ^ power)) :
    ofDecimal (sign == .negative) digits power = x := by
  have shaped := unpack_shaped _ sign mantissa exponent positive unpacked
  have most := unpack_most _ sign mantissa exponent positive unpacked
  have finite : isFinite x = true := by
    rw [isFinite_iff, value?_unpack, unpacked]
    exact ⟨_, rfl⟩
  have same := pack_unpack x finite
  rw [unpacked] at same
  have magnitude : Float.Model.ofScientific digits power =
      Float.Model.pack (.finite .positive mantissa exponent positive) :=
    congrArg Float.Model.pack (ofScientific_nearest shaped positive most rounds)
  unfold ofDecimal
  rw [magnitude]
  cases sign with
  | positive => exact same
  | negative =>
      have turned : -Float.ofModel (.pack (.finite .positive mantissa exponent positive)) =
          Float.ofModel (.pack (UnpackedFloat.neg
            (Float.Model.pack (.finite .positive mantissa exponent positive)).unpack)) := rfl
      rw [unpack_pack_shaped .positive shaped positive most] at turned
      exact turned.trans same

theorem ofDecimal_zero (x : Float) {sign : Sign} (unpacked : x.toModel.unpack = .zero sign)
    (power : Int) : ofDecimal (sign == .negative) 0 power = x := by
  have finite : isFinite x = true := by
    rw [isFinite_iff, value?_unpack, unpacked]
    exact ⟨_, rfl⟩
  have same := pack_unpack x finite
  rw [unpacked] at same
  have magnitude : Float.Model.ofScientific 0 power = Float.Model.pack (.zero .positive) := rfl
  unfold ofDecimal
  rw [magnitude, ← same]
  cases sign with
  | positive => rfl
  | negative => rfl

end ArmProgram.Decimal
