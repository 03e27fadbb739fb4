import ArmProgram.Proofs.Decimal.Nearest

/-!
Products of doubles. The exact product of two finite doubles is rounded once, and
so it is infinite exactly from the least magnitude on whose nearest double would
be. A product that is a double itself is not changed by rounding.
-/

namespace ArmProgram.Decimal

open Float.Model (UnpackedFloat Format totalExponent)
open Float.Model.UnpackedFloat

/-! Rounding and the end of the doubles. -/

theorem leastInfinite_value : (leastInfinite : ℚ) = (2 ^ 54 - 1) * 2 ^ (970 : Int) := by
  rw [leastInfinite, Nat.cast_sub (Nat.pow_le_pow_right (by omega) (by omega))]
  simp only [Nat.cast_pow, Nat.cast_ofNat, zpow_ofNat]
  rw [show 1024 = 54 + 970 by rfl, pow_add, sub_mul, one_mul]

theorem leastInfinite_positive : (0 : ℚ) < leastInfinite := by
  rw [leastInfinite_value]
  norm_num

/-- A number at its place is below the least infinite if the place is not among the last, or
if it is the last one and the number does not round up. -/
theorem scaled_lt_leastInfinite {y : ℚ} {place : Int} (bound : y < 2 ^ 53)
    (full : 2 ^ 52 ≤ y ∨ place = -1074) :
    y * 2 ^ place < leastInfinite ↔ place ≤ 970 ∨ place = 971 ∧ y < 2 ^ 53 - 1 / 2 := by
  have unit : (0 : ℚ) < 2 ^ (970 : Int) := by positivity
  rw [leastInfinite_value]
  -- The least infinite lies half a unit beyond the last mantissa at the last place.
  rcases lt_trichotomy place 971 with less | rfl | more
  · have step : (2 : ℚ) ^ place ≤ 2 ^ (970 : Int) := zpow_le_zpow_right₀ (by norm_num) (by omega)
    have power : (0 : ℚ) < 2 ^ place := by positivity
    refine iff_of_true ?_ (Or.inl (by omega))
    calc y * 2 ^ place < 2 ^ 53 * 2 ^ place := mul_lt_mul_of_pos_right bound power
      _ ≤ 2 ^ 53 * 2 ^ (970 : Int) := mul_le_mul_of_nonneg_left step (by norm_num)
      _ < (2 ^ 54 - 1) * 2 ^ (970 : Int) := mul_lt_mul_of_pos_right (by norm_num) unit
  · have double : (2 : ℚ) ^ (971 : Int) = 2 * 2 ^ (970 : Int) := by
      rw [show (971 : Int) = 1 + 970 by norm_num, zpow_add₀ (by norm_num), zpow_one]
    rw [double, ← mul_assoc, mul_lt_mul_iff_left₀ unit]
    constructor
    · intro below
      exact Or.inr ⟨rfl, by linarith⟩
    · rintro (small | ⟨-, below⟩)
      · norm_num at small
      · linarith
  · have filled : 2 ^ 52 ≤ y := full.resolve_right (by omega)
    have step : (2 : ℚ) ^ 2 * 2 ^ (970 : Int) ≤ 2 ^ place := by
      rw [← zpow_natCast, ← zpow_add₀ (by norm_num)]
      exact zpow_le_zpow_right₀ (by norm_num) (by norm_num; omega)
    refine iff_of_false (not_lt.mpr ?_) (by omega)
    calc (2 ^ 54 - 1) * 2 ^ (970 : Int) ≤ 2 ^ 54 * 2 ^ (970 : Int) :=
          mul_le_mul_of_nonneg_right (by norm_num) unit.le
      _ = 2 ^ 52 * (2 ^ 2 * 2 ^ (970 : Int)) := by rw [← mul_assoc]; norm_num
      _ ≤ y * 2 ^ place := mul_le_mul filled step (by positivity) (by linarith)

theorem IsNearest.lt_top_iff {whole : ℕ} {y : ℚ} (nearest : IsNearest whole y)
    (bound : whole ≤ 2 ^ 53) : whole < 2 ^ 53 ↔ y < 2 ^ 53 - 1 / 2 := by
  constructor
  · intro less
    rcases Nat.lt_or_eq_of_le (Nat.le_sub_one_of_lt less) with lower | last
    · have lower : (whole : ℚ) + 2 ≤ 2 ^ 53 := by
        exact_mod_cast (by omega : whole + 2 ≤ 2 ^ 53)
      linarith [nearest.high]
    · -- The last mantissa is odd, so the middle above it is not its own.
      have high := (nearest.tie (by omega)).2
      rw [last] at high
      norm_num at high ⊢
      linarith
  · intro below
    by_contra top
    have top : whole = 2 ^ 53 := by omega
    have low := nearest.low
    rw [top] at low
    push_cast at low
    linarith

theorem IsNearest.full {whole : ℕ} {y : ℚ} (nearest : IsNearest whole y) (full : 2 ^ 52 ≤ y) :
    2 ^ 52 ≤ whole := by
  have high : (2 ^ 52 : ℚ) < whole + 1 := by linarith [nearest.high]
  have high : 2 ^ 52 < whole + 1 := by exact_mod_cast high
  omega

/-- What is rounded has the shape of a double, and its exponent that of a finite one exactly
below the least infinite. -/
theorem round_shape (sign : Sign) {kept : ℕ} {start : Int} {x : ℚ} {accuracy : Accuracy}
    (represents : Represents (ExtendedMantissa.ofMantissaAndAccuracy kept accuracy) x)
    (enough : start ≤ Format.binary64.targetExponent (totalExponent kept start)) :
    (roundWithAccuracy .binary64 sign kept start accuracy = .zero sign ∧
        x * 2 ^ start < leastInfinite) ∨
      ∃ mantissa exponent positive,
        roundWithAccuracy .binary64 sign kept start accuracy =
          .finite sign mantissa exponent positive ∧
        IsShaped mantissa exponent ∧ (exponent ≤ 971 ↔ x * 2 ^ start < leastInfinite) := by
  obtain ⟨extended, place, y, first, left, same, bound, least, full⟩ :=
    shift_represents represents enough
  have nearest := left.rounded
  have top := left.rounded_le bound
  rw [same, scaled_lt_leastInfinite bound full, ← nearest.lt_top_iff top,
    round_first sign first least top]
  generalize extended.roundedMantissa = whole at nearest top
  by_cases zero : whole = 0
  · -- Only the least place has numbers that round to zero.
    left
    subst zero
    have small : place = -1074 :=
      full.resolve_left fun large => absurd (nearest.full large) (by norm_num)
    exact ⟨by simp only [↓reduceDIte], Or.inl (by omega)⟩
  · right
    by_cases short : whole < 2 ^ 53
    · refine ⟨whole, place, Nat.pos_of_ne_zero zero, by simp only [zero, short, ↓reduceDIte,
        ↓reduceIte], ⟨short, least, full.imp_left nearest.full⟩, ?_⟩
      omega
    · -- A mantissa that rounds up to one bit more is halved at the place above.
      refine ⟨2 ^ 52, place + 1, by decide, by simp only [zero, short, ↓reduceDIte, ↓reduceIte],
        ⟨by decide, by omega, Or.inl (le_refl _)⟩, ?_⟩
      omega

theorem unpack_pack_rounded (sign : Sign) {mantissa : ℕ} {exponent : Int}
    (shaped : IsShaped mantissa exponent) (positive : 0 < mantissa) :
    (Float.Model.pack (.finite sign mantissa exponent positive)).unpack =
      if exponent ≤ 971 then .finite sign mantissa exponent positive else .infinity sign := by
  by_cases most : exponent ≤ 971
  · rw [unpack_pack_shaped sign shaped positive most, if_pos most]
  · obtain ⟨bound, least, filled⟩ := shaped
    exact unpack_pack_full sign mantissa exponent positive (filled.resolve_right (by omega)) bound
      least

/-! Products. -/

/-- The exact product of two doubles has all the bits of a mantissa, unless both are short. -/
theorem mul_enough {mantissa other : ℕ} {exponent beyond : Int}
    (shaped : IsShaped mantissa exponent) (again : IsShaped other beyond)
    (positive : 0 < mantissa) (positive' : 0 < other) :
    exponent + beyond ≤
      Format.binary64.targetExponent (totalExponent (mantissa * other) (exponent + beyond)) := by
  rw [target_eq]
  by_cases full : 2 ^ 52 ≤ mantissa * other
  · have bits : 52 ≤ (mantissa * other).log2 :=
      (Nat.le_log2 (Nat.mul_pos positive positive').ne').mpr full
    omega
  · -- Neither factor has all its bits, so both are at the least place.
    have left : ¬ 2 ^ 52 ≤ mantissa :=
      fun large => full (large.trans (Nat.le_mul_of_pos_right _ positive'))
    have right : ¬ 2 ^ 52 ≤ other :=
      fun large => full (large.trans (Nat.le_mul_of_pos_left _ positive))
    have lowest := shaped.2.2.resolve_left left
    have lowest' := again.2.2.resolve_left right
    omega

theorem unpack_mul (x y : Float) :
    (x * y).toModel.unpack =
      (Float.Model.pack (.mul .binary64 x.toModel.unpack y.toModel.unpack)).unpack :=
  rfl

theorem unpack_pack_zero (sign : Sign) :
    (Float.Model.pack (.zero sign)).unpack = .zero sign := by
  cases sign <;> rfl

theorem factor_mul (sign other : Sign) : factor (sign * other) = factor sign * factor other := by
  have opposite : factor .negative * factor .negative = factor .positive := by norm_num [factor]
  cases sign with
  | positive =>
      have same : Sign.positive * other = other := by cases other <;> rfl
      rw [same, factor, one_mul]
  | negative =>
      cases other with
      | positive => exact (mul_one (factor .negative)).symm
      | negative => exact opposite.symm

theorem product_exact (mantissa other : ℕ) (exponent beyond : Int) :
    ((mantissa * other : ℕ) : ℚ) * 2 ^ (exponent + beyond) =
      mantissa * 2 ^ exponent * (other * 2 ^ beyond) := by
  rw [zpow_add₀ (by norm_num)]
  push_cast
  ring

theorem factor_mul_self (sign : Sign) : factor sign * factor sign = 1 := by
  cases sign <;> norm_num [factor]

theorem factor_ne_zero (sign : Sign) : factor sign ≠ 0 := by
  cases sign <;> norm_num [factor]

theorem abs_factor_mul (sign : Sign) {magnitude : ℚ} (natural : 0 ≤ magnitude) :
    |factor sign * magnitude| = magnitude := by
  cases sign with
  | positive => rw [factor, one_mul, abs_of_nonneg natural]
  | negative => rw [factor, neg_one_mul, abs_neg, abs_of_nonneg natural]

theorem magnitude_nonneg (mantissa : ℕ) (exponent : Int) : (0 : ℚ) ≤ mantissa * 2 ^ exponent := by
  positivity

theorem roundsTo_self (mantissa : ℕ) (exponent : Int) :
    RoundsTo mantissa exponent (mantissa * 2 ^ exponent) := by
  have units : (mantissa : ℚ) * 2 ^ exponent / 2 ^ (exponent - 2) = ((4 * mantissa : ℕ) : ℚ) := by
    rw [zpow_sub₀ (by norm_num)]
    field_simp
    norm_num
    ring
  unfold RoundsTo
  rw [units]
  refine ⟨Nat.cast_le.mpr (Nat.sub_le _ _), Nat.cast_le.mpr (Nat.le_add_right _ _), ?_⟩
  intro apart
  have odd : mantissa % 2 ≠ 0 := by simpa [Interval.of] using apart
  refine ⟨Nat.cast_lt.mpr ?_, Nat.cast_lt.mpr (by simp [Interval.of])⟩
  simp only [Interval.of]
  split <;> omega

/-- A finite double is a zero, or a mantissa with a sign. -/
theorem unpack_of_value? {x : Float} {value : ℚ} (known : value? x = some value) :
    (∃ sign, x.toModel.unpack = .zero sign ∧ value = 0) ∨
      ∃ sign mantissa exponent positive,
        x.toModel.unpack = .finite sign mantissa exponent positive ∧
        value = factor sign * (mantissa * 2 ^ exponent) := by
  rw [value?_unpack] at known
  cases unpacked : x.toModel.unpack with
  | notANumber | infinity => rw [unpacked] at known; cases known
  | zero sign => rw [unpacked] at known; cases known; exact Or.inl ⟨sign, rfl, rfl⟩
  | finite sign mantissa exponent positive =>
      rw [unpacked] at known
      cases known
      exact Or.inr ⟨sign, mantissa, exponent, positive, rfl, rfl⟩

section

variable {x y : Float} {left right : ℚ} (one : value? x = some left)
  (another : value? y = some right)

include one another

/-- A product that is not zero is rounded from the exact one, which has its sign. -/
theorem unpack_mul_rounds (nonzero : left * right ≠ 0) :
    ∃ sign kept start,
      (x * y).toModel.unpack =
        (Float.Model.pack (roundWithAccuracy .binary64 sign kept start .exact)).unpack ∧
      start ≤ Format.binary64.targetExponent (totalExponent kept start) ∧
      left * right = factor sign * (kept * 2 ^ start) := by
  obtain ⟨presentLeft, presentRight⟩ := mul_ne_zero_iff.mp nonzero
  obtain ⟨sign, mantissa, exponent, positive, known, rfl⟩ :=
    (unpack_of_value? one).resolve_left fun ⟨_, _, absent⟩ => presentLeft absent
  obtain ⟨other, multiplier, beyond, positive', known', rfl⟩ :=
    (unpack_of_value? another).resolve_left fun ⟨_, _, absent⟩ => presentRight absent
  refine ⟨sign * other, mantissa * multiplier, exponent + beyond, ?_, ?_, ?_⟩
  · rw [unpack_mul, known, known']
    rfl
  · exact mul_enough (unpack_shaped _ _ _ _ _ known) (unpack_shaped _ _ _ _ _ known') positive
      positive'
  · rw [product_exact, factor_mul]
    ring

theorem unpack_mul_zero (vanishes : left * right = 0) :
    ∃ sign, (x * y).toModel.unpack = .zero sign := by
  have packed : ∀ sign, UnpackedFloat.mul .binary64 x.toModel.unpack y.toModel.unpack =
      .zero sign →
      ∃ sign, (x * y).toModel.unpack = .zero sign :=
    fun sign product => ⟨sign, by rw [unpack_mul, product, unpack_pack_zero]⟩
  rcases unpack_of_value? one with ⟨sign, known, rfl⟩ | ⟨sign, _, exponent, positive, known, rfl⟩ <;>
    rcases unpack_of_value? another with
      ⟨other, known', rfl⟩ | ⟨other, _, beyond, positive', known', rfl⟩
  case inr.inr =>
    rcases mul_eq_zero.mp vanishes with absent | absent
    · exact absurd absent
        (mul_ne_zero (factor_ne_zero sign) (magnitude_positive exponent positive).ne')
    · exact absurd absent
        (mul_ne_zero (factor_ne_zero other) (magnitude_positive beyond positive').ne')
  all_goals
    apply packed (sign * other)
    rw [known, known']
    rfl

/-- Below the least infinite a product is finite, and not on the other side of zero. -/
theorem value?_mul (small : |left * right| < leastInfinite) :
    ∃ product, value? (x * y) = some product ∧ 0 ≤ product * (left * right) := by
  have flat : ∀ sign, (x * y).toModel.unpack = .zero sign →
      ∃ product, value? (x * y) = some product ∧ 0 ≤ product * (left * right) :=
    fun sign unpacked => ⟨0, by rw [value?_unpack, unpacked]; rfl, by rw [zero_mul]⟩
  by_cases vanishes : left * right = 0
  · obtain ⟨sign, unpacked⟩ := unpack_mul_zero one another vanishes
    exact flat sign unpacked
  obtain ⟨sign, kept, start, unpacked, enough, whole⟩ := unpack_mul_rounds one another vanishes
  have natural := magnitude_nonneg kept start
  rw [whole, abs_factor_mul sign natural] at small
  rcases round_shape sign (represents_exact kept) enough with
    ⟨rounded, -⟩ | ⟨mantissa, exponent, positive, rounded, shaped, fits⟩
  · exact flat sign (by rw [unpacked, rounded, unpack_pack_zero])
  · rw [rounded, unpack_pack_shaped sign shaped positive (fits.mpr small)] at unpacked
    refine ⟨_, by rw [value?_unpack, unpacked]; rfl, ?_⟩
    rw [whole, mul_mul_mul_comm, factor_mul_self, one_mul]
    exact mul_nonneg (magnitude_nonneg mantissa exponent) natural

/-- From the least infinite on a product is infinite. -/
theorem unpack_mul_large (large : leastInfinite ≤ |left * right|) :
    ∃ sign, (x * y).toModel.unpack = .infinity sign ∧ 0 < factor sign * (left * right) := by
  have size : 0 < |left * right| := leastInfinite_positive.trans_le large
  obtain ⟨sign, kept, start, unpacked, enough, whole⟩ :=
    unpack_mul_rounds one another (abs_pos.mp size)
  rw [whole, abs_factor_mul sign (magnitude_nonneg kept start)] at large size
  refine ⟨sign, ?_, by rwa [whole, ← mul_assoc, factor_mul_self, one_mul]⟩
  rcases round_shape sign (represents_exact kept) enough with
    ⟨-, small⟩ | ⟨mantissa, exponent, positive, rounded, shaped, fits⟩
  · exact absurd small (not_lt.mpr large)
  · rw [unpacked, rounded, unpack_pack_rounded sign shaped,
      if_neg fun below => absurd (fits.mp below) (not_lt.mpr large)]

/-- A product that is a double itself is exact. -/
theorem value?_mul_exact {z : Float} (exactly : value? z = some (left * right)) :
    value? (x * y) = some (left * right) := by
  by_cases vanishes : left * right = 0
  · obtain ⟨sign, unpacked⟩ := unpack_mul_zero one another vanishes
    rw [vanishes, value?_unpack, unpacked]
    rfl
  obtain ⟨sign, kept, start, unpacked, enough, whole⟩ := unpack_mul_rounds one another vanishes
  obtain ⟨other, mantissa, exponent, positive, known, same⟩ :=
    (unpack_of_value? exactly).resolve_left fun ⟨_, _, absent⟩ => vanishes absent
  have shaped := unpack_shaped _ _ _ _ _ known
  have magnitude : (kept : ℚ) * 2 ^ start = mantissa * 2 ^ exponent := by
    rw [← abs_factor_mul sign (magnitude_nonneg kept start), ← whole, same,
      abs_factor_mul other (magnitude_nonneg mantissa exponent)]
  have rounds : RoundsTo mantissa exponent (kept * 2 ^ start) := by
    rw [magnitude]
    exact roundsTo_self mantissa exponent
  rw [round_nearest sign shaped positive (represents_exact kept) enough rounds,
    unpack_pack_shaped sign shaped positive (unpack_most _ _ _ _ _ known)] at unpacked
  rw [value?_unpack, unpacked, whole, magnitude]
  rfl

end

end ArmProgram.Decimal
