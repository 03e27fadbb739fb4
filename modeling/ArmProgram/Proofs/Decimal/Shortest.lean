import ArmProgram.Proofs.Decimal.Nearest
import ArmProgram.Decimal.Layout

/-!
The shortest digits of a double read back as it. Every grid point that is
offered lies in the interval of the double, and the grid of seventeen digits is
finer than the interval is wide.
-/

namespace ArmProgram.Decimal

theorem tens_value (place : Int) : ((tens place).1 : ℚ) / (tens place).2 = 10 ^ place := by
  cases place with
  | ofNat up => simp [tens]
  | negSucc down => simp [tens, zpow_negSucc]

theorem tens_positive (place : Int) : 0 < (tens place).1 ∧ 0 < (tens place).2 := by
  cases place <;> simp [tens]

theorem dyadic_positive {mantissa : ℕ} (positive : 0 < mantissa) (exponent : Int) :
    0 < (dyadic mantissa exponent).1 ∧ 0 < (dyadic mantissa exponent).2 := by
  cases exponent <;> simp [dyadic, positive]

theorem stripZeros_value (digits : ℕ) (exponent : Int) :
    ((stripZeros digits exponent).digits : ℚ) * 10 ^ (stripZeros digits exponent).exponent =
      digits * 10 ^ exponent := by
  fun_induction stripZeros digits exponent with
  | case1 digits exponent zero ih =>
      have whole : (digits : ℚ) = (digits / 10 : ℕ) * 10 := by
        exact_mod_cast (by omega : digits = digits / 10 * 10)
      rw [ih, zpow_add₀ (by norm_num), zpow_one]
      conv_rhs => rw [whole]
      ring
  | case2 digits exponent => rfl

/-! Grid points. -/

theorem below_le {closed : Bool} {a b : ℕ} (fits : below closed a b = true) :
    a ≤ b ∧ (closed = false → a < b) := by
  cases closed
  · have less : a < b := by simpa [below] using fits
    exact ⟨less.le, fun _ => less⟩
  · exact ⟨by simpa [below] using fits, fun isOpen => by cases isOpen⟩

theorem le_of_not_below {closed : Bool} {a b : ℕ} (apart : below closed a b = false) : b ≤ a := by
  cases closed
  · simpa [below] using apart
  · have less : b < a := by simpa [below] using apart
    exact less.le

/-- The grid point offered is one of the two around the value, and on its side it fits. -/
theorem onGrid_cases {interval : Interval} {unit : ℕ × ℕ} {place : Int} {digits scale step : ℕ}
    (scaled : unit.1 * (tens place).2 = scale) (stepped : (tens place).1 * unit.2 = step)
    (found : onGrid interval unit place = some digits) :
    digits = interval.value * scale / step ∧
        below interval.closed (interval.low * scale) (digits * step) = true ∨
      digits = interval.value * scale / step + 1 ∧
        below interval.closed (digits * step) (interval.high * scale) = true := by
  unfold onGrid at found
  simp only [scaled, stepped] at found
  split at found
  · rename_i lower upper
    split at found
    · cases found
      exact Or.inl ⟨rfl, lower⟩
    · split at found
      · cases found
        exact Or.inr ⟨rfl, upper⟩
      · split at found
        · cases found
          exact Or.inl ⟨rfl, lower⟩
        · cases found
          exact Or.inr ⟨rfl, upper⟩
  · rename_i lower upper
    cases found
    exact Or.inl ⟨rfl, lower⟩
  · rename_i lower upper
    cases found
    exact Or.inr ⟨rfl, upper⟩
  · cases found

/-- Without a grid point the interval is not wider than a step. -/
theorem onGrid_none {interval : Interval} {unit : ℕ × ℕ} {place : Int} {scale step : ℕ}
    (scaled : unit.1 * (tens place).2 = scale) (stepped : (tens place).1 * unit.2 = step)
    (none : onGrid interval unit place = none) :
    interval.high * scale ≤ interval.low * scale + step := by
  unfold onGrid at none
  simp only [scaled, stepped] at none
  split at none
  · split at none
    · cases none
    · split at none <;> cases none
  · cases none
  · cases none
  · rename_i lower upper
    have lower := le_of_not_below lower
    have upper := le_of_not_below upper
    rw [Nat.add_mul, Nat.one_mul] at upper
    omega

/-- A number between the ends, given as a fraction of the interval's unit. -/
theorem Interval.holds_of_scaled (interval : Interval) {point scale : ℕ} (positive : 0 < scale)
    (low : interval.low * scale ≤ point) (high : point ≤ interval.high * scale)
    (inside : interval.closed = false →
      interval.low * scale < point ∧ point < interval.high * scale) :
    interval.Holds (point / scale) := by
  have unit : (0 : ℚ) < scale := by exact_mod_cast positive
  refine ⟨?_, ?_, fun isOpen => ⟨?_, ?_⟩⟩
  · rw [le_div_iff₀ unit]
    exact_mod_cast low
  · rw [div_le_iff₀ unit]
    exact_mod_cast high
  · rw [lt_div_iff₀ unit]
    exact_mod_cast (inside isOpen).1
  · rw [div_lt_iff₀ unit]
    exact_mod_cast (inside isOpen).2

theorem onGrid_holds {interval : Interval} {unit : ℕ × ℕ} {place : Int} {digits : ℕ}
    (some : 0 < unit.1) (units : 0 < unit.2) (above : interval.low < interval.value)
    (under : interval.value < interval.high) (found : onGrid interval unit place = .some digits) :
    interval.Holds (digits * 10 ^ place / (unit.1 / unit.2)) := by
  obtain ⟨first, second⟩ := tens_positive place
  obtain ⟨scale, scaled⟩ : ∃ scale, unit.1 * (tens place).2 = scale := ⟨_, rfl⟩
  obtain ⟨step, stepped⟩ : ∃ step, (tens place).1 * unit.2 = step := ⟨_, rfl⟩
  have wide : 0 < scale := scaled ▸ Nat.mul_pos some second
  have positive : 0 < step := stepped ▸ Nat.mul_pos first units
  have same : (digits : ℚ) * 10 ^ place / (unit.1 / unit.2) = (digits * step : ℕ) / scale := by
    rw [← tens_value, ← scaled, ← stepped]
    push_cast
    have : (0 : ℚ) < unit.1 := by exact_mod_cast some
    have : (0 : ℚ) < unit.2 := by exact_mod_cast units
    have : (0 : ℚ) < (tens place).2 := by exact_mod_cast second
    field_simp
  rw [same]
  have floor := Nat.div_mul_le_self (interval.value * scale) step
  have ceiling : interval.value * scale < (interval.value * scale / step + 1) * step :=
    Nat.lt_mul_of_div_lt (Nat.lt_succ_self _) positive
  have lower : interval.low * scale < interval.value * scale :=
    Nat.mul_lt_mul_of_pos_right above wide
  have upper : interval.value * scale < interval.high * scale :=
    Nat.mul_lt_mul_of_pos_right under wide
  rcases onGrid_cases scaled stepped found with ⟨rfl, fits⟩ | ⟨rfl, fits⟩
  · obtain ⟨reached, strictly⟩ := below_le fits
    exact interval.holds_of_scaled wide reached (by omega)
      fun isOpen => ⟨strictly isOpen, by omega⟩
  · obtain ⟨reached, strictly⟩ := below_le fits
    exact interval.holds_of_scaled wide (by omega) reached
      fun isOpen => ⟨by omega, strictly isOpen⟩

/-! The place of the first digit. -/

/-- So 1233 / 4096 is just below the decimal logarithm of two. -/
theorem two_near_ten : 10 ^ 1233 ≤ 2 ^ 4096 ∧ 2 ^ 4096 ≤ 2 * 10 ^ 1233 := by
  decide +kernel

theorem powers_near {ten two : ℕ} (under : ten ≤ two) (beyond : two ≤ 2 * ten) (count : ℕ) :
    ten ^ count ≤ two ^ count ∧ two ^ count ≤ ten ^ count * 10 ^ count := by
  constructor
  · exact Nat.pow_le_pow_left under count
  · calc two ^ count ≤ (10 * ten) ^ count := Nat.pow_le_pow_left (by omega) count
      _ = ten ^ count * 10 ^ count := by rw [Nat.mul_pow, Nat.mul_comm]

/-- The estimate of the decimal exponent of a power of two is at most one too large. -/
theorem ten_le_two (power : Int) (least : -1074 ≤ power) :
    (10 : ℚ) ^ (power * 1233 / 4096 - 1) ≤ 2 ^ power := by
  have estimate : (power * 1233 / 4096 - 1) * 4096 ≤ power * 1233 - 4096 := by omega
  have raised : ((10 : ℚ) ^ (power * 1233 / 4096 - 1)) ^ 4096 ≤ (2 ^ power) ^ 4096 := by
    rw [← zpow_natCast, ← zpow_natCast, ← zpow_mul, ← zpow_mul]
    apply (zpow_le_zpow_right₀ (by norm_num) estimate).trans
    obtain ⟨count, nat⟩ := power.eq_nat_or_neg
    obtain ⟨under, beyond⟩ := powers_near two_near_ten.1 two_near_ten.2 count
    have tens : 10 ^ (1233 * count) = (10 ^ 1233) ^ count := pow_mul 10 1233 count
    have twos : 2 ^ (4096 * count) = (2 ^ 4096) ^ count := pow_mul 2 4096 count
    rcases nat with rfl | rfl
    · have under : (10 : ℚ) ^ (1233 * count) ≤ 2 ^ (4096 * count) := by
        exact_mod_cast (tens.trans_le under).trans_eq twos.symm
      calc (10 : ℚ) ^ ((count : Int) * 1233 - 4096)
          ≤ 10 ^ ((1233 * count : ℕ) : Int) := zpow_le_zpow_right₀ (by norm_num) (by omega)
        _ ≤ 2 ^ ((4096 * count : ℕ) : Int) := by rwa [zpow_natCast, zpow_natCast]
        _ = 2 ^ ((count : Int) * (4096 : ℕ)) := by
            congr 1
            omega
    · have beyond : (2 : ℚ) ^ (4096 * count) ≤ 10 ^ (1233 * count) * 10 ^ count := by
        exact_mod_cast (twos.trans_le beyond).trans_eq (congrArg (· * 10 ^ count) tens.symm)
      rw [← pow_add] at beyond
      calc (10 : ℚ) ^ (-(count : Int) * 1233 - 4096)
          ≤ 10 ^ (-((1233 * count + count : ℕ) : Int)) :=
            zpow_le_zpow_right₀ (by norm_num) (by omega)
        _ ≤ 2 ^ (-((4096 * count : ℕ) : Int)) := by
            rw [zpow_neg, zpow_neg, zpow_natCast, zpow_natCast]
            exact inv_anti₀ (by positivity) beyond
        _ = 2 ^ (-(count : Int) * (4096 : ℕ)) := by
            congr 1
            omega
  exact le_of_pow_le_pow_left₀ (by norm_num) (by positivity) raised

theorem log2_dyadic {mantissa : ℕ} (positive : 0 < mantissa) (exponent : Int) :
    ((dyadic mantissa exponent).1.log2 : Int) - (dyadic mantissa exponent).2.log2 =
      mantissa.log2 + exponent := by
  cases exponent with
  | ofNat up =>
      show (((mantissa * 2 ^ up).log2 : ℕ) : Int) - (Nat.log2 1 : ℕ) = mantissa.log2 + (up : Int)
      rw [log2_scaled mantissa up (by omega)]
      have one : Nat.log2 1 = 0 := rfl
      rw [one]
      push_cast
      omega
  | negSucc down =>
      show ((mantissa.log2 : ℕ) : Int) - ((2 ^ (down + 1)).log2 : ℕ) = _
      rw [Nat.log2_two_pow]
      omega

theorem magnitudeOf_le {mantissa : ℕ} {exponent : Int} (positive : 0 < mantissa)
    (least : -1074 ≤ exponent) :
    (10 : ℚ) ^ magnitudeOf (dyadic mantissa exponent).1 (dyadic mantissa exponent).2 ≤
      mantissa * 2 ^ exponent := by
  obtain ⟨some, units⟩ := dyadic_positive positive exponent
  have reaches : ∀ place : Int,
      decide ((tens place).1 * (dyadic mantissa exponent).2 ≤
        (dyadic mantissa exponent).1 * (tens place).2) = true →
        (10 : ℚ) ^ place ≤ mantissa * 2 ^ exponent := by
    intro place reached
    obtain ⟨first, second⟩ := tens_positive place
    rw [← tens_value, ← dyadic_value,
      div_le_div_iff₀ (by exact_mod_cast second) (by exact_mod_cast units)]
    exact_mod_cast of_decide_eq_true reached
  unfold magnitudeOf
  simp only [log2_dyadic positive]
  split
  · rename_i reached
    exact reaches _ reached
  · split
    · rename_i reached
      exact reaches _ reached
    · have size : (2 : ℚ) ^ mantissa.log2 ≤ mantissa := by
        exact_mod_cast Nat.log2_self_le (by omega)
      calc (10 : ℚ) ^ ((mantissa.log2 + exponent) * 1233 / 4096 - 1)
          ≤ 2 ^ ((mantissa.log2 : Int) + exponent) := ten_le_two _ (by omega)
        _ = 2 ^ mantissa.log2 * 2 ^ exponent := by
            rw [zpow_add₀ (by norm_num), zpow_natCast]
        _ ≤ mantissa * 2 ^ exponent := mul_le_mul_of_nonneg_right size (by positivity)

/-! The fewest digits. -/

/-- Seventeen digits are fine enough for some grid point to lie in the interval. -/
theorem onGrid_seventeen {mantissa : ℕ} {exponent : Int} (shaped : IsShaped mantissa exponent)
    (positive : 0 < mantissa) (top : Int) (reached : (10 : ℚ) ^ top ≤ mantissa * 2 ^ exponent) :
    onGrid (Interval.of mantissa exponent) (dyadic 1 (exponent - 2)) (top - 16) ≠ none := by
  intro none
  obtain ⟨first, second⟩ := tens_positive (top - 16)
  obtain ⟨some, units⟩ := dyadic_positive Nat.one_pos (exponent - 2)
  have step := onGrid_none rfl rfl none
  have value := dyadic_value 1 (exponent - 2)
  have power := tens_value (top - 16)
  generalize dyadic 1 (exponent - 2) = unit at *
  generalize tens (top - 16) = tens at *
  rw [Nat.cast_one, one_mul] at value
  have first : (0 : ℚ) < tens.2 := by exact_mod_cast second
  have units : (0 : ℚ) < unit.2 := by exact_mod_cast units
  have quarter : (0 : ℚ) < 2 ^ (exponent - 2) := by positivity
  -- A step of the grid is at least as wide as the interval, but also less than four quarters.
  have wide : ((Interval.of mantissa exponent).high - (Interval.of mantissa exponent).low : ℚ) *
      2 ^ (exponent - 2) ≤ 10 ^ (top - 16) := by
    have step : ((Interval.of mantissa exponent).high : ℚ) * (unit.1 * tens.2) ≤
        (Interval.of mantissa exponent).low * (unit.1 * tens.2) + tens.1 * unit.2 := by
      exact_mod_cast step
    rw [← value, ← power, mul_div_assoc', div_le_div_iff₀ units first]
    linarith
  have fine : (10 : ℚ) ^ (top - 16) ≤ 4 * mantissa / 10 ^ 16 * 2 ^ (exponent - 2) := by
    rw [zpow_sub₀ (by norm_num), div_le_iff₀ (by positivity)]
    calc (10 : ℚ) ^ top ≤ mantissa * 2 ^ exponent := reached
      _ = 4 * mantissa / 10 ^ 16 * 2 ^ (exponent - 2) * 10 ^ (16 : Int) := by
          rw [zpow_sub₀ (by norm_num)]
          norm_num
          ring
  have less : ((Interval.of mantissa exponent).high - (Interval.of mantissa exponent).low : ℚ) ≤
      4 * mantissa / 10 ^ 16 := le_of_mul_le_mul_right (wide.trans fine) quarter
  have bound : (mantissa : ℚ) < 2 ^ 53 := by exact_mod_cast shaped.1
  simp only [Interval.of] at less
  split at less
  · rename_i bottom
    rw [Nat.cast_sub (by omega), bottom.1] at less
    norm_num at less
  · rw [Nat.cast_sub (by omega)] at less
    push_cast at less
    linarith

theorem interval_ends {mantissa : ℕ} (positive : 0 < mantissa) (exponent : Int) :
    (Interval.of mantissa exponent).low < (Interval.of mantissa exponent).value ∧
      (Interval.of mantissa exponent).value < (Interval.of mantissa exponent).high := by
  simp only [Interval.of]
  constructor
  · split <;> omega
  · omega

theorem shortest_rounds {mantissa : ℕ} {exponent : Int} (shaped : IsShaped mantissa exponent)
    (positive : 0 < mantissa) :
    RoundsTo mantissa exponent
      ((shortest mantissa exponent).digits * 10 ^ (shortest mantissa exponent).exponent) := by
  obtain ⟨above, under⟩ := interval_ends positive exponent
  obtain ⟨some, units⟩ := dyadic_positive Nat.one_pos (exponent - 2)
  unfold shortest
  simp only
  cases found : (List.range 17).findSome? _ with
  | none =>
      exfalso
      rw [List.findSome?_eq_none_iff] at found
      have last := found 16 (by decide)
      rw [Option.map_eq_none_iff] at last
      exact onGrid_seventeen shaped positive _ (magnitudeOf_le positive shaped.2.1) last
  | some decimal =>
      obtain ⟨count, -, offered⟩ := List.exists_of_findSome?_eq_some found
      obtain ⟨digits, grid, rfl⟩ := Option.map_eq_some_iff.mp offered
      have holds := onGrid_holds some units above under grid
      rw [dyadic_value, Nat.cast_one, one_mul] at holds
      rw [Option.getD_some, stripZeros_value]
      exact holds

/-- What is shown of a finite double is the digits of a decimal that is read as it, however the
decimal is spelled. -/
theorem show_nearest (layout : Layout) (x : Float) (finite : isFinite x = true) :
    ∃ (negative : Bool) (decimal : Digits), layout.show x = layout.write negative decimal ∧
      (0 < decimal.digits ∨ decimal.exponent = 0) ∧
      ∀ (digits : ℕ) (power : Int),
        (digits : ℚ) * 10 ^ power = decimal.digits * 10 ^ decimal.exponent →
          ofDecimal negative digits power = x := by
  unfold Layout.show
  cases unpacked : x.toModel.unpack with
  | notANumber =>
      simp [isFinite, fraction?, unpacked] at finite
  | infinity sign =>
      simp [isFinite, fraction?, unpacked] at finite
  | zero sign =>
      refine ⟨_, _, rfl, Or.inr rfl, fun digits power same => ?_⟩
      have zero : digits = 0 := by
        rw [Nat.cast_zero, zero_mul] at same
        have scale : (10 : ℚ) ^ power ≠ 0 := by positivity
        exact_mod_cast (mul_eq_zero.mp same).resolve_right scale
      rw [zero]
      exact ofDecimal_zero x unpacked power
  | finite sign mantissa exponent positive =>
      have shaped := unpack_shaped _ sign mantissa exponent positive unpacked
      have most := unpack_most _ sign mantissa exponent positive unpacked
      have rounds := shortest_rounds shaped positive
      refine ⟨_, _, rfl, Or.inl ?_, fun digits power same => ?_⟩
      · have above := (rounds.bounds shaped positive most).1
        apply Nat.pos_of_ne_zero
        intro zero
        rw [zero, Nat.cast_zero, zero_mul] at above
        have least : (0 : ℚ) < 2 ^ (-1075 : Int) := by positivity
        linarith
      · rw [← same] at rounds
        exact ofDecimal_nearest x unpacked rounds

end ArmProgram.Decimal
