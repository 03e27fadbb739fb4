import ArmProgram.Proofs.Arm.Motion
import ArmProgram.Proofs.Decimal.Product
import ArmProgram.Proofs.Value.Readable

/-!
How long a wait can get. A number of seconds is looked at before it is turned into
milliseconds and a text of one is not looked at at all, so a wait is endless for a
double from the least on whose milliseconds are no double any more, and for a text
that reads as one or as infinite. All other waits end.
-/

namespace ArmProgram

open Decimal (value? isFinite leastInfinite lt_iff_unpack_lt lt_iff_value_lt
  value?_unpack value?_mul unpack_mul unpack_mul_large)
open Float.Model (UnpackedFloat)

/-- Seconds that no double counts in milliseconds. -/
def IsTooLong (x : Float) : Prop :=
  0 < x ∧ ∀ seconds, value? x = some seconds → leastInfinite ≤ seconds * 1000

def AsksTooLong : Option Value → Prop
  | some (.number (.double x)) => isFinite x = true ∧ IsTooLong x
  | some (.text text) => ∃ x, Reading.leadingDouble? text = some x ∧ IsTooLong x
  | _ => False

def Number.IsTime (ms : Number) : Prop :=
  ∃ time, ms.value? = some time ∧ 0 ≤ time

def Number.IsEndless (ms : Number) : Prop :=
  ∃ x, ms = .double x ∧ x.isInf = true ∧ 0 < x

/-! Numbers that are not below zero. -/

theorem unpack_thousand :
    (1000 : Float).toModel.unpack = .finite .positive (1000 * 2 ^ 43) (-43) (by decide) :=
  rfl

theorem value?_thousand : value? 1000 = some 1000 := by
  rw [value?_unpack, unpack_thousand]
  norm_num [Decimal.valueOf?, Decimal.factor]

theorem value?_zero : value? 0 = some 0 := by
  rw [value?_unpack]
  rfl

theorem zero_lt_iff {x : Float} {value : ℚ} (known : value? x = some value) :
    0 < x ↔ 0 < value :=
  lt_iff_value_lt _ _ _ _ value?_zero known

theorem orZero_of_positive {z : Float} (above : 0 < z) : (Number.double z).orZero = .double z := by
  simp [Number.orZero, Number.isPositive, above]

theorem orZero_of_not_positive {z : Float} (below : ¬ 0 < z) :
    (Number.double z).orZero.value? = some 0 := by
  have zero : (Number.double z).orZero = .double 0 := by
    simp [Number.orZero, Number.isPositive, below]
  rw [zero]
  exact value?_zero

theorem orZero_of_value? {number : Number} {value : ℚ} (known : number.value? = some value) :
    number.orZero.value? = some (max value 0) := by
  cases number with
  | double z =>
      by_cases above : 0 < z
      · rw [orZero_of_positive above, known, max_eq_left ((zero_lt_iff known).mp above).le]
      · rw [orZero_of_not_positive above,
          max_eq_right (not_lt.mp fun positive => above ((zero_lt_iff known).mpr positive))]
  | int n =>
      cases known
      by_cases above : 0 < n
      · have same : (Number.int n).orZero = .int n := by
          simp [Number.orZero, Number.isPositive, above]
        have natural : (0 : ℚ) ≤ n := by exact_mod_cast above.le
        rw [same, max_eq_left natural]
        rfl
      · have zero : (Number.int n).orZero = .double 0 := by
          simp [Number.orZero, Number.isPositive, above]
        have below : (n : ℚ) ≤ 0 := by exact_mod_cast not_lt.mp above
        rw [zero, max_eq_right below]
        exact value?_zero

theorem orZero_isTime {number : Number} {value : ℚ} (known : number.value? = some value) :
    number.orZero.IsTime :=
  ⟨_, orZero_of_value? known, le_max_right _ _⟩

/-- A double without a value is above zero only if it is the infinity there. -/
theorem unpack_of_unvalued {x : Float} (unvalued : value? x = none) :
    x.toModel.unpack = .infinity .positive ∧ 0 < x ∨
      (x.toModel.unpack = .infinity .negative ∨ x.toModel.unpack = .notANumber) ∧ ¬ 0 < x := by
  rw [value?_unpack] at unvalued
  rw [lt_iff_unpack_lt]
  cases unpacked : x.toModel.unpack with
  | zero | finite => rw [unpacked] at unvalued; cases unvalued
  | notANumber => exact Or.inr ⟨Or.inr rfl, by decide⟩
  | infinity sign =>
      cases sign with
      | positive => exact Or.inl ⟨rfl, rfl⟩
      | negative => exact Or.inr ⟨Or.inl rfl, by decide⟩

/-! Seconds in milliseconds. -/

theorem IsTooLong.milliseconds {x : Float} (long : IsTooLong x) :
    (x * 1000).toModel.unpack = .infinity .positive := by
  cases known : value? x with
  | none =>
      rcases unpack_of_unvalued known with ⟨unpacked, -⟩ | ⟨-, below⟩
      · rw [unpack_mul, unpacked, unpack_thousand]
        rfl
      · exact absurd long.1 below
  | some seconds =>
      have positive := (zero_lt_iff known).mp long.1
      have large : leastInfinite ≤ |seconds * 1000| :=
        (long.2 seconds known).trans (le_abs_self _)
      obtain ⟨sign, unpacked, same⟩ := unpack_mul_large known value?_thousand large
      cases sign with
      | positive => exact unpacked
      | negative =>
          simp only [Decimal.factor] at same
          linarith

theorem isTooLong_of_endless {x : Float} (endless : value? (x * 1000) = none)
    (above : 0 < x * 1000) : IsTooLong x := by
  obtain ⟨product, -⟩ := (unpack_of_unvalued endless).resolve_right fun ⟨_, below⟩ => below above
  cases known : value? x with
  | none =>
      -- Infinite seconds are too long for want of a value, and the others have no such product.
      rcases unpack_of_unvalued known with ⟨-, positive⟩ | ⟨unpacked | unpacked, -⟩
      · exact ⟨positive, fun seconds here => by rw [known] at here; cases here⟩
      all_goals
        rw [unpack_mul, unpacked, unpack_thousand] at product
        cases product
  | some seconds =>
      have large : leastInfinite ≤ |seconds * 1000| := by
        by_contra small
        obtain ⟨time, valued, -⟩ := value?_mul known value?_thousand (not_le.mp small)
        rw [endless] at valued
        cases valued
      obtain ⟨sign, unpacked, same⟩ := unpack_mul_large known value?_thousand large
      rw [product] at unpacked
      cases unpacked
      rw [Decimal.factor, one_mul] at same
      rw [abs_of_pos same] at large
      refine ⟨(zero_lt_iff known).mpr (pos_of_mul_pos_left same (by norm_num)), ?_⟩
      intro other here
      rw [known] at here
      cases here
      exact large

/-- Seconds that are not too long are counted in milliseconds, and those below zero are none. -/
theorem milliseconds_isTime {x : Float} (short : ¬ IsTooLong x) :
    (Number.double (x * 1000)).orZero.IsTime := by
  by_cases above : 0 < x * 1000
  · cases product : value? (x * 1000) with
    | some time => exact orZero_isTime product
    | none => exact absurd (isTooLong_of_endless product above) short
  · exact ⟨0, orZero_of_not_positive above, le_refl _⟩

theorem milliseconds_isEndless {x : Float} (long : IsTooLong x) :
    (Number.double (x * 1000)).orZero.IsEndless := by
  have unpacked := long.milliseconds
  have above : 0 < x * 1000 := (lt_iff_unpack_lt _ _).mpr (by rw [unpacked]; rfl)
  have infinite : (x * 1000).isInf = (x * 1000).toModel.unpack.isInf := rfl
  exact ⟨x * 1000, orZero_of_positive above, by rw [infinite, unpacked]; rfl, above⟩

theorem beq_zero_iff (x : Float) : (x == 0) = true ↔ value? x = some 0 := by
  have same : (x == 0) = UnpackedFloat.beq x.toModel.unpack (.zero .positive) := rfl
  rw [same, value?_unpack]
  cases x.toModel.unpack with
  | notANumber => exact iff_of_false (by decide) nofun
  | infinity sign => cases sign <;> exact iff_of_false (by decide) nofun
  | zero sign => exact iff_of_true rfl rfl
  | finite sign mantissa exponent positive =>
      have apart : Decimal.factor sign * (mantissa * 2 ^ exponent) ≠ 0 :=
        mul_ne_zero (Decimal.factor_ne_zero sign) (Decimal.magnitude_positive exponent positive).ne'
      refine iff_of_false ?_ fun zero => apart (Option.some.inj zero)
      cases sign <;> exact Bool.false_ne_true

theorem not_isTooLong_of_zero {x : Float} (zero : (x == 0) = true) : ¬ IsTooLong x :=
  fun long => absurd ((zero_lt_iff ((beq_zero_iff x).mp zero)).mp long.1) (lt_irrefl _)

section

variable {value : Option Value} {fallback ms : Number}
  (waits : waitDuration value fallback = .ok ms)

include waits

theorem waitDuration_isTime (ends : fallback.IsTime) (short : ¬ AsksTooLong value) :
    ms.IsTime := by
  match value with
  | none | some (.flag _) => cases waits; exact ends
  | some (.number (.int n)) =>
      simp only [waitDuration] at waits
      cases read : examined n with
      | error fault => rw [read] at waits; cases waits
      | ok m => rw [read] at waits; cases waits; exact orZero_isTime rfl
  | some (.number (.double x)) =>
      simp only [waitDuration] at waits
      split at waits
      · rename_i finite
        cases waits
        exact milliseconds_isTime fun long => short ⟨finite, long⟩
      · cases waits; exact ends
  | some (.text text) =>
      simp only [waitDuration] at waits
      split at waits
      · rename_i x leading
        split at waits
        · cases waits; exact ends
        · cases waits
          exact milliseconds_isTime fun long => short ⟨x, leading, long⟩
      · cases waits; exact ends

theorem waitDuration_isEndless (long : AsksTooLong value) : ms.IsEndless := by
  match value with
  | some (.number (.double x)) =>
      obtain ⟨finite, long⟩ := long
      simp only [waitDuration, finite, ↓reduceIte] at waits
      cases waits
      exact milliseconds_isEndless long
  | some (.text text) =>
      obtain ⟨x, leading, long⟩ := long
      simp only [waitDuration, leading] at waits
      rw [if_neg fun zero => not_isTooLong_of_zero zero long] at waits
      cases waits
      exact milliseconds_isEndless long

end

/-- A wait comes to an end unless its value asks for too long a time, and then it never does. A
value that states no time waits for the default. -/
theorem waits_end_unless_too_long {value : Option Value} {fallback ms : Number}
    (ends : fallback.IsTime) (waits : waitDuration value fallback = .ok ms) :
    (¬ AsksTooLong value → ms.IsTime) ∧ (AsksTooLong value → ms.IsEndless) ∧
      (StatesNoTime value → ms = fallback) := by
  refine ⟨waitDuration_isTime waits ends, waitDuration_isEndless waits, fun none => ?_⟩
  rw [waitDuration_of_noTime value fallback none] at waits
  cases waits
  rfl

/-- A text of a second and a half asks for no time too long. -/
theorem text_wait_ends :
    (Number.int 1000).IsTime ∧
      ∃ ms, waitDuration (some (.text "1.5 s")) (.int 1000) = .ok ms ∧ ms.IsTime := by
  have usual : (Number.int 1000).IsTime := ⟨1000, rfl, by norm_num⟩
  have leading : Reading.leadingDouble? "1.5 s" = some (Decimal.ofDecimal false 15 (-1)) := rfl
  have unpacked : (Decimal.ofDecimal false 15 (-1)).toModel.unpack =
      .finite .positive (3 * 2 ^ 51) (-52) (by decide) := rfl
  have short : ¬ AsksTooLong (some (.text "1.5 s")) := by
    rintro ⟨x, there, -, large⟩
    rw [leading] at there
    cases there
    have least := large (3 / 2) (by
      rw [value?_unpack, unpacked]
      norm_num [Decimal.valueOf?, Decimal.factor])
    have beyond : (1500 : ℚ) < leastInfinite := by
      exact_mod_cast (by decide +kernel : 1500 < leastInfinite)
    linarith
  obtain ⟨ms, waits⟩ : ∃ ms, waitDuration (some (.text "1.5 s")) (.int 1000) = .ok ms := by
    simp only [waitDuration, leading]
    split <;> exact ⟨_, rfl⟩
  exact ⟨usual, ms, waits, (waits_end_unless_too_long usual waits).1 short⟩

/-- A text may read as infinite, and the milliseconds of a finite double may be so. -/
theorem long_waits_are_endless :
    (∃ ms, waitDuration (some (.text "1e999")) (.int 1000) = .ok ms ∧ ms.value? = none) ∧
      ∃ ms, waitDuration (some (.number (.double 1e306))) (.int 1000) = .ok ms ∧
        ms.value? = none := by
  have leading : Reading.leadingDouble? "1e999" = some (Decimal.ofDecimal false 1 999) := rfl
  have nonzero : ¬ (Decimal.ofDecimal false 1 999 == 0) = true := by decide +kernel
  have finite : isFinite 1e306 = true := by decide +kernel
  constructor
  · refine ⟨(Number.double (Decimal.ofDecimal false 1 999 * 1000)).orZero, ?_, by decide +kernel⟩
    simp only [waitDuration, leading]
    rw [if_neg nonzero]
  · refine ⟨(Number.double (1e306 * 1000)).orZero, ?_, by decide +kernel⟩
    simp only [waitDuration, finite, ↓reduceIte]

end ArmProgram
