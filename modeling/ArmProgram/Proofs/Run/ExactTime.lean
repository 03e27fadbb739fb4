import ArmProgram.Run.Token
import ArmProgram.Proofs.Decimal.Exact

/-!
Time as exact numbers, where nothing of a length is lost on the clock, and what
it says about the delays that two budgets leave. Lengths may be endless.
-/

namespace ArmProgram

/-- Time as exact numbers: ordered, with lengths that never vanish in a sum. -/
class ExactTime (Time : Type) [TimeScale Time] : Prop where
  asymm {first last : Time} (ahead : TimeScale.before first last = true) :
    TimeScale.before last first = false
  before_or {first last : Time} (between : Time) (ahead : TimeScale.before first last = true) :
    TimeScale.before first between = true ∨ TimeScale.before between last = true
  eq_of_not_before {first last : Time} (ahead : TimeScale.before first last = false)
    (behind : TimeScale.before last first = false) : first = last
  sub_mono {less more : Time} (spent : Time) (ordered : TimeScale.before more less = false) :
    TimeScale.before (TimeScale.sub more spent) (TimeScale.sub less spent) = false
  add_mono {less more : Time} (now : Time) (ordered : TimeScale.before more less = false) :
    TimeScale.before (TimeScale.add now more) (TimeScale.add now less) = false
  before_add (now length : Time) :
    TimeScale.before now (TimeScale.add now length) = TimeScale.before TimeScale.zero length

/-- Fractions of a second beside endless lengths, which count before them: one
endless length is beyond every finite one, and the finite part is not lost in it. -/
abbrev EndlessTime := ℤ ×ₗ ℚ

namespace EndlessTime

def ofSeconds (x : Float) : EndlessTime :=
  match Decimal.value? x with
  | some value => toLex (0, value)
  | none => toLex (if 0 < x then 1 else if x < 0 then -1 else 0, 0)

def thousandth (length : EndlessTime) : EndlessTime :=
  toLex ((ofLex length).1, (ofLex length).2 / 1000)

instance : TimeScale EndlessTime where
  zero := 0
  add := (· + ·)
  sub := (· - ·)
  before first second := decide (first < second)
  ofSeconds := ofSeconds
  ofMillis
    | .int n => thousandth (toLex (0, n))
    | .double x => thousandth (ofSeconds x)

instance : ExactTime EndlessTime where
  asymm ahead := by
    simp only [TimeScale.before, decide_eq_true_eq, decide_eq_false_iff_not] at ahead ⊢
    exact ahead.asymm
  before_or between ahead := by
    simp only [TimeScale.before, decide_eq_true_eq] at ahead ⊢
    rcases lt_or_ge _ between with early | late
    · exact Or.inl early
    · exact Or.inr (late.trans_lt ahead)
  eq_of_not_before ahead behind := by
    simp only [TimeScale.before, decide_eq_false_iff_not, not_lt] at ahead behind
    exact le_antisymm behind ahead
  sub_mono spent ordered := by
    simp only [TimeScale.before, TimeScale.sub, decide_eq_false_iff_not, not_lt] at ordered ⊢
    exact sub_le_sub_right ordered spent
  add_mono now ordered := by
    simp only [TimeScale.before, TimeScale.add, decide_eq_false_iff_not, not_lt] at ordered ⊢
    exact add_le_add_right ordered now
  before_add now length := by
    simp [TimeScale.before, TimeScale.add, TimeScale.zero]

end EndlessTime

variable {Time : Type} [TimeScale Time] [ExactTime Time]

theorem ExactTime.before_self (time : Time) : TimeScale.before time time = false := by
  cases ahead : TimeScale.before time time with
  | false => rfl
  | true => exact ahead.symm.trans (ExactTime.asymm ahead)

theorem ExactTime.before_of_before {first middle last : Time}
    (ahead : TimeScale.before first middle = true)
    (ordered : TimeScale.before last middle = false) : TimeScale.before first last = true := by
  rcases ExactTime.before_or last ahead with done | behind
  · exact done
  · rw [ordered] at behind
    cases behind

theorem ExactTime.orZero_ordered {less more : Time}
    (ordered : TimeScale.before more less = false) :
    TimeScale.before (TimeScale.orZero more) less = false := by
  unfold TimeScale.orZero
  by_cases some : TimeScale.before TimeScale.zero more = true
  · rwa [if_pos some]
  · rw [if_neg some]
    cases ahead : TimeScale.before TimeScale.zero less with
    | false => rfl
    | true => exact absurd (ExactTime.before_of_before ahead ordered) some

theorem Pause.ofLength_exact (now length : Time) (capped : Bool) :
    Pause.ofLength now length capped =
      if TimeScale.before TimeScale.zero length then .till (TimeScale.add now length) capped
      else .turns 2 capped := by
  unfold ofLength
  simp only [ExactTime.before_add]
  split <;> rfl

inductive Pause.Cut (now : Time) : Pause Time → Pause Time → Prop where
  | till {due later : Time} {capped : Bool} (first : TimeScale.before later due = false) :
      Cut now (.till due true) (.till later capped)
  | atOnce {later : Time} {capped : Bool} (ahead : TimeScale.before now later = true) :
      Cut now (.turns 2 true) (.till later capped)
  | together {capped : Bool} : Cut now (.turns 2 true) (.turns 2 capped)

/-- A length that the smaller budget does not leave, and one that is no
shorter than what it leaves. -/
theorem Pause.cut_ofLength (now left length : Time) (capped : Bool)
    (ordered : TimeScale.before length left = false) :
    Pause.Cut now (.ofLength now (TimeScale.orZero left) true) (.ofLength now length capped) := by
  rw [ofLength_exact, ofLength_exact]
  by_cases some : TimeScale.before TimeScale.zero left = true
  · have more := ExactTime.before_of_before some ordered
    have rest : TimeScale.orZero left = left := if_pos some
    rw [rest, if_pos some, if_pos more]
    exact .till (ExactTime.add_mono now ordered)
  · have rest : TimeScale.orZero left = TimeScale.zero := if_neg some
    have none := ExactTime.before_self (TimeScale.zero : Time)
    rw [rest, none, if_neg Bool.false_ne_true]
    by_cases more : TimeScale.before TimeScale.zero length = true
    · rw [if_pos more]
      exact .atOnce (by rw [ExactTime.before_add, more])
    · rw [if_neg more]
      exact .together

end ArmProgram
