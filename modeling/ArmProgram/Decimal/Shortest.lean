import ArmProgram.Decimal.Rounding

/-!
The fewest decimal digits that read back as the same double. The reals that
round to `mantissa * 2 ^ exponent` form an interval, closed exactly when the
mantissa is even. For each digit count the only candidates are the two grid
points around the value; the first count with a candidate inside wins, and of
two candidates the nearer one, a tie going to the even digit.
-/

namespace ArmProgram.Decimal

structure Digits where
  digits : Nat
  exponent : Int
  deriving DecidableEq, Repr

/-- The interval of a double in quarter units of its last place, with the
value at `4 * mantissa`. Below a power of two the spacing halves. -/
structure Interval where
  low : Nat
  value : Nat
  high : Nat
  closed : Bool

def Interval.of (mantissa : Nat) (exponent : Int) : Interval :=
  let narrow := mantissa = 0x10000000000000 ∧ -1074 < exponent
  { low := 4 * mantissa - (if narrow then 1 else 2)
    value := 4 * mantissa
    high := 4 * mantissa + 2
    closed := mantissa % 2 = 0 }

/-- `below closed a b` is `a ≤ b`, or `a < b` when the end does not belong. -/
def below (closed : Bool) (a b : Nat) : Bool :=
  if closed then a ≤ b else a < b

def onGrid (interval : Interval) (unit : Nat × Nat) (place : Int) : Option Nat :=
  let power := tens place
  let scale := unit.1 * power.2
  let step := power.1 * unit.2
  let floor := interval.value * scale / step
  let lowerFits := below interval.closed (interval.low * scale) (floor * step)
  let upperFits := below interval.closed ((floor + 1) * step) (interval.high * scale)
  let left := interval.value * scale - floor * step
  let right := (floor + 1) * step - interval.value * scale
  match lowerFits, upperFits with
  | true, true =>
      if left < right then some floor
      else if right < left then some (floor + 1)
      else some (if floor % 2 = 0 then floor else floor + 1)
  | true, false => some floor
  | false, true => some (floor + 1)
  | false, false => none

def stripZeros (digits : Nat) (exponent : Int) : Digits :=
  if 0 < digits ∧ digits % 10 = 0 then stripZeros (digits / 10) (exponent + 1)
  else ⟨digits, exponent⟩
termination_by digits
decreasing_by omega

def shortest (mantissa : Nat) (exponent : Int) : Digits :=
  let interval := Interval.of mantissa exponent
  let unit := dyadic 1 (exponent - 2)
  let value := dyadic mantissa exponent
  let top := magnitudeOf value.1 value.2
  let found := (List.range 17).findSome? fun (count : Nat) =>
    let place := top - count
    (onGrid interval unit place).map fun digits => stripZeros digits place
  found.getD ⟨0, 0⟩

end ArmProgram.Decimal
