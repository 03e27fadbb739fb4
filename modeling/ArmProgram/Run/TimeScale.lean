import ArmProgram.Number

/-!
Points and lengths of time. Runs compute with the seconds of a clock that
counts in doubles; nothing they do depends on more than the operations of
`TimeScale`, so their laws can be stated for exact time as well.
-/

namespace ArmProgram

class TimeScale (Time : Type) where
  zero : Time
  add : Time → Time → Time
  sub : Time → Time → Time
  /-- Strictly earlier, or shorter. -/
  before : Time → Time → Bool
  ofSeconds : Float → Time
  /-- A thousandth of a number of milliseconds. -/
  ofMillis : Number → Time

/-- Seconds in doubles. Integer milliseconds are divided exactly and rounded
once. -/
instance : TimeScale Float where
  zero := 0
  add := (· + ·)
  sub := (· - ·)
  before x y := x < y
  ofSeconds x := x
  ofMillis
    | .int n => Decimal.ofRatio (n < 0) n.natAbs 1000
    | .double x => x / 1000

def TimeScale.orZero {Time : Type} [TimeScale Time] (length : Time) : Time :=
  if before zero length then length else zero

def TimeScale.latest {Time : Type} [TimeScale Time] (first second : Time) : Time :=
  if before first second then second else first

def microseconds? (seconds : Float) : Option Int :=
  Decimal.nearestInt? (seconds * 1e6)

end ArmProgram
