import ArmProgram.Decimal.Layout

/-!
Numbers of block programs. Integers of any size and doubles stay apart: they
are written differently, compared exactly, and only some uses turn an integer
into a double.
-/

namespace ArmProgram

inductive Number where
  | int (n : Int)
  | double (x : Float)
  deriving Repr, Inhabited

namespace Number

def same : Number → Number → Bool
  | .int a, .int b => a = b
  | .double x, .double y => x.toBits = y.toBits
  | _, _ => false

/-- The nearest double; none for an integer that would round to infinity. -/
def toDouble? : Number → Option Float
  | .int n =>
      let x := Decimal.ofInt n
      if x.isInf then none else some x
  | .double x => some x

def isPositive : Number → Bool
  | .int n => 0 < n
  | .double x => 0 < x

def isZero : Number → Bool
  | .int n => n = 0
  | .double x => x == 0

def eqDouble (number : Number) (x : Float) : Bool :=
  match number with
  | .int n => Decimal.eqInt x n
  | .double y => x == y

/-- The larger of zero and the number; NaN and anything not above zero give
the double zero. -/
def orZero (number : Number) : Number :=
  if number.isPositive then number else .double 0

def text : Number → String
  | .int n => toString n
  | .double x => Decimal.plain.show x

end Number

end ArmProgram
