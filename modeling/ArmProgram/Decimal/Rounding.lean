/-!
Doubles as exact fractions, and the two roundings that connect them with
integers and decimals. A finite double is `mantissa * 2 ^ exponent`, so every
comparison and rounding below is done on natural numbers and loses nothing.
-/

namespace ArmProgram.Decimal

def roundHalfEven (num den : Nat) : Nat :=
  let quotient := num / den
  let twice := 2 * (num % den)
  if twice < den then quotient
  else if den < twice then quotient + 1
  else if quotient % 2 = 0 then quotient else quotient + 1

def dyadic (mantissa : Nat) : Int → Nat × Nat
  | .ofNat up => (mantissa * Nat.pow 2 up, 1)
  | .negSucc down => (mantissa, Nat.pow 2 (down + 1))

def tens : Int → Nat × Nat
  | .ofNat up => (Nat.pow 10 up, 1)
  | .negSucc down => (1, Nat.pow 10 (down + 1))

structure Fraction where
  negative : Bool
  num : Nat
  den : Nat
  deriving DecidableEq, Repr

def fraction? (x : Float) : Option Fraction :=
  match x.toModel.unpack with
  | .notANumber => none
  | .infinity _ => none
  | .zero sign => some ⟨sign == .negative, 0, 1⟩
  | .finite sign mantissa exponent _ =>
      let value := dyadic mantissa exponent
      some ⟨sign == .negative, value.1, value.2⟩

def isFinite (x : Float) : Bool :=
  (fraction? x).isSome

/-- The double nearest to `num / den`, a half going to the even mantissa.
Magnitudes that round past the largest double become infinite. -/
def ofRatio (negative : Bool) (num den : Nat) : Float :=
  let magnitude : Float :=
    if left : 0 < num then
      if right : 0 < den then
        .ofModel (.pack (.div .binary64
          (.finite .positive num 0 left) (.finite .positive den 0 right)))
      else 0
    else 0
  if negative then -magnitude else magnitude

def ofDecimal (negative : Bool) (digits : Nat) (exponent : Int) : Float :=
  let magnitude : Float := .ofModel (.ofScientific digits exponent)
  if negative then -magnitude else magnitude

def ofInt (n : Int) : Float :=
  ofRatio (n < 0) n.natAbs 1

def roundTo (places : Nat) (x : Float) : Float :=
  match fraction? x with
  | none => x
  | some value =>
      ofDecimal value.negative (roundHalfEven (value.num * Nat.pow 10 places) value.den) (-places)

def nearestInt? (x : Float) : Option Int :=
  (fraction? x).map fun value =>
    let magnitude := roundHalfEven value.num value.den
    if value.negative then -magnitude else magnitude

def ceil? (x : Float) : Option Int :=
  (fraction? x).map fun value =>
    if value.negative then -(value.num / value.den : Nat)
    else ((value.num + value.den - 1) / value.den : Nat)

def eqInt (x : Float) (n : Int) : Bool :=
  match fraction? x with
  | none => false
  | some value =>
      let signed : Int := if value.negative then -value.num else value.num
      signed = n * value.den

def toInt? (x : Float) : Option Int :=
  (fraction? x).bind fun value =>
    if value.num % value.den = 0 then
      let whole : Nat := value.num / value.den
      some (if value.negative then -whole else whole)
    else none

/-- The `p` with `10 ^ p ≤ num / den < 10 ^ (p + 1)`, for positive arguments.
The bit lengths give it up to one, and one comparison each way corrects it. -/
def magnitudeOf (num den : Nat) : Int :=
  let guess : Int := ((num.log2 : Int) - den.log2) * 1233 / 4096
  let reaches (p : Int) : Bool :=
    let power := tens p
    power.1 * den ≤ num * power.2
  if reaches (guess + 1) then guess + 1
  else if reaches guess then guess
  else guess - 1

end ArmProgram.Decimal
