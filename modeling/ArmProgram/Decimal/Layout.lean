import ArmProgram.Decimal.Shortest

/-!
Written forms of doubles. A `Layout` says which magnitudes are written in
place and how an exponent looks; `write` puts given digits into that layout.
The forms with a fixed number of places or of significant digits round the
exact value once, half to even.
-/

namespace ArmProgram.Decimal

/-- Decimal exponents from `least` up to but not including `beyond` are
written in place, all others with an exponent of at least `width` digits.
`point` keeps `.0` on whole numbers written in place. -/
structure Layout where
  least : Int
  beyond : Int
  width : Nat
  point : Bool
  deriving Repr

def plain : Layout := ⟨-4, 16, 2, true⟩

def general : Layout := ⟨-4, 6, 2, false⟩

def digitsText (n : Nat) : String :=
  String.ofList (Nat.toDigits 10 n)

def zeros (count : Nat) : String :=
  String.ofList (List.replicate count '0')

def signText (negative : Bool) : String :=
  if negative then "-" else ""

def exponentText (width : Nat) (exponent : Int) : String :=
  let digits := digitsText exponent.natAbs
  "e" ++ (if exponent < 0 then "-" else "+") ++ zeros (width - digits.length) ++ digits

def placed (layout : Layout) (digits : List Char) (whole : Nat) : String :=
  let padded := digits ++ List.replicate (whole - digits.length) '0'
  let left := String.ofList (padded.take whole)
  match padded.drop whole with
  | [] => if layout.point then left ++ ".0" else left
  | fraction => left ++ "." ++ String.ofList fraction

def Layout.write (layout : Layout) (negative : Bool) (decimal : Digits) : String :=
  let digits := Nat.toDigits 10 decimal.digits
  let first := decimal.exponent + digits.length - 1
  let body :=
    if first < layout.least ∨ layout.beyond ≤ first then
      let lead := String.ofList (digits.take 1)
      let rest := digits.drop 1
      let mantissa := if rest.isEmpty then lead else lead ++ "." ++ String.ofList rest
      mantissa ++ exponentText layout.width first
    else
      match first with
      | .ofNat whole => placed layout digits (whole + 1)
      | .negSucc gap => "0." ++ zeros gap ++ String.ofList digits
  signText negative ++ body

def nonFiniteText (x : Float) : String :=
  if x.isNaN then "nan" else if x < 0 then "-inf" else "inf"

def Layout.show (layout : Layout) (x : Float) : String :=
  match x.toModel.unpack with
  | .zero sign => layout.write (sign == .negative) ⟨0, 0⟩
  | .finite sign mantissa exponent _ =>
      layout.write (sign == .negative) (shortest mantissa exponent)
  | _ => nonFiniteText x

def fixed (places : Nat) (x : Float) : String :=
  match fraction? x with
  | none => nonFiniteText x
  | some value =>
      let unit := Nat.pow 10 places
      let scaled := roundHalfEven (value.num * unit) value.den
      let whole := digitsText (scaled / unit)
      let rest := digitsText (scaled % unit)
      signText value.negative ++
        if places = 0 then whole
        else whole ++ "." ++ zeros (places - rest.length) ++ rest

def significant (count : Nat) (num den : Nat) : Digits :=
  if num = 0 then ⟨0, 0⟩
  else
    let place := magnitudeOf num den - (count - 1 : Nat)
    let power := tens place
    stripZeros (roundHalfEven (num * power.2) (den * power.1)) place

def sixDigits (x : Float) : String :=
  match fraction? x with
  | none => nonFiniteText x
  | some value => general.write value.negative (significant 6 value.num value.den)

end ArmProgram.Decimal
