import ArmProgram.Decimal.Rounding
import ArmProgram.Input.Issue
import ArmProgram.Text.Classes

/-!
Numbers that settings give as text. Text is taken as it stands if it can be;
otherwise it is tidied once and read again. Underscores may stand for
nothing inside a number, as long as they are single and at neither end.
-/

namespace ArmProgram.Input

def hasDoubledUnderscore : List Char → Bool
  | '_' :: '_' :: _ => true
  | _ :: rest => hasDoubledUnderscore rest
  | [] => false

def withoutUnderscores (cs : List Char) : List Char :=
  if cs.head? = some '_' || cs.getLast? = some '_' || hasDoubledUnderscore cs then cs
  else cs.filter (· ≠ '_')

/-! Integers. -/

def intDigitLimit : Nat := 4300

/-- An integer without needless characters: digits after at most a minus
sign, the first of them zero only if it is the only one. Too many digits are
reported whatever follows them. -/
def plainInt (cs : List Char) : Except Defect Int :=
  let unsigned := if cs.head? = some '-' then cs.tail else cs
  let digits := Text.spanDigits Text.asciiDigit? unsigned
  let magnitude : Int := Text.ofDigits digits.1
  match digits.1 with
  | [] => .error .unreadableInt
  | 0 :: _ :: _ => .error .unreadableInt
  | _ =>
      if intDigitLimit < digits.1.length then .error .oversizedInt
      else if digits.2.isEmpty then .ok (if cs.head? = some '-' then -magnitude else magnitude)
      else .error .unreadableInt

def isDigitAboveZero (c : Char) : Bool :=
  '1' ≤ c && c ≤ '9'

/-- Text without leading zeros and the underscores among them. A zero stays
where a number would otherwise begin with its point or be empty; a minus sign
may come after the zeros. -/
def withoutLeadingZeros? (cs : List Char) : Option (List Char) :=
  let isFiller (c : Char) := c = '0' || c = '_'
  let filler := cs.takeWhile isFiller
  match filler, cs.dropWhile isFiller with
  | '_' :: _, _ => none
  | _, c :: rest =>
      if isDigitAboveZero c || c = '-' then some (c :: rest)
      else if c = '.' && filler.getLast? = some '0' then some ('0' :: c :: rest)
      else none
  | _, [] => if filler.getLast? = some '0' then some ['0'] else none

def withoutZeroFraction (cs : List Char) : List Char :=
  match cs.dropWhile (· ≠ '.') with
  | '.' :: zeros =>
      if !zeros.isEmpty && zeros.all (· = '0') then cs.takeWhile (· ≠ '.') else cs
  | _ => cs

def cutSign? : List Char → Option (Bool × List Char)
  | '+' :: '-' :: _ => none
  | '-' :: '-' :: _ => none
  | '-' :: '+' :: _ => none
  | '+' :: rest => some (false, rest)
  | '-' :: rest => some (true, rest)
  | cs => some (false, cs)

def tidiedInt? (cs : List Char) : Option (List Char) := do
  let signed ← cutSign? (Text.trim Text.isWhiteSpace cs)
  let significant ← withoutLeadingZeros? signed.2
  let digits := withoutUnderscores (withoutZeroFraction significant)
  pure (if signed.1 then '-' :: digits else digits)

def intOfText (text : String) : Except Defect Int :=
  match plainInt text.toList with
  | .error .unreadableInt =>
      match (tidiedInt? text.toList).map plainInt with
      | some (.ok n) => .ok n
      | _ => .error .unreadableInt
  | read => read

/-! Doubles. -/

def leadingSign : List Char → Bool × List Char
  | '+' :: rest => (false, rest)
  | '-' :: rest => (true, rest)
  | cs => (false, cs)

def finalExponent? : List Char → Option Int
  | [] => some 0
  | c :: rest =>
      if c = 'e' ∨ c = 'E' then
        let signed := leadingSign rest
        let digits := Text.spanDigits Text.asciiDigit? signed.2
        if digits.1.isEmpty || !digits.2.isEmpty then none
        else
          let magnitude : Int := Text.ofDigits digits.1
          some (if signed.1 then -magnitude else magnitude)
      else none

def plainDouble? (cs : List Char) : Option Float :=
  let signed := leadingSign cs
  let word := signed.2
  if Text.eqIgnoringCase word "inf" || Text.eqIgnoringCase word "infinity" then
    some (if signed.1 then -1 / 0 else 1 / 0)
  else if Text.eqIgnoringCase word "nan" then some (0 / 0)
  else
    let whole := Text.spanDigits Text.asciiDigit? word
    let fraction := match whole.2 with
      | '.' :: rest => Text.spanDigits Text.asciiDigit? rest
      | rest => ([], rest)
    if whole.1.isEmpty && fraction.1.isEmpty then none
    else
      (finalExponent? fraction.2).map fun exponent =>
        Decimal.ofDecimal signed.1 (Text.ofDigits (whole.1 ++ fraction.1))
          (exponent - fraction.1.length)

/-- A double of settings. It may have white space around it or underscores in
it, not both. -/
def doubleOfText? (text : String) : Option Float :=
  match plainDouble? (Text.trim Text.isWhiteSpace text.toList) with
  | some x => some x
  | none => plainDouble? (withoutUnderscores text.toList)

end ArmProgram.Input
