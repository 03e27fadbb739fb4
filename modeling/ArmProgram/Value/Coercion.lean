import ArmProgram.Value.Basic
import ArmProgram.Text.Classes

/-!
What a parameter value means to the block that reads it: a wait in
milliseconds, a number of repetitions, a condition, a loop condition. Text is
read from its leading number. Values that do not fit fall back instead of
failing, up to the two causes of `CoercionFault`.
-/

namespace ArmProgram

inductive CoercionFault where
  /-- An integer whose nearest double would be infinite. -/
  | tooLargeForDouble
  /-- A leading integer with more digits than are ever converted. -/
  | tooManyDigits (count : Nat)
  deriving Repr, DecidableEq

def digitLimit : Nat := 4300

namespace Reading

def sign : List Char → Bool × List Char
  | '+' :: rest => (false, rest)
  | '-' :: rest => (true, rest)
  | cs => (false, cs)

def exponent : List Char → Int
  | c :: rest =>
      if c = 'e' ∨ c = 'E' then
        let signed := sign rest
        let digits := (Text.spanDigits Text.digit? signed.2).1
        if signed.1 then -(Text.ofDigits digits : Int) else Text.ofDigits digits
      else 0
  | [] => 0

def fraction : List Char → List Nat × List Char
  | '.' :: rest => Text.spanDigits Text.digit? rest
  | cs => ([], cs)

def leadingDouble? (text : String) : Option Float :=
  let signed := sign (text.toList.dropWhile Text.isBlank)
  let whole := Text.spanDigits Text.digit? signed.2
  let after := fraction whole.2
  if whole.1.isEmpty && after.1.isEmpty then none
  else
    some (Decimal.ofDecimal signed.1 (Text.ofDigits (whole.1 ++ after.1))
      (exponent after.2 - after.1.length))

def leadingInt? (text : String) : Option (Bool × List Nat) :=
  let signed := sign (text.toList.dropWhile Text.isBlank)
  let digits := (Text.spanDigits Text.digit? signed.2).1
  if digits.isEmpty then none else some (signed.1, digits)

def trimmed (text : String) : List Char :=
  Text.trim Text.isBlank text.toList

end Reading

/-- An integer is examined as a double first, which very large ones refuse. -/
def examined (n : Int) : Except CoercionFault Int :=
  match (Number.int n).toDouble? with
  | some _ => .ok n
  | none => .error .tooLargeForDouble

/-- Milliseconds to wait for a number of seconds. Text that reads as zero, a
value that is not finite, and anything else but a number give the fallback;
negative times wait zero. -/
def waitDuration (value : Option Value) (fallback : Number) : Except CoercionFault Number :=
  match value with
  | some (.number (.int n)) => do
      let n ← examined n
      pure (Number.int (n * 1000)).orZero
  | some (.number (.double x)) =>
      if Decimal.isFinite x then .ok (Number.double (x * 1000)).orZero else .ok fallback
  | some (.text text) =>
      match Reading.leadingDouble? text with
      | some x => if x == 0 then .ok fallback else .ok (Number.double (x * 1000)).orZero
      | none => .ok fallback
  | _ => .ok fallback

def countless : Nat := 0x7fffffffffffffff

/-- How often a block repeats. A fractional count is rounded up, a count that
is not positive gives none; text counts by its leading integer. Text without
one or with a zero, and any other value, counts as once. -/
def repeatCount (value : Option Value) : Except CoercionFault Nat :=
  match value with
  | some (.number (.int n)) => do
      let n ← examined n
      pure n.toNat
  | some (.number (.double x)) =>
      if x.isNaN || x ≤ 0 then .ok 0
      else
        match Decimal.ceil? x with
        | some count => .ok count.toNat
        | none => .ok countless
  | some (.text text) =>
      match Reading.leadingInt? text with
      | some (negative, digits) =>
          if digitLimit < digits.length then .error (.tooManyDigits digits.length)
          else if Text.ofDigits digits = 0 then .ok 1
          else .ok (if negative then 0 else Text.ofDigits digits)
      | none => .ok 1
  | _ => .ok 1

/-- Whether a condition holds: a missing value does not, the words true and
false mean themselves in any case, other text holds unless it is blank, and a
number holds unless it is zero. -/
def conditionHolds (value : Option Value) : Bool :=
  match value with
  | none => false
  | some (.flag b) => b
  | some (.number n) => !n.isZero
  | some (.text text) =>
      let word := Reading.trimmed text
      if Text.eqIgnoringCase word "true" then true
      else if Text.eqIgnoringCase word "false" then false
      else !word.isEmpty

/-- Whether a loop goes on: only for true itself and for the word true, so a
stray number or label cannot keep it going. -/
def loopHolds (value : Option Value) : Bool :=
  match value with
  | some (.flag b) => b
  | some (.text text) => Text.eqIgnoringCase (Reading.trimmed text) "true"
  | _ => false

end ArmProgram
