import ArmProgram.Json.Basic
import ArmProgram.Text.Classes
import ArmProgram.Text.Units

/-!
Reading JSON text. A number without fraction and exponent is an integer, any
other number a double, and the words for NaN and the infinities are doubles as
well. A dialect sets how much a reader takes on: text that goes beyond it is
told apart from text that is no JSON, and whichever comes first in the text
decides. The fuel of the mutual readers is the length of the text, and every
call consumes a character before it calls again.
-/

namespace ArmProgram.Json

/-- How much a reader takes on. Without a limit there is none. -/
structure Dialect where
  /-- How deep lists and objects may be nested. -/
  deepest : Option Nat
  /-- Whether those that hold nothing count as well. -/
  countsEmpty : Bool
  /-- Digits of the longest integer. -/
  longest : Option Nat
  /-- Whether the whole part of a double may not be longer either. -/
  limitsDoubles : Bool
  /-- Whether a surrogate may stand alone. -/
  loneSurrogates : Bool
  deriving Repr, DecidableEq

def Dialect.boundless : Dialect := ⟨none, false, none, false, true⟩

inductive Unreadable where
  | malformed
  | excessive
  deriving Repr, DecidableEq

abbrev Reading (α : Type) := Except Unreadable (α × List Char)

def exceeds (limit : Option Nat) (size : Nat) : Bool :=
  limit.any (· < size)

def isSpace (c : Char) : Bool :=
  c = ' ' || c = '\n' || c = '\r' || c = '\t'

def skipSpace (cs : List Char) : List Char :=
  cs.dropWhile isSpace

def hexUnit (a b c d : Char) : Except Unreadable Nat :=
  match Text.hexDigit? a, Text.hexDigit? b, Text.hexDigit? c, Text.hexDigit? d with
  | some a, some b, some c, some d => .ok (((a * 16 + b) * 16 + c) * 16 + d)
  | _, _, _, _ => .error .malformed

def loneUnit (dialect : Dialect) (unit : Nat) : Except Unreadable Char :=
  match Text.loneChar? dialect.loneSurrogates unit with
  | some c => .ok c
  | none => .error .malformed

def shortEscape : Char → Except Unreadable Char
  | '"' => .ok '"'
  | '\\' => .ok '\\'
  | '/' => .ok '/'
  | 'b' => .ok '\x08'
  | 'f' => .ok '\x0c'
  | 'n' => .ok '\n'
  | 'r' => .ok '\r'
  | 't' => .ok '\t'
  | _ => .error .malformed

def readText (dialect : Dialect) :
    List Char → Except Unreadable (List Char × List Char)
  | [] => .error .malformed
  | '"' :: rest => .ok ([], rest)
  | '\\' :: 'u' :: a :: b :: c :: d :: '\\' :: 'u' :: e :: f :: g :: h :: rest => do
      let unit ← hexUnit a b c d
      let next ← hexUnit e f g h
      match Text.charOfPair? unit next with
      | some c =>
          let tail ← readText dialect rest
          pure (c :: tail.1, tail.2)
      | none =>
          let c ← loneUnit dialect unit
          let tail ← readText dialect ('\\' :: 'u' :: e :: f :: g :: h :: rest)
          pure (c :: tail.1, tail.2)
  | '\\' :: 'u' :: a :: b :: c :: d :: rest => do
      let unit ← hexUnit a b c d
      let c ← loneUnit dialect unit
      let tail ← readText dialect rest
      pure (c :: tail.1, tail.2)
  | '\\' :: c :: rest => do
      let c ← shortEscape c
      let tail ← readText dialect rest
      pure (c :: tail.1, tail.2)
  | c :: rest => do
      if c.toNat < 0x20 then .error .malformed
      else
        let tail ← readText dialect rest
        pure (c :: tail.1, tail.2)

def readWhole : List Char → List Nat × List Char
  | '0' :: rest => ([0], rest)
  | cs => Text.spanDigits Text.asciiDigit? cs

def readFraction (cs : List Char) : Option (List Nat) × List Char :=
  match cs with
  | '.' :: rest =>
      let digits := Text.spanDigits Text.asciiDigit? rest
      if digits.1.isEmpty then (none, cs) else (some digits.1, digits.2)
  | _ => (none, cs)

def readExponentSign : List Char → Bool × List Char
  | '+' :: rest => (false, rest)
  | '-' :: rest => (true, rest)
  | cs => (false, cs)

def readExponent (cs : List Char) : Option Int × List Char :=
  match cs with
  | c :: rest =>
      if c = 'e' || c = 'E' then
        let signed := readExponentSign rest
        let digits := Text.spanDigits Text.asciiDigit? signed.2
        let magnitude : Int := Text.ofDigits digits.1
        if digits.1.isEmpty then (none, cs)
        else (some (if signed.1 then -magnitude else magnitude), digits.2)
      else (none, cs)
  | [] => (none, cs)

def readNumber (dialect : Dialect) (negative : Bool) (cs : List Char) : Reading Number :=
  let whole := readWhole cs
  let fraction := readFraction whole.2
  let exponent := readExponent fraction.2
  let long := exceeds dialect.longest whole.1.length
  if whole.1.isEmpty then .error .malformed
  else
    match fraction.1, exponent.1 with
    | none, none =>
        let magnitude : Int := Text.ofDigits whole.1
        if long then .error .excessive
        else .ok (.int (if negative then -magnitude else magnitude), exponent.2)
    | digits, power =>
        let digits := digits.getD []
        if long && dialect.limitsDoubles then .error .excessive
        else
          .ok (.double (Decimal.ofDecimal negative (Text.ofDigits (whole.1 ++ digits))
            (power.getD 0 - digits.length)), exponent.2)

def afterWord (word : List Char) (cs : List Char) : Option (List Char) :=
  if word.isPrefixOf cs then some (cs.drop word.length) else none

def literals : List (String × Json) :=
  [("null", .null), ("true", .flag true), ("false", .flag false), ("NaN", .double (0 / 0)),
   ("Infinity", .double (1 / 0)), ("-Infinity", .double (-1 / 0))]

def readLiteral? (cs : List Char) : Option (Json × List Char) :=
  literals.findSome? fun word => (afterWord word.1.toList cs).map (word.2, ·)

def readScalar (dialect : Dialect) (cs : List Char) : Reading Json :=
  match readLiteral? cs with
  | some found => .ok found
  | none =>
      match cs with
      | '"' :: rest =>
          (readText dialect rest).map fun found => (.text (String.ofList found.1), found.2)
      | '-' :: rest =>
          (readNumber dialect true rest).map fun found => (.number found.1, found.2)
      | _ => (readNumber dialect false cs).map fun found => (.number found.1, found.2)

mutual

def readValue (dialect : Dialect) : Nat → Nat → List Char → Reading Json
  | 0, _, _ => .error .malformed
  | fuel + 1, depth, cs =>
      let deep := exceeds dialect.deepest (depth + 1)
      match skipSpace cs with
      | '[' :: rest =>
          match skipSpace rest with
          | ']' :: rest =>
              if deep && dialect.countsEmpty then .error .excessive else .ok (.list [], rest)
          | _ =>
              if deep then .error .excessive
              else
                (readItems dialect fuel (depth + 1) rest).map fun found =>
                  (.list found.1, found.2)
      | '{' :: rest =>
          match skipSpace rest with
          | '}' :: rest =>
              if deep && dialect.countsEmpty then .error .excessive else .ok (.object [], rest)
          | _ =>
              if deep then .error .excessive
              else
                (readFields dialect fuel (depth + 1) rest).map fun found =>
                  (.object found.1, found.2)
      | cs => readScalar dialect cs

def readItems (dialect : Dialect) : Nat → Nat → List Char → Reading (List Json)
  | 0, _, _ => .error .malformed
  | fuel + 1, depth, cs =>
      match readValue dialect fuel depth cs with
      | .error unreadable => .error unreadable
      | .ok (item, rest) =>
          match skipSpace rest with
          | ',' :: rest =>
              (readItems dialect fuel depth rest).map fun found => (item :: found.1, found.2)
          | ']' :: rest => .ok ([item], rest)
          | _ => .error .malformed

def readFields (dialect : Dialect) : Nat → Nat → List Char → Reading (List (String × Json))
  | 0, _, _ => .error .malformed
  | fuel + 1, depth, cs =>
      match skipSpace cs with
      | '"' :: rest =>
          match readText dialect rest with
          | .error unreadable => .error unreadable
          | .ok (name, rest) =>
              match skipSpace rest with
              | ':' :: rest =>
                  match readValue dialect fuel depth rest with
                  | .error unreadable => .error unreadable
                  | .ok (value, rest) =>
                      let field := (String.ofList name, value)
                      match skipSpace rest with
                      | ',' :: rest =>
                          (readFields dialect fuel depth rest).map fun found =>
                            (field :: found.1, found.2)
                      | '}' :: rest => .ok ([field], rest)
                      | _ => .error .malformed
              | _ => .error .malformed
      | _ => .error .malformed

end

def readChars (dialect : Dialect) (cs : List Char) : Except Unreadable Json := do
  let found ← readValue dialect (cs.length + 1) 0 cs
  if (skipSpace found.2).isEmpty then pure found.1 else .error .malformed

def read (dialect : Dialect) (text : String) : Except Unreadable Json :=
  readChars dialect text.toList

end ArmProgram.Json
