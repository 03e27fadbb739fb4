import ArmProgram.Json.Basic
import ArmProgram.Text.Quoted

/-!
Compact JSON text. Quotes, backslashes and control characters are escaped and
everything else is written as it is. Doubles have a fraction or an exponent,
so they read back as doubles; those that are not finite are written as null.
-/

namespace ArmProgram.Json

/-- In place from 0.00001 up to ten to the sixteenth, with a signed exponent
of as many digits as it needs otherwise. -/
def doubles : Decimal.Layout := ⟨-5, 16, 1, true⟩

def escaped (c : Char) : List Char :=
  if c = '"' then ['\\', '"']
  else if c = '\\' then ['\\', '\\']
  else if c = '\x08' then ['\\', 'b']
  else if c = '\x0c' then ['\\', 'f']
  else if c = '\n' then ['\\', 'n']
  else if c = '\r' then ['\\', 'r']
  else if c = '\t' then ['\\', 't']
  else if c.toNat < 0x20 then '\\' :: 'u' :: (Text.hexText 4 c.toNat).toList
  else [c]

def writeText (text : String) : String :=
  String.ofList ('"' :: (text.toList.flatMap escaped ++ ['"']))

def writeNumber : Number → String
  | .int n => toString n
  | .double x => if Decimal.isFinite x then doubles.show x else "null"

mutual

def write : Json → String
  | .null => "null"
  | .flag b => if b then "true" else "false"
  | .number n => writeNumber n
  | .text s => writeText s
  | .list items => "[" ++ writeItems items ++ "]"
  | .object fields => "\x7b" ++ writeFields fields ++ "\x7d"

def writeItems : List Json → String
  | [] => ""
  | [item] => write item
  | item :: rest => write item ++ "," ++ writeItems rest

def writeFields : List (String × Json) → String
  | [] => ""
  | [(name, value)] => writeText name ++ ":" ++ write value
  | (name, value) :: rest => writeText name ++ ":" ++ write value ++ "," ++ writeFields rest

end

end ArmProgram.Json
