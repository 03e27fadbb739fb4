import ArmProgram.Text.Printable

/-!
Quoted text for log lines. Single quotes surround the text unless it holds a
single quote and no double quote. The surrounding quote, the backslash and
unprintable characters are escaped, so a quoted text stays on one line.
-/

namespace ArmProgram.Text

def hexText (width : Nat) (n : Nat) : String :=
  let digits := Nat.toDigits 16 n
  String.ofList (List.replicate (width - digits.length) '0' ++ digits)

def escapeIn (quote : Char) (c : Char) : String :=
  if c = quote ∨ c = '\\' then String.ofList ['\\', c]
  else if c = '\n' then "\\n"
  else if c = '\r' then "\\r"
  else if c = '\t' then "\\t"
  else if isPrintable c then String.singleton c
  else if c.toNat < 0x100 then "\\x" ++ hexText 2 c.toNat
  else if c.toNat < 0x10000 then "\\u" ++ hexText 4 c.toNat
  else "\\U" ++ hexText 8 c.toNat

def quoted (text : String) : String :=
  let quote := if text.contains '\'' && !text.contains '"' then '"' else '\''
  let body := String.join (text.toList.map (escapeIn quote))
  String.singleton quote ++ body ++ String.singleton quote

end ArmProgram.Text
