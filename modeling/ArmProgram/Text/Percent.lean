import ArmProgram.Text.Classes
import ArmProgram.Text.Encoding

/-!
Percent-encoded text, as in the path of a request. A percent sign and two
hexadecimal digits stand for a byte of UTF-8; any other percent sign stands
for itself. Bytes that begin no character, and characters that end early,
become replacement characters.
-/

namespace ArmProgram.Text

def percentBytes : List Char → List Nat
  | '%' :: high :: low :: rest =>
      match hexDigit? high, hexDigit? low with
      | some h, some l => (16 * h + l) :: percentBytes rest
      | _, _ => utf8Bytes '%' ++ percentBytes (high :: low :: rest)
  | c :: rest => utf8Bytes c ++ percentBytes rest
  | [] => []

/-- A character of which bytes are still missing, and the range in which the
next of them has to lie. -/
structure Unfinished where
  code : Nat
  missing : Nat
  low : Nat
  high : Nat

def leadingByte (byte : Nat) : Sum Char Unfinished :=
  if byte < 0x80 then .inl (Char.ofNat byte)
  else if 0xC2 ≤ byte ∧ byte < 0xE0 then .inr ⟨byte - 0xC0, 1, 0x80, 0xBF⟩
  else if byte = 0xE0 then .inr ⟨0, 2, 0xA0, 0xBF⟩
  else if byte = 0xED then .inr ⟨0xD, 2, 0x80, 0x9F⟩
  else if 0xE1 ≤ byte ∧ byte < 0xF0 then .inr ⟨byte - 0xE0, 2, 0x80, 0xBF⟩
  else if byte = 0xF0 then .inr ⟨0, 3, 0x90, 0xBF⟩
  else if byte = 0xF4 then .inr ⟨4, 3, 0x80, 0x8F⟩
  else if 0xF1 ≤ byte ∧ byte < 0xF4 then .inr ⟨byte - 0xF0, 3, 0x80, 0xBF⟩
  else .inl replacement

def charsOfBytes : Option Unfinished → List Nat → List Char
  | none, [] => []
  | some _, [] => [replacement]
  | none, byte :: rest =>
      match leadingByte byte with
      | .inl c => c :: charsOfBytes none rest
      | .inr start => charsOfBytes (some start) rest
  | some start, byte :: rest =>
      if start.low ≤ byte ∧ byte ≤ start.high then
        let code := 0x40 * start.code + (byte - 0x80)
        if start.missing ≤ 1 then Char.ofNat code :: charsOfBytes none rest
        else charsOfBytes (some ⟨code, start.missing - 1, 0x80, 0xBF⟩) rest
      else
        match leadingByte byte with
        | .inl c => replacement :: c :: charsOfBytes none rest
        | .inr next => replacement :: charsOfBytes (some next) rest

def percentDecoded (text : String) : String :=
  String.ofList (charsOfBytes none (percentBytes text.toList))

end ArmProgram.Text
