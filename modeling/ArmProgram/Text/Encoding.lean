import ArmProgram.Text.Units

/-!
The encoding of bytes that do not name it. Text that begins with two ASCII
characters has zero bytes among its first four unless it is UTF-8, and where
they are tells the width of its units and the order of their bytes.
-/

namespace ArmProgram.Text

def utf8Bytes (c : Char) : List Nat :=
  (String.utf8EncodeChar c).map UInt8.toNat

inductive Encoding where
  | utf8
  | utf16 (bigFirst : Bool)
  | utf32 (bigFirst : Bool)
  deriving Repr, DecidableEq

def Encoding.ofBytes : List Nat → Encoding
  | 0 :: 0 :: _ :: _ :: _ => .utf32 true
  | 0 :: _ :: _ :: _ :: _ => .utf16 true
  | _ :: 0 :: 0 :: 0 :: _ => .utf32 false
  | _ :: 0 :: _ :: _ :: _ => .utf16 false
  | [0, _] => .utf16 true
  | [_, 0] => .utf16 false
  | _ => .utf8

def joinPairs? (base : Nat) (bigFirst : Bool) : List Nat → Option (List Nat)
  | [] => some []
  | [_] => none
  | first :: second :: rest =>
      let joined := if bigFirst then base * first + second else first + base * second
      (joinPairs? base bigFirst rest).map (joined :: ·)

def charOfCode? (loneSurrogates : Bool) (code : Nat) : Option Char :=
  if code < 0x110000 then loneChar? loneSurrogates code else none

def withoutMark : List Char → List Char
  | '\ufeff' :: rest => rest
  | cs => cs

def decoded? (loneSurrogates : Bool) (text : String) : Option (List Char) :=
  let bytes := text.toList.flatMap utf8Bytes
  match Encoding.ofBytes bytes with
  | .utf8 => some (withoutMark text.toList)
  | .utf16 bigFirst => (joinPairs? 0x100 bigFirst bytes).bind (charsOfUnits? loneSurrogates)
  | .utf32 bigFirst => do
      let halves ← joinPairs? 0x100 bigFirst bytes
      let codes ← joinPairs? 0x10000 bigFirst halves
      codes.mapM (charOfCode? loneSurrogates)

end ArmProgram.Text
