/-!
Code units of UTF-16. Two surrogates, a high one and then a low one, stand for
one character beyond the first 65536; a surrogate on its own stands for none.
Text consists of characters, so where such a surrogate is let pass the
replacement character is put for it, and what was given is lost. That text
holds what was given is known only of text without one.
-/

namespace ArmProgram.Text

def replacement : Char := '\ufffd'

def isHighSurrogate (unit : Nat) : Bool := 0xD800 ≤ unit && unit < 0xDC00

def isLowSurrogate (unit : Nat) : Bool := 0xDC00 ≤ unit && unit < 0xE000

def charOfUnit? (unit : Nat) : Option Char :=
  if isHighSurrogate unit || isLowSurrogate unit then none else some (Char.ofNat unit)

def charOfPair? (high low : Nat) : Option Char :=
  if isHighSurrogate high && isLowSurrogate low then
    some (Char.ofNat (0x10000 + (high - 0xD800) * 0x400 + (low - 0xDC00)))
  else none

/-- The character of a unit without a partner, which may or may not be a
surrogate. -/
def loneChar? (loneSurrogates : Bool) (unit : Nat) : Option Char :=
  match charOfUnit? unit with
  | some c => some c
  | none => if loneSurrogates then some replacement else none

def charsOfUnits? (loneSurrogates : Bool) : List Nat → Option (List Char)
  | high :: low :: rest =>
      match charOfPair? high low with
      | some c => (charsOfUnits? loneSurrogates rest).map (c :: ·)
      | none => do
          let c ← loneChar? loneSurrogates high
          let tail ← charsOfUnits? loneSurrogates (low :: rest)
          pure (c :: tail)
  | [unit] => (loneChar? loneSurrogates unit).map ([·])
  | [] => some []

end ArmProgram.Text
