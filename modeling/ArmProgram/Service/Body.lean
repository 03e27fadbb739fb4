import ArmProgram.Json.Reader
import ArmProgram.Text.Encoding

/-!
The body of a request. It is JSON text in an encoding that its own bytes
show. Text that is no JSON is an issue of the body; text in no encoding, or
beyond what the service reads, is no body at all.
-/

namespace ArmProgram

inductive Body where
  | absent
  /-- Text that is no JSON. -/
  | malformed
  /-- Text that is not read to its end. -/
  | unparsable
  | given (json : Json)
  deriving Inhabited

namespace Body

/-- Bodies may be nested 968 deep, and their integers have at most 4300
digits; a surrogate in them may stand alone. -/
def dialect : Json.Dialect := ⟨some 968, true, some 4300, false, true⟩

def ofTextIn (dialect : Json.Dialect) (text : String) : Body :=
  if text.isEmpty then absent
  else
    match (Text.decoded? dialect.loneSurrogates text).map (Json.readChars dialect) with
    | some (.ok json) => given json.merged
    | some (.error .malformed) => malformed
    | some (.error .excessive) | none => unparsable

def ofText (text : String) : Body :=
  ofTextIn dialect text

def unicode : Json.Dialect := { dialect with loneSurrogates := false }

/-- Whether what a body gives is valid Unicode: it is given as well where no
surrogate may stand alone. -/
def IsUnicode (text : String) : Prop :=
  ∀ json, ofText text = given json → ofTextIn unicode text = given json

end Body

end ArmProgram
