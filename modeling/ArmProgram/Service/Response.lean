import ArmProgram.Controller.Basic
import ArmProgram.Program.Document

/-!
Responses of the service: a status and a JSON body. Whatever goes wrong is
told in the field `detail`, as text or as a list of issues.
-/

namespace ArmProgram

open Input (Issue)

structure Response where
  status : Nat
  body : Json
  deriving Inhabited

namespace Response

/-- Doubles that are not finite have no form in a body, so null stands for
them. -/
def ok (body : Json) : Response := ⟨200, body.nullNonFinite⟩

def created (body : Json) : Response := ⟨201, body.nullNonFinite⟩

def done : Response := ok (.object [("status", .text "ok")])

def problem (status : Nat) (detail : String) : Response :=
  ⟨status, .object [("detail", .text detail)]⟩

def invalid (issues : List Issue) : Response :=
  ⟨422, .object [("detail", Json.ofList (Issue.toJson .body) issues)]⟩

def unparsable : Response := problem 400 "There was an error parsing the body"

def unknownPath : Response := problem 404 "Not Found"

def wrongMethod : Response := problem 405 "Method Not Allowed"

def running : Response := problem 409 "Program is running"

def refused (refusal : Refusal) : Response := problem 400 refusal.message

def unknownTarget (fault : ProgramFault) : Response := problem 404 fault.message

def invalidTree (fault : ProgramFault) : Response := problem 422 fault.message

def noResult : Response := problem 404 "No run has finished yet"

def noSimulatedArm : Response := problem 501 "Robot state only available for the mock arm"

end Response

end ArmProgram
