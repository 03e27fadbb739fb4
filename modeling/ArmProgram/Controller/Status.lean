import ArmProgram.Controller.Basic
import ArmProgram.Json.Basic

/-!
The status of a controller for a display, and its JSON form. Times are shown
in milliseconds.
-/

namespace ArmProgram

structure Status where
  phase : Phase
  isRunning : Bool
  blockCount : Nat
  steps : Nat
  elapsedMs : Float
  lastError : Option String
  requiresTrustConfirmation : Bool
  deriving Repr

/-- The clock of a run that has ended goes on. -/
def Controller.status (controller : Controller Float) : Status :=
  let token := controller.cell.run.map (·.token)
  { phase := controller.phase
    isRunning := controller.isRunning
    blockCount := controller.cell.program.size
    steps := (token.map (·.steps)).getD 0
    elapsedMs :=
      (token.map fun token =>
        Decimal.roundTo 1 (token.elapsed controller.cell.now * 1000)).getD 0
    lastError := controller.lastResult.bind (·.errorMessage)
    requiresTrustConfirmation := controller.needsTrust }

def Status.toJson (status : Status) : Json :=
  .object
    [("phase", .text status.phase.name),
     ("isRunning", .flag status.isRunning),
     ("blockCount", .int status.blockCount),
     ("steps", .int status.steps),
     ("elapsedMs", .double status.elapsedMs),
     ("lastError", Json.ofOption .text status.lastError),
     ("requiresTrustConfirmation", .flag status.requiresTrustConfirmation)]

def Result.toJson (result : Result Float) : Json :=
  .object
    [("success", .flag result.success),
     ("phase", .text result.phase.name),
     ("durationMs", .double result.durationMs),
     ("steps", .int result.steps),
     ("errorKind", Json.ofOption (fun kind => .text kind.name) result.errorKind),
     ("errorMessage", Json.ofOption .text result.errorMessage)]

end ArmProgram
