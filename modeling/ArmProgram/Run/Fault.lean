import ArmProgram.Program.Basic
import ArmProgram.Value.Coercion

/-!
Why a run ends before its program does, why a run is not started at all, and
the wording of both.
-/

namespace ArmProgram

inductive Failure where
  /-- The arm was told to fail calls of this name. -/
  | armCall (name : String)
  /-- A call ended with an edit that the program refuses. -/
  | edit (fault : ProgramFault)
  | coercion (fault : CoercionFault)
  deriving DecidableEq, Repr

/-- The end of a run that does not complete. Both limits remember the steps
charged and the time elapsed when they were hit. -/
inductive Fault (Time : Type) where
  | aborted
  | connectionLost
  | stepLimit (budget : Int) (steps : Nat) (elapsed : Time)
  | timeLimit (budget : Time) (steps : Nat) (elapsed : Time)
  | failed (failure : Failure)
  deriving Repr

inductive FaultClass where
  | root
  | program
  | precondition
  | execution
  | aborted
  | connectionLost
  | limit
  deriving DecidableEq, Repr

namespace FaultClass

def ancestors : FaultClass → List FaultClass
  | root => []
  | program | precondition | execution => [root]
  | aborted | connectionLost | limit => [execution, root]

def defaultMessage : FaultClass → String
  | execution => "Execution failed"
  | aborted => "Execution was aborted"
  | connectionLost => "Robot connection lost during execution"
  | limit => "Execution stopped due to safety limits"
  | _ => ""

/-- The text of an error of a class; a message left out or empty gives way to
the default one. -/
def text (kind : FaultClass) (message : Option String) : String :=
  match message with
  | some message => if message.isEmpty then kind.defaultMessage else message
  | none => kind.defaultMessage

end FaultClass

def CoercionFault.message : CoercionFault → String
  | .tooLargeForDouble => "int too large to convert to float"
  | .tooManyDigits count =>
      "Exceeds the limit (" ++ toString digitLimit ++
        " digits) for integer string conversion: value has " ++ toString count ++
        " digits; use sys.set_int_max_str_digits() to increase the limit"

def Failure.message : Failure → String
  | .armCall name => "MockArm: simulated " ++ name ++ " failure"
  | .edit fault => fault.message
  | .coercion fault => fault.message

namespace Fault

def message : Fault Float → String
  | aborted => FaultClass.aborted.defaultMessage
  | connectionLost => FaultClass.connectionLost.defaultMessage
  | stepLimit budget _ _ => "Step limit of " ++ toString budget ++ " exceeded"
  | timeLimit budget _ _ => "Time limit of " ++ Decimal.sixDigits budget ++ "s exceeded"
  | failed failure => failure.message

end Fault

inductive Reuse where
  | alreadyBegun
  deriving DecidableEq, Repr

def Reuse.message : Reuse → String
  | alreadyBegun => "BlockExecutor instances run once"

inductive Refusal where
  | noBlocks
  | noRobot
  | notConnected
  | importUnconfirmed
  deriving DecidableEq, Repr

def Refusal.message : Refusal → String
  | noBlocks => "Please add blocks to run the code."
  | noRobot => "Robot control functions not available."
  | notConnected => "Robot is not connected. Please connect first."
  | importUnconfirmed =>
      "This program was imported from an external source. " ++
        "Only run it if you trust the source."

end ArmProgram
