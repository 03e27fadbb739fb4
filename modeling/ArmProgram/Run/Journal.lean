import ArmProgram.Run.Walk
import ArmProgram.Text.Quoted

/-!
The journal: what happened, as data, and how each entry reads in a log. An
entry has a level and a source, and is written only when the log is read.
-/

namespace ArmProgram

inductive Level where
  | debug
  | info
  | warning
  | error
  deriving DecidableEq, Repr

namespace Level

def name : Level → String
  | debug => "DEBUG"
  | info => "INFO"
  | warning => "WARNING"
  | error => "ERROR"

def rank : Level → Nat
  | debug => 0
  | info => 1
  | warning => 2
  | error => 3

end Level

inductive Entry (Time : Type) where
  | note (note : Note)
  | abortedAfter (steps : Nat)
  | connectionLostAfter (steps : Nat)
  | limitReached (fault : Fault Time) (steps : Nat) (elapsed : Time)
  | completed (steps : Nat) (elapsed : Time)
  | armCalled (call : Call)
  | armDisconnected
  | imported (count : Nat)
  | starting (count : Nat) (simulate : Bool)
  | stopping
  | stoppedByUser
  | lostDuringRun
  | stoppedForSafety (fault : Fault Time)
  | runFailed
  | added (id definition : String)
  | addedChild (id definition parent : String) (slot : Option Slot)
  | childIgnored (parent parentDefinition definition : String)
  | removed (count : Nat) (id : String)
  | cleared
  | overridden (texts : List (String × String))
  deriving Repr

def Value.shown : Option Value → String
  | none => "None"
  | some (.flag b) => if b then "True" else "False"
  | some (.number n) => n.text
  | some (.text s) => Text.quoted s

def Command.shown (command : Command) : String :=
  "JointCommand(servo_id=" ++ toString command.servo ++ ", value=" ++ command.value.text ++ ")"

def commandsShown (commands : List Command) : String :=
  if commands.isEmpty then ""
  else "[" ++ ", ".intercalate (commands.map Command.shown) ++ "]"

def textsShown (texts : List (String × String)) : String :=
  let pairs := texts.map fun entry => Text.quoted entry.1 ++ ": " ++ Text.quoted entry.2
  "\x7b" ++ ", ".intercalate pairs ++ "\x7d"

def Remark.message : Remark → String
  | .unknownJoint block joint =>
      "Skipping move on block " ++ block ++ ": unknown joint " ++ Value.shown joint
  | .invalidAngle block angle =>
      "Skipping move on block " ++ block ++ ": invalid angle " ++ Value.shown angle
  | .clamped joint angle value =>
      "Clamped " ++ joint ++ " angle " ++ angle.text ++ " -> " ++ (Number.double value).text

def Note.message : Note → String
  | .homing => "Homing robot before program execution"
  | .skipped definition id =>
      "Skipping unknown block type " ++ Text.quoted definition ++ " (" ++ id ++ ")"
  | .move remark => remark.message

namespace Entry

def level : Entry Time → Level
  | note .homing => .info
  | note _ => .debug
  | abortedAfter _ => .info
  | connectionLostAfter _ => .warning
  | limitReached .. => .warning
  | completed .. => .info
  | armCalled _ => .debug
  | armDisconnected => .info
  | imported _ => .info
  | starting .. => .info
  | stopping => .info
  | stoppedByUser => .info
  | lostDuringRun => .error
  | stoppedForSafety _ => .error
  | runFailed => .error
  | added .. => .debug
  | addedChild .. => .debug
  | childIgnored .. => .warning
  | removed .. => .debug
  | cleared => .info
  | overridden _ => .info

def source : Entry Time → String
  | note (.move _) => "control.joint_limits"
  | note _ => "execution.engine"
  | abortedAfter _ | connectionLostAfter _ | limitReached .. | completed .. => "execution.engine"
  | armCalled _ | armDisconnected => "hardware.mock"
  | imported _ | starting .. | stopping | stoppedByUser | lostDuringRun | stoppedForSafety _
  | runFailed => "execution.controller"
  | added .. | addedChild .. | childIgnored .. | removed .. => "program.models"
  | cleared => "api.routes.program"
  | overridden _ => "execution.config"

def message : Entry Float → String
  | note what => what.message
  | abortedAfter steps => "Run aborted by user after " ++ toString steps ++ " step(s)"
  | connectionLostAfter steps =>
      "Robot connection lost after " ++ toString steps ++ " step(s)"
  | limitReached fault steps elapsed =>
      "Safety limit triggered: " ++ fault.message ++ " (steps=" ++ toString steps ++
        ", elapsed=" ++ Decimal.fixed 1 elapsed ++ "s)"
  | completed steps elapsed =>
      "Program completed: " ++ toString steps ++ " step(s) in " ++ Decimal.fixed 1 elapsed ++ "s"
  | armCalled call => "MockArm " ++ call.name ++ " " ++ commandsShown call.commands
  | armDisconnected => "MockArm disconnected"
  | imported count =>
      "Program imported: " ++ toString count ++ " block(s), awaiting trust confirmation"
  | starting count simulate =>
      "Starting program: " ++ toString count ++ " block(s), simulate=" ++
        Value.shown (some (.flag simulate))
  | stopping => "Stopping active run"
  | stoppedByUser => "Execution was stopped by user"
  | lostDuringRun => "Connection lost during run"
  | stoppedForSafety fault => "Execution stopped by safety guard: " ++ fault.message
  | runFailed => "Error running program"
  | added id definition => "Added block " ++ id ++ " (" ++ definition ++ ")"
  | addedChild id definition parent slot =>
      "Added child " ++ id ++ " (" ++ definition ++ ") under " ++ parent ++ "/" ++
        (slot.map Slot.name).getD "None"
  | childIgnored parent parentDefinition definition =>
      "Block " ++ parent ++ " (" ++ parentDefinition ++ ") does not run children; " ++
        definition ++ " will be ignored"
  | removed count id => "Removed " ++ toString count ++ " block(s) rooted at " ++ id
  | cleared => "Program cleared"
  | overridden texts =>
      "Execution config overrides from environment: " ++ textsShown texts

end Entry

end ArmProgram
