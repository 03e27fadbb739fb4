import ArmProgram.Arm.Joint
import ArmProgram.Run.TimeScale
import ArmProgram.Run.Fault

/-!
A simulated arm. It records every call with the time it began, keeps the
angle of each servo, and can be told to fail calls of one name. A call lasts
for the arm's latency and moves the servos at its end.
-/

namespace ArmProgram

inductive Call where
  | moveJoints (commands : List Command)
  | home
  | openGripper
  | closeGripper
  deriving Repr, Inhabited

namespace Call

def name : Call → String
  | moveJoints _ => "move_joints"
  | home => "home"
  | openGripper => "open_gripper"
  | closeGripper => "close_gripper"

def commands : Call → List Command
  | moveJoints commands => commands
  | _ => []

end Call

structure CallRecord (Time : Type) where
  time : Time
  call : Call
  deriving Repr

structure Arm (Time : Type) where
  latency : Time
  connected : Bool
  failOn : Option String
  positions : List (Int × Number)
  calls : Array (CallRecord Time)
  deriving Repr, Inhabited

def homeAngle : Number := .double 180

def gripperOpenAngle : Number := .double 270

def gripperClosedAngle : Number := .double 180

namespace Arm

variable {Time : Type} [TimeScale Time]

def resting (latency : Time) (connected : Bool) (failOn : Option String) : Arm Time :=
  { latency, connected, failOn
    positions := Joint.all.map fun joint => (joint.servo, homeAngle)
    calls := #[] }

def setServo (servo : Int) (angle : Number) (arm : Arm Time) : Arm Time :=
  { arm with positions := Keyed.put servo angle arm.positions }

def start (now : Time) (call : Call) (arm : Arm Time) : Except Failure (Arm Time) :=
  if arm.failOn = some call.name then .error (.armCall call.name)
  else .ok { arm with calls := arm.calls.push ⟨now, call⟩ }

def finish (call : Call) (arm : Arm Time) : Arm Time :=
  match call with
  | .moveJoints commands =>
      commands.foldl (fun arm command => arm.setServo command.servo command.value) arm
  | .home => { arm with positions := arm.positions.map fun entry => (entry.1, homeAngle) }
  | .openGripper => arm.setServo Joint.gripper.servo gripperOpenAngle
  | .closeGripper => arm.setServo Joint.gripper.servo gripperClosedAngle

/-- When a call that begins now ends; none if it takes no time. -/
def callEnd? (now : Time) (arm : Arm Time) : Option Time :=
  if TimeScale.before TimeScale.zero arm.latency then some (TimeScale.add now arm.latency)
  else none

def perform (now : Time) (call : Call) (arm : Arm Time) : Except Failure (Arm Time × Time) :=
  match arm.start now call with
  | .error failure => .error failure
  | .ok started => .ok (started.finish call, (arm.callEnd? now).getD now)

def disconnect (arm : Arm Time) : Arm Time :=
  { arm with connected := false }

def connect (arm : Arm Time) : Arm Time :=
  { arm with connected := true }

def moves (arm : Arm Time) : List Command :=
  arm.calls.toList.flatMap (·.call.commands)

end Arm

end ArmProgram
