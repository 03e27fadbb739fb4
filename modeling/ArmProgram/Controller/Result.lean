import ArmProgram.Run.Cell

/-!
What the controller keeps of a run that has ended by itself: whether it was a
success, how long it took, and what to tell the user. A cancelled run leaves
no result.
-/

namespace ArmProgram

variable {Time : Type} [TimeScale Time]

inductive ErrorKind where
  | aborted
  | connectionLost
  | limit
  | error
  deriving DecidableEq, Repr

def ErrorKind.name : ErrorKind → String
  | aborted => "aborted"
  | connectionLost => "connection_lost"
  | limit => "limit"
  | error => "error"

structure Result (Time : Type) where
  success : Bool
  phase : Phase
  duration : Time
  steps : Nat
  errorKind : Option ErrorKind
  errorMessage : Option String
  deriving Repr

def Fault.explain : Fault Time → ErrorKind × Option String
  | aborted => (.aborted, none)
  | connectionLost => (.connectionLost, some "Robot connection lost during execution.")
  | stepLimit .. | timeLimit .. =>
      (.limit, some "Execution stopped for safety. Reduce loop counts or program size.")
  | failed failure => (.error, some ("Error running program: " ++ failure.message))

def Fault.report : Fault Time → Entry Time
  | aborted => .stoppedByUser
  | connectionLost => .lostDuringRun
  | stepLimit budget steps elapsed => .stoppedForSafety (.stepLimit budget steps elapsed)
  | timeLimit budget steps elapsed => .stoppedForSafety (.timeLimit budget steps elapsed)
  | failed _ => .runFailed

def Result.ofEnding (now : Time) (token : Token Time) : Ending Time → Option (Result Time)
  | .completed => some ⟨true, .completed, token.elapsed now, token.steps, none, none⟩
  | .fault fault =>
      some ⟨false, (Ending.fault fault).phase, token.elapsed now, token.steps,
        some fault.explain.1, fault.explain.2⟩
  | .cancelled | .dropped => none

def Result.durationMs (result : Result Float) : Float :=
  result.duration * 1000

end ArmProgram
