import ArmProgram.Config.Environment
import ArmProgram.Controller.Schedule
import ArmProgram.Demo.Options
import ArmProgram.Demo.Place
import ArmProgram.Demo.Sample

/-!
The demonstration: one run of a program on an arm of its own, and a summary of
how it went. The program comes from the text of a file or is the sample, the
settings come from the environment.
-/

namespace ArmProgram.Demo

open Input (Form Issue Checked)

inductive Obstacle where
  | path (fault : PathFault) (path : String)
  | program (issues : List Issue)
  | settings (issues : List Issue)
  | refused (refusal : Refusal)
  | unfit (unfit : Unfit)
  | cancelled
  deriving Repr

structure Summary where
  text : String
  success : Bool
  deriving Repr

structure Performance where
  now : Float
  journal : Array (Entry Float)
  outcome : Except Obstacle Summary

def latency : Float := 0.05

def servosShown (arm : Arm Float) : String :=
  let pairs := arm.positions.map fun entry => toString entry.1 ++ ": " ++ entry.2.text
  "\x7b" ++ ", ".intercalate pairs ++ "\x7d"

def line (title text : String) : String :=
  let gap := List.replicate (9 - title.length) ' '
  "  " ++ title ++ ":" ++ String.ofList gap ++ text ++ "\n"

def summarize (result : Result Float) (arm : Arm Float) : Summary :=
  let calls := arm.calls.toList.map (·.call.name)
  let error := match result.errorMessage with
    | some message => line "Error" message
    | none => ""
  { success := result.success
    text := "\n" ++ line "Phase" result.phase.name ++ line "Steps" (toString result.steps)
      ++ line "Duration" (Decimal.fixed 0 result.durationMs ++ "ms") ++ error
      ++ line "Calls" (", ".intercalate calls) ++ line "Servos" (servosShown arm) ++ "\n" }

def programOfText (text : String) : Except Obstacle Draft :=
  let read := Program.ofText 1 text
  (read.1.map (⟨·, read.2⟩)).mapError .program

/-- The program to run and what the journal notes about it. Without a text
that was read from the file, what there is to read depends on its path. -/
def programOf (file : Option String) (text : Option String) :
    List (Entry Float) × Except Obstacle Draft :=
  match file, text with
  | none, _ => let made := sample; (made.1, .ok made.2)
  | some _, some text => ([], programOfText text)
  | some path, none =>
      match textAt path with
      | .ok text => ([], programOfText text)
      | .error fault => ([], .error (.path fault (pathShown path)))

def perform (config : Config) (draft : Draft) (entries : List (Entry Float)) : Performance :=
  let cell := Cell.idle (Arm.resting latency true none) [] draft.program
  let controller := Controller.idle (cell.logAll entries) config .arm draft.nextId
  let started := controller.serve (.start false false)
  let (played, awaited) := started.1.awaitRun
  let outcome := match started.2, awaited with
    | some (.refused refusal), _ => .error (.refused refusal)
    | some (.unfit unfit), _ => .error (.unfit unfit)
    | _, .finished (some result) => .ok (summarize result played.cell.arm)
    | _, _ => .error .cancelled
  ⟨played.cell.now, played.cell.journal, outcome⟩

def blocked (entries : List (Entry Float)) (obstacle : Obstacle) : Performance :=
  ⟨0, entries.toArray, .error obstacle⟩

def run (options : Options) (text : Option String) (environment : List (String × String)) :
    Performance :=
  let program := programOf options.file text
  match program.2 with
  | .error obstacle => blocked program.1 obstacle
  | .ok draft =>
      let settings : List (Entry Float) × Checked Config :=
        Config.ofEnvironment environment Config.variableStart
      let entries := program.1 ++ settings.1
      match settings.2 with
      | .error issues => blocked entries (.settings issues)
      | .ok config =>
          perform (if options.fast then config.withoutPacing else config) draft entries

end ArmProgram.Demo
