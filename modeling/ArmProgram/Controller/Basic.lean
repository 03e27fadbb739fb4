import ArmProgram.Controller.Result
import ArmProgram.Arm.Robot

/-!
The controller owns the program, the robot and at most one unfinished run.
Starting and stopping are serialized: a caller holds the controller until the
run before has unwound, and the others wait in order of arrival. Each step
below happens at once; between the steps callers and the run may wait.
-/

namespace ArmProgram

variable {Time : Type} [TimeScale Time]

inductive Wish where
  | start (simulate confirm : Bool)
  | stop
  deriving Repr, DecidableEq

structure Caller where
  id : Nat
  wish : Wish
  deriving Repr, DecidableEq

inductive Answer where
  | refused (refusal : Refusal)
  | unfit (unfit : Unfit)
  | started
  | stopped
  deriving Repr, DecidableEq

/-- Whose token an abort reaches. A token may have been made for a run that
could then not be built. -/
inductive AbortTarget where
  | nobody
  | run
  | unused
  deriving Repr, DecidableEq

structure Controller (Time : Type) where
  cell : Cell Time
  config : Config
  robot : Robot
  target : AbortTarget
  lastResult : Option (Result Time)
  /-- The program came from outside and was not started since. -/
  needsTrust : Bool
  holder : Option Caller
  queue : List Caller
  /-- Answers to callers, latest first. -/
  answers : List (Nat × Answer)
  /-- The number of the next new block id. -/
  nextId : Nat

namespace Controller

def idle (cell : Cell Time) (config : Config) (robot : Robot) (nextId : Nat) : Controller Time :=
  { cell, config, robot, nextId
    target := .nobody, lastResult := none, needsTrust := false
    holder := none, queue := [], answers := [] }

def log (entry : Entry Time) (controller : Controller Time) : Controller Time :=
  { controller with cell := controller.cell.log entry }

def isRunning (controller : Controller Time) : Bool :=
  controller.cell.isRunning

def phase (controller : Controller Time) : Phase :=
  match controller.cell.run with
  | some run => run.phase
  | none => .idle

/-- Replaces the program by blocks from outside. The next start has to
confirm them. -/
def importBlocks (blocks : List Block) (controller : Controller Time) : Controller Time :=
  let cell := { controller.cell with program := ⟨blocks⟩, shared := 0 }
  { controller with cell, needsTrust := true }.log (.imported blocks.length)

def refusal? (simulate confirm : Bool) (controller : Controller Time) : Option Refusal :=
  if controller.cell.program.blocks.isEmpty then some .noBlocks
  else if controller.robot = .absent then some .noRobot
  else if !simulate && !controller.robot.reports controller.cell.arm.connected then
    some .notConnected
  else if controller.needsTrust && !confirm then some .importUnconfirmed
  else none

/-- Builds a run of the program as it is now. The confirmation is used up and
a token is made before the robot is looked at. -/
def launch (simulate : Bool) (controller : Controller Time) : Controller Time × Answer :=
  let cleared := { controller with needsTrust := false, target := .unused }
  match controller.robot.abilities simulate with
  | .error unfit => (cleared, .unfit unfit)
  | .ok abilities =>
      let config := controller.config
      let token := Token.fresh config.maxSteps (TimeScale.ofSeconds config.maxDuration)
      let program := controller.cell.program
      let run := Run.prepare program.blocks abilities config token
      let cell := controller.cell.install run
      ({ cleared with cell, target := .run }.log (.starting program.size simulate), .started)

def answer (caller : Caller) (answer : Answer) (controller : Controller Time) :
    Controller Time :=
  { controller with answers := (caller.id, answer) :: controller.answers }

def release (caller : Caller) (controller : Controller Time) : Controller Time :=
  let freed := { controller with target := .nobody }
  match caller.wish with
  | .stop => freed.answer caller .stopped
  | .start simulate _ =>
      let launched := freed.launch simulate
      launched.1.answer caller launched.2

def abortTarget (controller : Controller Time) : Controller Time :=
  if controller.target = .run then
    { controller with cell := controller.cell.apply .abort }
  else controller

def stopActive (caller : Caller) (controller : Controller Time) : Controller Time :=
  let aborted := controller.abortTarget
  if aborted.isRunning then { aborted with holder := some caller }.log .stopping
  else aborted.release caller

def enter (caller : Caller) (controller : Controller Time) : Controller Time :=
  match caller.wish with
  | .stop => controller.stopActive caller
  | .start simulate confirm =>
      match controller.refusal? simulate confirm with
      | some refusal => controller.answer caller (.refused refusal)
      | none => controller.stopActive caller

def arrive (caller : Caller) (controller : Controller Time) : Controller Time :=
  if controller.holder.isNone && controller.queue.isEmpty then controller.enter caller
  else { controller with queue := controller.queue ++ [caller] }

def resumeHolder (controller : Controller Time) : Controller Time :=
  match controller.holder with
  | none => controller
  | some caller => { controller with holder := none }.release caller

def admitNext (controller : Controller Time) : Controller Time :=
  match controller.queue with
  | [] => controller
  | caller :: rest => { controller with queue := rest }.enter caller

def conclude (controller : Controller Time) : Controller Time :=
  match controller.cell.run with
  | none => controller
  | some run =>
      match run.ending? with
      | none | some .dropped => controller
      | some ending =>
          let noted := match ending with
            | .fault fault => controller.log fault.report
            | _ => controller
          let result := Result.ofEnding controller.cell.now run.token ending
          { noted with
            target := .nobody
            lastResult := result.or controller.lastResult }

def stepRun (controller : Controller Time) : Controller Time :=
  let stepped := { controller with cell := controller.cell.stepRun }
  if controller.isRunning && !stepped.isRunning then stepped.conclude else stepped

def cancelRun? (controller : Controller Time) : Option (Controller Time) :=
  controller.cell.run.map fun run =>
    if run.isEnded then controller
    else { controller with cell := { controller.cell with run := some run.cancel } }.conclude

def wasCancelled (controller : Controller Time) : Bool :=
  controller.cell.run.any fun run =>
    match run.ending? with
    | some .cancelled | some .dropped => true
    | _ => false

theorem conclude_run (controller : Controller Time) :
    controller.conclude.cell.run = controller.cell.run := by
  unfold conclude
  cases here : controller.cell.run with
  | none => simp [here]
  | some run =>
      simp only
      cases ended : run.ending? with
      | none => simp [here]
      | some ending => cases ending <;> simp [here, log, Cell.log]

theorem stepRun_run (controller : Controller Time) :
    controller.stepRun.cell.run = controller.cell.stepRun.run := by
  unfold stepRun
  simp only
  split
  · rw [conclude_run]
  · rfl

theorem stepRun_lighter (controller : Controller Time) (active : controller.isRunning = true) :
    Cell.Lighter controller.stepRun.cell controller.cell := by
  have less := Cell.stepRun_lighter controller.cell active
  unfold Cell.Lighter Cell.allowance Cell.weight at *
  rw [stepRun_run]
  exact less

end Controller

end ArmProgram
