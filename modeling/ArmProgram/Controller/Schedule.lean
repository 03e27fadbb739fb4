import ArmProgram.Controller.Basic

/-!
Playing a controller: the run goes on as long as it can, then the clock moves
to when it is due next. A waiting caller goes on when the run before has
unwound; a new run gets its first turn before the next caller.
-/

namespace ArmProgram.Controller

variable {Time : Type} [TimeScale Time]

def atTime (now : Time) (controller : Controller Time) : Controller Time :=
  { controller with cell := { controller.cell with now } }

def turn (controller : Controller Time) : Controller Time :=
  if _active : controller.isRunning = true then
    if controller.cell.isReady then
      let stepped := controller.stepRun
      if stepped.cell.isAtRest then stepped else turn stepped
    else controller
  else controller
termination_by (controller.cell.allowance, controller.cell.weight)
decreasing_by exact stepRun_lighter controller _active

def within (limit : Option Time) (time : Time) : Bool :=
  match limit with
  | none => true
  | some limit => !TimeScale.before limit time

def play (limit : Option Time) (controller : Controller Time) : Controller Time :=
  if _active : controller.isRunning = true then
    if controller.cell.isReady then play limit controller.stepRun
    else
      match controller.cell.due? with
      | none => controller
      | some due =>
          if within limit due then play limit (controller.atTime due).stepRun
          else controller
  else controller
termination_by (controller.cell.allowance, controller.cell.weight)
decreasing_by
  · exact stepRun_lighter controller _active
  · exact stepRun_lighter (controller.atTime due) _active

def playOut (controller : Controller Time) : Controller Time :=
  controller.play none

/-- Lets time pass for a number of milliseconds. Without any, the run only
gets a turn, and it gets two if they are lost on the clock. -/
def sleep (ms : Number) (controller : Controller Time) : Controller Time :=
  let length := TimeScale.ofMillis ms
  let limit := TimeScale.add controller.cell.now length
  if TimeScale.before controller.cell.now limit then
    (controller.play (some limit)).atTime limit
  else if TimeScale.before TimeScale.zero length then controller.turn.turn
  else controller.turn

def settleHolder (controller : Controller Time) : Controller Time :=
  if controller.holder.isSome then controller.playOut.resumeHolder else controller

def settle : Nat → Controller Time → Controller Time
  | 0, controller => controller.settleHolder
  | waiting + 1, controller => settle waiting controller.settleHolder.turn.admitNext

def takeAnswers (count : Nat) (controller : Controller Time) :
    Controller Time × List Answer :=
  ({ controller with answers := [] },
    (List.range count).filterMap (controller.answers.lookup ·))

def serve (wish : Wish) (controller : Controller Time) : Controller Time × Option Answer :=
  let arrived := controller.arrive ⟨0, wish⟩
  let served := (arrived.settle arrived.queue.length).takeAnswers 1
  (served.1, served.2.head?)

/-- Several callers at once. The run in progress gets its turn before they
arrive, and the last new run gets its first turns before all are back. If
nobody comes no time is given to anybody. -/
def serveAll (wishes : List Wish) (controller : Controller Time) :
    Controller Time × List Answer :=
  if wishes.isEmpty then (controller, [])
  else
    let arrived := wishes.zipIdx.foldl
      (fun controller entry => controller.arrive ⟨entry.2, entry.1⟩) controller.turn
    let served := arrived.settle arrived.queue.length
    served.turn.turn.takeAnswers wishes.length

inductive Awaited (Time : Type) where
  | cancelled
  | finished (result : Option (Result Time))

def awaitRun (controller : Controller Time) : Controller Time × Awaited Time :=
  if controller.cell.run.isNone then (controller, .finished controller.lastResult)
  else
    let played := controller.playOut
    (played, if played.wasCancelled then .cancelled else .finished played.lastResult)

end ArmProgram.Controller
