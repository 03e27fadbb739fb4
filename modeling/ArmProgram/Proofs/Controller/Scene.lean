import ArmProgram.Controller.Basic

/-!
A controller among any number of callers. Every run that was ever started is
kept with its number, so that two of them could be unfinished at once. Callers
start, run, stop, wait and import in any order, are cancelled wherever they
wait, and the runs take their steps in between. Each move happens at once; the
moves that a scene allows are all orders in which the waiting can end.
-/

namespace ArmProgram

variable {Time : Type} [TimeScale Time]

inductive Errand where
  | start (simulate confirm : Bool)
  | run (simulate confirm : Bool)
  | stop
  | wait
  | importBlocks (blocks : List Block)

/-- A caller that waits for the end of a run. When it is cancelled it passes
that on to the run or, behind a shield, it does not. -/
structure Waiter where
  number : Nat
  passesOn : Bool

structure Scene (Time : Type) where
  controller : Controller Time
  /-- The runs before the latest, from the first. -/
  past : List (Run Time)
  /-- The run that the holder of the controller waits for. -/
  awaited : Option Nat
  callers : Nat
  /-- The callers that wait for the run they start. -/
  stayers : List Nat
  waiters : List Waiter
  /-- Runs that are to be cancelled. They unwind some time later. -/
  doomed : List Nat

inductive Move (Time : Type) where
  | call (errand : Errand)
  -- The lock: the first of the queue takes hold, and a holder goes on.
  | letIn
  | resume
  -- Cancellations of callers where they wait.
  | abandonHold
  | abandonQueue (place : Nat)
  | abandonWait (place : Nat)
  | finishWait (place : Nat)
  -- The runs: one is to be cancelled, unwinds, or takes a step.
  | doom (number : Nat)
  | unwind (number : Nat)
  | step (number : Nat)
  -- The world around the controller.
  | effect (effect : Effect)
  | equip (robot : Robot) (config : Config)
  | arm (latency : Time) (failOn : Option String) (hooks : List Hook)
  | pass (later : Time)

namespace Controller

def newAnswer? (before after : Controller Time) : Option (Nat × Answer) :=
  if before.answers.length < after.answers.length then after.answers.head? else none

def starter? (before after : Controller Time) : Option Nat :=
  match before.newAnswer? after with
  | some (id, .started) => some id
  | _ => none

end Controller

namespace Scene

def tasks (scene : Scene Time) : List (Run Time) :=
  scene.past ++ scene.controller.cell.run.toList

section Tasks

omit [TimeScale Time]

variable (scene : Scene Time) {number : Nat} {run : Run Time}

theorem tasks_last : scene.tasks[scene.past.length]? = scene.controller.cell.run := by
  rw [tasks, List.getElem?_append_right (Nat.le_refl _), Nat.sub_self]
  cases scene.controller.cell.run <;> rfl

theorem tasks_past (there : scene.past[number]? = some run) : scene.tasks[number]? = some run := by
  obtain ⟨old, -⟩ := List.getElem?_eq_some_iff.mp there
  rwa [tasks, List.getElem?_append_left old]

theorem tasks_cases (there : scene.tasks[number]? = some run) :
    scene.past[number]? = some run ∨
      number = scene.past.length ∧ scene.controller.cell.run = some run := by
  by_cases old : number < scene.past.length
  · rw [tasks, List.getElem?_append_left old] at there
    exact Or.inl there
  · right
    have last : number = scene.past.length := by
      have bound := (List.getElem?_eq_some_iff.mp there).1
      have one : scene.controller.cell.run.toList.length ≤ 1 := by
        cases scene.controller.cell.run <;> simp
      rw [tasks, List.length_append] at bound
      omega
    subst last
    exact ⟨rfl, scene.tasks_last.symm.trans there⟩

end Tasks

def hasEnded (number : Nat) (scene : Scene Time) : Bool :=
  scene.tasks[number]?.any (·.isEnded)

def isUnfinished (number : Nat) (scene : Scene Time) : Bool :=
  scene.tasks[number]?.any fun run => !run.isEnded

def opening (arm : Arm Time) (hooks : List Hook) (program : Program) (config : Config)
    (robot : Robot) (nextId : Nat) : Scene Time :=
  { controller := .idle (.idle arm hooks program) config robot nextId
    past := [], awaited := none, callers := 0, stayers := [], waiters := [], doomed := [] }

def pastAfter (after : Controller Time) (scene : Scene Time) : List (Run Time) :=
  if (scene.controller.starter? after).isSome then
    scene.past ++ scene.controller.cell.run.toList
  else scene.past

def awaitedAfter (after : Controller Time) (scene : Scene Time) : Option Nat :=
  if after.holder.isNone then none
  else if scene.controller.holder.isSome then scene.awaited
  else some scene.past.length

def waitersAfter (after : Controller Time) (scene : Scene Time) : List Waiter :=
  match scene.controller.starter? after with
  | some id =>
      if scene.stayers.contains id then ⟨(scene.pastAfter after).length, true⟩ :: scene.waiters
      else scene.waiters
  | none => scene.waiters

def follow (after : Controller Time) (scene : Scene Time) : Scene Time :=
  { scene with
    controller := after
    past := scene.pastAfter after
    awaited := scene.awaitedAfter after
    waiters := scene.waitersAfter after }

def receive (wish : Wish) (stays : Bool) (scene : Scene Time) : Scene Time :=
  let stayers := if stays then scene.callers :: scene.stayers else scene.stayers
  { scene with callers := scene.callers + 1, stayers }.follow
    (scene.controller.arrive ⟨scene.callers, wish⟩)

def meet (scene : Scene Time) : Errand → Scene Time
  | .start simulate confirm => scene.receive (.start simulate confirm) false
  | .run simulate confirm => scene.receive (.start simulate confirm) true
  | .stop => scene.receive .stop false
  | .wait =>
      if scene.controller.cell.run.isSome then
        { scene with waiters := ⟨scene.past.length, false⟩ :: scene.waiters }
      else scene
  | .importBlocks blocks => { scene with controller := scene.controller.importBlocks blocks }

def letGo (scene : Scene Time) : Scene Time :=
  { scene with controller := { scene.controller with holder := none }, awaited := none }

/-- Lets the task of a run go on. A run of the past leaves the token and the
place of the latest run alone. -/
def onTask (number : Nat) (goOn : Controller Time → Controller Time) (scene : Scene Time) :
    Scene Time :=
  if number = scene.past.length then { scene with controller := goOn scene.controller }
  else
    match scene.past[number]? with
    | none => scene
    | some run =>
        let latest := scene.controller
        let after := goOn { latest with cell := { latest.cell with run := some run } }
        { scene with
          controller :=
            { after with
              cell := { after.cell with run := latest.cell.run }, target := latest.target }
          past := scene.past.set number (after.cell.run.getD run) }

def cancelled (controller : Controller Time) : Controller Time :=
  controller.cancelRun?.getD controller

def abandon (place : Nat) (scene : Scene Time) : Scene Time :=
  let waiters := scene.waiters.eraseIdx place
  match scene.waiters[place]? with
  | some ⟨number, true⟩ => { scene with waiters, doomed := number :: scene.doomed }
  | _ => { scene with waiters }

def allows (scene : Scene Time) : Move Time → Bool
  | .letIn => scene.controller.holder.isNone
  | .resume => scene.controller.holder.isSome && scene.awaited.any (scene.hasEnded ·)
  | .abandonHold => scene.controller.holder.isSome
  | .finishWait place => scene.waiters[place]?.any fun waiter => scene.hasEnded waiter.number
  | .unwind number => scene.doomed.contains number && scene.isUnfinished number
  | .step number =>
      scene.isUnfinished number && scene.tasks[number]?.any (·.isReady scene.controller.cell.now)
  | .pass later => TimeScale.before scene.controller.cell.now later
  | _ => true

def next (scene : Scene Time) : Move Time → Scene Time
  | .call errand => scene.meet errand
  | .letIn => scene.follow scene.controller.admitNext
  | .resume => scene.letGo.follow scene.controller.resumeHolder
  | .abandonHold => scene.letGo
  | .abandonQueue place =>
      let controller := scene.controller
      { scene with controller := { controller with queue := controller.queue.eraseIdx place } }
  | .abandonWait place => scene.abandon place
  | .finishWait place => { scene with waiters := scene.waiters.eraseIdx place }
  | .doom number => { scene with doomed := number :: scene.doomed }
  | .unwind number => scene.onTask number cancelled
  | .step number => scene.onTask number (·.stepRun)
  | .effect effect =>
      let controller := scene.controller
      { scene with controller := { controller with cell := controller.cell.apply effect } }
  | .equip robot config => { scene with controller := { scene.controller with robot, config } }
  | .arm latency failOn hooks =>
      let controller := scene.controller
      let cell := controller.cell
      { scene with
        controller :=
          { controller with
            cell := { cell with arm := { cell.arm with latency, failOn }, hooks } } }
  | .pass later =>
      let controller := scene.controller
      { scene with controller := { controller with cell := { controller.cell with now := later } } }

def callOf? (number : Nat) (scene : Scene Time) : Option Call :=
  let cell := scene.controller.cell
  scene.tasks[number]?.bind fun run => (run.step cell.now cell.arm.connected).call

end Scene

inductive Play : Scene Time → Scene Time → Type where
  | here (scene : Scene Time) : Play scene scene
  | next {before last : Scene Time} (move : Move Time) (allowed : before.allows move = true)
      (rest : Play (before.next move) last) : Play before last

end ArmProgram
