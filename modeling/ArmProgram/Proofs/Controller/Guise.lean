import ArmProgram.Proofs.Controller.Serving
import ArmProgram.Proofs.Run.Guise
import Mathlib.Data.List.InsertIdx

/-!
Controllers and scenes in another guise. A start may ask for simulation there
where it does not here. Serving a caller, letting a run go on and waiting for it
come to the same in both; only where a start is looked at or launched, and where
the world around changes, a guise has to say that nothing of it shows.
-/

namespace ArmProgram

variable {Time : Type}

structure Controller.SameFront (after before : Controller Time) : Prop where
  config : after.config = before.config
  robot : after.robot = before.robot
  needsTrust : after.needsTrust = before.needsTrust
  nextId : after.nextId = before.nextId

/-- A guise of controllers says besides what starts ask for in it, for which starts
it is, which hooks it has, and what stands before a launch in both. -/
structure ControllerGuise (Time : Type) [TimeScale Time] extends Guise Time where
  flag : Bool → Bool
  suits : Bool → Prop
  hooks : List Hook → List Hook
  front : Controller Time → Controller Time → Prop
  front_congr : ∀ {left left' right right'}, front left right →
    Controller.SameFront left' left → Controller.SameFront right' right → front left' right'

namespace ControllerGuise

variable [TimeScale Time] (guise : ControllerGuise Time)

def wish : Wish → Wish
  | .start simulate confirm => .start (guise.flag simulate) confirm
  | .stop => .stop

def caller (caller : Caller) : Caller :=
  { caller with wish := guise.wish caller.wish }

def Suits : Wish → Prop
  | .start simulate _ => guise.suits simulate
  | .stop => True

structure Controllers (left right : Controller Time) : Prop where
  cell : guise.Cells left.cell right.cell
  target : right.target = left.target
  lastResult : right.lastResult = left.lastResult
  answers : right.answers = left.answers
  holder : right.holder = left.holder.map guise.caller
  queue : right.queue = left.queue.map guise.caller
  suits : ∀ caller, left.holder = some caller ∨ caller ∈ left.queue → guise.Suits caller.wish
  front : guise.front left right

namespace Controllers

variable {guise : ControllerGuise Time} {left right : Controller Time}

theorem withCell (alike : guise.Controllers left right) {left' right' : Cell Time}
    (cell : guise.Cells left' right') :
    guise.Controllers { left with cell := left' } { right with cell := right' } :=
  { alike with cell, front := guise.front_congr alike.front ⟨rfl, rfl, rfl, rfl⟩ ⟨rfl, rfl, rfl, rfl⟩ }

theorem withTarget (alike : guise.Controllers left right) (target : AbortTarget) :
    guise.Controllers { left with target } { right with target } :=
  { alike with
    target := rfl
    front := guise.front_congr alike.front ⟨rfl, rfl, rfl, rfl⟩ ⟨rfl, rfl, rfl, rfl⟩ }

theorem withResult (alike : guise.Controllers left right) (target : AbortTarget)
    (lastResult : Option (Result Time)) :
    guise.Controllers { left with target, lastResult } { right with target, lastResult } :=
  { alike with
    target := rfl
    lastResult := rfl
    front := guise.front_congr alike.front ⟨rfl, rfl, rfl, rfl⟩ ⟨rfl, rfl, rfl, rfl⟩ }

theorem free (alike : guise.Controllers left right) :
    guise.Controllers { left with holder := none } { right with holder := none } :=
  { alike with
    holder := rfl
    suits := fun caller there => alike.suits caller (Or.inr (there.resolve_left nofun))
    front := guise.front_congr alike.front ⟨rfl, rfl, rfl, rfl⟩ ⟨rfl, rfl, rfl, rfl⟩ }

theorem hold (alike : guise.Controllers left right) {caller : Caller}
    (suits : guise.Suits caller.wish) :
    guise.Controllers { left with holder := some caller }
      { right with holder := some (guise.caller caller) } :=
  { alike with
    holder := rfl
    suits := fun other there => by
      rcases there with held | waits
      · exact Option.some.inj held ▸ suits
      · exact alike.suits other (Or.inr waits)
    front := guise.front_congr alike.front ⟨rfl, rfl, rfl, rfl⟩ ⟨rfl, rfl, rfl, rfl⟩ }

theorem withQueue (alike : guise.Controllers left right) (queue : List Caller)
    (suits : ∀ caller ∈ queue, guise.Suits caller.wish) :
    guise.Controllers { left with queue } { right with queue := queue.map guise.caller } :=
  { alike with
    queue := rfl
    suits := fun caller there => by
      rcases there with held | waits
      · exact alike.suits caller (Or.inl held)
      · exact suits caller waits
    front := guise.front_congr alike.front ⟨rfl, rfl, rfl, rfl⟩ ⟨rfl, rfl, rfl, rfl⟩ }

theorem log (alike : guise.Controllers left right) (entry other : Entry Time) :
    guise.Controllers (left.log entry) (right.log other) :=
  alike.withCell (alike.cell.log entry other)

theorem answer (alike : guise.Controllers left right) (caller : Caller) (answer : Answer) :
    guise.Controllers (left.answer caller answer) (right.answer (guise.caller caller) answer) :=
  { alike with
    answers := congrArg (List.cons (caller.id, answer)) alike.answers
    front := guise.front_congr alike.front ⟨rfl, rfl, rfl, rfl⟩ ⟨rfl, rfl, rfl, rfl⟩ }

theorem isRunning (alike : guise.Controllers left right) : right.isRunning = left.isRunning := by
  unfold Controller.isRunning Cell.isRunning
  rw [alike.cell.run, Option.any_map]
  rfl

theorem isOpen (alike : guise.Controllers left right) :
    (right.holder.isNone && right.queue.isEmpty) =
      (left.holder.isNone && left.queue.isEmpty) := by
  rw [alike.holder, alike.queue, Option.isNone_map, List.isEmpty_map]

/-! The run goes on. -/

theorem conclude (alike : guise.Controllers left right) :
    guise.Controllers left.conclude right.conclude := by
  unfold Controller.conclude
  rw [alike.cell.run]
  cases here : left.cell.run with
  | none => exact alike
  | some run =>
      have ending : (guise.run run).ending? = run.ending? := rfl
      have token : (guise.run run).token = run.token := rfl
      simp only [Option.map_some, ending, token, alike.cell.now, alike.lastResult]
      cases run.ending? with
      | none => exact alike
      | some ending =>
          cases ending with
          | dropped => exact alike
          | completed | cancelled => exact alike.withResult _ _
          | fault fault => exact (alike.log fault.report fault.report).withResult _ _

theorem stepRun (alike : guise.Controllers left right)
    (fires : Guise.Cells.Fires guise.toGuise left.cell right.cell) :
    guise.Controllers left.stepRun right.stepRun := by
  have stepped := alike.withCell (alike.cell.stepRun fires)
  unfold Controller.stepRun
  simp only
  rw [alike.isRunning, stepped.isRunning]
  split
  · exact stepped.conclude
  · exact stepped

theorem cancelled (alike : guise.Controllers left right) :
    guise.Controllers (Scene.cancelled left) (Scene.cancelled right) := by
  unfold Scene.cancelled Controller.cancelRun?
  rw [alike.cell.run]
  cases here : left.cell.run with
  | none => exact alike
  | some run =>
      have ended : (guise.run run).isEnded = run.isEnded := rfl
      have cancelled : (guise.run run).cancel = guise.run run.cancel := by
        have activity : (guise.run run).activity = run.activity := rfl
        unfold Run.cancel
        rw [activity]
        cases run.activity <;> rfl
      have fits : guise.fits run.cancel := by
        have mine := alike.cell.fits run here
        unfold Run.cancel
        split
        · exact guise.fits_put mine nofun
        · exact mine
        · exact guise.fits_put mine nofun
      simp only [Option.map_some, Option.getD_some, ended, cancelled]
      split
      · exact alike
      · exact (alike.withCell (alike.cell.putRun fits)).conclude

/-! Callers are served. -/

theorem abortTarget (alike : guise.Controllers left right) :
    guise.Controllers left.abortTarget right.abortTarget := by
  unfold Controller.abortTarget
  by_cases hits : left.target = .run
  · rw [if_pos hits, if_pos (alike.target.trans hits)]
    exact alike.withCell alike.cell.abort
  · rw [if_neg hits, if_neg fun other => hits (alike.target.symm.trans other)]
    exact alike

end Controllers

def Launches (simulate : Bool) : Prop :=
  ∀ left right : Controller Time, guise.Controllers left right →
    guise.Controllers (left.launch simulate).1 (right.launch (guise.flag simulate)).1 ∧
      (right.launch (guise.flag simulate)).2 = (left.launch simulate).2

def Greets (left right : Controller Time) : Wish → Prop
  | .stop => True
  | .start simulate confirm =>
      right.refusal? (guise.flag simulate) confirm = left.refusal? simulate confirm ∧
        (left.isRunning = true ∨ guise.Launches simulate)

namespace Controllers

variable {guise : ControllerGuise Time} {left right : Controller Time}

theorem release (alike : guise.Controllers left right) {caller : Caller}
    (launches : ∀ simulate confirm, caller.wish = .start simulate confirm →
      guise.Launches simulate) :
    guise.Controllers (left.release caller) (right.release (guise.caller caller)) := by
  have freed := alike.withTarget .nobody
  unfold Controller.release
  cases wish : caller.wish with
  | stop =>
      simp only [ControllerGuise.caller, ControllerGuise.wish, wish]
      exact freed.answer caller .stopped
  | start simulate confirm =>
      obtain ⟨launched, same⟩ := launches simulate confirm wish _ _ freed
      simp only [ControllerGuise.caller, ControllerGuise.wish, wish, same]
      exact launched.answer caller _

theorem stopActive (alike : guise.Controllers left right) {caller : Caller}
    (suits : guise.Suits caller.wish)
    (launches : left.isRunning = true ∨ ∀ simulate confirm,
      caller.wish = .start simulate confirm → guise.Launches simulate) :
    guise.Controllers (left.stopActive caller) (right.stopActive (guise.caller caller)) := by
  have aborted := alike.abortTarget
  unfold Controller.stopActive
  simp only
  rw [aborted.isRunning]
  cases running : left.abortTarget.isRunning with
  | true => exact (aborted.hold suits).log .stopping .stopping
  | false =>
      refine aborted.release (launches.resolve_left fun active => ?_)
      rw [← (Controller.abort_keeps left).isRunning, running] at active
      cases active

theorem enter (alike : guise.Controllers left right) {caller : Caller}
    (suits : guise.Suits caller.wish) (greets : guise.Greets left right caller.wish) :
    guise.Controllers (left.enter caller) (right.enter (guise.caller caller)) := by
  cases wish : caller.wish with
  | stop =>
      have stopped := alike.stopActive suits (Or.inr fun _ _ start => nomatch wish.symm.trans start)
      simp only [Controller.enter, ControllerGuise.caller, ControllerGuise.wish, wish]
        at stopped ⊢
      exact stopped
  | start simulate confirm =>
      rw [wish] at greets
      obtain ⟨same, launches⟩ := greets
      simp only [Controller.enter, ControllerGuise.caller, ControllerGuise.wish, wish, same]
      cases left.refusal? simulate confirm with
      | some refusal => exact alike.answer caller (.refused refusal)
      | none =>
          have stopped := alike.stopActive suits (launches.imp_right fun launches _ _ start => by
            cases wish.symm.trans start
            exact launches)
          simp only [ControllerGuise.caller, ControllerGuise.wish, wish] at stopped
          exact stopped

theorem arrive (alike : guise.Controllers left right) {caller : Caller}
    (suits : guise.Suits caller.wish)
    (greets : left.holder = none → left.queue = [] → guise.Greets left right caller.wish) :
    guise.Controllers (left.arrive caller) (right.arrive (guise.caller caller)) := by
  unfold Controller.arrive
  rw [alike.isOpen]
  split
  · rename_i free
    rw [Bool.and_eq_true, Option.isNone_iff_eq_none, List.isEmpty_iff] at free
    exact alike.enter suits (greets free.1 free.2)
  · rw [alike.queue, show [guise.caller caller] = [caller].map guise.caller from rfl,
      ← List.map_append]
    refine alike.withQueue (left.queue ++ [caller]) fun other there => ?_
    rcases List.mem_append.mp there with waits | last
    · exact alike.suits other (Or.inr waits)
    · exact List.mem_singleton.mp last ▸ suits

theorem admitNext (alike : guise.Controllers left right)
    (greets : ∀ caller, left.queue.head? = some caller → guise.Greets left right caller.wish) :
    guise.Controllers left.admitNext right.admitNext := by
  unfold Controller.admitNext
  rw [alike.queue]
  cases here : left.queue with
  | nil => exact alike
  | cons caller rest =>
      have first := greets caller (by rw [here]; rfl)
      have waits (other : Caller) (there : other ∈ caller :: rest) : guise.Suits other.wish :=
        alike.suits other (Or.inr (here ▸ there))
      have shorter := alike.withQueue rest fun other there => waits other (.tail _ there)
      refine shorter.enter (waits caller (.head _)) ?_
      cases wish : caller.wish with
      | stop => trivial
      | start simulate confirm => rw [wish] at first; exact first

theorem resumeHolder (alike : guise.Controllers left right)
    (launches : ∀ caller, left.holder = some caller → ∀ simulate confirm,
      caller.wish = .start simulate confirm → guise.Launches simulate) :
    guise.Controllers left.resumeHolder right.resumeHolder := by
  unfold Controller.resumeHolder
  rw [alike.holder]
  cases held : left.holder with
  | none => exact alike
  | some caller => exact alike.free.release (launches caller held)

end Controllers

/-! Scenes. -/

structure Scenes (guise : ControllerGuise Time) (left right : Scene Time) : Prop where
  controller : guise.Controllers left.controller right.controller
  past : right.past = left.past.map guise.run
  fits : ∀ run ∈ left.past, guise.fits run
  awaited : right.awaited = left.awaited
  callers : right.callers = left.callers
  stayers : right.stayers = left.stayers
  waiters : right.waiters = left.waiters
  doomed : right.doomed = left.doomed

namespace Scenes

variable {guise : ControllerGuise Time} {left right : Scene Time} {left' right' : Controller Time}

theorem withController (scenes : guise.Scenes left right)
    (alike : guise.Controllers left' right') :
    guise.Scenes { left with controller := left' } { right with controller := right' } :=
  { scenes with controller := alike }

theorem length (scenes : guise.Scenes left right) : right.past.length = left.past.length := by
  rw [scenes.past, List.length_map]

theorem tasks (scenes : guise.Scenes left right) : right.tasks = left.tasks.map guise.run := by
  unfold Scene.tasks
  rw [scenes.past, scenes.controller.cell.run, List.map_append]
  cases left.controller.cell.run <;> rfl

theorem fits_tasks (scenes : guise.Scenes left right) {run : Run Time}
    (there : run ∈ left.tasks) : guise.fits run := by
  rcases List.mem_append.mp there with old | latest
  · exact scenes.fits run old
  · exact scenes.controller.cell.fits run (Option.mem_toList.mp latest)

theorem allows (scenes : guise.Scenes left right) (move : Move Time) :
    right.allows move = left.allows move := by
  have present : right.controller.holder.isSome = left.controller.holder.isSome := by
    rw [scenes.controller.holder, Option.isSome_map]
  have free : right.controller.holder.isNone = left.controller.holder.isNone := by
    rw [scenes.controller.holder, Option.isNone_map]
  have ended (number : Nat) : right.hasEnded number = left.hasEnded number := by
    simp only [Scene.hasEnded, scenes.tasks, List.getElem?_map, Option.any_map]
    rfl
  have unfinished (number : Nat) : right.isUnfinished number = left.isUnfinished number := by
    simp only [Scene.isUnfinished, scenes.tasks, List.getElem?_map, Option.any_map]
    rfl
  have ready (number : Nat) :
      right.tasks[number]?.any (·.isReady left.controller.cell.now) =
        left.tasks[number]?.any (·.isReady left.controller.cell.now) := by
    simp only [scenes.tasks, List.getElem?_map, Option.any_map]
    rfl
  cases move <;>
    simp only [Scene.allows, present, free, ended, unfinished, ready, scenes.awaited,
      scenes.waiters, scenes.doomed, scenes.controller.cell.now]

/-! What a scene does besides. -/

theorem follow (scenes : guise.Scenes left right) (later : guise.Controllers left' right') :
    guise.Scenes (left.follow left') (right.follow right') := by
  have starter : right.controller.starter? right' = left.controller.starter? left' := by
    unfold Controller.starter? Controller.newAnswer?
    rw [scenes.controller.answers, later.answers]
  have past : right.pastAfter right' = (left.pastAfter left').map guise.run := by
    unfold Scene.pastAfter
    rw [starter]
    split
    · exact scenes.tasks
    · exact scenes.past
  have awaited : right.awaitedAfter right' = left.awaitedAfter left' := by
    unfold Scene.awaitedAfter
    rw [later.holder, scenes.controller.holder, Option.isNone_map, Option.isSome_map,
      scenes.awaited, scenes.length]
  have waiters : right.waitersAfter right' = left.waitersAfter left' := by
    unfold Scene.waitersAfter
    rw [starter, past, List.length_map, scenes.stayers, scenes.waiters]
  have fits : ∀ run ∈ left.pastAfter left', guise.fits run := by
    intro run there
    unfold Scene.pastAfter at there
    split at there
    · exact scenes.fits_tasks there
    · exact scenes.fits run there
  exact { scenes with controller := later, past, fits, awaited, waiters }

theorem receive (scenes : guise.Scenes left right) {wish : Wish} (stays : Bool)
    (suits : guise.Suits wish)
    (greets : left.controller.holder = none → left.controller.queue = [] →
      guise.Greets left.controller right.controller wish) :
    guise.Scenes (left.receive wish stays) (right.receive (guise.wish wish) stays) := by
  have arrived : guise.Controllers (left.controller.arrive ⟨left.callers, wish⟩)
      (right.controller.arrive ⟨right.callers, guise.wish wish⟩) := by
    rw [scenes.callers]
    exact scenes.controller.arrive suits greets
  have come : guise.Scenes
      { left with
        callers := left.callers + 1
        stayers := if stays then left.callers :: left.stayers else left.stayers }
      { right with
        callers := right.callers + 1
        stayers := if stays then right.callers :: right.stayers else right.stayers } :=
    { scenes with
      callers := by rw [scenes.callers]
      stayers := by rw [scenes.callers, scenes.stayers] }
  exact come.follow arrived

theorem letGo (scenes : guise.Scenes left right) : guise.Scenes left.letGo right.letGo :=
  { scenes with controller := scenes.controller.free, awaited := rfl }

theorem wait (scenes : guise.Scenes left right) :
    guise.Scenes (left.meet .wait) (right.meet .wait) := by
  simp only [Scene.meet, scenes.controller.cell.run, Option.isSome_map]
  split
  · exact { scenes with waiters := by rw [scenes.length, scenes.waiters] }
  · exact scenes

theorem abandon (scenes : guise.Scenes left right) (place : Nat) :
    guise.Scenes (left.abandon place) (right.abandon place) := by
  simp only [Scene.abandon, scenes.waiters]
  split
  · exact { scenes with waiters := rfl, doomed := congrArg (List.cons _) scenes.doomed }
  · exact { scenes with waiters := rfl }

/-- A task goes on, the latest or one of the past, if it would do so as any run. -/
theorem onTask (scenes : guise.Scenes left right) (number : Nat)
    {goOn : Controller Time → Controller Time}
    (goesOn : ∀ run : Option (Run Time), (∀ there ∈ run, guise.fits there) →
      guise.Controllers
        (goOn { left.controller with cell := { left.controller.cell with run } })
        (goOn { right.controller with
          cell := { right.controller.cell with run := run.map guise.run } })) :
    guise.Scenes (left.onTask number goOn) (right.onTask number goOn) := by
  by_cases last : number = left.past.length
  · have same : number = right.past.length := last.trans scenes.length.symm
    have later := goesOn left.controller.cell.run scenes.controller.cell.fits
    rw [← scenes.controller.cell.run] at later
    simp only [Scene.onTask, if_pos last, if_pos same]
    exact scenes.withController later
  · have other : number ≠ right.past.length := by rw [scenes.length]; exact last
    have seen : right.past[number]? = left.past[number]?.map guise.run := by
      rw [scenes.past, List.getElem?_map]
    simp only [Scene.onTask, if_neg last, if_neg other, seen]
    cases there : left.past[number]? with
    | none => exact scenes
    | some run =>
        have fits := scenes.fits run (List.mem_of_getElem? there)
        have later := goesOn (some run) fun _ same => Option.some.inj same ▸ fits
        simp only [Option.map_some] at later ⊢
        generalize goOn { left.controller with
          cell := { left.controller.cell with run := some run } } = left' at later ⊢
        generalize goOn { right.controller with
          cell := { right.controller.cell with run := some (guise.run run) } } = right' at later ⊢
        exact { scenes with
          controller := { later with
            cell := { later.cell with
              run := scenes.controller.cell.run
              fits := scenes.controller.cell.fits
              back := guise.congr later.cell.back ⟨rfl, rfl, rfl, rfl⟩ ⟨rfl, rfl, rfl, rfl⟩ }
            target := scenes.controller.target
            front := guise.front_congr later.front ⟨rfl, rfl, rfl, rfl⟩ ⟨rfl, rfl, rfl, rfl⟩ }
          past := by simp only [scenes.past, List.map_set, later.cell.run, Option.getD_map]
          fits := by
            intro run' member
            rcases List.mem_or_eq_of_mem_set member with old | rfl
            · exact scenes.fits run' old
            · cases after : left'.cell.run with
              | none => exact fits
              | some run' => exact later.cell.fits run' after }

end Scenes

/-! Moves. -/

def move : Move Time → Move Time
  | .call (.start simulate confirm) => .call (.start (guise.flag simulate) confirm)
  | .call (.run simulate confirm) => .call (.run (guise.flag simulate) confirm)
  | .arm latency failOn hooks => .arm latency failOn (guise.hooks hooks)
  | other => other

/-- What a guise has to see to in a move: that a start which is looked at or launched
comes to the same, that hooks do, and that the world changes in both. -/
def Goes (left right : Scene Time) : Move Time → Prop
  | .call (.start simulate confirm) | .call (.run simulate confirm) =>
      guise.suits simulate ∧ (left.controller.holder = none → left.controller.queue = [] →
        guise.Greets left.controller right.controller (.start simulate confirm))
  | .call (.importBlocks blocks) => guise.Controllers (left.controller.importBlocks blocks)
      (right.controller.importBlocks blocks)
  | .letIn => ∀ caller, left.controller.queue.head? = some caller →
      guise.Greets left.controller right.controller caller.wish
  | .resume => ∀ caller, left.controller.holder = some caller → ∀ simulate confirm,
      caller.wish = .start simulate confirm → guise.Launches simulate
  | .step _ => ∀ run : Option (Run Time), (∀ there ∈ run, guise.fits there) →
      Guise.Cells.Fires guise.toGuise { left.controller.cell with run }
        { right.controller.cell with run := run.map guise.run }
  | .effect effect =>
      guise.Cells (left.controller.cell.apply effect) (right.controller.cell.apply effect)
  | .equip robot config =>
      guise.front { left.controller with robot, config } { right.controller with robot, config }
  | .arm latency failOn hooks =>
      guise.Cells
        { left.controller.cell with arm := { left.controller.cell.arm with latency, failOn }, hooks }
        { right.controller.cell with
          arm := { right.controller.cell.arm with latency, failOn }, hooks := guise.hooks hooks }
  | _ => True

theorem Scenes.next {guise : ControllerGuise Time} {left right : Scene Time}
    (scenes : guise.Scenes left right) {move : Move Time} (goes : guise.Goes left right move) :
    guise.Scenes (left.next move) (right.next (guise.move move)) := by
  have same := scenes.controller
  have lent (run : Option (Run Time)) (fits : ∀ there ∈ run, guise.fits there) :
      guise.Controllers { left.controller with cell := { left.controller.cell with run } }
        { right.controller with
          cell := { right.controller.cell with run := run.map guise.run } } := by
    refine same.withCell { same.cell with run := rfl, fits := fits, back := ?_ }
    exact guise.congr same.cell.back ⟨rfl, rfl, rfl, rfl⟩ ⟨rfl, rfl, rfl, rfl⟩
  cases move with
  | call errand =>
      cases errand with
      | start simulate confirm => exact scenes.receive false goes.1 goes.2
      | run simulate confirm => exact scenes.receive true goes.1 goes.2
      | stop => exact scenes.receive false trivial fun _ _ => trivial
      | wait => exact scenes.wait
      | importBlocks blocks => exact scenes.withController goes
  | letIn => exact scenes.follow (same.admitNext goes)
  | resume => exact scenes.letGo.follow (same.resumeHolder goes)
  | abandonHold => exact scenes.letGo
  | abandonQueue place =>
      have erased := same.withQueue (left.controller.queue.eraseIdx place)
        fun caller there => same.suits caller (Or.inr (List.mem_of_mem_eraseIdx there))
      rw [← List.eraseIdx_map, ← same.queue] at erased
      exact scenes.withController erased
  | abandonWait place => exact scenes.abandon place
  | finishWait place =>
      exact { scenes with waiters := congrArg (·.eraseIdx place) scenes.waiters }
  | doom number => exact { scenes with doomed := congrArg (List.cons number) scenes.doomed }
  | unwind number => exact scenes.onTask number fun run fits => (lent run fits).cancelled
  | step number =>
      exact scenes.onTask number fun run fits => (lent run fits).stepRun (goes run fits)
  | effect effect => exact scenes.withController (same.withCell goes)
  | equip robot config => exact scenes.withController { same with front := goes }
  | arm latency failOn hooks => exact scenes.withController (same.withCell goes)
  | pass later => exact scenes.withController (same.withCell (same.cell.pass later))

end ControllerGuise

end ArmProgram
