import ArmProgram.Proofs.Controller.Serving

/-!
How a caller gets through. A start is looked at when it takes hold of the
controller, and once: it is refused there, it has to wait for the latest run, or
it launches. One that has waited launches without being looked at again. So a
start fails either before anything is touched or on a robot that cannot move
joints, when its confirmation is already used up.
-/

namespace ArmProgram

variable {Time : Type}

def Robot.movesJoints : Robot → Bool
  | absent | bare => false
  | arm => true
  | limited features => features.moveJoints

theorem Robot.abilities_error_iff (robot : Robot) (simulate : Bool) :
    (∃ unfit, robot.abilities simulate = .error unfit) ↔ robot.movesJoints = false := by
  cases robot with
  | absent => exact ⟨fun _ => rfl, fun _ => ⟨.absent, rfl⟩⟩
  | bare => exact ⟨fun _ => rfl, fun _ => ⟨.bare, rfl⟩⟩
  | arm => simp [abilities, movesJoints]
  | limited features =>
      cases moves : features.moveJoints <;> simp [abilities, movesJoints, moves]

namespace Controller

variable {before after : Controller Time}

structure SameGrounds (before after : Controller Time) : Prop where
  program : after.cell.program = before.cell.program
  robot : after.robot = before.robot
  connected : after.cell.arm.connected = before.cell.arm.connected
  needsTrust : after.needsTrust = before.needsTrust
  config : after.config = before.config
  holder : after.holder = before.holder
  answers : after.answers = before.answers

theorem SameGrounds.refl (controller : Controller Time) : SameGrounds controller controller :=
  ⟨rfl, rfl, rfl, rfl, rfl, rfl, rfl⟩

theorem SameGrounds.refusal (same : SameGrounds before after) (simulate confirm : Bool) :
    after.refusal? simulate confirm = before.refusal? simulate confirm := by
  unfold refusal?
  rw [same.program, same.robot, same.connected, same.needsTrust]

theorem abort_grounds (controller : Controller Time) :
    SameGrounds controller controller.abortTarget := by
  unfold abortTarget
  split
  · exact ⟨rfl, rfl, rfl, rfl, rfl, rfl, rfl⟩
  · exact .refl controller

variable [TimeScale Time]

def newRun (abilities : Abilities) (controller : Controller Time) : Run Time :=
  .prepare controller.cell.program.blocks abilities controller.config
    (.fresh controller.config.maxSteps (TimeScale.ofSeconds controller.config.maxDuration))

/-- What becomes of a controller at one move. Only the first takes no caller
on. -/
inductive Admits (before after : Controller Time) (served : Option Caller) : Prop where
  | rests (holder : after.holder = before.holder ∨ after.holder = none)
      (trust : after.needsTrust = before.needsTrust)
      (stopped : ∀ entry, before.newAnswer? after = some entry → entry.2 = .stopped)
  | refuses (id : Nat) (simulate confirm : Bool) (refusal : Refusal)
      (caller : served = some ⟨id, .start simulate confirm⟩)
      (grounds : before.refusal? simulate confirm = some refusal)
      (spared : after =
        { before with
          queue := after.queue
          answers := (id, .refused refusal) :: before.answers })
  | holds (caller : Caller) (served : served = some caller) (free : before.holder = none)
      (held : after.holder = some caller)
      (passed : ∀ simulate confirm, caller.wish = .start simulate confirm →
        after.refusal? simulate confirm = none)
      (trust : after.needsTrust = before.needsTrust) (unanswered : before.newAnswer? after = none)
  | launches (id : Nat) (simulate confirm : Bool)
      (caller : served = some ⟨id, .start simulate confirm⟩)
      (passed : before.refusal? simulate confirm = none ∨
        before.holder = some ⟨id, .start simulate confirm⟩)
      (free : after.holder = none) (trust : after.needsTrust = false)
      (outcome : (∃ abilities, before.robot.abilities simulate = .ok abilities ∧
          after.cell.run = some (before.newRun abilities) ∧
          before.newAnswer? after = some (id, .started)) ∨
        ∃ unfit, before.robot.abilities simulate = .error unfit ∧
          before.newAnswer? after = some (id, .unfit unfit))

theorem rests_of_notes {served : Option Caller}
    (holder : after.holder = before.holder ∨ after.holder = none)
    (trust : after.needsTrust = before.needsTrust) (answers : after.answers = before.answers) :
    Admits before after served := by
  refine .rests holder trust fun entry given => ?_
  rw [newAnswer?_same answers] at given
  cases given

/-! Launching. -/

theorem release_unfit (controller : Controller Time) (id : Nat) (simulate confirm : Bool)
    (unfit : Unfit) (fits : controller.robot.abilities simulate = .error unfit) :
    controller.release ⟨id, .start simulate confirm⟩ =
      { controller with
        target := .unused
        needsTrust := false
        answers := (id, .unfit unfit) :: controller.answers } := by
  simp only [release, launch, fits]
  rfl

structure Launched (controller after : Controller Time) (id : Nat) (abilities : Abilities) :
    Prop where
  run : after.cell.run = some (controller.newRun abilities)
  needsTrust : after.needsTrust = false
  holder : after.holder = controller.holder
  answers : after.answers = (id, .started) :: controller.answers

theorem release_fit (controller : Controller Time) (id : Nat) (simulate confirm : Bool)
    (abilities : Abilities) (fits : controller.robot.abilities simulate = .ok abilities) :
    controller.Launched (controller.release ⟨id, .start simulate confirm⟩) id abilities := by
  simp only [release, launch, fits]
  exact ⟨rfl, rfl, rfl, rfl⟩

theorem release_admits (id : Nat) (simulate confirm : Bool) (grounds : SameGrounds before after)
    (passed : before.refusal? simulate confirm = none ∨
      before.holder = some ⟨id, .start simulate confirm⟩) :
    Admits before ({ after with holder := none }.release ⟨id, .start simulate confirm⟩)
      (some ⟨id, .start simulate confirm⟩) := by
  have same (abilities : Abilities) : after.newRun abilities = before.newRun abilities := by
    unfold newRun
    rw [grounds.program, grounds.config]
  cases fits : after.robot.abilities simulate with
  | error unfit =>
      rw [release_unfit { after with holder := none } id simulate confirm unfit fits]
      refine .launches id simulate confirm rfl passed rfl rfl (Or.inr ⟨unfit, ?_, ?_⟩)
      · rw [← grounds.robot, fits]
      · exact newAnswer?_cons (by rw [← grounds.answers])
  | ok abilities =>
      have launched := release_fit { after with holder := none } id simulate confirm abilities fits
      refine .launches id simulate confirm rfl passed launched.holder launched.needsTrust
        (Or.inl ⟨abilities, ?_, ?_, ?_⟩)
      · rw [← grounds.robot, fits]
      · rw [launched.run, ← same]
        rfl
      · exact newAnswer?_cons (by rw [launched.answers, grounds.answers])

theorem stopActive_admits (caller : Caller) (controller : Controller Time)
    (free : controller.holder = none)
    (passed : ∀ simulate confirm, caller.wish = .start simulate confirm →
      controller.refusal? simulate confirm = none) :
    Admits controller (controller.stopActive caller) (some caller) := by
  have grounds := abort_grounds controller
  unfold stopActive
  cases running : controller.abortTarget.isRunning with
  | true =>
      simp only [running, ↓reduceIte]
      refine .holds caller rfl free rfl ?_ grounds.needsTrust (newAnswer?_same grounds.answers)
      intro simulate confirm starts
      exact (grounds.refusal simulate confirm).trans (passed simulate confirm starts)
  | false =>
      simp only [running, Bool.false_eq_true, ↓reduceIte]
      obtain ⟨id, wish⟩ := caller
      cases wish with
      | stop =>
          refine .rests (Or.inl grounds.holder) grounds.needsTrust fun entry given => ?_
          have news : controller.newAnswer? (controller.abortTarget.release ⟨id, .stop⟩) =
              some (id, .stopped) :=
            newAnswer?_cons (by simp only [release, answer, grounds.answers])
          rw [news] at given
          cases given
          rfl
      | start simulate confirm =>
          have launches := release_admits id simulate confirm grounds
            (Or.inl (passed simulate confirm rfl))
          -- Nobody held the controller, so letting go of it changes nothing.
          have held : controller.abortTarget = { controller.abortTarget with holder := none } := by
            rw [← free, ← grounds.holder]
          rw [held]
          exact launches

theorem enter_admits (caller : Caller) (controller : Controller Time)
    (free : controller.holder = none) :
    Admits controller (controller.enter caller) (some caller) := by
  obtain ⟨id, wish⟩ := caller
  cases wish with
  | stop =>
      exact stopActive_admits ⟨id, .stop⟩ controller free fun _ _ starts => by cases starts
  | start simulate confirm =>
      cases refused : controller.refusal? simulate confirm with
      | some refusal =>
          simp only [enter, refused]
          exact .refuses id simulate confirm refusal rfl refused rfl
      | none =>
          simp only [enter, refused]
          refine stopActive_admits ⟨id, .start simulate confirm⟩ controller free ?_
          intro other certain starts
          cases starts
          exact refused

theorem arrive_admits (caller : Caller) (controller : Controller Time) :
    Admits controller (controller.arrive caller) (some caller) := by
  unfold arrive
  split
  · rename_i vacant
    rw [Bool.and_eq_true, Option.isNone_iff_eq_none] at vacant
    exact enter_admits caller controller vacant.1
  · exact rests_of_notes (Or.inl rfl) rfl rfl

theorem admitNext_admits (controller : Controller Time) (free : controller.holder = none) :
    Admits controller controller.admitNext controller.queue.head? := by
  unfold admitNext
  cases controller.queue with
  | nil => exact rests_of_notes (Or.inl rfl) rfl rfl
  | cons caller rest =>
      -- To be taken out of the queue changes nothing that a caller is judged by.
      have admits := enter_admits caller { controller with queue := rest } free
      cases admits with
      | rests holder trust stopped => exact .rests holder trust stopped
      | refuses id simulate confirm refusal served grounds spared =>
          exact .refuses id simulate confirm refusal served grounds spared
      | holds other served free held passed trust unanswered =>
          exact .holds other served free held passed trust unanswered
      | launches id simulate confirm served passed free trust outcome =>
          exact .launches id simulate confirm served passed free trust outcome

theorem resumeHolder_admits (controller : Controller Time) :
    Admits controller controller.resumeHolder controller.holder := by
  unfold resumeHolder
  cases held : controller.holder with
  | none => exact rests_of_notes (Or.inl rfl) rfl rfl
  | some caller =>
      obtain ⟨id, wish⟩ := caller
      cases wish with
      | start simulate confirm =>
          exact release_admits id simulate confirm (.refl controller) (Or.inr held)
      | stop =>
          refine .rests (Or.inr rfl) rfl fun entry given => ?_
          have news :
              controller.newAnswer? ({ controller with holder := none }.release ⟨id, .stop⟩) =
                some (id, .stopped) := newAnswer?_cons rfl
          rw [news] at given
          cases given
          rfl

/-! The latest run by itself, and what others do besides. -/

def RunsOn (before after : Controller Time) : Prop :=
  ∃ cell target result, after = { before with cell, target, lastResult := result }

omit [TimeScale Time] in
theorem RunsOn.refl (controller : Controller Time) : controller.RunsOn controller :=
  ⟨controller.cell, controller.target, controller.lastResult, rfl⟩

omit [TimeScale Time] in
theorem RunsOn.trans {middle : Controller Time} (first : before.RunsOn middle)
    (second : middle.RunsOn after) : before.RunsOn after := by
  obtain ⟨_, _, _, rfl⟩ := first
  obtain ⟨cell, target, result, rfl⟩ := second
  exact ⟨cell, target, result, rfl⟩

theorem stepRun_runsOn (controller : Controller Time) : controller.RunsOn controller.stepRun := by
  obtain ⟨journal, target, result, outcome⟩ := stepRun_reports controller
  exact ⟨_, target, result, outcome⟩

theorem cancelled_runsOn (controller : Controller Time) :
    controller.RunsOn (Scene.cancelled controller) := by
  obtain ⟨journal, target, result, outcome⟩ := cancelled_reports controller
  exact ⟨_, target, result, outcome⟩

structure SameNotes (before after : Controller Time) : Prop where
  holder : after.holder = before.holder
  needsTrust : after.needsTrust = before.needsTrust
  answers : after.answers = before.answers

omit [TimeScale Time] in
theorem RunsOn.sameNotes (goes : before.RunsOn after) : before.SameNotes after := by
  obtain ⟨cell, target, result, rfl⟩ := goes
  exact ⟨rfl, rfl, rfl⟩

end Controller

namespace Scene

variable [TimeScale Time]

def served? (scene : Scene Time) : Move Time → Option Caller
  | .call (.start simulate confirm) | .call (.run simulate confirm) =>
      some ⟨scene.callers, .start simulate confirm⟩
  | .call .stop => some ⟨scene.callers, .stop⟩
  | .letIn => scene.controller.queue.head?
  | .resume => scene.controller.holder
  | _ => none

omit [TimeScale Time] in
theorem onTask_runsOn (number : Nat) (goOn : Controller Time → Controller Time)
    (scene : Scene Time) (kept : ∀ controller, Controller.RunsOn controller (goOn controller)) :
    scene.controller.RunsOn (scene.onTask number goOn).controller := by
  unfold onTask
  split
  · exact kept scene.controller
  · split
    · exact .refl scene.controller
    · rename_i run there
      obtain ⟨cell, target, result, same⟩ := kept
        { scene.controller with cell := { scene.controller.cell with run := some run } }
      simp only [same]
      exact ⟨_, _, _, rfl⟩

end Scene

def Move.imports : Move Time → Bool
  | .call (.importBlocks _) => true
  | _ => false

variable [TimeScale Time]

theorem Controller.SameNotes.admits {before after : Controller Time} (same : before.SameNotes after)
    (served : Option Caller) : before.Admits after served :=
  rests_of_notes (Or.inl same.holder) same.needsTrust same.answers

theorem Scene.next_admits (scene : Scene Time) (move : Move Time)
    (allowed : scene.allows move = true) (homemade : move.imports = false) :
    scene.controller.Admits (scene.next move).controller (scene.served? move) := by
  cases move with
  | call errand =>
      cases errand with
      | start simulate confirm => exact Controller.arrive_admits _ _
      | run simulate confirm => exact Controller.arrive_admits _ _
      | stop => exact Controller.arrive_admits _ _
      | wait =>
          simp only [next, meet]
          split <;> exact Controller.rests_of_notes (Or.inl rfl) rfl rfl
      | importBlocks blocks => cases homemade
  | letIn =>
      have free : scene.controller.holder = none := Option.isNone_iff_eq_none.mp allowed
      exact Controller.admitNext_admits scene.controller free
  | resume => exact Controller.resumeHolder_admits scene.controller
  | abandonHold => exact Controller.rests_of_notes (Or.inr rfl) rfl rfl
  | abandonWait place =>
      simp only [next, abandon]
      split <;> exact Controller.rests_of_notes (Or.inl rfl) rfl rfl
  | unwind number =>
      exact (onTask_runsOn number _ scene Controller.cancelled_runsOn).sameNotes.admits _
  | step number =>
      exact (onTask_runsOn number _ scene Controller.stepRun_runsOn).sameNotes.admits _
  | abandonQueue | finishWait | doom | effect | equip | arm | pass =>
      exact Controller.rests_of_notes (Or.inl rfl) rfl rfl

/-! Starts that fail. -/

def Answer.isFailure : Answer → Bool
  | refused _ | unfit _ => true
  | started | stopped => false

/-- Nothing but the queue and the answers has changed: not the program, not the
latest run and its token, not the last result, not the need for a confirmation. -/
def Controller.Spares (before after : Controller Time) : Prop :=
  after = { before with queue := after.queue, answers := after.answers }

/-- A start that fails was refused for what it found, and then nothing has
changed, or the robot cannot move joints. -/
inductive Controller.Fails (before after : Controller Time) (simulate confirm : Bool) :
    Answer → Prop where
  | refused (refusal : Refusal) (grounds : before.refusal? simulate confirm = some refusal)
      (spared : before.Spares after) : Fails before after simulate confirm (.refused refusal)
  | unfit (unfit : Unfit) (unable : before.robot.movesJoints = false)
      (fault : before.robot.abilities simulate = .error unfit) :
      Fails before after simulate confirm (.unfit unfit)

theorem Controller.Admits.failure {before after : Controller Time} {served : Option Caller}
    (admits : before.Admits after served) (id : Nat) (answer : Answer)
    (given : before.newAnswer? after = some (id, answer)) (failed : answer.isFailure = true) :
    ∃ simulate confirm, served = some ⟨id, .start simulate confirm⟩ ∧
      before.Fails after simulate confirm answer := by
  cases admits with
  | rests holder trust stopped =>
      have same : answer = .stopped := stopped (id, answer) given
      rw [same] at failed
      cases failed
  | refuses other simulate confirm refusal caller grounds spared =>
      have news : before.newAnswer? after = some (other, .refused refusal) :=
        newAnswer?_cons (by rw [spared])
      rw [news] at given
      cases given
      refine ⟨simulate, confirm, caller, .refused refusal grounds ?_⟩
      unfold Spares
      rw [spared]
  | holds caller served free held passed trust unanswered =>
      rw [unanswered] at given
      cases given
  | launches other simulate confirm caller passed free trust outcome =>
      rcases outcome with ⟨abilities, fits, run, news⟩ | ⟨unfit, fits, news⟩
      · rw [news] at given
        cases given
        cases failed
      · rw [news] at given
        cases given
        exact ⟨simulate, confirm, caller,
          .unfit unfit ((before.robot.abilities_error_iff simulate).mp ⟨unfit, fits⟩) fits⟩

/-- Whatever robot there is, a start that is refused changes nothing, and a start
fails in no other way as long as the robot can move joints. -/
theorem failed_start_changes_nothing (scene : Scene Time) (move : Move Time)
    (allowed : scene.allows move = true) (id : Nat) (answer : Answer)
    (given : scene.controller.newAnswer? (scene.next move).controller = some (id, answer))
    (failed : answer.isFailure = true) :
    ∃ simulate confirm, scene.served? move = some ⟨id, .start simulate confirm⟩ ∧
      scene.controller.Fails (scene.next move).controller simulate confirm answer := by
  cases homemade : move.imports with
  | false => exact (scene.next_admits move allowed homemade).failure id answer given failed
  | true =>
      -- An import answers nobody.
      have silent : scene.controller.newAnswer? (scene.next move).controller = none := by
        cases move with
        | call errand =>
            cases errand with
            | importBlocks blocks => exact Controller.newAnswer?_same rfl
            | _ => cases homemade
        | _ => cases homemade
      rw [silent] at given
      cases given

section

private def gripping : Program :=
  ⟨[⟨"grip", "open_gripper", .empty, none, none⟩]⟩

theorem unconnected_start_changes_nothing :
    let scene : Scene Float := .opening (.resting 0 false none) [] gripping .default .arm 0
    scene.allows (.call (.start false false)) = true ∧
      scene.controller.newAnswer? (scene.next (.call (.start false false))).controller =
        some (0, .refused .notConnected) ∧
      scene.controller.Spares (scene.next (.call (.start false false))).controller := by
  intro scene
  have allowed : scene.allows (.call (.start false false)) = true := rfl
  have given : scene.controller.newAnswer? (scene.next (.call (.start false false))).controller =
      some (0, .refused .notConnected) := rfl
  obtain ⟨simulate, confirm, -, fails⟩ := failed_start_changes_nothing scene _ allowed 0 _ given rfl
  cases fails with
  | refused refusal grounds spared => exact ⟨allowed, given, spared⟩

/-- On a robot that cannot move joints a start fails after its confirmation has
been used up: the imported program can then be started without one. -/
theorem unfit_start_uses_up_confirmation :
    ∃ scene : Scene Float, Nonempty (Play
        (.opening (.resting 0 true none) [] .empty .default .bare 0) scene) ∧
      scene.controller.needsTrust = true ∧
      scene.controller.newAnswer? (scene.next (.call (.start true true))).controller =
        some (0, .unfit .bare) ∧
      (scene.next (.call (.start true true))).controller.needsTrust = false ∧
      ¬ scene.controller.Spares (scene.next (.call (.start true true))).controller := by
  refine ⟨_, ⟨.next (.call (.importBlocks gripping.blocks)) rfl <| .here _⟩, rfl, rfl, rfl, ?_⟩
  intro spared
  have kept := congrArg Controller.needsTrust spared
  cases kept

end

end ArmProgram
