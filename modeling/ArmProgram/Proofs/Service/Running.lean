import ArmProgram.Proofs.Service.Requests
import ArmProgram.Proofs.Controller.Endings

/-!
The program under a run. A run takes a list of the blocks that are there when it
is launched, and it shares their parameters with the program. Requests come in
any order with the steps of runs; as long as the run has not ended they find the
controller running and edit nothing, so both stay what they were.
-/

namespace ArmProgram

def Effect.sparesProgram : Effect → Bool
  | set .. => false
  | abort | disconnect | connect | failOn _ => true

section

variable {Time : Type}

def Move.sparesProgram : Move Time → Bool
  | .call (.importBlocks _) => false
  | .effect changes => changes.sparesProgram
  | .arm _ _ hooks => hooks.all (·.effect.sparesProgram)
  | _ => true

/-! Cells. -/

namespace Cell

structure SameBlocks (after before : Cell Time) : Prop where
  program : after.program = before.program
  hooks : after.hooks = before.hooks
  run : after.run.map Run.blocks = before.run.map Run.blocks

theorem SameBlocks.refl (cell : Cell Time) : SameBlocks cell cell :=
  ⟨rfl, rfl, rfl⟩

theorem SameBlocks.trans {first second third : Cell Time} (later : SameBlocks third second)
    (earlier : SameBlocks second first) : SameBlocks third first :=
  ⟨later.program.trans earlier.program, later.hooks.trans earlier.hooks,
    later.run.trans earlier.run⟩

def sparesProgram (cell : Cell Time) : Bool :=
  cell.hooks.all (·.effect.sparesProgram)

theorem Takes.sameBlocks {effect : Effect} {cell changed : Cell Time}
    (takes : Takes cell effect changed) (spares : effect.sparesProgram = true) :
    SameBlocks changed cell := by
  cases takes with
  | abort =>
      refine ⟨rfl, rfl, ?_⟩
      cases cell.run <;> rfl
  | disconnect | connect | failOn => exact ⟨rfl, rfl, rfl⟩
  | edits | reaches => cases spares

theorem apply_sameBlocks {effect : Effect} (spares : effect.sparesProgram = true)
    (cell : Cell Time) : SameBlocks (cell.apply effect) cell := by
  rcases cell.apply_cases effect with same | takes
  · rw [same]
    exact .refl cell
  · exact takes.sameBlocks spares

theorem fireHooks_sameBlocks {cell : Cell Time} (spares : cell.sparesProgram = true) :
    SameBlocks cell.fireHooks.1 cell :=
  fireHooks_keeps (SameBlocks · cell)
    (fun hook listed _ _ takes same =>
      (takes.sameBlocks (List.all_eq_true.mp spares hook listed)).trans same)
    (.refl cell)

variable [TimeScale Time]

theorem Advances.sameBlocks {cell after : Cell Time} {run : Run Time}
    (advances : Advances cell run after) (here : cell.run = some run)
    (spares : cell.sparesProgram = true) : SameBlocks after cell := by
  have fires := fireHooks_sameBlocks spares
  cases advances with
  | moves made steps | calls made steps | fails made steps =>
      exact ⟨rfl, rfl, (congrArg some (Run.steps_blocks steps)).trans (by rw [here]; rfl)⟩
  | returns calling heard there | refuses calling heard there =>
      rw [heard] at fires
      refine ⟨fires.program, fires.hooks, ?_⟩
      rw [← fires.run, there]
      rfl

theorem stepRun_sameBlocks {cell : Cell Time} (spares : cell.sparesProgram = true)
    (running : cell.isRunning = true) : SameBlocks cell.stepRun cell := by
  obtain ⟨run, here, going⟩ := isRunning_iff.mp running
  exact (stepRun_advances here going).sameBlocks here spares

end Cell

/-! Controllers. -/

namespace Controller

/-- A run that has not ended shares all its blocks with the program, which needs
no confirmation. -/
structure Mirrors (controller : Controller Time) : Prop where
  hooks : controller.cell.sparesProgram = true
  blocks : ∀ run, controller.cell.run = some run → run.isEnded = false →
    run.blocks = controller.cell.program.blocks.toArray
  trust : controller.isRunning = true → controller.needsTrust = false

variable {before after : Controller Time}

theorem Mirrors.of_sameBlocks (mirrors : before.Mirrors)
    (same : Cell.SameBlocks after.cell before.cell)
    (active : after.isRunning = true → before.isRunning = true)
    (trust : after.needsTrust = before.needsTrust) : after.Mirrors := by
  refine ⟨?_, fun later there unended => ?_, fun running => ?_⟩
  · rw [Cell.sparesProgram, same.hooks]
    exact mirrors.hooks
  · obtain ⟨run, here, unfinished⟩ := before.isRunning_iff.mp
      (active (after.isRunning_iff.mpr ⟨later, there, unended⟩))
    have blocks := same.run
    rw [there, here, Option.map_some, Option.map_some, Option.some.injEq] at blocks
    rw [blocks, same.program]
    exact mirrors.blocks run here unfinished
  · rw [trust]
    exact mirrors.trust (active running)

variable [TimeScale Time]

theorem Admits.trust {served : Option Caller} (admits : before.Admits after served) :
    after.needsTrust = before.needsTrust ∨ after.needsTrust = false := by
  cases admits with
  | rests holder trust stopped => exact Or.inl trust
  | refuses id simulate confirm refusal caller grounds spared => rw [spared]; exact Or.inl rfl
  | holds caller served free held passed trust unanswered => exact Or.inl trust
  | launches id simulate confirm caller passed free trust outcome => exact Or.inr trust

theorem Admits.started_trust {served : Option Caller} (admits : before.Admits after served)
    (id : Nat) (started : before.newAnswer? after = some (id, .started)) :
    after.needsTrust = false := by
  cases admits with
  | rests holder trust stopped => cases stopped _ started
  | refuses other simulate confirm refusal caller grounds spared =>
      have news : before.newAnswer? after = some (other, .refused refusal) :=
        newAnswer?_cons (by rw [spared])
      rw [news] at started
      cases started
  | holds caller served free held passed trust unanswered =>
      rw [unanswered] at started
      cases started
  | launches other simulate confirm caller passed free trust outcome => exact trust

omit [TimeScale Time] in
/-- A caller leaves the run as it is, or starts one of the program as it is. -/
theorem Mirrors.of_serving (mirrors : before.Mirrors) (serves : before.Serves after)
    (retains : before.Retains after)
    (trust : after.needsTrust = before.needsTrust ∨ after.needsTrust = false)
    (started : ∀ id, before.newAnswer? after = some (id, .started) → after.needsTrust = false) :
    after.Mirrors := by
  refine ⟨?_, fun later there unended => ?_, fun running => ?_⟩
  · rw [Cell.sparesProgram, retains.hooks]
    exact mirrors.hooks
  · rw [retains.program]
    rcases retains.run later there with ⟨-, blocks⟩ | ⟨run, here, activity, blocks⟩
    · exact blocks
    · rw [blocks]
      refine mirrors.blocks run here ?_
      rw [← unended]
      simp only [Run.isEnded, activity]
  · have kept (keeps : before.Keeps after) : after.needsTrust = false := by
      have trusted := mirrors.trust (keeps.isRunning ▸ running)
      rcases trust with same | low
      · exact same.trans trusted
      · exact low
    cases serves with
    | done keeps holder unstarted stopped => exact kept keeps
    | waits keeps active free unanswered => exact kept keeps
    | launches id idle given active target free => exact started id given

omit [TimeScale Time] in
theorem Reports.sameBlocks (reports : before.Reports after) :
    Cell.SameBlocks after.cell before.cell := by
  obtain ⟨journal, target, result, rfl⟩ := reports
  exact ⟨rfl, rfl, rfl⟩

theorem stepRun_sameBlocks {controller : Controller Time}
    (spares : controller.cell.sparesProgram = true) (running : controller.isRunning = true) :
    Cell.SameBlocks controller.stepRun.cell controller.cell :=
  (stepRun_reports controller).sameBlocks.trans (Cell.stepRun_sameBlocks spares running)

theorem cancelled_sameBlocks (controller : Controller Time) :
    Cell.SameBlocks (Scene.cancelled controller).cell controller.cell := by
  refine (cancelled_reports controller).sameBlocks.trans ⟨rfl, rfl, ?_⟩
  cases controller.cell.run with
  | none => rfl
  | some run =>
      simp only [Option.map_some]
      rw [Run.cancel_eq]

end Controller

/-! Moves. -/

namespace Scene

variable [TimeScale Time]

structure Fenced (scene : Scene Time) : Prop where
  sound : scene.Sound
  mirrors : scene.controller.Mirrors

omit [TimeScale Time] in
/-- What keeps the run, the program and the need for a confirmation keeps a
controller as it has to be. -/
theorem mirrors_of_same {before after : Controller Time} (mirrors : before.Mirrors)
    (cell : after.cell = before.cell) (trust : after.needsTrust = before.needsTrust) :
    after.Mirrors := by
  refine mirrors.of_sameBlocks (cell ▸ .refl before.cell) (fun running => ?_) trust
  rwa [Controller.isRunning, cell] at running

theorem receive_mirrors {scene : Scene Time} (mirrors : scene.controller.Mirrors) (wish : Wish)
    (stays : Bool) :
    (scene.receive wish stays).controller.Mirrors ∧
      (scene.receive wish stays).controller.cell.program = scene.controller.cell.program := by
  have retains := Controller.arrive_retains ⟨scene.callers, wish⟩ scene.controller
  have admits := Controller.arrive_admits ⟨scene.callers, wish⟩ scene.controller
  exact ⟨mirrors.of_serving (Controller.arrive_serves _ _) retains admits.trust
    admits.started_trust, retains.program⟩

theorem resume_mirrors {scene : Scene Time} (fenced : scene.Fenced)
    (allowed : scene.allows .resume = true) :
    (scene.next .resume).controller.Mirrors ∧
      (scene.next .resume).controller.cell.program = scene.controller.cell.program := by
  have idle := idle_of_resume fenced.sound allowed
  have let_go : scene.letGo.controller.Mirrors := mirrors_of_same fenced.mirrors rfl rfl
  have freed : scene.letGo.controller.Retains scene.controller := .of_same rfl rfl
  have retains := Controller.resumeHolder_retains scene.controller
  have admits := Controller.resumeHolder_admits scene.controller
  exact ⟨let_go.of_serving (Controller.resumeHolder_serves _ idle) (freed.trans retains)
    admits.trust admits.started_trust, retains.program⟩

omit [TimeScale Time] in
theorem onTask_mirrors {scene : Scene Time} (fenced : scene.Fenced) (number : Nat)
    (goOn : Controller Time → Controller Time) (unfinished : scene.isUnfinished number = true)
    (same : scene.controller.isRunning = true →
      Cell.SameBlocks (goOn scene.controller).cell scene.controller.cell)
    (notes : scene.controller.SameNotes (goOn scene.controller)) :
    (scene.onTask number goOn).controller.Mirrors ∧
      (scene.onTask number goOn).controller.cell.program = scene.controller.cell.program := by
  obtain ⟨rfl, running, outcome⟩ := onTask_latest fenced.sound number goOn unfinished
  rw [outcome]
  exact ⟨fenced.mirrors.of_sameBlocks (same running) (fun _ => running) notes.needsTrust,
    (same running).program⟩

theorem next_mirrors {scene : Scene Time} (fenced : scene.Fenced) (move : Move Time)
    (allowed : scene.allows move = true) (spares : move.sparesProgram = true) :
    (scene.next move).controller.Mirrors ∧
      (scene.next move).controller.cell.program = scene.controller.cell.program := by
  have mirrors := fenced.mirrors
  have kept {after : Controller Time} (cell : after.cell = scene.controller.cell)
      (trust : after.needsTrust = scene.controller.needsTrust) :
      after.Mirrors ∧ after.cell.program = scene.controller.cell.program :=
    ⟨mirrors_of_same mirrors cell trust, by rw [cell]⟩
  cases move with
  | call errand =>
      cases errand with
      | start | run | stop => exact receive_mirrors mirrors _ _
      | wait =>
          simp only [next, meet]
          split <;> exact kept rfl rfl
      | importBlocks blocks => cases spares
  | letIn =>
      have free : scene.controller.holder = none := Option.isNone_iff_eq_none.mp allowed
      have retains := Controller.admitNext_retains scene.controller
      have admits := Controller.admitNext_admits scene.controller free
      exact ⟨mirrors.of_serving (Controller.admitNext_serves _ free) retains admits.trust
        admits.started_trust, retains.program⟩
  | resume => exact resume_mirrors fenced allowed
  | abandonHold | abandonQueue | finishWait | doom | equip => exact kept rfl rfl
  | abandonWait place =>
      simp only [next, abandon]
      split <;> exact kept rfl rfl
  | unwind number =>
      simp only [allows, Bool.and_eq_true] at allowed
      exact onTask_mirrors fenced number cancelled allowed.2
        (fun _ => scene.controller.cancelled_sameBlocks) scene.controller.cancelled_runsOn.sameNotes
  | step number =>
      simp only [allows, Bool.and_eq_true] at allowed
      exact onTask_mirrors fenced number (·.stepRun) allowed.1
        (Controller.stepRun_sameBlocks mirrors.hooks) scene.controller.stepRun_runsOn.sameNotes
  | effect effect =>
      have same := Cell.apply_sameBlocks spares scene.controller.cell
      refine ⟨mirrors.of_sameBlocks same (fun running => ?_) rfl, same.program⟩
      rw [← (Controller.apply_keeps effect scene.controller).isRunning]
      exact running
  | arm latency failOn hooks => exact ⟨⟨spares, mirrors.blocks, mirrors.trust⟩, rfl⟩
  | pass later => exact ⟨⟨mirrors.hooks, mirrors.blocks, mirrors.trust⟩, rfl⟩

omit [TimeScale Time] in
/-- A run that was there before a move and is unfinished after it was unfinished
before. -/
theorem unfinished_of_goes {before after : Scene Time} (sound : after.Sound)
    (goes : before.Goes after) (number : Nat) (known : number < before.tasks.length)
    (unfinished : after.isUnfinished number = true) : before.isUnfinished number = true := by
  obtain ⟨run, there, going⟩ := unfinished_of after number unfinished
  obtain ⟨rfl, latest⟩ := latest_of_unfinished sound there going
  cases goes with
  | on past present running holds stopped calls =>
      obtain ⟨active, -⟩ := running (after.controller.isRunning_iff.mpr ⟨run, latest, going⟩)
      obtain ⟨earlier, here, unended⟩ := before.controller.isRunning_iff.mp active
      simp [isUnfinished, past, tasks_last, here, unended]
  | launches idle past present target free unstopped =>
      -- The new run has a number of its own.
      have older : after.past = before.tasks := past
      rw [older] at known
      exact absurd known (Nat.lt_irrefl _)

end Scene

end

/-! Requests among the moves. -/

namespace Scene

theorem respond_cases (request : Request) (scene : Scene Float) :
    (scene.respond request).1 = scene ∨
      (∃ order, (scene.respond request).1 =
        { scene with controller := (scene.controller.handle order).1 }) ∨
      ∃ wish, (scene.respond request).1 = scene.receive wish false := by
  unfold respond
  cases request.order scene.controller.nextId with
  | error response => exact Or.inl rfl
  | ok order =>
      unfold obey
      cases handled : scene.controller.handle order with
      | mk after handling =>
          cases handling with
          | answered response =>
              refine Or.inr (Or.inl ⟨order, ?_⟩)
              simp only [handled]
          | waiting wish =>
              refine Or.inr (Or.inr ⟨wish, ?_⟩)
              simp only [handled]

theorem respond_goes (request : Request) (scene : Scene Float) :
    scene.Goes (scene.respond request).1 := by
  rcases scene.respond_cases request with same | ⟨order, outcome⟩ | ⟨wish, outcome⟩
  · rw [same]
    exact goes_refl scene
  · rw [outcome]
    exact goesOn_goes (scene.controller.handle_edits order).goes rfl rfl
  · rw [outcome]
    exact receive_goes wish false scene

theorem respond_mirrors (request : Request) {scene : Scene Float}
    (mirrors : scene.controller.Mirrors) :
    (scene.respond request).1.controller.Mirrors ∧
      (scene.controller.isRunning = true →
        (scene.respond request).1.controller.cell.program = scene.controller.cell.program) := by
  rcases scene.respond_cases request with same | ⟨order, outcome⟩ | ⟨wish, outcome⟩
  · rw [same]
    exact ⟨mirrors, fun _ => rfl⟩
  · rw [outcome]
    have edits := scene.controller.handle_edits order
    have unedited := scene.controller.handle_running order
    by_cases running : scene.controller.isRunning = true
    · simp only [(unedited running).1]
      exact ⟨mirrors, fun _ => trivial⟩
    · -- No run is active afterwards either, so there is nothing to share.
      have still (active : (scene.controller.handle order).1.isRunning = true) : False :=
        running (edits.goes.running active).1
      refine ⟨⟨?_, fun run here unended => ?_, fun active => (still active).elim⟩,
        fun active => absurd active running⟩
      · simp only [Cell.sparesProgram, edits.hooks]
        exact mirrors.hooks
      · exact (still ((Controller.isRunning_iff _).mpr ⟨run, here, unended⟩)).elim
  · rw [outcome]
    obtain ⟨after, program⟩ := receive_mirrors mirrors wish false
    exact ⟨after, fun _ => program⟩

inductive Doing where
  | request (request : Request)
  | moves (move : Move Float)

def permits (scene : Scene Float) : Doing → Bool
  | .request _ => true
  | .moves move => scene.allows move && move.sparesProgram

def pass (scene : Scene Float) : Doing → Scene Float
  | .request request => (scene.respond request).1
  | .moves move => scene.next move

theorem pass_request (scene : Scene Float) (request : Request) :
    scene.pass (.request request) = (scene.respond request).1 :=
  rfl

theorem pass_goes {scene : Scene Float} (sound : scene.Sound) (doing : Doing)
    (permitted : scene.permits doing = true) : scene.Goes (scene.pass doing) := by
  cases doing with
  | request request =>
      rw [pass_request]
      exact scene.respond_goes request
  | moves move =>
      simp only [permits, Bool.and_eq_true] at permitted
      exact next_goes sound move permitted.1

theorem pass_fenced {scene : Scene Float} (fenced : scene.Fenced) (doing : Doing)
    (permitted : scene.permits doing = true) : (scene.pass doing).Fenced := by
  refine ⟨goes_sound fenced.sound (pass_goes fenced.sound doing permitted), ?_⟩
  cases doing with
  | request request =>
      rw [pass_request]
      exact (respond_mirrors request fenced.mirrors).1
  | moves move =>
      simp only [permits, Bool.and_eq_true] at permitted
      exact (next_mirrors fenced move permitted.1 permitted.2).1

theorem pass_program {scene : Scene Float} (fenced : scene.Fenced) (doing : Doing)
    (permitted : scene.permits doing = true) (running : scene.controller.isRunning = true) :
    (scene.pass doing).controller.cell.program = scene.controller.cell.program := by
  cases doing with
  | request request =>
      rw [pass_request]
      exact (respond_mirrors request fenced.mirrors).2 running
  | moves move =>
      simp only [permits, Bool.and_eq_true] at permitted
      exact (next_mirrors fenced move permitted.1 permitted.2).2

theorem running_of_unfinished {scene : Scene Float} (sound : scene.Sound) (number : Nat)
    (unfinished : scene.isUnfinished number = true) : scene.controller.isRunning = true := by
  obtain ⟨run, there, going⟩ := unfinished_of scene number unfinished
  obtain ⟨-, latest⟩ := latest_of_unfinished sound there going
  exact scene.controller.isRunning_iff.mpr ⟨run, latest, going⟩

end Scene

inductive Traffic : Scene Float → Scene Float → Type where
  | here (scene : Scene Float) : Traffic scene scene
  | next {before last : Scene Float} (doing : Scene.Doing)
      (permitted : before.permits doing = true) (rest : Traffic (before.pass doing) last) :
      Traffic before last

namespace Traffic

variable {first last : Scene Float}

theorem fenced (traffic : Traffic first last) (start : first.Fenced) : last.Fenced := by
  induction traffic with
  | here => exact start
  | next doing permitted _ ih => exact ih (Scene.pass_fenced start doing permitted)

theorem kept (traffic : Traffic first last) (start : first.Fenced) (number : Nat)
    (known : number < first.tasks.length) (unfinished : last.isUnfinished number = true) :
    first.isUnfinished number = true ∧
      last.controller.cell.program = first.controller.cell.program := by
  induction traffic with
  | here => exact ⟨unfinished, rfl⟩
  | @next before _ doing permitted rest ih =>
      have goes := Scene.pass_goes start.sound doing permitted
      have after := Scene.pass_fenced start doing permitted
      have listed : number < (before.pass doing).tasks.length := by
        rcases Scene.goes_tasks goes with same | ⟨-, more⟩ <;> omega
      obtain ⟨still, same⟩ := ih after listed unfinished
      have active := Scene.unfinished_of_goes after.sound goes number known still
      have running := Scene.running_of_unfinished start.sound number active
      exact ⟨active, same.trans (Scene.pass_program start doing permitted running)⟩

end Traffic

theorem Scene.opening_fenced (arm : Arm Float) (program : Program) (config : Config)
    (robot : Robot) (nextId : Nat) : (opening arm [] program config robot nextId).Fenced :=
  ⟨opening_sound arm [] program config robot nextId, rfl, fun _ here => (nomatch here), nofun⟩

/-- What holds of the program under a run that has not ended. -/
structure Scene.Holds (source : Program) (number : Nat) (scene : Scene Float) : Prop where
  program : scene.controller.cell.program = source
  trusted : scene.controller.needsTrust = false
  snapshot : ∃ run, scene.tasks[number]? = some run ∧ run.blocks.toList = source.blocks
  /-- An edit that can be read is answered with a conflict, even where its block
  is unknown or its program is no tree, and nothing happens. -/
  refuses : ∀ request order, request.order scene.controller.nextId = .ok order →
    order.edits = true → scene.respond request = (scene, some .running)

theorem Scene.Fenced.holds {scene : Scene Float} (fenced : scene.Fenced) (number : Nat)
    (unfinished : scene.isUnfinished number = true) :
    scene.Holds scene.controller.cell.program number := by
  obtain ⟨run, there, going⟩ := Scene.unfinished_of scene number unfinished
  obtain ⟨-, latest⟩ := Scene.latest_of_unfinished fenced.sound there going
  have running := Scene.running_of_unfinished fenced.sound number unfinished
  refine ⟨rfl, fenced.mirrors.trust running, ⟨run, there, ?_⟩, ?_⟩
  · rw [fenced.mirrors.blocks run latest going]
  · intro request order given edits
    have refused := (scene.controller.handle_running order running).2 edits
    rw [Scene.respond_of_order given]
    simp only [Scene.obey, refused]

/-- From when a run is there until it has ended the program is the one that the
run was made of, however requests, callers and the run take turns, and each
edit that is asked for in that time is turned down. -/
theorem running_program_is_fixed (arm : Arm Float) (program : Program) (config : Config)
    (robot : Robot) (nextId : Nat) {first later : Scene Float}
    (before : Traffic (.opening arm [] program config robot nextId) first)
    (since : Traffic first later) (number : Nat) (known : number < first.tasks.length)
    (unfinished : later.isUnfinished number = true) :
    later.Holds first.controller.cell.program number := by
  have start := before.fenced (Scene.opening_fenced arm program config robot nextId)
  obtain ⟨-, same⟩ := since.kept start number known unfinished
  rw [← same]
  exact (since.fenced start).holds number unfinished

/-- A request starts a run. It is still there after its first step, and to empty
the program then is turned down. -/
theorem started_program_is_fixed :
    ∃ first later : Scene Float,
      Nonempty (Traffic (.opening (.resting 0 true none) []
        ⟨[⟨"grip", "open_gripper", .empty, none, none⟩]⟩ .default .arm 1) first) ∧
      Nonempty (Traffic first later) ∧ first.tasks.length = 1 ∧ later.isUnfinished 0 = true ∧
      later.Holds ⟨[⟨"grip", "open_gripper", .empty, none, none⟩]⟩ 0 ∧
      later.respond ⟨"DELETE", "/program", .absent⟩ = (later, some .running) := by
  have reached : ∃ first later : Scene Float, ∃ _ : Traffic (.opening (.resting 0 true none) []
        ⟨[⟨"grip", "open_gripper", .empty, none, none⟩]⟩ .default .arm 1) first,
      ∃ _ : Traffic first later, first.tasks.length = 1 ∧ later.isUnfinished 0 = true ∧
      first.controller.cell.program = ⟨[⟨"grip", "open_gripper", .empty, none, none⟩]⟩ := by
    refine ⟨_, _, .next (.request ⟨"POST", "/execution/run", .given (.object [])⟩) rfl <| .here _,
      .next (.moves (.step 0)) rfl <| .here _, rfl, rfl, rfl⟩
  obtain ⟨first, later, before, since, single, unfinished, source⟩ := reached
  have holds := running_program_is_fixed _ _ _ _ _ before since 0 (by omega) unfinished
  rw [source] at holds
  exact ⟨first, later, ⟨before⟩, ⟨since⟩, single, unfinished, holds,
    holds.refuses ⟨"DELETE", "/program", .absent⟩ .clearProgram rfl rfl⟩

end ArmProgram
