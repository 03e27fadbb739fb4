import ArmProgram.Proofs.Controller.Guise
import ArmProgram.Proofs.Service.Running

/-!
Revisions of the program under a run: blocks are added or removed, the program
is cleared, or another one comes in. Of a scene with revisions and of the same
scene without them everything that the run reads stays equal, and an id that the
run still shares with the program was shared before. Parameters that are set do
reach a run, so the two scenes go on alike as long as the run shares their
blocks in both or in neither.
-/

namespace ArmProgram

variable {Time : Type}

namespace Program

structure Reworks (program edited : Program) (keep : Block → Bool) (more : List Block) :
    Prop where
  blocks : edited.blocks = program.blocks.filter keep ++ more
  found : ∀ block ∈ program.blocks, (edited.find? block.id).isSome = keep block

theorem find?_isSome (program : Program) (id : String) :
    (program.find? id).isSome = decide (id ∈ program.ids) := by
  rw [Bool.eq_iff_iff, decide_eq_true_iff, find?, List.find?_isSome]
  simp only [ids, List.mem_map, decide_eq_true_iff]

theorem append_reworks (program : Program) (block : Block) :
    program.Reworks (program.append block) (fun _ => true) [block] := by
  refine ⟨by simp [append], fun old member => ?_⟩
  rw [find?_isSome, ids_append]
  simp [List.mem_append, ids, List.mem_map_of_mem member]

theorem keep_reworks (program : Program) (keep : String → Bool) :
    program.Reworks ⟨program.blocks.filter (keep ·.id)⟩ (keep ·.id) [] := by
  refine ⟨by simp, fun old member => ?_⟩
  rw [find?_isSome, Bool.eq_iff_iff, decide_eq_true_iff]
  simp only [ids, List.mem_map, List.mem_filter]
  constructor
  · rintro ⟨block, ⟨_, kept⟩, same⟩
    rwa [same] at kept
  · exact fun kept => ⟨old, ⟨member, kept⟩, rfl⟩

theorem empty_reworks (program : Program) :
    program.Reworks .empty (fun _ => false) [] :=
  ⟨by simp [empty], fun _ _ => rfl⟩

/-- Every edit but that of a parameter keeps some of the blocks as they are. -/
theorem changed_reworks {program edited : Program} {change : Change}
    (structural : ∀ id name value, change ≠ .setParameter id name value)
    (made : program.changed? change = .ok edited) :
    ∃ keep more, program.Reworks edited keep more := by
  cases makes_of_changed made with
  | addBlock | addChild => exact ⟨_, _, append_reworks program _⟩
  | setParameter name value => exact absurd rfl (structural _ name value)
  | @removeBlock id =>
      let doomed := doomClosure program.blocks [id]
      exact ⟨_, _, keep_reworks program fun id => !doomed.contains id⟩
  | clear => exact ⟨_, _, empty_reworks program⟩

end Program

namespace Cell

theorem edit_shares {cell : Cell Time} {edited : Program} {keep : Block → Bool}
    {more : List Block} (reworks : cell.program.Reworks edited keep more) {id : String}
    (shared : (cell.edit edited).shares id = true) : cell.shares id = true := by
  have kept : (cell.program.blocks.take cell.shared).filter
        (fun block => (edited.find? block.id).isSome) =
      (cell.program.blocks.take cell.shared).filter keep :=
    List.filter_congr fun block member => reworks.found block (List.mem_of_mem_take member)
  -- What is kept of the shared blocks stands in front of all the rest.
  have split : edited.blocks = (cell.program.blocks.take cell.shared).filter keep ++
      ((cell.program.blocks.drop cell.shared).filter keep ++ more) := by
    rw [reworks.blocks, ← List.append_assoc, ← List.filter_append, List.take_append_drop]
  rw [shares_iff] at shared ⊢
  simp only [edit, kept, Program.ids, split, ← List.map_take, List.take_left] at shared ⊢
  exact (List.filter_sublist.map _).subset shared

end Cell

/-! The revisions. -/

inductive Revision where
  | addBlock (definition : String) (given : List (String × Value))
  | addChild (parent definition : String) (given : List (String × Value)) (slot : Option Slot)
  | removeBlock (id : String)
  | clear
  | importBlocks (blocks : List Block)

namespace Controller

variable {α : Type}

def takeIn (edit : Edit Time α) (controller : Controller Time) : Controller Time :=
  match edit.result with
  | .ok (draft, _) => controller.withDraft draft edit.entries
  | .error _ => controller

def revise (controller : Controller Time) : Revision → Controller Time
  | .addBlock definition given => controller.takeIn (controller.draft.addBlock definition given)
  | .addChild parent definition given slot =>
      controller.takeIn (controller.draft.addChild parent definition given slot)
  | .removeBlock id => controller.takeIn (controller.draft.remove id)
  | .clear => controller.clear
  | .importBlocks blocks => controller.importBlocks blocks

end Controller

/-! Cells that differ in their programs. -/

variable [TimeScale Time]

def ControllerGuise.revised : ControllerGuise Time where
  plan := id
  link := id
  fits _ := True
  back edited plain := plain.hooks = edited.hooks ∧
    ∀ id, edited.shares id = true → plain.shares id = true
  walks _ _ _ := rfl
  reports _ _ := rfl
  fits_step _ _ := trivial
  fits_same _ _ := trivial
  fits_put _ _ := trivial
  congr := by
    intro edited edited' plain plain' back first second
    refine ⟨by rw [first.hooks, second.hooks, back.1], fun id => ?_⟩
    rw [first.sameShare.shares, second.sameShare.shares]
    exact back.2 id
  heard := by
    intro edited edited' plain plain' id name value back first second
    refine ⟨by rw [first.hooks, second.hooks, back.1], fun id => ?_⟩
    rw [first.sameShare.shares, second.sameShare.shares]
    exact back.2 id
  flag := id
  suits _ := True
  hooks := id
  front _ _ := True
  front_congr _ _ _ := trivial

namespace ControllerGuise

theorem revised_wish (wish : Wish) : (revised : ControllerGuise Time).wish wish = wish := by
  cases wish <;> rfl

theorem revised_suits (wish : Wish) : (revised : ControllerGuise Time).Suits wish := by
  cases wish <;> trivial

theorem revised_caller (caller : Caller) : (revised : ControllerGuise Time).caller caller = caller := by
  unfold ControllerGuise.caller
  rw [revised_wish]

theorem revised_move (move : Move Time) : revised.move move = move := by
  cases move with
  | call errand => cases errand <;> rfl
  | _ => rfl

end ControllerGuise

namespace Cell

abbrev Twin (edited plain : Cell Time) : Prop :=
  ControllerGuise.revised.Cells edited plain

variable {edited plain : Cell Time}

/-- An edit in one of the cells: the run finds all as it was. -/
theorem Twin.edit {program : Program} {keep : Block → Bool} {more : List Block}
    (twin : Twin edited plain) (reworks : edited.program.Reworks program keep more) :
    Twin (edited.edit program) plain :=
  { twin with
    back := ⟨twin.back.1, fun id shared => twin.back.2 id (edit_shares reworks shared)⟩ }

theorem Twin.link (twin : Twin edited plain) (connected : Bool) :
    Twin { edited with arm := { edited.arm with connected } }
      { plain with arm := { plain.arm with connected } } :=
  { twin with arm := by rw [twin.arm]; rfl }

theorem Twin.applied? (twin : Twin edited plain) {effect : Effect}
    (heeds : ∀ id name value, effect = .set id name value → Heeds edited plain id) :
    Guise.Cells.Parallel ControllerGuise.revised.toGuise edited plain (edited.applied? effect)
      (plain.applied? effect) := by
  cases effect with
  | connect => exact .applied (twin.link true) ⟨rfl, rfl⟩ ⟨rfl, rfl⟩
  | disconnect =>
      exact .applied (Guise.Cells.log (twin.link false) _ _) ⟨rfl, rfl⟩ ⟨rfl, rfl⟩
  | abort | failOn name | set id name value => exact Guise.Cells.applied? twin rfl heeds

theorem Twin.apply (twin : Twin edited plain) {effect : Effect}
    (same : ∀ id name value, effect = .set id name value → edited.shares id = plain.shares id) :
    Twin (edited.apply effect) (plain.apply effect) := by
  cases effect with
  | connect => exact twin.link true
  | disconnect => exact Guise.Cells.log (twin.link false) _ _
  | abort | failOn name | set id name value => exact Guise.Cells.apply twin rfl same

theorem Twin.fire (hooks : List Hook) (twin : Twin edited plain)
    (heeds : ∀ hook ∈ hooks, ∀ id name value, hook.effect = .set id name value →
      Heeds edited plain id) :
    Twin (fire hooks edited).1 (fire hooks plain).1 ∧
      (fire hooks plain).2 = (fire hooks edited).2 := by
  induction hooks generalizing edited plain with
  | nil => exact ⟨twin, rfl⟩
  | cons hook rest ih =>
      have parallel := twin.applied? (heeds hook List.mem_cons_self)
      simp only [Cell.fire]
      generalize edited.applied? hook.effect = first at parallel ⊢
      generalize plain.applied? hook.effect = second at parallel ⊢
      cases parallel with
      | refused fault => exact ⟨twin, rfl⟩
      | applied twin left right =>
          exact ih twin fun later listed id name value set =>
            (heeds later (List.mem_cons_of_mem _ listed) id name value set).congr left right

def HeedsHooks (edited plain : Cell Time) : Prop :=
  ∀ hook ∈ edited.hooks, ∀ id name value, hook.effect = .set id name value →
    Heeds edited plain id

theorem Twin.fires (twin : Twin edited plain) (heeds : HeedsHooks edited plain) :
    Guise.Cells.Fires ControllerGuise.revised.toGuise edited plain := by
  have calls : plain.arm.calls = edited.arm.calls := by rw [twin.arm]; rfl
  unfold Guise.Cells.Fires fireHooks
  rw [twin.back.1, calls]
  exact twin.fire _ fun hook listed => heeds hook (List.mem_filter.mp listed).1

end Cell

/-! Controllers that differ in their programs. -/

namespace Controller

/-- Two controllers of the same run. What stands for the editor alone may differ:
the program, its numbering of ids, and whether it is to be confirmed. -/
abbrev Twin (edited plain : Controller Time) : Prop :=
  ControllerGuise.revised.Controllers edited plain

variable {edited plain : Controller Time}

theorem Twin.refl (controller : Controller Time) : Twin controller controller where
  cell := ⟨rfl, rfl, by cases controller.cell.run <;> rfl, fun _ _ => trivial, rfl, fun _ => id⟩
  target := rfl
  lastResult := rfl
  answers := rfl
  holder := by
    cases controller.holder with
    | none => rfl
    | some caller => exact congrArg some (ControllerGuise.revised_caller caller).symm
  queue := (List.map_id'' ControllerGuise.revised_caller controller.queue).symm
  suits caller _ := ControllerGuise.revised_suits caller.wish
  front := trivial

theorem Twin.sameLine (twin : Twin edited plain) :
    plain.holder = edited.holder ∧ plain.queue = edited.queue := by
  refine ⟨?_, twin.queue.trans (List.map_id'' ControllerGuise.revised_caller _)⟩
  rw [twin.holder]
  cases edited.holder with
  | none => rfl
  | some caller => exact congrArg some (ControllerGuise.revised_caller caller)

theorem Twin.withDraft {keep : Block → Bool} {more : List Block} {draft : Draft}
    (twin : Twin edited plain) (reworks : edited.cell.program.Reworks draft.program keep more)
    (entries : List (Entry Time)) : Twin (edited.withDraft draft entries) plain :=
  { twin with cell := { Cell.Twin.edit twin.cell reworks with }, front := trivial }

theorem Twin.takeIn {α : Type} (twin : Twin edited plain) {edit : Edit Time α} {change : Change}
    (structural : ∀ id name value, change ≠ .setParameter id name value)
    (made : Draft.outcome edit = (edited.cell.program.changed? change).mapError .program) :
    Twin (edited.takeIn edit) plain := by
  unfold Controller.takeIn
  unfold Draft.outcome at made
  cases result : edit.result with
  | error fault => exact twin
  | ok outcome =>
      obtain ⟨draft, value⟩ := outcome
      rw [result] at made
      cases changed : edited.cell.program.changed? change with
      | error fault => rw [changed] at made; cases made
      | ok program =>
          rw [changed] at made
          cases made
          obtain ⟨keep, more, reworks⟩ := Program.changed_reworks structural changed
          exact twin.withDraft reworks _

theorem Twin.revise (twin : Twin edited plain) (revision : Revision) :
    Twin (edited.revise revision) plain := by
  cases revision with
  | addBlock definition given =>
      exact twin.takeIn (by nofun) (edited.draft.addBlock_outcome definition given)
  | addChild parent definition given slot =>
      exact twin.takeIn (by nofun)
        (edited.draft.addChild_outcome parent definition given slot)
  | removeBlock id => exact twin.takeIn (by nofun) (edited.draft.remove_outcome id)
  | clear =>
      exact { twin with
        cell := Cell.Twin.edit twin.cell (Program.empty_reworks _), front := trivial }
  | importBlocks blocks =>
      have unshared (id : String) :
          (edited.importBlocks blocks).cell.shares id = true → plain.cell.shares id = true := by
        intro shared
        rw [Cell.shares_iff] at shared
        cases shared
      exact { twin with
        cell := { twin.cell with back := ⟨twin.cell.back.1, unshared⟩ }, front := trivial }

def Greets (edited plain : Controller Time) : Wish → Prop
  | .stop => True
  | .start simulate confirm =>
      edited.isRunning = true ∧
        edited.refusal? simulate confirm = plain.refusal? simulate confirm

theorem Greets.guise {wish : Wish} (greets : Greets edited plain wish) :
    ControllerGuise.revised.Greets edited plain wish := by
  cases wish with
  | stop => trivial
  | start simulate confirm => exact ⟨greets.2.symm, Or.inl greets.1⟩

end Controller

/-! Scenes that differ in their programs. -/

namespace Scene

variable {edited plain : Scene Time}

abbrev Twin (edited plain : Scene Time) : Prop :=
  ControllerGuise.revised.Scenes edited plain

theorem Twin.refl (scene : Scene Time) : Twin scene scene where
  controller := Controller.Twin.refl scene.controller
  past := (List.map_id scene.past).symm
  fits _ _ := trivial
  awaited := rfl
  callers := rfl
  stayers := rfl
  waiters := rfl
  doomed := rfl

theorem Twin.tasks (twin : Twin edited plain) : edited.tasks = plain.tasks :=
  ((ControllerGuise.Scenes.tasks twin).trans (List.map_id edited.tasks)).symm

theorem Twin.revise (twin : Twin edited plain) (revision : Revision) :
    Twin { edited with controller := edited.controller.revise revision } plain :=
  { twin with controller := Controller.Twin.revise twin.controller revision }

/-- What a move of the scene without revisions asks of the other one. A start is
not to launch a run, and nothing else is to be imported. -/
def Follows (edited plain : Scene Time) : Move Time → Prop
  | .call (.start simulate confirm) | .call (.run simulate confirm) =>
      edited.controller.holder = none → edited.controller.queue = [] →
        edited.controller.Greets plain.controller (.start simulate confirm)
  | .call (.importBlocks _) => False
  | .letIn => ∀ caller, edited.controller.queue.head? = some caller →
      edited.controller.Greets plain.controller caller.wish
  | .resume => ∀ caller, edited.controller.holder = some caller → caller.wish = .stop
  | .step _ => edited.controller.cell.HeedsHooks plain.controller.cell
  | .effect (.set id _ _) => edited.controller.cell.shares id = plain.controller.cell.shares id
  | _ => True

theorem Twin.goes (twin : Twin edited plain) {move : Move Time}
    (follows : edited.Follows plain move) :
    ControllerGuise.revised.Goes edited plain move := by
  have same := twin.controller.cell
  cases move with
  | call errand =>
      cases errand with
      | start simulate confirm | run simulate confirm =>
          exact ⟨trivial, fun free waits => (follows free waits).guise⟩
      | importBlocks blocks => exact follows.elim
      | stop | wait => trivial
  | letIn => exact fun caller first => (follows caller first).guise
  | resume =>
      intro caller held simulate confirm start
      cases (follows caller held).symm.trans start
  | step number =>
      intro run _
      have lent : Cell.Twin { edited.controller.cell with run }
          { plain.controller.cell with run := run.map ControllerGuise.revised.run } :=
        { same with run := rfl, fits := fun _ _ => trivial }
      exact lent.fires fun hook listed id name value set =>
        (follows hook listed id name value set).congr ⟨rfl, rfl⟩ ⟨rfl, rfl⟩
  | effect effect =>
      refine Cell.Twin.apply same fun id name value set => ?_
      subst set
      exact follows
  | arm latency failOn hooks =>
      exact { same with arm := by rw [same.arm]; rfl, back := ⟨rfl, same.back.2⟩ }
  | equip robot config => trivial
  | _ => trivial

theorem Twin.next (twin : Twin edited plain) {move : Move Time}
    (follows : edited.Follows plain move) : Twin (edited.next move) (plain.next move) := by
  have next := ControllerGuise.Scenes.next twin (Twin.goes twin follows)
  rwa [ControllerGuise.revised_move] at next

end Scene

/-! Runs with revisions and without. -/

inductive Occurrence (Time : Type) where
  | moves (move : Move Time)
  | revises (revision : Revision)

def Occurrence.isMove : Occurrence Time → Bool
  | moves _ => true
  | revises _ => false

namespace Scene

def undergo (scene : Scene Time) : Occurrence Time → Scene Time
  | .moves move => scene.next move
  | .revises revision => { scene with controller := scene.controller.revise revision }

def through (scene : Scene Time) (occurrences : List (Occurrence Time)) : Scene Time :=
  occurrences.foldl undergo scene

def allowsAll (scene : Scene Time) : List (Occurrence Time) → Bool
  | [] => true
  | .moves move :: rest => scene.allows move && (scene.next move).allowsAll rest
  | .revises revision :: rest => (scene.undergo (.revises revision)).allowsAll rest

/-- All moves of a sequence ask for the same in a scene that is revised on the way
and in one that is not. -/
def Accords (edited plain : Scene Time) : List (Occurrence Time) → Prop
  | [] => True
  | .moves move :: rest =>
      edited.Follows plain move ∧ Accords (edited.next move) (plain.next move) rest
  | .revises revision :: rest => Accords (edited.undergo (.revises revision)) plain rest

theorem Twin.through {edited plain : Scene Time} (twin : Twin edited plain)
    (occurrences : List (Occurrence Time)) (accords : edited.Accords plain occurrences) :
    Twin (edited.through occurrences) (plain.through (occurrences.filter (·.isMove))) ∧
      edited.allowsAll occurrences = plain.allowsAll (occurrences.filter (·.isMove)) := by
  induction occurrences generalizing edited plain with
  | nil => exact ⟨twin, rfl⟩
  | cons occurrence rest ih =>
      cases occurrence with
      | moves move =>
          obtain ⟨follows, accords⟩ := accords
          obtain ⟨later, same⟩ := ih (twin.next follows) accords
          refine ⟨later, ?_⟩
          have allowed := (ControllerGuise.Scenes.allows twin move).symm
          simp only [allowsAll, allowed, same, List.filter_cons, Occurrence.isMove, ↓reduceIte]
      | revises revision =>
          exact ih (Twin.revise twin revision) accords

def Leaves (plain : Scene Time) : Move Time → Prop
  | .call (.start ..) | .call (.run ..) =>
      plain.controller.holder = none → plain.controller.queue ≠ []
  | .call (.importBlocks _) => False
  | .letIn => ∀ caller, plain.controller.queue.head? = some caller → caller.wish = .stop
  | .resume => ∀ caller, plain.controller.holder = some caller → caller.wish = .stop
  | .step _ => plain.controller.cell.sparesProgram = true
  | .effect effect => effect.sparesProgram = true
  | _ => True

theorem Twin.follows {edited plain : Scene Time} (twin : Twin edited plain) {move : Move Time}
    (leaves : plain.Leaves move) : edited.Follows plain move := by
  obtain ⟨holder, queue⟩ := Controller.Twin.sameLine twin.controller
  have hooks := twin.controller.cell.back.1
  cases move with
  | call errand =>
      cases errand with
      | start simulate confirm | run simulate confirm =>
          exact fun free waits => absurd (queue.trans waits) (leaves (holder.trans free))
      | importBlocks blocks => exact leaves
      | stop | wait => trivial
  | letIn =>
      intro caller first
      rw [leaves caller (queue ▸ first)]
      trivial
  | resume => exact fun caller held => leaves caller (holder.trans held)
  | step number =>
      intro hook listed id name value set
      have spares := List.all_eq_true.mp leaves hook (hooks ▸ listed)
      rw [set] at spares
      cases spares
  | effect effect =>
      cases effect with
      | set id name value => cases leaves
      | abort | disconnect | connect | failOn name => trivial
  | _ => trivial

def LeavesAll (plain : Scene Time) : List (Occurrence Time) → Prop
  | [] => True
  | .moves move :: rest => plain.Leaves move ∧ (plain.next move).LeavesAll rest
  | .revises _ :: rest => plain.LeavesAll rest

/-- A run whose parameters nobody sets goes its way under all revisions. -/
theorem Twin.accords {edited plain : Scene Time} (twin : Twin edited plain)
    (occurrences : List (Occurrence Time)) (leaves : plain.LeavesAll occurrences) :
    edited.Accords plain occurrences := by
  induction occurrences generalizing edited plain with
  | nil => trivial
  | cons occurrence rest ih =>
      cases occurrence with
      | moves move =>
          have follows := twin.follows leaves.1
          exact ⟨follows, ih (twin.next follows) leaves.2⟩
      | revises revision =>
          exact ih (Twin.revise twin revision) leaves

/-- Revisions at any points of a run do not reach it: without them the same moves can
be made, at the same times come the same calls, and every run stands at the same
place with the same steps and has come to the same result. -/
theorem revisions_reach_no_run (scene : Scene Time) (occurrences : List (Occurrence Time))
    (accords : scene.Accords scene occurrences) :
    let edited := scene.through occurrences
    let plain := scene.through (occurrences.filter (·.isMove))
    scene.allowsAll occurrences = scene.allowsAll (occurrences.filter (·.isMove)) ∧
      edited.controller.cell.now = plain.controller.cell.now ∧
      edited.controller.cell.arm = plain.controller.cell.arm ∧
      edited.tasks = plain.tasks ∧
      edited.controller.phase = plain.controller.phase ∧
      edited.controller.lastResult = plain.controller.lastResult ∧
      edited.controller.answers = plain.controller.answers := by
  obtain ⟨twin, same⟩ := (Twin.refl scene).through occurrences accords
  have run := twin.controller.cell.run
  refine ⟨same, twin.controller.cell.now.symm, twin.controller.cell.arm.symm, Twin.tasks twin, ?_,
    twin.controller.lastResult.symm, twin.controller.answers.symm⟩
  unfold Controller.phase
  rw [run]
  cases (scene.through occurrences).controller.cell.run <;> rfl

/-- The block that a run is about to enter is removed, the program is cleared and
another one comes in; the run is aborted before that block as it would have been. -/
theorem revised_run_ends_alike :
    let scene : Scene Float :=
      (opening (.resting 0 true none) [] ⟨[⟨"grip", "open_gripper", .empty, none, none⟩]⟩
        .default (.limited ⟨true, false, true, true, true⟩) 1).next (.call (.start true false))
    let occurrences : List (Occurrence Float) :=
      [.moves (.step 0), .revises (.addBlock "home_robot" []), .moves (.step 0),
        .revises (.removeBlock "grip"), .revises .clear,
        .revises (.importBlocks [⟨"grip", "close_gripper", .empty, none, none⟩]),
        .moves (.effect .abort), .moves (.step 0)]
    scene.Accords scene occurrences ∧ scene.allowsAll occurrences = true ∧
      (scene.through occurrences).tasks =
        (scene.through (occurrences.filter (·.isMove))).tasks ∧
      (scene.through occurrences).controller.phase = .aborted := by
  intro scene occurrences
  have accords : scene.Accords scene occurrences :=
    (Twin.refl scene).accords occurrences ⟨rfl, rfl, rfl, rfl, trivial⟩
  obtain ⟨same, -, -, tasks, phase, -⟩ := revisions_reach_no_run scene occurrences accords
  refine ⟨accords, ?_, tasks, ?_⟩
  · rw [same]
    rfl
  · rw [phase]
    rfl

end Scene

end ArmProgram
