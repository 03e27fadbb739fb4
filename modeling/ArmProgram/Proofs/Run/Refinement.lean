import ArmProgram.Proofs.Run.Moment
import ArmProgram.Proofs.Run.Structured

/-!
The walk with its stack does what the nested recursion does. A position stands
for what is left of the recursion there: the stage for the rest of its block,
a frame for the rest of its list, the stack for all lists one after the other.
One event of a run and one action of the recursion then keep the same pace,
and a whole course is an induction on its events.
-/

namespace ArmProgram

variable {Time : Type}

namespace Job

open Script

def ofStage (job : Job) (node : Placed) : Stage → Script Time Unit
  | .arrive => do act .checkpoint; act .charge; job.body node; job.pace
  | .charge => do act .charge; job.body node; job.pace
  | .enter => do job.body node; job.pace
  | .iterate left => do repeated (job.exec (job.mainSide node)) left; job.pace
  | .chargeIteration left => do
      act .charge; job.exec (job.mainSide node); repeated (job.exec (job.mainSide node)) left; job.pace
  | .openIteration left => do
      job.exec (job.mainSide node); repeated (job.exec (job.mainSide node)) left; job.pace
  | .loop => do job.looped node; job.pace
  | .chargeLoop => do
      act .charge; job.exec (job.mainSide node); job.pace; job.looped node; job.pace
  | .openLoop => do job.exec (job.mainSide node); job.pace; job.looped node; job.pace
  | .paceLoop => do job.pace; job.looped node; job.pace
  | .leave => job.pace

def ofFrame (job : Job) (frame : Frame) : Script Time Unit :=
  match frame.pending with
  | [] => pure ()
  | node :: rest => do job.ofStage node frame.stage; job.exec rest

def ofStack (job : Job) : List Frame → Script Time Unit
  | [] => pure ()
  | frame :: below => do job.ofFrame frame; job.ofStack below

def ofPosition (job : Job) : Position → Script Time Unit
  | .entry => job.program
  | .homing => do
      act (.call .home)
      act (.delay (.double job.config.postHomeDelay))
      job.exec job.topLevel
  | .settling => do
      act (.delay (.double job.config.postHomeDelay))
      job.exec job.topLevel
  | .settled => job.exec job.topLevel
  | .walking stack => job.ofStack stack

def doing : Option Action → Script Time Unit
  | none => pure ()
  | some action => act action

def plan (job : Job) : Plan :=
  { index := .ofBlocks job.blocks
    abilities := job.abilities
    interBlockDelay := .double job.config.interBlockDelay
    postHomeDelay := .double job.config.postHomeDelay
    defaultWait := .double job.config.defaultWait }

/-! The index finds the children that the recursion filters out. -/

theorem index_topLevel (job : Job) : job.plan.index.topLevel = job.topLevel :=
  ChildIndex.members_ofPlaced (placed job.blocks) none

theorem index_children (job : Job) (id : String) (slot : Option Slot) :
    job.plan.index.children id slot =
      (placed job.blocks).filter fun entry =>
        entry.block.parent = some id && entry.block.inSlot slot := by
  have members := ChildIndex.members_ofPlaced (placed job.blocks) (some id)
  simp only [plan, ChildIndex.children, ChildIndex.ofBlocks, members, List.filter_filter]
  congr 1
  funext entry
  exact Bool.and_comm _ _

theorem index_mainSide (job : Job) (node : Placed) :
    job.plan.index.children node.block.id none = job.mainSide node :=
  index_children job node.block.id none

theorem index_branch (job : Job) (node : Placed) (holds : Bool) :
    job.plan.index.children node.block.id (some (Walk.branch holds)) =
      if holds then job.mainSide node else job.elseSide node := by
  cases holds with
  | true => exact index_children job node.block.id (some .thenSide)
  | false => exact index_children job node.block.id (some .elseSide)

/-! What is left at the positions that a step leads to. -/

theorem ofFrame_fresh (job : Job) (list : List Placed) :
    (job.ofFrame (.fresh list) : Script Time Unit) = job.exec list := by
  cases list with
  | nil => exact (exec_nil job).symm
  | cons node rest =>
      rw [exec_cons]
      simp only [Frame.fresh, ofFrame, ofStage, bind_assoc]

theorem ofStack_fresh (job : Job) (list : List Placed) (below : List Frame) :
    (job.ofStack (.fresh list :: below) : Script Time Unit) =
      (do job.exec list; job.ofStack below) := by
  rw [ofStack, ofFrame_fresh]

theorem ofStack_cons (job : Job) (node : Placed) (rest : List Placed) (stage : Stage)
    (below : List Frame) :
    (job.ofStack (⟨node :: rest, stage⟩ :: below) : Script Time Unit) =
      (do job.ofStage node stage; job.exec rest; job.ofStack below) :=
  bind_assoc _ _ _

theorem ofPosition_top (job : Job) :
    (job.ofPosition (.walking [.fresh job.plan.index.topLevel]) : Script Time Unit) =
      job.exec job.topLevel := by
  rw [ofPosition, ofStack_fresh, index_topLevel]
  exact bind_pure _

/-! A block that has no children does what its leaf in the walk does. -/

theorem body_plain (job : Job) (node : Placed) (plain : node.block.isControl = false) :
    (job.body node : Script Time Unit) = job.leaf node node.block.kind? := by
  rw [body_eq]
  unfold bodyBy
  unfold Block.isControl at plain
  cases known : node.block.kind? with
  | none => rfl
  | some kind =>
      rw [known] at plain
      cases kind <;> first | rfl | cases plain

theorem callIf_doing (able : Bool) (call : Call) :
    (callIf able call : Script Time Unit) = doing (Walk.callIf able call) := by
  cases able <;> rfl

section

variable (job : Job) (view : View) (upshots : List (Upshot Time)) (actions : List Action)
  (after : Script Time Unit)

theorem played_leaf (node : Placed) (kind : Option Kind) (notes : List Note)
    (action : Option Action)
    (found : Walk.leaf job.plan node (view node.place) kind = .ok (notes, action)) :
    (do job.leaf node kind; after : Script Time Unit).played view upshots actions =
      (do doing action; after : Script Time Unit).played view upshots actions := by
  match kind with
  | some .moveTo =>
      simp only [Walk.leaf] at found
      cases made : commandOfMove node.block.id (view node.place) with
      | error fault => rw [made] at found; cases found
      | ok pair =>
          obtain ⟨command, remarks⟩ := pair
          rw [made] at found
          cases found
          simp only [leaf, bind_assoc, played_parameters, made, reading_ok]
          cases command <;> rfl
  | some .waitSeconds =>
      simp only [Walk.leaf] at found
      cases waited : waitDuration ((view node.place).get? "seconds") job.plan.defaultWait with
      | error fault => rw [waited] at found; cases found
      | ok ms =>
          rw [waited] at found
          cases found
          simp only [plan] at waited
          simp only [leaf, bind_assoc, played_parameters, waited, reading_ok, doing]
  | some .openGripper | some .closeGripper | some .homeRobot =>
      cases found
      simp only [leaf, callIf_doing]
      rfl
  | none | some .repeatTimes | some .ifCondition | some .ifElse | some .whileLoop =>
      cases found
      rfl

theorem played_looped (node : Placed) :
    (do job.looped node; after : Script Time Unit).played view upshots actions =
      (if loopHolds ((view node.place).get? "condition") then do
        act .checkpoint
        act .charge
        job.exec (job.mainSide node)
        job.pace
        job.looped node
        after
      else after : Script Time Unit).played view upshots actions := by
  -- The body of the loop names the loop again; only the first is unrolled.
  conv => lhs; rw [looped_eq]
  simp only [bind_assoc, played_parameters]
  cases loopHolds ((view node.place).get? "condition") <;>
    simp only [Bool.false_eq_true, ↓reduceIte, pure_bind, bind_assoc]

theorem played_leaf_fault (node : Placed) (kind : Option Kind) (fault : CoercionFault)
    (found : Walk.leaf job.plan node (view node.place) kind = .error fault) :
    (do job.leaf node kind; after : Script Time Unit).played view upshots actions =
      (.error (.ended (.fault (.failed (.coercion fault)))), upshots, actions) := by
  match kind with
  | some .moveTo =>
      simp only [Walk.leaf] at found
      cases made : commandOfMove node.block.id (view node.place) with
      | error other =>
          rw [made] at found
          cases found
          simp only [leaf, bind_assoc, played_parameters, made, played_misread]
      | ok pair => rw [made] at found; cases found
  | some .waitSeconds =>
      simp only [Walk.leaf] at found
      cases waited : waitDuration ((view node.place).get? "seconds") job.plan.defaultWait with
      | error other =>
          rw [waited] at found
          cases found
          simp only [plan] at waited
          simp only [leaf, bind_assoc, played_parameters, waited, played_misread]
      | ok ms => rw [waited] at found; cases found
  | none | some .repeatTimes | some .ifCondition | some .ifElse | some .whileLoop
  | some .openGripper | some .closeGripper | some .homeRobot => cases found

end

/-! One step of the walk, and one action of what is left of the recursion. -/

theorem played_takes (job : Job) (view : View) (upshots : List (Upshot Time))
    (actions : List Action) (position : Position) (step : Step)
    (takes : Position.Takes job.plan view position step) :
    (job.ofPosition position).played view upshots actions =
      (do doing step.action; job.ofPosition step.next : Script Time Unit).played view upshots
        actions := by
  -- The parameters are read where a block is entered and where a loop comes
  -- round; at the other stages both sides are the same script.
  cases takes with
  | entry =>
      simp only [ofPosition, program, Step.act, doing]
      cases home : job.abilities.home with
      | true => simp only [plan, home, ↓reduceIte]
      | false =>
          have unhomed : job.plan.abilities.home = false := home
          simp only [unhomed, Bool.false_eq_true, ↓reduceIte]
          rw [← ofPosition_top job]
          rfl
  | homing => rfl
  | settling => rfl
  | settled =>
      simp only [Step.silent, doing, pure_bind, ofPosition_top]
      rfl
  | pop stage below => rfl
  | enterRepeat node rest below count kind counted =>
      simp only [ofPosition, ofStack_cons, ofStage, body_eq, bodyBy, kind, bind_assoc, played_parameters,
        counted, reading_ok, Step.silent, doing, pure_bind]
  | enterIf node rest below kind holds =>
      simp only [ofPosition, ofStack_cons, ofStack_fresh, ofStage, body_eq, bodyBy, kind, bind_assoc,
        played_parameters, holds, ↓reduceIte, Step.silent, doing, pure_bind, index_mainSide]
  | passIf node rest below kind fails =>
      simp only [ofPosition, ofStack_cons, ofStage, body_eq, bodyBy, kind, bind_assoc,
        played_parameters, fails, Bool.false_eq_true, ↓reduceIte, Step.silent, doing, pure_bind]
  | enterBranch node rest below kind =>
      simp only [ofPosition, ofStack_cons, ofStack_fresh, ofStage, body_eq, bodyBy, kind, bind_assoc,
        played_parameters, Step.silent, doing, pure_bind, index_branch]
      cases conditionHolds ((view node.place).get? "condition") <;>
        simp only [Bool.false_eq_true, ↓reduceIte]
  | enterWhile node rest below kind =>
      simp only [ofPosition, ofStack_cons, ofStage, body_eq, bodyBy, kind, Step.silent, doing, pure_bind]
  | leaf node rest below notes action plain found =>
      simp only [ofPosition, ofStack_cons, ofStage, body_plain job node plain, bind_assoc]
      exact played_leaf job view upshots actions _ node _ notes action found
  | iterateEnd node rest below =>
      simp only [ofPosition, ofStack_cons, ofStage, repeated, Step.silent, doing, pure_bind]
  | iterate node rest below left =>
      simp only [ofPosition, ofStack_cons, ofStage, repeated, Step.act, doing, bind_assoc]
  | openIteration node rest below left =>
      simp only [ofPosition, ofStack_cons, ofStack_fresh, ofStage, Step.silent, doing, bind_assoc,
        pure_bind, index_mainSide]
  | loop node rest below holds =>
      simp only [ofPosition, ofStack_cons, ofStage, bind_assoc, played_looped, holds,
        ↓reduceIte, Step.act, doing]
  | loopEnd node rest below fails =>
      simp only [ofPosition, ofStack_cons, ofStage, bind_assoc, played_looped, fails,
        Bool.false_eq_true, ↓reduceIte, Step.silent, doing, pure_bind]
  | openLoop node rest below =>
      simp only [ofPosition, ofStack_cons, ofStack_fresh, ofStage, Step.silent, doing, bind_assoc,
        pure_bind, index_mainSide]
  | arrive node rest below | charge node rest below | chargeIteration node rest below left
  | chargeLoop node rest below =>
      simp only [ofPosition, ofStack_cons, ofStage, Step.act, doing, bind_assoc]
  | paceLoop node rest below =>
      simp only [ofPosition, ofStack_cons, ofStage, Step.act, doing, bind_assoc, pace]
      rfl
  | leave node rest below =>
      simp only [ofPosition, ofStack_cons, ofStack_fresh, ofStage, Step.act, doing]
      rfl

theorem played_misstep (job : Job) (view : View) (upshots : List (Upshot Time))
    (actions : List Action) (position : Position) (fault : CoercionFault)
    (stepped : position.step? job.plan view = some (.error fault)) :
    (job.ofPosition position).played view upshots actions =
      (.error (.ended (.fault (.failed (.coercion fault)))), upshots, actions) := by
  obtain ⟨node, rest, below, rfl, cause⟩ := Position.step?_fault job.plan view position fault stepped
  simp only [ofPosition, ofStack_cons, ofStage]
  rcases cause with ⟨kind, counted⟩ | ⟨plain, found⟩
  · simp only [body_eq, bodyBy, kind, bind_assoc, played_parameters, counted, played_misread]
  · simp only [body_plain job node plain, bind_assoc]
    exact played_leaf_fault job view upshots actions _ node _ fault found

theorem played_end (job : Job) (view : View) (upshots : List (Upshot Time))
    (actions : List Action) (position : Position)
    (stepped : position.step? job.plan view = none) :
    (job.ofPosition position).played view upshots actions = (.ok (), upshots, actions) := by
  match position with
  | .walking [] => rfl
  | .walking (⟨[], _⟩ :: _) | .walking (⟨_ :: _, _⟩ :: _) | .entry | .homing | .settling
  | .settled => cases stepped

end Job

/-! What a course shows: the actions of the run, and how each of them ended. -/

def Ending.outcome : Ending Time → Except (Halt Time) Unit
  | .completed => .ok ()
  | ending => .error (.ended ending)

namespace Run

def action? (run : Run Time) : Option Action :=
  match run.activity with
  | .moving position =>
      match position.step? run.plan run.view with
      | some (.ok step) => step.action
      | _ => none
  | _ => none

def awaits (run : Run Time) : Bool :=
  match run.activity with
  | .pausing .. | .rousing .. | .calling .. => true
  | _ => false

def upshot? (before after : Run Time) : Option (Upshot Time) :=
  if before.awaits || before.action?.isSome then
    match after.activity with
    | .moving _ => some (.goesOn after.view)
    | .ended ending => some (.raises ending)
    | _ => none
  else none

/-- Whether a run has begun and is not between two of its steps. -/
def isSettled (run : Run Time) : Bool :=
  match run.activity with
  | .unstarted | .moving _ | .ended .dropped => false
  | _ => true

def outcome (run : Run Time) : Except (Halt Time) Unit :=
  match run.activity with
  | .ended ending => ending.outcome
  | _ => .error .awaiting

end Run

namespace Course

variable [TimeScale Time]

def actions {first last : Moment Time} : Course first last → List Action
  | .here _ => []
  | .next _ _ rest => first.run.action?.toList ++ rest.actions

def upshots {first last : Moment Time} : Course first last → List (Upshot Time)
  | .here _ => []
  | @next _ _ first middle _ _ _ rest =>
      (first.run.upshot? middle.run).toList ++ rest.upshots

end Course

namespace Job

open Script

def ofRun (job : Job) (run : Run Time) : Script Time Unit :=
  match run.activity with
  | .unstarted | .ended .dropped => job.program
  | .moving position => job.ofPosition position
  | .pausing _ next | .rousing _ next | .calling _ _ next => do reply; job.ofPosition next
  | .ended ending => fun tape => (ending.outcome, tape)

/-- Between two actions a walk comes to its next action or to its end, since
every step without an action makes it lighter. -/
theorem played_onwards (job : Job) (view : View) (actions : List Action) (position : Position) :
    ∃ (result : Except (Halt Time) Unit) (more : List Action),
      (job.ofPosition position).played view [] actions = (result, [], actions ++ more) := by
  match stepped : position.step? job.plan view with
  | none =>
      refine ⟨.ok (), [], ?_⟩
      rw [List.append_nil]
      exact played_end job view [] actions position stepped
  | some (.error fault) =>
      refine ⟨.error (.ended (.fault (.failed (.coercion fault)))), [], ?_⟩
      rw [List.append_nil]
      exact played_misstep job view [] actions position fault stepped
  | some (.ok ⟨notes, some action, next⟩) =>
      -- No upshot is left, so the play stops at the first action.
      have taken := played_takes job view ([] : List (Upshot Time)) actions position _
        (Position.step?_takes _ _ _ _ stepped)
      refine ⟨.error .awaiting, [action], taken.trans ?_⟩
      simp only [doing, played_act, played_awaiting]
  | some (.ok ⟨notes, none, next⟩) =>
      have taken := played_takes job view ([] : List (Upshot Time)) actions position _
        (Position.step?_takes _ _ _ _ stepped)
      have lighter := step_weight job.plan view position _ stepped rfl
      obtain ⟨result, more, comes⟩ := played_onwards job view actions next
      exact ⟨result, more, taken.trans comes⟩
termination_by position.weight job.plan.index

theorem played_last (job : Job) (actions : List Action) (run : Run Time) :
    ∃ (result : Except (Halt Time) Unit) (more : List Action),
      (job.ofRun run).played run.view [] actions = (result, [], actions ++ more) ∧
        (run.isSettled = true → more = [] ∧ result = run.outcome) := by
  unfold ofRun Run.isSettled Run.outcome
  -- Only a run that has not begun or that is between two steps can do more.
  cases activity : run.activity with
  | unstarted =>
      obtain ⟨result, more, comes⟩ := played_onwards job run.view actions .entry
      exact ⟨result, more, comes, fun unsettled => by cases unsettled⟩
  | moving position =>
      obtain ⟨result, more, comes⟩ := played_onwards job run.view actions position
      exact ⟨result, more, comes, fun unsettled => by cases unsettled⟩
  | pausing pause next | rousing turns next | calling call due next =>
      refine ⟨_, [], ?_, fun _ => ⟨rfl, rfl⟩⟩
      rw [List.append_nil]
      exact played_awaiting _ _ actions
  | ended ending =>
      cases ending with
      | dropped =>
          obtain ⟨result, more, comes⟩ := played_onwards job run.view actions .entry
          exact ⟨result, more, comes, fun unsettled => by cases unsettled⟩
      | completed | fault | cancelled =>
          refine ⟨_, [], ?_, fun _ => ⟨rfl, rfl⟩⟩
          rw [List.append_nil]
          rfl

section

variable (job : Job) (upshots : List (Upshot Time)) (actions : List Action)

theorem played_program_view (view other : View) :
    (job.program : Script Time Unit).played view upshots actions =
      (job.program : Script Time Unit).played other upshots actions := by
  unfold program
  rw [played_act, played_act]
  exact played_reply_view _ view upshots (actions ++ [.checkpoint]) other

theorem played_quiet {before after : Run Time} (awaits : before.awaits = false)
    (idle : before.action? = none)
    (same : (job.ofRun before).played before.view upshots actions =
      (job.ofRun after).played after.view upshots actions) :
    (job.ofRun before).played before.view ((before.upshot? after).toList ++ upshots) actions =
      (job.ofRun after).played after.view upshots (actions ++ before.action?.toList) := by
  have silent : before.upshot? after = none := by simp [Run.upshot?, awaits, idle]
  rw [silent, idle, Option.toList_none, Option.toList_none, List.nil_append, List.append_nil]
  exact same

/-- Others change nothing of what is left for a run that is suspended, whatever
they do to its parameters. -/
theorem played_still {before after : Run Time} (suspended : before.isOpen = true)
    (same : after.activity = before.activity) :
    (job.ofRun before).played before.view ((before.upshot? after).toList ++ upshots) actions =
      (job.ofRun after).played after.view upshots (actions ++ before.action?.toList) := by
  cases activity : before.activity with
  | unstarted =>
      apply played_quiet
      · simp only [Run.awaits, activity]
      · simp only [Run.action?, activity]
      · simp only [ofRun, same, activity]
        exact played_program_view job upshots actions _ _
  | moving position => simp [Run.isOpen, activity] at suspended
  | pausing pause next | rousing turns next | calling call due next =>
      simp only [ofRun, Run.upshot?, Run.awaits, Run.action?, same, activity, Bool.true_or,
        ↓reduceIte, Option.toList_none, List.nil_append, List.append_nil]
      exact played_reply_view _ _ upshots actions _
  | ended ending =>
      apply played_quiet
      · simp only [Run.awaits, activity]
      · simp only [Run.action?, activity]
      · simp only [ofRun, same, activity]
        cases ending with
        | dropped => exact played_program_view job upshots actions _ _
        | completed | fault | cancelled => rfl

/-- A run that takes an action awaits its upshot, which may come at once. -/
theorem played_acting {run : Run Time} (planned : run.plan = job.plan)
    {position next : Position} {notes : List Note} {action : Action}
    (activity : run.activity = .moving position)
    (stepped : position.step? run.plan run.view = some (.ok ⟨notes, some action, next⟩)) :
    run.action? = some action ∧ (job.ofRun run).played run.view upshots actions =
      (do reply; job.ofPosition next : Script Time Unit).played run.view upshots
        (actions ++ [action]) := by
  constructor
  · simp only [Run.action?, activity, stepped]
  · rw [planned] at stepped
    simp only [ofRun, activity]
    exact played_takes job run.view upshots actions position _
      (Position.step?_takes _ _ _ _ stepped)

variable [TimeScale Time]

theorem played_steps {now : Time} {connected : Bool} {before after : Run Time}
    {call : Option Call} (planned : before.plan = job.plan)
    (steps : Run.Steps now connected before after call) :
    (job.ofRun before).played before.view ((before.upshot? after).toList ++ upshots) actions =
      (job.ofRun after).played after.view upshots (actions ++ before.action?.toList) := by
  cases steps with
  | begin activity =>
      apply played_quiet
      · simp only [Run.awaits, activity]
      · simp only [Run.action?, activity]
      · simp only [ofRun, activity]
        rfl
  | complete activity stepped =>
      apply played_quiet
      · simp only [Run.awaits, activity]
      · simp only [Run.action?, activity, stepped]
      · simp only [ofRun, activity]
        exact played_end job before.view upshots actions _ (planned ▸ stepped)
  | misread activity stepped =>
      apply played_quiet
      · simp only [Run.awaits, activity]
      · simp only [Run.action?, activity, stepped]
      · simp only [ofRun, activity]
        exact played_misstep job before.view upshots actions _ _ (planned ▸ stepped)
  | silent activity stepped =>
      apply played_quiet
      · simp only [Run.awaits, activity]
      · simp only [Run.action?, activity, stepped]
      · simp only [ofRun, activity]
        exact played_takes job before.view upshots actions _ _
          (Position.step?_takes _ _ _ _ (planned ▸ stepped))
  -- The upshot of a checkpoint, of a charge and of a refused delay is there at once.
  | cleared activity stepped | charged activity stepped =>
      obtain ⟨action, taken⟩ := played_acting job (_ :: upshots) actions planned activity stepped
      simp only [Run.upshot?, action, Option.isSome_some, Bool.or_true, ↓reduceIte]
      exact taken.trans (played_goesOn _ _ upshots _ _)
  | halted activity stepped | lost activity stepped | limited activity stepped
  | refused activity stepped =>
      obtain ⟨action, taken⟩ := played_acting job (_ :: upshots) actions planned activity stepped
      simp only [Run.upshot?, action, Option.isSome_some, Bool.or_true, ↓reduceIte]
      exact taken.trans (played_raises _ _ upshots _ _)
  | delayed activity stepped | called activity stepped =>
      obtain ⟨action, taken⟩ := played_acting job upshots actions planned activity stepped
      simp only [Run.upshot?, action, Option.isSome_some, Bool.or_true, ↓reduceIte]
      exact taken
  | stirred activity | startled turns activity | rousing activity =>
      simp only [ofRun, Run.upshot?, Run.awaits, Run.action?, activity, Bool.true_or, ↓reduceIte,
        Option.toList_none, List.nil_append, List.append_nil]
      rfl
  | woken activity | overslept activity | roused activity =>
      simp only [ofRun, Run.upshot?, Run.awaits, Run.action?, activity, Bool.true_or, ↓reduceIte,
        Option.toList_none, List.append_nil]
      rfl

theorem played_next {before after : Moment Time} {event : Event Time}
    (planned : before.run.plan = job.plan) (happens : before.Next event after) :
    (job.ofRun before.run).played before.run.view
        ((before.run.upshot? after.run).toList ++ upshots) actions =
      (job.ofRun after.run).played after.run.view upshots
        (actions ++ before.run.action?.toList) := by
  cases happens with
  | step ready => exact played_steps job upshots actions planned (Run.step_steps _ _ _ ready)
  | lasts later activity | returns activity | raises fault activity =>
      simp only [ofRun, Run.upshot?, Run.awaits, Run.action?, activity, Bool.true_or, ↓reduceIte,
        Option.toList_none, List.append_nil]
      rfl
  | cancel suspended =>
      rename_i run
      cases activity : run.activity with
      | unstarted =>
          apply played_quiet
          · simp only [Run.awaits, activity]
          · simp only [Run.action?, activity]
          · simp only [ofRun, Run.cancel, activity]
            rfl
      | moving position => simp [Run.isOpen, activity] at suspended
      | pausing pause next | rousing turns next | calling call due next =>
          simp only [ofRun, Run.upshot?, Run.awaits, Run.action?, Run.cancel, activity,
            Bool.true_or, ↓reduceIte, Option.toList_none, List.append_nil]
          rfl
      | ended ending =>
          simp only [Run.cancel_of_ended activity]
          exact played_still job upshots actions suspended rfl
  | abort suspended | connection reported suspended | edit place parameters suspended =>
      exact played_still job upshots actions suspended rfl
  | pass later waiting =>
      exact played_still job upshots actions (Run.isOpen_of_waits _ _ _ waiting) rfl
  | expire activity => exact played_still job upshots actions (by simp [Run.isOpen, activity]) rfl

/-- All that a run does along a course is what the program does with the same
upshots, up to what is left of it then. -/
theorem played_course {first last : Moment Time} (course : Course first last)
    (planned : first.run.plan = job.plan) :
    (job.ofRun first.run).played first.run.view (course.upshots ++ upshots) actions =
      (job.ofRun last.run).played last.run.view upshots (actions ++ course.actions) := by
  -- From the front, so that what is done so far stays at the front of the tape.
  induction course generalizing actions with
  | here moment => simp only [Course.upshots, Course.actions, List.nil_append, List.append_nil]
  | next event happens rest ih =>
      have still := (Moment.next_terms happens).plan.trans planned
      simp only [Course.upshots, Course.actions, List.append_assoc]
      rw [played_next job _ actions planned happens, ih _ still, List.append_assoc]

end

end Job

/-- Every run of every program takes the actions of the nested recursion, in
the same order and with the same results: what it has done is always a first
part of what the recursion does, and once it is suspended or has ended the
recursion has done as much and stands at the same action or the same ending. -/
theorem run_follows_recursion [TimeScale Time] (now : Time) (connected : Bool)
    (blocks : List Block) (abilities : Abilities) (config : Config) (token : Token Time)
    (view : View) {last : Moment Time}
    (course : Course (Moment.initial now connected blocks abilities config token) last) :
    ∃ result more,
      (Job.program ⟨blocks, abilities, config⟩).played view course.upshots [] =
          (result, [], course.actions ++ more) ∧
        (last.run.isSettled = true → more = [] ∧ result = last.run.outcome) := by
  let job : Job := ⟨blocks, abilities, config⟩
  have played := job.played_course [] [] course rfl
  obtain ⟨result, more, comes, settled⟩ := job.played_last course.actions last.run
  refine ⟨result, more, ?_, settled⟩
  rw [job.played_program_view course.upshots [] view (Run.prepare blocks abilities config token).view]
  rw [List.append_nil, List.nil_append] at played
  exact played.trans comes

end ArmProgram
