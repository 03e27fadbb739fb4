import ArmProgram.Arm.Basic
import ArmProgram.Block.Index

/-!
The walk of a run through a block list. A stack of frames, one per list being
run, stands for the nesting; each step takes the top frame on, emits at most
one action, and pushes or pops at most one frame. Parameters are looked up
when a block is entered and, for a loop, before every iteration, so edits
made in between are seen.

The weight of a walk drops with every step that does not charge the budget,
which is what bounds the steps between two charges.
-/

namespace ArmProgram

inductive Action where
  | checkpoint
  | charge
  | call (call : Call)
  | delay (ms : Number)
  deriving Repr

inductive Note where
  | homing
  | skipped (definition id : String)
  | move (remark : Remark)
  deriving Repr

/-- How a run looks at the connection: not at all, through the robot, or at
a robot that tells nothing and counts as disconnected. -/
inductive Probe where
  | off
  | robot
  | silent
  deriving Repr, DecidableEq, Inhabited

def Probe.reports (connected : Bool) : Probe → Bool
  | off => true
  | robot => connected
  | silent => false

structure Abilities where
  home : Bool
  openGripper : Bool
  closeGripper : Bool
  probe : Probe
  deriving Repr, DecidableEq, Inhabited

/-- What stays fixed while a program runs. Delays are in milliseconds. -/
structure Plan where
  index : ChildIndex
  abilities : Abilities
  interBlockDelay : Number
  postHomeDelay : Number
  defaultWait : Number
  deriving Inhabited

abbrev View := Nat → Parameters

inductive Stage where
  | arrive
  | charge
  | enter
  | iterate (left : Nat)
  | chargeIteration (left : Nat)
  | openIteration (left : Nat)
  | loop
  | chargeLoop
  | openLoop
  | paceLoop
  | leave
  deriving Repr, DecidableEq

structure Frame where
  pending : List Placed
  stage : Stage
  deriving Repr

def Frame.fresh (blocks : List Placed) : Frame :=
  ⟨blocks, .arrive⟩

inductive Position where
  | entry
  | homing
  | settling
  | settled
  | walking (stack : List Frame)
  deriving Repr

structure Step where
  notes : List Note
  action : Option Action
  next : Position

namespace Step

def silent (next : Position) : Step := ⟨[], none, next⟩

def act (action : Action) (next : Position) : Step := ⟨[], some action, next⟩

end Step

namespace Walk

def callIf (able : Bool) (call : Call) : Option Action :=
  if able then some (.call call) else none

def leaf (plan : Plan) (node : Placed) (parameters : Parameters) :
    Option Kind → Except CoercionFault (List Note × Option Action)
  | some .moveTo =>
      (commandOfMove node.block.id parameters).map fun found =>
        (found.2.map .move, found.1.map fun command => .call (.moveJoints [command]))
  | some .waitSeconds =>
      (waitDuration (parameters.get? "seconds") plan.defaultWait).map fun ms =>
        ([], some (.delay ms))
  | some .openGripper => .ok ([], callIf plan.abilities.openGripper .openGripper)
  | some .closeGripper => .ok ([], callIf plan.abilities.closeGripper .closeGripper)
  | some .homeRobot => .ok ([], callIf plan.abilities.home .home)
  | _ => .ok ([.skipped node.block.definition node.block.id], none)

def branch (holds : Bool) : Slot :=
  if holds then .thenSide else .elseSide

def enter (plan : Plan) (view : View) (node : Placed) (rest : List Placed)
    (below : List Frame) : Except CoercionFault Step :=
  let parameters := view node.place
  let here (stage : Stage) : Frame := ⟨node :: rest, stage⟩
  match node.block.kind? with
  | some .repeatTimes =>
      (repeatCount (parameters.get? "times")).map fun count =>
        .silent (.walking (here (.iterate count) :: below))
  | some .ifCondition =>
      if conditionHolds (parameters.get? "condition") then
        .ok (.silent (.walking
          (.fresh (plan.index.children node.block.id none) :: here .leave :: below)))
      else .ok (.silent (.walking (here .leave :: below)))
  | some .ifElse =>
      let slot := branch (conditionHolds (parameters.get? "condition"))
      .ok (.silent (.walking
        (.fresh (plan.index.children node.block.id (some slot)) :: here .leave :: below)))
  | some .whileLoop => .ok (.silent (.walking (here .loop :: below)))
  | kind =>
      (leaf plan node parameters kind).map fun found =>
        ⟨found.1, found.2, .walking (here .leave :: below)⟩

def advance (plan : Plan) (view : View) (node : Placed) (rest : List Placed) (stage : Stage)
    (below : List Frame) : Except CoercionFault Step :=
  let here (stage : Stage) : Frame := ⟨node :: rest, stage⟩
  let children := plan.index.children node.block.id none
  match stage with
  | .arrive => .ok (.act .checkpoint (.walking (here .charge :: below)))
  | .charge => .ok (.act .charge (.walking (here .enter :: below)))
  | .enter => enter plan view node rest below
  | .iterate 0 => .ok (.silent (.walking (here .leave :: below)))
  | .iterate (left + 1) =>
      .ok (.act .checkpoint (.walking (here (.chargeIteration left) :: below)))
  | .chargeIteration left =>
      .ok (.act .charge (.walking (here (.openIteration left) :: below)))
  | .openIteration left =>
      .ok (.silent (.walking (.fresh children :: here (.iterate left) :: below)))
  | .loop =>
      if loopHolds ((view node.place).get? "condition") then
        .ok (.act .checkpoint (.walking (here .chargeLoop :: below)))
      else .ok (.silent (.walking (here .leave :: below)))
  | .chargeLoop => .ok (.act .charge (.walking (here .openLoop :: below)))
  | .openLoop => .ok (.silent (.walking (.fresh children :: here .paceLoop :: below)))
  | .paceLoop =>
      .ok (.act (.delay plan.interBlockDelay) (.walking (here .loop :: below)))
  | .leave =>
      .ok (.act (.delay plan.interBlockDelay) (.walking (.fresh rest :: below)))

end Walk

namespace Position

def step? (plan : Plan) (view : View) : Position → Option (Except CoercionFault Step)
  | entry =>
      let next := if plan.abilities.home then homing
        else walking [.fresh plan.index.topLevel]
      some (.ok (.act .checkpoint next))
  | homing => some (.ok ⟨[.homing], some (.call .home), settling⟩)
  | settling => some (.ok (.act (.delay plan.postHomeDelay) settled))
  | settled => some (.ok (.silent (walking [.fresh plan.index.topLevel])))
  | walking [] => none
  | walking (⟨[], _⟩ :: below) => some (.ok (.silent (walking below)))
  | walking (⟨node :: rest, stage⟩ :: below) =>
      some (Walk.advance plan view node rest stage below)

end Position

/-! Weights. -/

def freshWeight (blocks : List Placed) : Nat :=
  2 * blocks.length + 1

def childWeight (index : ChildIndex) (node : Placed) : Nat :=
  freshWeight (index.children node.block.id none) +
    freshWeight (index.children node.block.id (some .thenSide)) +
    freshWeight (index.children node.block.id (some .elseSide))

def Stage.weight (index : ChildIndex) (node : Placed) : Stage → Nat
  | arrive => 2
  | charge => 1
  | enter => childWeight index node + 8
  | iterate _ => 3
  | chargeIteration _ => 2
  | openIteration _ => childWeight index node + 4
  | loop => 5
  | chargeLoop => 4
  | openLoop => childWeight index node + 7
  | paceLoop => 6
  | leave => 1

def Frame.weight (index : ChildIndex) (frame : Frame) : Nat :=
  match frame.pending with
  | [] => 1
  | node :: rest => 2 * rest.length + 1 + frame.stage.weight index node

def stackWeight (index : ChildIndex) : List Frame → Nat
  | [] => 0
  | frame :: below => frame.weight index + stackWeight index below

def Position.weight (index : ChildIndex) : Position → Nat
  | entry => freshWeight index.topLevel + 4
  | homing => freshWeight index.topLevel + 3
  | settling => freshWeight index.topLevel + 2
  | settled => freshWeight index.topLevel + 1
  | walking stack => stackWeight index stack

def Step.charges (step : Step) : Bool :=
  match step.action with
  | some .charge => true
  | _ => false

theorem fresh_weight (index : ChildIndex) (blocks : List Placed) :
    (Frame.fresh blocks).weight index = freshWeight blocks := by
  cases blocks with
  | nil => rfl
  | cons node rest =>
      simp only [Frame.fresh, Frame.weight, Stage.weight, freshWeight, List.length_cons]
      omega

theorem frame_weight (index : ChildIndex) (node : Placed) (rest : List Placed) (stage : Stage) :
    (⟨node :: rest, stage⟩ : Frame).weight index =
      2 * rest.length + 1 + stage.weight index node := rfl

theorem stackWeight_cons (index : ChildIndex) (frame : Frame) (below : List Frame) :
    stackWeight index (frame :: below) = frame.weight index + stackWeight index below :=
  rfl

theorem enter_weight (plan : Plan) (view : View) (node : Placed) (rest : List Placed)
    (below : List Frame) (step : Step) (stepped : Walk.enter plan view node rest below = .ok step) :
    step.next.weight plan.index <
      stackWeight plan.index (⟨node :: rest, .enter⟩ :: below) := by
  unfold Walk.enter at stepped
  simp only at stepped
  split at stepped
  · cases count : repeatCount ((view node.place).get? "times") with
    | error fault => rw [count] at stepped; cases stepped
    | ok count' =>
        rw [count] at stepped
        cases stepped
        simp only [Step.silent, Position.weight, stackWeight_cons, frame_weight, Stage.weight]
        omega
  · split at stepped
    · cases stepped
      simp only [Step.silent, Position.weight, stackWeight_cons, fresh_weight, frame_weight,
        Stage.weight, childWeight]
      omega
    · cases stepped
      simp only [Step.silent, Position.weight, stackWeight_cons, frame_weight, Stage.weight]
      omega
  · cases stepped
    cases conditionHolds ((view node.place).get? "condition") <;>
      simp only [Step.silent, Position.weight, stackWeight_cons, fresh_weight, frame_weight,
        Stage.weight, childWeight, Walk.branch, ↓reduceIte, Bool.false_eq_true] <;>
      omega
  · cases stepped
    simp only [Step.silent, Position.weight, stackWeight_cons, frame_weight, Stage.weight]
    omega
  · cases found : Walk.leaf plan node (view node.place) node.block.kind? with
    | error fault => rw [found] at stepped; cases stepped
    | ok found' =>
        rw [found] at stepped
        cases stepped
        simp only [Position.weight, stackWeight_cons, frame_weight, Stage.weight]
        omega

/-- A step that charges nothing makes the walk lighter. -/
theorem step_weight (plan : Plan) (view : View) (position : Position) (step : Step)
    (stepped : position.step? plan view = some (.ok step)) (free : step.charges = false) :
    step.next.weight plan.index < position.weight plan.index := by
  cases position with
  | entry =>
      simp only [Position.step?, Option.some.injEq, Except.ok.injEq] at stepped
      subst stepped
      simp only [Step.act]
      split <;> simp only [Position.weight, stackWeight, fresh_weight] <;> omega
  | homing =>
      simp only [Position.step?, Option.some.injEq, Except.ok.injEq] at stepped
      subst stepped
      simp only [Position.weight]
      omega
  | settling =>
      simp only [Position.step?, Option.some.injEq, Except.ok.injEq] at stepped
      subst stepped
      simp only [Step.act, Position.weight]
      omega
  | settled =>
      simp only [Position.step?, Option.some.injEq, Except.ok.injEq] at stepped
      subst stepped
      simp only [Step.silent, Position.weight, stackWeight, fresh_weight]
      omega
  | walking stack =>
      cases stack with
      | nil => simp [Position.step?] at stepped
      | cons frame below =>
          obtain ⟨pending, stage⟩ := frame
          cases pending with
          | nil =>
              simp only [Position.step?, Option.some.injEq, Except.ok.injEq] at stepped
              subst stepped
              simp only [Step.silent, Position.weight, stackWeight_cons, Frame.weight]
              omega
          | cons node rest =>
              simp only [Position.step?, Option.some.injEq] at stepped
              unfold Walk.advance at stepped
              simp only at stepped
              split at stepped
              case h_2 => cases stepped; simp [Step.charges, Step.act] at free
              case h_3 => exact enter_weight plan view node rest below step stepped
              case h_6 => cases stepped; simp [Step.charges, Step.act] at free
              case h_8 =>
                split at stepped <;> cases stepped <;>
                  simp only [Step.silent, Step.act, Position.weight, stackWeight_cons,
                    frame_weight, Stage.weight] <;> omega
              case h_9 => cases stepped; simp [Step.charges, Step.act] at free
              all_goals
                cases stepped
                simp only [Step.silent, Step.act, Position.weight, stackWeight_cons,
                  fresh_weight, frame_weight, Stage.weight, childWeight, freshWeight]
                omega

end ArmProgram
