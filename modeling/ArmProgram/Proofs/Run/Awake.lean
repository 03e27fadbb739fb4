import ArmProgram.Proofs.Block.Liveness
import ArmProgram.Proofs.Run.Moves

/-!
Walks through the live blocks of a list. A walk comes only to live blocks: it
starts with those at the top, and what it puts on its stack are children that a
block on the stack runs. So the walk through the live blocks alone takes the same
steps, at places that count only those.
-/

namespace ArmProgram

variable {blocks : List Block}

def Stage.Suits (block : Block) : Stage → Prop
  | iterate _ | chargeIteration _ | openIteration _ => block.kind? = some .repeatTimes
  | loop | chargeLoop | openLoop | paceLoop => block.kind? = some .whileLoop
  | arrive | charge | enter | leave => True

structure Frame.IsAwake (blocks : List Block) (frame : Frame) : Prop where
  live : ∀ node ∈ frame.pending, node.block.IsLive blocks
  suited : ∀ node ∈ frame.pending.head?, frame.stage.Suits node.block

namespace Position

def Pends (node : Placed) : Position → Prop
  | walking stack => ∃ frame ∈ stack, node ∈ frame.pending
  | _ => False

def IsAwake (blocks : List Block) : Position → Prop
  | walking stack => ∀ frame ∈ stack, frame.IsAwake blocks
  | _ => True

theorem isAwake_push {pending : List Placed} {below : List Frame}
    (live : ∀ node ∈ pending, node.block.IsLive blocks) (awake : (walking below).IsAwake blocks) :
    (walking (.fresh pending :: below)).IsAwake blocks :=
  List.forall_mem_cons.mpr ⟨⟨live, fun _ _ => True.intro⟩, awake⟩

theorem isAwake_stage {node : Placed} {rest : List Placed} {stage : Stage} {below : List Frame}
    (awake : (walking (⟨node :: rest, stage⟩ :: below)).IsAwake blocks) (later : Stage)
    (suits : later.Suits node.block) :
    (walking (⟨node :: rest, later⟩ :: below)).IsAwake blocks := by
  obtain ⟨top, others⟩ := List.forall_mem_cons.mp awake
  refine List.forall_mem_cons.mpr ⟨⟨top.live, ?_⟩, others⟩
  intro first head
  cases head
  exact suits

section Top

variable {node : Placed} {rest : List Placed} {stage : Stage} {below : List Frame}
  (awake : (walking (⟨node :: rest, stage⟩ :: below)).IsAwake blocks)

include awake

theorem isLive_of_isAwake : node.block.IsLive blocks :=
  (awake _ List.mem_cons_self).live node List.mem_cons_self

theorem suits_of_isAwake : stage.Suits node.block :=
  (awake _ List.mem_cons_self).suited node rfl

end Top

theorem children_isAwake {node : Placed} {rest : List Placed} {stage : Stage}
    {below : List Frame} (awake : (walking (⟨node :: rest, stage⟩ :: below)).IsAwake blocks)
    {kind : Kind} (known : node.block.kind? = some kind) (control : kind.isControl = true) :
    ∀ child ∈ (ChildIndex.ofBlocks blocks).children node.block.id none,
      child.block.IsLive blocks :=
  ChildIndex.children_live (isLive_of_isAwake awake) (Block.opens_of_inSlot known control)

theorem takes_isAwake (plan : Plan) (view : View) (position : Position) (step : Step)
    (indexed : plan.index = .ofBlocks blocks) (taken : Takes plan view position step)
    (awake : position.IsAwake blocks) : step.next.IsAwake blocks := by
  have top : (walking [.fresh (ChildIndex.ofBlocks blocks).topLevel]).IsAwake blocks :=
    isAwake_push (ChildIndex.topLevel_live blocks) nofun
  -- A stage in a loop tells the kind of its block, and so that it runs its children.
  cases taken with
  | entry =>
      simp only [Step.act, indexed]
      split
      · exact True.intro
      · exact top
  | homing | settling => exact True.intro
  | settled =>
      simp only [Step.silent, indexed]
      exact top
  | pop stage below => exact (List.forall_mem_cons.mp awake).2
  | enterRepeat node rest below count kind => exact isAwake_stage awake _ kind
  | enterWhile node rest below kind => exact isAwake_stage awake _ kind
  | enterIf node rest below kind =>
      simp only [Step.silent, indexed]
      exact isAwake_push (children_isAwake awake kind rfl)
        (isAwake_stage awake _ True.intro)
  | enterBranch node rest below kind =>
      simp only [Step.silent, indexed]
      refine isAwake_push ?_ (isAwake_stage awake _ True.intro)
      exact ChildIndex.children_live (isLive_of_isAwake awake)
        fun block _ => Block.opens_of_ifElse kind block.slot
  | openIteration node rest below left =>
      have kind : node.block.kind? = some .repeatTimes := suits_of_isAwake awake
      simp only [Step.silent, indexed]
      exact isAwake_push (children_isAwake awake kind rfl) (isAwake_stage awake _ kind)
  | openLoop node rest below =>
      have kind : node.block.kind? = some .whileLoop := suits_of_isAwake awake
      simp only [Step.silent, indexed]
      exact isAwake_push (children_isAwake awake kind rfl) (isAwake_stage awake _ kind)
  | leave node rest below =>
      obtain ⟨frame, others⟩ := List.forall_mem_cons.mp awake
      exact isAwake_push (fun other pending => frame.live other (List.mem_cons_of_mem _ pending))
        others
  | iterate | chargeIteration | loop | chargeLoop | paceLoop =>
      have suits := suits_of_isAwake awake
      exact isAwake_stage awake _ suits
  | arrive | charge | passIf | leaf | iterateEnd | loopEnd =>
      exact isAwake_stage awake _ True.intro

end Position

/-! The same walk at other places. -/

def Frame.renumber (places : Nat → Nat) (frame : Frame) : Frame :=
  { frame with pending := frame.pending.map (.renumber places) }

def Position.renumber (places : Nat → Nat) : Position → Position
  | walking stack => walking (stack.map (.renumber places))
  | position => position

def Step.renumber (places : Nat → Nat) (step : Step) : Step :=
  { step with next := step.next.renumber places }

def Plan.over (blocks : List Block) (plan : Plan) : Plan :=
  { plan with index := .ofBlocks blocks }

namespace Walk

section

variable {plan : Plan} {view view' : View} {node : Placed} (rest : List Placed)
  (below : List Frame) (indexed : plan.index = .ofBlocks blocks)
  (live : node.block.IsLive blocks)

include indexed live

theorem children_renumber (slot : Option Slot) (runs : ∀ block : Block,
    block.inSlot slot = true → node.block.opens block.slot = true) :
    (plan.over (liveBlocks blocks)).index.children (node.renumber (rank blocks)).block.id slot =
      (plan.index.children node.block.id slot).map (.renumber (rank blocks)) := by
  rw [indexed]
  exact ChildIndex.children_liveBlocks live runs

variable (same : view' (rank blocks node.place) = view node.place)

include same

theorem enter_renumber :
    enter (plan.over (liveBlocks blocks)) view' (node.renumber (rank blocks))
        (rest.map (.renumber (rank blocks))) (below.map (.renumber (rank blocks))) =
      (enter plan view node rest below).map (.renumber (rank blocks)) := by
  have parameters : view' (node.renumber (rank blocks)).place = view node.place := same
  have kind : (node.renumber (rank blocks)).block.kind? = node.block.kind? := rfl
  have leaves (kind : Option Kind) :
      leaf (plan.over (liveBlocks blocks)) (node.renumber (rank blocks)) (view node.place) kind =
        leaf plan node (view node.place) kind := rfl
  unfold enter
  simp only [parameters, kind]
  -- Only a condition puts children on the stack here; a loop does so at a later stage.
  cases known : node.block.kind? with
  | none => rfl
  | some kind =>
      cases kind with
      | repeatTimes =>
          simp only
          cases repeatCount ((view node.place).get? "times") <;> rfl
      | ifCondition =>
          have children := children_renumber indexed live none (Block.opens_of_inSlot known rfl)
          simp only
          split
          · rw [children]
            rfl
          · rfl
      | ifElse =>
          have children (slot : Option Slot) := children_renumber indexed live slot
            fun block _ => Block.opens_of_ifElse known block.slot
          simp only
          rw [children]
          rfl
      | whileLoop => rfl
      | moveTo | waitSeconds | openGripper | closeGripper | homeRobot =>
          simp only [leaves]
          cases leaf plan node (view node.place) _ <;> rfl

theorem advance_renumber {stage : Stage} (suits : stage.Suits node.block) :
    advance (plan.over (liveBlocks blocks)) view' (node.renumber (rank blocks))
        (rest.map (.renumber (rank blocks))) stage (below.map (.renumber (rank blocks))) =
      (advance plan view node rest stage below).map (.renumber (rank blocks)) := by
  have parameters : view' (node.renumber (rank blocks)).place = view node.place := same
  cases stage with
  | enter => exact enter_renumber rest below indexed live same
  | openIteration left =>
      have children := children_renumber indexed live none (Block.opens_of_inSlot suits rfl)
      simp only [advance, children]
      rfl
  | openLoop =>
      have children := children_renumber indexed live none (Block.opens_of_inSlot suits rfl)
      simp only [advance, children]
      rfl
  | loop =>
      simp only [advance, parameters]
      split <;> rfl
  | iterate left => cases left <;> rfl
  | _ => rfl

end

end Walk

/-- The walk through the live blocks takes the step that the whole walk takes. -/
theorem Position.step?_renumber {plan : Plan} {view view' : View} {position : Position}
    (indexed : plan.index = .ofBlocks blocks) (draws : position.Draws blocks)
    (awake : position.IsAwake blocks)
    (same : ∀ place block, blocks[place]? = some block → block.IsLive blocks →
      view' (rank blocks place) = view place) :
    (position.renumber (rank blocks)).step? (plan.over (liveBlocks blocks)) view' =
      (position.step? plan view).map (·.map (.renumber (rank blocks))) := by
  have top : (plan.over (liveBlocks blocks)).index.topLevel =
      plan.index.topLevel.map (.renumber (rank blocks)) := by
    rw [indexed]
    exact ChildIndex.topLevel_liveBlocks blocks
  match position with
  | .entry =>
      simp only [renumber, step?, top]
      cases home : plan.abilities.home <;> simp only [Plan.over, home] <;> rfl
  | .homing | .settling | .walking [] | .walking (⟨[], _⟩ :: _) => rfl
  | .settled =>
      simp only [renumber, step?, top]
      rfl
  | .walking (⟨node :: rest, stage⟩ :: below) =>
      have live := isLive_of_isAwake awake
      have there := draws _ List.mem_cons_self node List.mem_cons_self
      have advanced := Walk.advance_renumber rest below indexed live
        (same node.place node.block there live) (suits_of_isAwake awake)
      exact congrArg some advanced

end ArmProgram
