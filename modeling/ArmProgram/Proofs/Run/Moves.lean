import ArmProgram.Proofs.Arm.Motion
import ArmProgram.Proofs.Run.Moment

/-!
Where the moves of a run come from. Only a move block asks for one, with the
parameters that it has by then, and every block that a walk comes to is one of
the program.
-/

namespace ArmProgram

structure Block.Commands (blocks : List Block) (view : View) (node : Placed) (joint : Joint)
    (angle target : ℚ) (command : Command) : Prop where
  block : blocks[node.place]? = some node.block
  kind : node.block.kind? = some .moveTo
  named : jointOf ((view node.place).get? "joint") = some joint
  wanted : angleOf? ((view node.place).get? "angle") = some angle
  serves : joint.Serves angle target command

/-! One step of a walk. -/

theorem Walk.leaf_moves {plan : Plan} {node : Placed} {parameters : Parameters}
    {kind : Option Kind} {notes : List Note} {commands : List Command}
    (found : leaf plan node parameters kind = .ok (notes, some (.call (.moveJoints commands)))) :
    kind = some .moveTo ∧ ∃ command remarks,
      commandOfMove node.block.id parameters = .ok (some command, remarks) ∧
        commands = [command] := by
  generalize asked : some (Action.call (.moveJoints commands)) = action at found
  cases leaf_does found with
  | moves command remarks mine made =>
      cases command with
      | none => cases asked
      | some command =>
          cases asked
          exact ⟨mine, command, remarks, made, rfl⟩
  | calls call simple =>
      cases asked
      exact absurd rfl (simple commands)
  | waits | unable | skips => cases asked

namespace Position

def Draws (blocks : List Block) : Position → Prop
  | walking stack => ∀ frame ∈ stack, ∀ node ∈ frame.pending, blocks[node.place]? = some node.block
  | _ => True

theorem takes_moves {plan : Plan} {view : View} {position : Position} {step : Step}
    {commands : List Command} (taken : Takes plan view position step)
    (asked : step.action = some (.call (.moveJoints commands))) :
    ∃ node rest below command remarks, position = .walking (⟨node :: rest, .enter⟩ :: below) ∧
      node.block.kind? = some .moveTo ∧
      commandOfMove node.block.id (view node.place) = .ok (some command, remarks) ∧
      commands = [command] := by
  cases taken with
  | leaf node rest below notes action plain found =>
      simp only at asked
      subst asked
      obtain ⟨kind, command, remarks, made, single⟩ := Walk.leaf_moves found
      exact ⟨node, rest, below, command, remarks, rfl, kind, made, single⟩
  | _ => cases asked

theorem takes_safe {plan : Plan} {view : View} {position : Position} {step : Step} {call : Call}
    (taken : Takes plan view position step) (asked : step.action = some (.call call)) :
    call.IsSafe := by
  rintro commands rfl
  obtain ⟨node, -, -, command, remarks, -, -, made, single⟩ := takes_moves taken asked
  obtain ⟨joint, angle, target, -, -, serves⟩ := commandOfMove_serves made
  exact ⟨joint, angle, target, command, single, serves⟩

end Position

theorem ChildIndex.members_ofBlocks_mem (blocks : List Block) (parent : Option String)
    (node : Placed) (member : node ∈ (ofBlocks blocks).members parent) :
    blocks[node.place]? = some node.block := by
  rw [ofBlocks, members_ofPlaced] at member
  have listed : node ∈ placed blocks := (List.mem_filter.mp member).1
  obtain ⟨⟨block, place⟩, entry, rfl⟩ := List.mem_map.mp listed
  exact List.mk_mem_zipIdx_iff_getElem?.mp entry

namespace Position

variable {blocks : List Block}

theorem draws_topLevel : (walking [.fresh (ChildIndex.ofBlocks blocks).topLevel]).Draws blocks := by
  intro frame listed node pending
  cases List.mem_singleton.mp listed
  exact ChildIndex.members_ofBlocks_mem blocks none node pending

theorem draws_children (parent : String) (slot : Option Slot) {stack : List Frame}
    (below : (walking stack).Draws blocks) :
    (walking (.fresh ((ChildIndex.ofBlocks blocks).children parent slot) :: stack)).Draws
      blocks := by
  intro frame listed node pending
  rcases List.mem_cons.mp listed with rfl | deeper
  · have member := (List.mem_filter.mp pending).1
    exact ChildIndex.members_ofBlocks_mem blocks (some parent) node member
  · exact below frame deeper node pending

theorem draws_stage {pending : List Placed} {stage : Stage} {below : List Frame} (later : Stage)
    (here : (walking (⟨pending, stage⟩ :: below)).Draws blocks) :
    (walking (⟨pending, later⟩ :: below)).Draws blocks := by
  intro frame listed
  rcases List.mem_cons.mp listed with rfl | deeper
  · exact fun node => here ⟨pending, stage⟩ List.mem_cons_self node
  · exact here frame (List.mem_cons_of_mem _ deeper)

theorem takes_draws (plan : Plan) (view : View) (position : Position) (step : Step)
    (indexed : plan.index = .ofBlocks blocks) (taken : Takes plan view position step)
    (draws : position.Draws blocks) : step.next.Draws blocks := by
  -- Children come from the index, and all other blocks were on the stack before.
  cases taken with
  | entry =>
      simp only [Step.act]
      split
      · exact True.intro
      · rw [indexed]
        exact draws_topLevel
  | homing | settling => exact True.intro
  | settled =>
      simp only [Step.silent, indexed]
      exact draws_topLevel
  | pop stage below => exact fun frame deeper => draws frame (List.mem_cons_of_mem _ deeper)
  | enterIf | enterBranch | openIteration | openLoop =>
      simp only [Step.silent, indexed]
      exact draws_children _ _ (draws_stage _ draws)
  | leave node rest below =>
      intro frame listed other pending
      rcases List.mem_cons.mp listed with rfl | deeper
      · exact draws _ List.mem_cons_self other (List.mem_cons_of_mem _ pending)
      · exact draws frame (List.mem_cons_of_mem _ deeper) other pending
  | _ => exact draws_stage _ draws

end Position

/-! Along a course. -/

variable {Time : Type} [TimeScale Time]

theorem Course.draws {now : Time} {connected : Bool} {blocks : List Block}
    {abilities : Abilities} {config : Config} {token : Token Time} {moment : Moment Time}
    (course : Course (.initial now connected blocks abilities config token) moment) :
    moment.run.Stands (Position.Draws blocks) := by
  let Inv (moment : Moment Time) : Prop :=
    moment.run.plan.index = .ofBlocks blocks ∧ moment.run.Stands (Position.Draws blocks)
  have kept (before : Moment Time) (event : Event Time) (after : Moment Time)
      (happens : before.Next event after) (known : Inv before) : Inv after := by
    refine ⟨?_, ?_⟩
    · rw [(Moment.next_terms happens).plan]
      exact known.1
    · exact Moment.next_stands True.intro
        (fun position step => Position.takes_draws _ _ position step known.1)
        happens known.2
  exact (course.keeps kept ⟨rfl, fun _ there => nomatch there⟩).2

/-- A move that a run asks for comes from a move block of its program. It has a
single command, for the joint that the block names and the angle it asks for by
then. -/
theorem Course.move_commands {now : Time} {connected : Bool} {blocks : List Block}
    {abilities : Abilities} {config : Config} {token : Token Time} {moment : Moment Time}
    (course : Course (.initial now connected blocks abilities config token) moment)
    (commands : List Command) (asked : moment.asked? = some (.moveJoints commands)) :
    ∃ node joint angle target command, commands = [command] ∧
      Block.Commands blocks moment.run.view node joint angle target command := by
  unfold Moment.asked? at asked
  split at asked
  · rename_i ready
    have steps := moment.run.step_steps moment.now moment.connected ready
    rw [asked] at steps
    generalize (moment.run.step moment.now moment.connected).run = after at steps
    cases steps with
    | called activity stepped =>
        obtain ⟨node, rest, below, command, remarks, rfl, kind, made, single⟩ :=
          Position.takes_moves (Position.step?_takes _ _ _ _ stepped) rfl
        obtain ⟨joint, angle, target, named, wanted, serves⟩ := commandOfMove_serves made
        have draws := course.draws (.walking (⟨node :: rest, .enter⟩ :: below))
          (by simp only [Run.position?, activity])
        have block := draws _ List.mem_cons_self node List.mem_cons_self
        exact ⟨node, joint, angle, target, command, single, block, kind, named, wanted, serves⟩
  · cases asked

end ArmProgram
