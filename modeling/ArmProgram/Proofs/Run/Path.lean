import ArmProgram.Proofs.Run.Awake
import ArmProgram.Proofs.Run.Ledger

/-!
The stack of a run spells a path through the block list. The outermost frame runs
the top level. The block that a frame is suspended at asked for a list of its
children when the stack was as high as that frame for the last time, and the frame
above runs that list. A list that is accepted as a tree lets no path go deeper
than its limit, and so keeps the stack short.
-/

namespace ArmProgram

def Block.asked? (index : ChildIndex) (block : Block) (parameters : Parameters) :
    Option (List Placed) :=
  match block.kind? with
  | some .repeatTimes | some .whileLoop => some (index.children block.id none)
  | some .ifCondition =>
      if conditionHolds (parameters.get? "condition") then some (index.children block.id none)
      else none
  | some .ifElse =>
      some (index.children block.id
        (some (Walk.branch (conditionHolds (parameters.get? "condition")))))
  | _ => none

def Position.stack : Position → List Frame
  | walking stack => stack
  | _ => []

/-- Where a run stood when it took a step, and the parameters it saw. -/
structure Stride where
  view : View
  position : Position

def latest? (past : List Stride) (height : Nat) : Option Stride :=
  past.find? (·.position.stack.length ≤ height)

inductive Spells (plan : Plan) (past : List Stride) : List Frame → Prop where
  | empty : Spells plan past []
  | bottom {frame : Frame} (part : frame.pending <:+ plan.index.topLevel) :
      Spells plan past [frame]
  | above {frame : Frame} {node : Placed} {rest list : List Placed} {before after : Stage}
      {below : List Frame} {view : View} {step : Step}
      (path : Spells plan past (⟨node :: rest, after⟩ :: below))
      (latest : latest? past (below.length + 1) =
        some ⟨view, .walking (⟨node :: rest, before⟩ :: below)⟩)
      (taken : Position.Takes plan view (.walking (⟨node :: rest, before⟩ :: below)) step)
      (pushed : step.next = .walking (.fresh list :: ⟨node :: rest, after⟩ :: below))
      (asked : node.block.asked? plan.index (view node.place) = some list)
      (part : frame.pending <:+ list) :
      Spells plan past (frame :: ⟨node :: rest, after⟩ :: below)

namespace Spells

variable {plan : Plan} {past : List Stride}

theorem tail {frame : Frame} {stack : List Frame} (path : Spells plan past (frame :: stack)) :
    Spells plan past stack := by
  cases path with
  | bottom => exact .empty
  | above path => exact path

theorem goesOn {frame : Frame} {stack : List Frame} (path : Spells plan past (frame :: stack))
    {later : Frame} (part : later.pending <:+ frame.pending) :
    Spells plan past (later :: stack) := by
  cases path with
  | bottom known => exact .bottom (part.trans known)
  | above path latest taken pushed asked known =>
      exact .above path latest taken pushed asked (part.trans known)

/-- A step from a stack no lower than this one leaves unchanged who asked for its frames. -/
theorem grow {stack : List Frame} (path : Spells plan past stack) {stride : Stride}
    (reaches : stack.length ≤ stride.position.stack.length) :
    Spells plan (stride :: past) stack := by
  induction path with
  | empty => exact .empty
  | bottom part => exact .bottom part
  | @above frame node rest list before after below view step path latest taken pushed asked part ih =>
      simp only [List.length_cons] at reaches ih
      refine .above (ih (by omega)) ?_ taken pushed asked part
      rw [latest?, List.find?_cons_of_neg (by simpa using reaches)]
      exact latest

theorem push {node : Placed} {rest list : List Placed} {before after : Stage}
    {below : List Frame} {view : View} {step : Step}
    (path : Spells plan past (⟨node :: rest, before⟩ :: below))
    (taken : Position.Takes plan view (.walking (⟨node :: rest, before⟩ :: below)) step)
    (pushed : step.next = .walking (.fresh list :: ⟨node :: rest, after⟩ :: below))
    (asked : node.block.asked? plan.index (view node.place) = some list) :
    Spells plan (⟨view, .walking (⟨node :: rest, before⟩ :: below)⟩ :: past) step.next.stack := by
  rw [pushed]
  refine .above ((path.grow (Nat.le_refl _)).goesOn (List.suffix_refl _)) ?_ taken pushed asked
    (List.suffix_refl _)
  rw [latest?, List.find?_cons_of_pos (by simp [Position.stack])]

end Spells

/-- What one step makes of a path. -/
theorem takes_spells {blocks : List Block} {plan : Plan} {view : View} {past : List Stride}
    {position : Position} {step : Step} (taken : position.Takes plan view step)
    (awake : position.IsAwake blocks) (path : Spells plan past position.stack) :
    Spells plan (⟨view, position⟩ :: past) step.next.stack := by
  have whole : Spells plan (⟨view, position⟩ :: past) position.stack := path.grow (Nat.le_refl _)
  -- Four stages put a list on the stack, and their blocks are of the kind that asks for it.
  cases taken with
  | entry =>
      simp only [Step.act]
      split
      · exact .empty
      · exact .bottom (List.suffix_refl _)
  | homing | settling => exact .empty
  | settled => exact .bottom (List.suffix_refl _)
  | pop => exact whole.tail
  | leave node rest => exact whole.goesOn (List.suffix_cons node rest)
  | enterIf node rest below kind holds =>
      exact path.push (.enterIf node rest below kind holds) rfl
        (by simp only [Block.asked?, kind, holds, ↓reduceIte])
  | enterBranch node rest below kind =>
      exact path.push (.enterBranch node rest below kind) rfl (by simp only [Block.asked?, kind])
  | openIteration node rest below left =>
      have kind : node.block.kind? = some .repeatTimes := Position.suits_of_isAwake awake
      exact path.push (.openIteration node rest below left) rfl (by simp only [Block.asked?, kind])
  | openLoop node rest below =>
      have kind : node.block.kind? = some .whileLoop := Position.suits_of_isAwake awake
      exact path.push (.openLoop node rest below) rfl (by simp only [Block.asked?, kind])
  | _ => exact whole.goesOn (List.suffix_refl _)

/-! How high the stack gets. -/

theorem Block.asked?_named {index : ChildIndex} {block : Block} {parameters : Parameters}
    {list : List Placed} (asked : block.asked? index parameters = some list) :
    ∀ node ∈ list, node ∈ index.members (some block.id) := by
  unfold asked? at asked
  split at asked
  all_goals try split at asked
  all_goals cases asked
  all_goals exact fun node member => (List.mem_filter.mp member).1

namespace Spells

variable {blocks : List Block} {plan : Plan} {past : List Stride}

/-- A frame holds blocks that lie as deep as there are frames below it. -/
theorem nests (indexed : plan.index = .ofBlocks blocks) (nested : (Program.mk blocks).IsNested)
    {frame : Frame} {stack : List Frame} (path : Spells plan past (frame :: stack)) :
    ∀ node ∈ frame.pending,
      node.block ∈ blocks ∧ (Program.mk blocks).Nests node.block.parent stack.length := by
  generalize whole : frame :: stack = frames at path
  induction path generalizing frame stack with
  | empty => cases whole
  | bottom part =>
      cases whole
      intro node member
      have top := part.subset member
      rw [indexed] at top
      obtain ⟨there, parentless⟩ := ChildIndex.block_of_members top
      rw [parentless]
      exact ⟨List.mem_of_getElem? there, .top⟩
  | above path latest taken pushed asked part ih =>
      cases whole
      intro node member
      have child := Block.asked?_named asked node (part.subset member)
      rw [indexed] at child
      obtain ⟨there, named⟩ := ChildIndex.block_of_members child
      obtain ⟨listed, above⟩ := ih rfl _ List.mem_cons_self
      rw [named]
      exact ⟨List.mem_of_getElem? there,
        .under (Program.find?_of_mem nested.unique listed) above⟩

/-- In a tree the stack is at most two frames higher than the deepest block lies. -/
theorem length_le (indexed : plan.index = .ofBlocks blocks) {stack : List Frame}
    (path : Spells plan past stack) {limit : Int} (least : 0 ≤ limit)
    (accepted : (Program.mk blocks).validateTree limit = .ok ()) :
    (stack.length : Int) ≤ limit + 2 := by
  obtain ⟨nested, within⟩ := (Program.validateTree_ok_iff _ _).mp accepted
  cases path with
  | empty => simpa using by omega
  | bottom => simpa using by omega
  | @above frame node rest _ _ _ below _ _ path =>
      -- The block that the frame below is suspended at is in the list itself.
      obtain ⟨listed, deep⟩ := path.nests indexed nested node List.mem_cons_self
      have bound := within node.block listed below.length deep
      simp only [List.length_cons]
      omega

end Spells

/-! Paths along a course. -/

variable {Time : Type} [TimeScale Time]

namespace Run

def record (past : List Stride) (run : Run Time) : List Stride :=
  match run.activity with
  | .moving position => ⟨run.view, position⟩ :: past
  | _ => past

def stack (run : Run Time) : List Frame :=
  (run.stand?.map Position.stack).getD []

structure IsOnPath (blocks : List Block) (plan : Plan) (past : List Stride) (run : Run Time) :
    Prop where
  planned : run.plan = plan
  stands : ∀ position, run.stand? = some position →
    position.IsAwake blocks ∧ Spells plan past position.stack

end Run

namespace Course

def stridesAfter (past : List Stride) {first last : Moment Time} : Course first last → List Stride
  | .here _ => past
  | @Course.next _ _ before _ _ _ _ rest => rest.stridesAfter (before.run.record past)

def strides {first last : Moment Time} (course : Course first last) : List Stride :=
  course.stridesAfter []

end Course

theorem Moment.next_onPath {blocks : List Block} {plan : Plan} {past : List Stride}
    {before after : Moment Time} {event : Event Time} (indexed : plan.index = .ofBlocks blocks)
    (happens : before.Next event after) (path : before.run.IsOnPath blocks plan past) :
    after.run.IsOnPath blocks plan (before.run.record past) := by
  refine ⟨(Moment.next_terms happens).plan.trans path.planned, ?_⟩
  intro position there
  cases Moment.next_fares happens with
  | stays same =>
      rw [same] at there
      obtain ⟨awake, spells⟩ := path.stands position there
      refine ⟨awake, ?_⟩
      cases activity : before.run.activity with
      | moving other =>
          rw [Run.stand?_of_moving _ _ activity] at there
          cases there
          simp only [Run.record, activity]
          exact spells.grow (Nat.le_refl _)
      | _ => simpa only [Run.record, activity] using spells
  | takes standing step activity taken reached =>
      obtain ⟨awake, spells⟩ := path.stands standing (Run.stand?_of_moving _ _ activity)
      rw [path.planned] at taken
      rw [reached] at there
      cases there
      simp only [Run.record, activity]
      exact ⟨Position.takes_isAwake plan _ standing step indexed taken awake,
        takes_spells taken awake spells⟩
  | ends ended =>
      rw [ended] at there
      cases there

theorem Course.onPath {blocks : List Block} {plan : Plan} {past : List Stride}
    {first last : Moment Time} (indexed : plan.index = .ofBlocks blocks)
    (course : Course first last) (path : first.run.IsOnPath blocks plan past) :
    last.run.IsOnPath blocks plan (course.stridesAfter past) := by
  induction course generalizing past with
  | here => exact path
  | next event happens rest ih => exact ih (Moment.next_onPath indexed happens path)

/-- The stack of a run spells a path at every point of every course, whatever the
effector, others and the clock do, and a tree of blocks keeps it short. -/
theorem stack_spells_path {now : Time} {connected : Bool} {blocks : List Block}
    {abilities : Abilities} {config : Config} {token : Token Time} {last : Moment Time}
    (course : Course (Moment.initial now connected blocks abilities config token) last) :
    Spells (Run.prepare blocks abilities config token).plan course.strides last.run.stack ∧
      ∀ limit : Int, 0 ≤ limit → (Program.mk blocks).validateTree limit = .ok () →
        (last.run.stack.length : Int) ≤ limit + 2 := by
  have start : (Run.prepare blocks abilities config token).IsOnPath blocks
      (Run.prepare blocks abilities config token).plan [] := by
    refine ⟨rfl, ?_⟩
    intro position there
    cases there
    exact ⟨True.intro, .empty⟩
  have path := course.onPath rfl start
  have spells : Spells (Run.prepare blocks abilities config token).plan course.strides
      last.run.stack := by
    unfold Run.stack
    cases standing : last.run.stand? with
    | none => exact .empty
    | some position => exact (path.stands position standing).2
  exact ⟨spells, fun limit least accepted => spells.length_le rfl least accepted⟩

/-- A loop at the top whose body is empty has the stack as high as the limit allows. -/
theorem empty_loop_fills_stack :
    ∃ last : Moment Float, ∃ _ : Course (.initial 0 true
        [⟨"loop", "repeat", .empty, none, none⟩] ⟨false, false, false, .off⟩ .default
        (.fresh 10 300)) last,
      Program.validateTree ⟨[⟨"loop", "repeat", .empty, none, none⟩]⟩ 0 = .ok () ∧
      last.run.stack.length = 2 ∧ (last.run.stack.length : Int) ≤ 0 + 2 := by
  let course : Course (Moment.initial (0 : Float) true
      [⟨"loop", "repeat", .empty, none, none⟩] ⟨false, false, false, .off⟩ .default
      (.fresh 10 300)) _ :=
    .next .step (.step rfl) <| .next .step (.step rfl) <| .next .step (.step rfl) <|
    .next .step (.step rfl) <| .next .step (.step rfl) <| .next .step (.step rfl) <|
    .next .step (.step rfl) <| .next .step (.step rfl) <| .here _
  have accepted : Program.validateTree ⟨[⟨"loop", "repeat", .empty, none, none⟩]⟩ 0 = .ok () := by
    simp [Program.validateTree, Program.duplicateId?, Program.climbAll, Program.climb]
  exact ⟨_, course, accepted, rfl, (stack_spells_path course).2 0 le_rfl accepted⟩

end ArmProgram
