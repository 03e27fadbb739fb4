import ArmProgram.Proofs.Run.Clearance

/-!
What the charges of a walk pay for. A list of children is put on the stack
only right after a charge, and a block makes its call only right after one, so
each charge pays for one of these at most. A charge adds to the weight of the
walk no more than the length of the program allows.
-/

namespace ArmProgram

def Step.call? (step : Step) : Option Call :=
  match step.action with
  | some (.call call) => some call
  | _ => none

namespace Position

/-- The lists being run, each inside the one before. The outermost one counts
even while it is still to come. -/
def frames : Position → Nat
  | walking stack => stack.length
  | _ => 1

def isHoming : Position → Bool
  | homing => true
  | _ => false

def isPaid : Position → Bool
  | walking (⟨_ :: _, .enter⟩ :: _) => true
  | walking (⟨_ :: _, .openIteration _⟩ :: _) => true
  | walking (⟨_ :: _, .openLoop⟩ :: _) => true
  | _ => false

theorem fresh_unpaid (blocks : List Placed) (below : List Frame) :
    (walking (.fresh blocks :: below)).isPaid = false := by
  cases blocks <;> rfl

theorem parked_unpaid (stack : List Frame) (parked : ∀ frame ∈ stack, frame.isParked = true) :
    (walking stack).isPaid = false := by
  cases stack with
  | nil => rfl
  | cons frame below =>
      have top := parked frame List.mem_cons_self
      obtain ⟨pending, stage⟩ := frame
      cases pending with
      | nil => cases stage <;> rfl
      | cons node rest => cases stage <;> first | rfl | cases top

/-- What a step is for the account: it pays a charge, it spends one on a list
of children or on a call, or it does neither. -/
inductive Accounts (position : Position) (step : Step) : Prop where
  | charges (charged : step.charges = true) (uncalled : step.call? = none)
      (level : step.next.frames = position.frames)
  | pushes (free : step.charges = false) (uncalled : step.call? = none)
      (paid : position.isPaid = true) (spent : step.next.isPaid = false)
      (deeper : step.next.frames = position.frames + 1)
  | pops (free : step.charges = false) (uncalled : step.call? = none)
      (spent : step.next.isPaid = false) (shallower : position.frames = step.next.frames + 1)
  | calls (call : Call) (free : step.charges = false) (asked : step.call? = some call)
      (unhomed : position.isHoming = false) (paid : position.isPaid = true)
      (spent : step.next.isPaid = false) (level : step.next.frames = position.frames)
  | homes (free : step.charges = false) (asked : step.call? = some .home)
      (homing : position.isHoming = true) (spent : step.next.isPaid = false)
      (level : step.next.frames = position.frames)
  | passes (free : step.charges = false) (uncalled : step.call? = none)
      (spent : step.next.isPaid = false) (level : step.next.frames = position.frames)

theorem takes_accounts (plan : Plan) (view : View) (position : Position) (step : Step)
    (taken : Takes plan view position step) (nested : position.IsNested) :
    position.Accounts step := by
  cases taken with
  | entry =>
      cases plan.abilities.home with
      | true => exact .passes rfl rfl rfl rfl
      | false => exact .passes rfl rfl (fresh_unpaid _ _) rfl
  | homing => exact .homes rfl rfl rfl rfl rfl
  | settled => exact .passes rfl rfl (fresh_unpaid _ _) rfl
  | pop stage below => exact .pops rfl rfl (parked_unpaid below nested) rfl
  | charge | chargeIteration | chargeLoop => exact .charges rfl rfl rfl
  | enterIf | enterBranch | openIteration | openLoop =>
      exact .pushes rfl rfl rfl (fresh_unpaid _ _) rfl
  | leaf node rest below notes action plain found =>
      cases Walk.leaf_does found with
      | moves command =>
          cases command with
          | none => exact .passes rfl rfl rfl rfl
          | some command => exact .calls _ rfl rfl rfl rfl rfl rfl
      | calls call => exact .calls call rfl rfl rfl rfl rfl rfl
      | waits | unable | skips => exact .passes rfl rfl rfl rfl
  | leave => exact .passes rfl rfl (fresh_unpaid _ _) rfl
  | _ => exact .passes rfl rfl rfl rfl

def homings : Position → Nat
  | entry => 1
  | homing => 1
  | _ => 0

theorem takes_homings (plan : Plan) (view : View) (position : Position) (step : Step)
    (taken : Takes plan view position step) :
    step.next.homings + position.isHoming.toNat ≤ position.homings := by
  cases taken with
  | entry =>
      cases plan.abilities.home with
      | true => exact Nat.le_refl 1
      | false => exact Nat.zero_le 1
  | homing => exact Nat.le_refl 1
  | _ => exact Nat.zero_le _

end Position

/-! The length of a program bounds the weight of its lists. -/

namespace ChildIndex

theorem members_ofBlocks_length (blocks : List Block) (parent : Option String) :
    ((ofBlocks blocks).members parent).length ≤ blocks.length := by
  rw [ofBlocks, members_ofPlaced]
  refine Nat.le_trans (List.length_filter_le _ _) ?_
  simp [placed]

theorem children_ofBlocks_length (blocks : List Block) (parent : String) (slot : Option Slot) :
    ((ofBlocks blocks).children parent slot).length ≤ blocks.length :=
  Nat.le_trans (List.length_filter_le _ _) (members_ofBlocks_length blocks (some parent))

end ChildIndex

theorem childWeight_ofBlocks (blocks : List Block) (node : Placed) :
    childWeight (.ofBlocks blocks) node ≤ 6 * blocks.length + 3 := by
  have main := ChildIndex.children_ofBlocks_length blocks node.block.id none
  have thenSide := ChildIndex.children_ofBlocks_length blocks node.block.id (some .thenSide)
  have elseSide := ChildIndex.children_ofBlocks_length blocks node.block.id (some .elseSide)
  simp only [childWeight, freshWeight]
  omega

theorem Position.charge_weight (blocks : List Block) (plan : Plan) (view : View)
    (position : Position) (step : Step) (placed : plan.index = .ofBlocks blocks)
    (taken : position.Takes plan view step) (charged : step.charges = true) :
    step.next.weight plan.index ≤ position.weight plan.index + 6 * blocks.length + 10 := by
  rw [placed]
  have light := childWeight_ofBlocks blocks
  cases taken with
  | charge node | chargeIteration node | chargeLoop node =>
      have := light node
      simp only [Step.act, Position.weight, stackWeight_cons, frame_weight, Stage.weight]
      omega
  | leaf node rest below notes action plain found =>
      cases Walk.leaf_does found with
      | moves command => cases command <;> cases charged
      | calls | waits | unable | skips => cases charged
  | _ => cases charged

end ArmProgram
