import ArmProgram.Value.Basic

/-!
Blocks of a program. A program is a flat list; a block names its parent and,
under a parent with two branches, the slot it belongs to.
-/

namespace ArmProgram

/-- Branch of a parent. A block without a slot belongs to the first one. -/
inductive Slot where
  | thenSide
  | elseSide
  deriving DecidableEq, Repr

def Slot.name : Slot → String
  | .thenSide => "then"
  | .elseSide => "else"

def Slot.ofName? (name : String) : Option Slot :=
  if name = "then" then some .thenSide
  else if name = "else" then some .elseSide
  else none

inductive Kind where
  | moveTo
  | waitSeconds
  | repeatTimes
  | ifCondition
  | ifElse
  | whileLoop
  | openGripper
  | closeGripper
  | homeRobot
  deriving DecidableEq, Repr

namespace Kind

def all : List Kind :=
  [.moveTo, .waitSeconds, .repeatTimes, .ifCondition, .ifElse, .whileLoop, .openGripper,
   .closeGripper, .homeRobot]

def name : Kind → String
  | moveTo => "move_to"
  | waitSeconds => "wait_seconds"
  | repeatTimes => "repeat"
  | ifCondition => "if_condition"
  | ifElse => "if_else"
  | whileLoop => "while_loop"
  | openGripper => "open_gripper"
  | closeGripper => "close_gripper"
  | homeRobot => "home_robot"

def ofName? (name : String) : Option Kind :=
  all.find? fun kind => kind.name = name

def isControl : Kind → Bool
  | repeatTimes | ifCondition | ifElse | whileLoop => true
  | _ => false

def defaults : Kind → List (String × Value)
  | moveTo => [("joint", .text "base"), ("angle", .number (.int 0))]
  | waitSeconds => [("seconds", .number (.int 1))]
  | repeatTimes => [("times", .number (.int 3))]
  | ifCondition | ifElse | whileLoop => [("condition", .flag true)]
  | _ => []

theorem ofName?_name (kind : Kind) : ofName? kind.name = some kind := by
  cases kind <;> decide

end Kind

/-- One block. A type that no kind has is kept as it is; a run skips it. -/
structure Block where
  id : String
  definition : String
  parameters : Parameters
  parent : Option String
  slot : Option Slot
  deriving Repr, Inhabited

namespace Block

def kind? (block : Block) : Option Kind :=
  Kind.ofName? block.definition

def isControl (block : Block) : Bool :=
  match block.kind? with
  | some kind => kind.isControl
  | none => false

/-- Whether a block belongs to a slot of its parent. Without a slot the
question is for a parent with one branch, which runs all but the else side;
the then side takes the same blocks. -/
def inSlot (block : Block) (slot : Option Slot) : Bool :=
  if slot = some .elseSide then block.slot = some .elseSide
  else block.slot ≠ some .elseSide

def setParameter (block : Block) (name : String) (value : Value) : Block :=
  { block with parameters := block.parameters.set name value }

def same (left right : Block) : Bool :=
  left.id = right.id && left.definition = right.definition &&
    left.parameters.same right.parameters && left.parent = right.parent && left.slot = right.slot

def withDefaults (definition : String) (given : List (String × Value)) : Parameters :=
  let defaults := ((Kind.ofName? definition).map Kind.defaults).getD []
  (Parameters.ofList defaults).setAll given

end Block

def newBlockId (n : Nat) : String :=
  let digits := Nat.toDigits 16 n
  "block_" ++ String.ofList (List.replicate (12 - digits.length) '0' ++ digits)

end ArmProgram
