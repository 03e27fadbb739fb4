import ArmProgram.Block.Basic
import ArmProgram.Value.Coercion

/-!
Joints of the arm, their servos and mechanical ranges, and the one servo
command that a move block makes. A command is only made for a known joint and
a finite angle, and its value always lies within the joint's range.
-/

namespace ArmProgram

inductive Joint where
  | base
  | shoulder
  | elbow
  | wristFlex
  | wristRoll
  | gripper
  deriving DecidableEq, Repr

structure Range where
  low : Float
  high : Float
  deriving Repr

namespace Joint

def all : List Joint :=
  [base, shoulder, elbow, wristFlex, wristRoll, gripper]

def name : Joint → String
  | base => "base"
  | shoulder => "shoulder"
  | elbow => "elbow"
  | wristFlex => "wrist_flex"
  | wristRoll => "wrist_roll"
  | gripper => "gripper"

def ofName? (name : String) : Option Joint :=
  all.find? fun joint => joint.name = name

def servo : Joint → Int
  | base => 1
  | shoulder => 2
  | elbow => 3
  | wristFlex => 4
  | wristRoll => 5
  | gripper => 6

def range : Joint → Range
  | base => ⟨70, 290⟩
  | shoulder => ⟨80, 280⟩
  | elbow => ⟨80, 270⟩
  | wristFlex => ⟨85, 275⟩
  | wristRoll => ⟨23, 343⟩
  | gripper => ⟨170, 280⟩

theorem ofName?_name (joint : Joint) : ofName? joint.name = some joint := by
  cases joint <;> decide

end Joint

def fullRange : Range := ⟨0, 360⟩

def rangeOf (joint : Option String) : Range :=
  ((joint.bind Joint.ofName?).map Joint.range).getD fullRange

/-- The angle within the range that is nearest to the given one. NaN gives
the upper end. -/
def Range.clamp (range : Range) (angle : Float) : Float :=
  let capped := if angle < range.high then angle else range.high
  if range.low < capped then capped else range.low

structure Command where
  servo : Int
  value : Number
  deriving Repr, Inhabited

inductive Remark where
  | unknownJoint (block : String) (joint : Option Value)
  | invalidAngle (block : String) (angle : Option Value)
  | clamped (joint : String) (angle : Number) (value : Float)
  deriving Repr

def jointOf : Option Value → Option Joint
  | some (.text name) => Joint.ofName? name
  | _ => none

/-- The number an angle gives when it is finite. Integers that no finite
double is near to cannot be examined. -/
def finiteAngle : Option Value → Except CoercionFault (Option (Number × Float))
  | some (.number (.int n)) =>
      match (Number.int n).toDouble? with
      | some x => .ok (some (.int n, x))
      | none => .error .tooLargeForDouble
  | some (.number (.double x)) =>
      .ok (if Decimal.isFinite x then some (.double x, x) else none)
  | _ => .ok none

def commandOfMove (block : String) (parameters : Parameters) :
    Except CoercionFault (Option Command × List Remark) :=
  match jointOf (parameters.get? "joint") with
  | none => .ok (none, [.unknownJoint block (parameters.get? "joint")])
  | some joint =>
      match finiteAngle (parameters.get? "angle") with
      | .error fault => .error fault
      | .ok none => .ok (none, [.invalidAngle block (parameters.get? "angle")])
      | .ok (some (angle, x)) =>
          let value := joint.range.clamp x
          let remarks := if angle.eqDouble value then [] else [.clamped joint.name angle value]
          .ok (some ⟨joint.servo, .double value⟩, remarks)

/-- The commands of all move blocks in order, without those that make none,
and what to note. The first move that fails ends the list. -/
def commandsOf : List Block → List Remark × Except CoercionFault (List Command)
  | [] => ([], .ok [])
  | block :: rest =>
      if block.kind? = some .moveTo then
        match commandOfMove block.id block.parameters with
        | .error fault => ([], .error fault)
        | .ok (command, remarks) =>
            let later := commandsOf rest
            (remarks ++ later.1, later.2.map (command.toList ++ ·))
      else commandsOf rest

end ArmProgram
