import ArmProgram.Program.Editing

/-!
The program that is shown when no other is given: it waves the base twice and
then picks with the gripper. It is put together by the edits of an editor, so
the journal notes every block.
-/

namespace ArmProgram.Demo

variable {Time : Type}

structure Addition where
  kind : Kind
  given : List (String × Value)
  above : Option (Nat × Slot)

def Addition.edit (addition : Addition) (draft : Draft) : Edit Time Block :=
  match addition.above with
  | none => draft.addBlock addition.kind.name addition.given
  | some (parent, slot) =>
      draft.addChild (newBlockId parent) addition.kind.name addition.given (some slot)

def addAll : List Addition → Draft → List (Entry Time) × Draft
  | [], draft => ([], draft)
  | addition :: rest, draft =>
      let edit : Edit Time Block := addition.edit draft
      match edit.result with
      | .error _ => (edit.entries, draft)
      | .ok (next, _) =>
          let later := addAll rest next
          (edit.entries ++ later.1, later.2)

def move (joint : String) (angle : Int) : List (String × Value) :=
  [("joint", .text joint), ("angle", .number (.int angle))]

def additions : List Addition :=
  [⟨.homeRobot, [], none⟩,
   ⟨.repeatTimes, [("times", .number (.int 2))], none⟩,
   ⟨.moveTo, move "base" 90, some (2, .thenSide)⟩,
   ⟨.moveTo, move "base" 270, some (2, .thenSide)⟩,
   ⟨.ifElse, [("condition", .flag true)], none⟩,
   ⟨.openGripper, [], some (5, .thenSide)⟩,
   ⟨.closeGripper, [], some (5, .elseSide)⟩,
   ⟨.waitSeconds, [("seconds", .number (.double 0.5))], none⟩,
   ⟨.moveTo, move "elbow" 400, none⟩,
   ⟨.closeGripper, [], none⟩]

def sample : List (Entry Time) × Draft :=
  addAll additions ⟨.empty, 1⟩

end ArmProgram.Demo
