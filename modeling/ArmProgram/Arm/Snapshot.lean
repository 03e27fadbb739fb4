import ArmProgram.Arm.Basic
import ArmProgram.Json.Basic

/-!
What a display shows of the arm: whether it is connected, the angle of each
servo, and how many calls it has recorded.
-/

namespace ArmProgram.Arm

variable {Time : Type}

def positionsJson (arm : Arm Time) : Json :=
  .object (arm.positions.map fun entry => (toString entry.1, .number entry.2))

def snapshot (arm : Arm Time) : Json :=
  .object
    [("connected", .flag arm.connected), ("positions", arm.positionsJson),
     ("calls", .int arm.calls.size)]

end ArmProgram.Arm
