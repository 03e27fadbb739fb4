import ArmProgram.Run.Walk

/-!
The robot that a controller is given: none, something without any ability, or
an arm of which all or only some abilities can be used.
-/

namespace ArmProgram

structure Features where
  moveJoints : Bool
  home : Bool
  openGripper : Bool
  closeGripper : Bool
  isConnected : Bool
  deriving Repr, DecidableEq

def Features.all : Features := ⟨true, true, true, true, true⟩

inductive Robot where
  | absent
  /-- An object without abilities. -/
  | bare
  /-- The simulated arm itself. -/
  | arm
  /-- The simulated arm behind some of its abilities. -/
  | limited (features : Features)
  deriving Repr, DecidableEq, Inhabited

inductive Unfit where
  | absent
  | bare
  | limited
  deriving Repr, DecidableEq

def Unfit.message : Unfit → String
  | absent => "'NoneType' object has no attribute 'move_joints'"
  | bare => "'object' object has no attribute 'move_joints'"
  | limited => "robot has no move_joints"

namespace Robot

def reports (connected : Bool) : Robot → Bool
  | absent | bare => false
  | arm => connected
  | limited features => features.isConnected && connected

def probe (features : Features) (simulate : Bool) : Probe :=
  if simulate then .off else if features.isConnected then .robot else .silent

def bind (features : Features) (simulate : Bool) : Abilities :=
  ⟨features.home, features.openGripper, features.closeGripper, probe features simulate⟩

def abilities (simulate : Bool) : Robot → Except Unfit Abilities
  | absent => .error .absent
  | bare => .error .bare
  | arm => .ok (bind .all simulate)
  | limited features =>
      if features.moveJoints then .ok (bind features simulate) else .error .limited

end Robot

end ArmProgram
