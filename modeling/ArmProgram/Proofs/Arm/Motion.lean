import ArmProgram.Arm.Basic
import ArmProgram.Proofs.Decimal.Integer

/-!
What a move commands, and where that leaves the servos. The requested angle is
clamped as an exact number: it is kept within the limits of its joint, and
outside of them the nearer limit takes its place. Rounding a large integer to a
double changes nothing about that, for both are far beyond every limit.
-/

namespace ArmProgram

open Decimal (value? isFinite isFinite_iff lt_iff_value_lt ofInt value?_ofInt)

def Number.value? : Number → Option ℚ
  | .int n => some n
  | .double x => Decimal.value? x

def angleOf? : Option Value → Option ℚ
  | some (.number number) => number.value?
  | _ => none

namespace Joint

def lowest (joint : Joint) : ℚ :=
  (value? joint.range.low).getD 0

def highest (joint : Joint) : ℚ :=
  (value? joint.range.high).getD 0

def Reaches (joint : Joint) (angle : ℚ) : Prop :=
  joint.lowest ≤ angle ∧ angle ≤ joint.highest

/-- A command that does for a joint what is asked of it: the servo is the
joint's own, and its target is the angle or else the nearer limit. -/
structure Serves (joint : Joint) (angle target : ℚ) (command : Command) : Prop where
  servo : command.servo = joint.servo
  value : command.value.value? = some target
  reached : joint.Reaches target
  inside : joint.Reaches angle → target = angle
  below : angle < joint.lowest → target = joint.lowest
  above : joint.highest < angle → target = joint.highest

/-! The table of limits. -/

theorem value?_low (joint : Joint) : value? joint.range.low = some joint.lowest := by
  have finite : isFinite joint.range.low = true := by cases joint <;> decide
  obtain ⟨value, exact⟩ := (isFinite_iff _).mp finite
  simp [lowest, exact]

theorem value?_high (joint : Joint) : value? joint.range.high = some joint.highest := by
  have finite : isFinite joint.range.high = true := by cases joint <;> decide
  obtain ⟨value, exact⟩ := (isFinite_iff _).mp finite
  simp [highest, exact]

theorem reaches_of_range (joint : Joint) {x : Float} {angle : ℚ} (exact : value? x = some angle)
    (low : ¬ x < joint.range.low) (high : ¬ joint.range.high < x) : joint.Reaches angle := by
  rw [lt_iff_value_lt _ _ _ _ exact joint.value?_low] at low
  rw [lt_iff_value_lt _ _ _ _ joint.value?_high exact] at high
  exact ⟨not_lt.mp low, not_lt.mp high⟩

theorem lowest_le_highest (joint : Joint) : joint.lowest ≤ joint.highest := by
  have ordered : ¬ joint.range.high < joint.range.low := by cases joint <;> decide
  rw [lt_iff_value_lt _ _ _ _ joint.value?_high joint.value?_low] at ordered
  exact not_lt.mp ordered

theorem value?_ofInt_small (n : Int) (finite : (ofInt n).isInf = false)
    (small : n.natAbs < 2 ^ 53) : value? (ofInt n) = some (n : ℚ) := by
  obtain ⟨value, exact, same, -⟩ := value?_ofInt n finite
  rw [exact, same small]

theorem limits_within_turn (joint : Joint) : 0 ≤ joint.lowest ∧ joint.highest ≤ 360 := by
  have zero : value? (ofInt 0) = some ((0 : Int) : ℚ) :=
    value?_ofInt_small 0 (by decide) (by decide)
  have turn : value? (ofInt 360) = some ((360 : Int) : ℚ) :=
    value?_ofInt_small 360 (by decide) (by decide)
  have low : ¬ joint.range.low < ofInt 0 := by cases joint <;> decide
  have high : ¬ ofInt 360 < joint.range.high := by cases joint <;> decide
  rw [lt_iff_value_lt _ _ _ _ joint.value?_low zero] at low
  rw [lt_iff_value_lt _ _ _ _ turn joint.value?_high] at high
  exact ⟨by exact_mod_cast not_lt.mp low, by exact_mod_cast not_lt.mp high⟩

/-! Clamping. -/

def nearest (joint : Joint) (angle : ℚ) : ℚ :=
  max joint.lowest (min angle joint.highest)

theorem nearest_reached (joint : Joint) (angle : ℚ) : joint.Reaches (joint.nearest angle) :=
  ⟨le_max_left _ _, max_le joint.lowest_le_highest (min_le_right _ _)⟩

theorem nearest_inside (joint : Joint) {angle : ℚ} (reached : joint.Reaches angle) :
    joint.nearest angle = angle := by
  rw [nearest, min_eq_left reached.2, max_eq_right reached.1]

theorem nearest_below (joint : Joint) {angle : ℚ} (below : angle ≤ joint.lowest) :
    joint.nearest angle = joint.lowest :=
  max_eq_left ((min_le_left _ _).trans below)

theorem nearest_above (joint : Joint) {angle : ℚ} (above : joint.highest ≤ angle) :
    joint.nearest angle = joint.highest := by
  rw [nearest, min_eq_right above, max_eq_right joint.lowest_le_highest]

theorem value?_min {x y : Float} {left right : ℚ} (one : value? x = some left)
    (other : value? y = some right) : value? (if x < y then x else y) = some (min left right) := by
  have order := lt_iff_value_lt _ _ _ _ one other
  split
  · rename_i less
    rw [one, min_eq_left (order.mp less).le]
  · rename_i more
    rw [other, min_eq_right (not_lt.mp fun less => more (order.mpr less))]

theorem value?_max {x y : Float} {left right : ℚ} (one : value? x = some left)
    (other : value? y = some right) : value? (if x < y then y else x) = some (max left right) := by
  have order := lt_iff_value_lt _ _ _ _ one other
  split
  · rename_i less
    rw [other, max_eq_right (order.mp less).le]
  · rename_i more
    rw [one, max_eq_left (not_lt.mp fun less => more (order.mpr less))]

theorem clamp_exact (joint : Joint) {x : Float} {angle : ℚ} (exact : value? x = some angle) :
    value? (joint.range.clamp x) = some (joint.nearest angle) :=
  value?_max joint.value?_low (value?_min exact joint.value?_high)

end Joint

/-- The double that stands for an angle is the angle itself, unless both are far
beyond one end of every range. -/
inductive Rounds (angle rounded : ℚ) : Prop where
  | same (exact : rounded = angle)
  | above (far : 360 < angle) (rounded : 360 < rounded)
  | below (far : angle < 0) (rounded : rounded < 0)

theorem finiteAngle_rounds (value : Option Value) (number : Number) (x : Float)
    (finite : finiteAngle value = .ok (some (number, x))) :
    ∃ angle rounded, angleOf? value = some angle ∧ value? x = some rounded ∧
      Rounds angle rounded := by
  unfold finiteAngle at finite
  split at finite
  · rename_i n
    unfold Number.toDouble? at finite
    cases infinite : (ofInt n).isInf with
    | true => simp [infinite] at finite
    | false =>
        simp only [infinite, Bool.false_eq_true, ↓reduceIte] at finite
        cases finite
        obtain ⟨rounded, exact, small, large, deep⟩ := value?_ofInt n infinite
        refine ⟨n, rounded, rfl, exact, ?_⟩
        rcases (by omega : n.natAbs < 2 ^ 53 ∨ 2 ^ 53 ≤ n ∨ n ≤ -2 ^ 53) with little | far | far
        · exact .same (small little)
        · have most := large far
          have beyond : (2 ^ 53 : ℚ) ≤ n := by exact_mod_cast far
          exact .above (by linarith) (by linarith)
        · have least := deep far
          have beyond : (n : ℚ) ≤ -2 ^ 53 := by exact_mod_cast far
          exact .below (by linarith) (by linarith)
  · rename_i y
    cases known : isFinite y with
    | false => simp [known] at finite
    | true =>
        simp only [known, ↓reduceIte] at finite
        cases finite
        obtain ⟨angle, exact⟩ := (isFinite_iff _).mp known
        exact ⟨angle, angle, exact, exact, .same rfl⟩
  · cases finite

theorem nearest_serves (joint : Joint) {angle rounded : ℚ} {x : Float}
    (exact : value? x = some rounded) (rounds : Rounds angle rounded) :
    joint.Serves angle (joint.nearest rounded) ⟨joint.servo, .double (joint.range.clamp x)⟩ := by
  obtain ⟨least, most⟩ := joint.limits_within_turn
  have value := joint.clamp_exact exact
  have reached := joint.nearest_reached rounded
  -- What is far beyond a limit is so before it is rounded and after.
  cases rounds with
  | same equal =>
      subst equal
      exact ⟨rfl, value, reached, joint.nearest_inside, fun below => joint.nearest_below below.le,
        fun above => joint.nearest_above above.le⟩
  | above far beyond =>
      refine ⟨rfl, value, reached, fun inside => ?_, fun below => ?_, fun _ => ?_⟩
      · exact absurd (inside.2.trans most) (not_le.mpr far)
      · have := joint.lowest_le_highest
        linarith
      · exact joint.nearest_above (most.trans beyond.le)
  | below far beyond =>
      refine ⟨rfl, value, reached, fun inside => ?_, fun _ => ?_, fun above => ?_⟩
      · exact absurd (least.trans inside.1) (not_le.mpr far)
      · exact joint.nearest_below (beyond.le.trans least)
      · have := joint.lowest_le_highest
        linarith

/-- The command of a move is for the joint that the block names, at the angle
that it asks for or at the limit nearest to it. -/
theorem commandOfMove_serves {block : String} {parameters : Parameters} {command : Command}
    {remarks : List Remark} (made : commandOfMove block parameters = .ok (some command, remarks)) :
    ∃ joint angle target, jointOf (parameters.get? "joint") = some joint ∧
      angleOf? (parameters.get? "angle") = some angle ∧ joint.Serves angle target command := by
  unfold commandOfMove at made
  cases known : jointOf (parameters.get? "joint") with
  | none => rw [known] at made; cases made
  | some joint =>
      rw [known] at made
      cases finite : finiteAngle (parameters.get? "angle") with
      | error fault => rw [finite] at made; cases made
      | ok found =>
          rw [finite] at made
          cases found with
          | none => cases made
          | some pair =>
              obtain ⟨number, x⟩ := pair
              cases made
              obtain ⟨angle, rounded, asked, exact, rounds⟩ := finiteAngle_rounds _ _ _ finite
              exact ⟨joint, angle, joint.nearest rounded, rfl, asked,
                nearest_serves joint exact rounds⟩

def Call.IsSafe (call : Call) : Prop :=
  ∀ commands, call = .moveJoints commands →
    ∃ joint angle target command, commands = [command] ∧ Joint.Serves joint angle target command

/-! The servos. -/

variable {Time : Type}

/-- Every servo stands where its own joint can be, and all moves that the arm was
told to make were safe. -/
structure Arm.IsInReach (arm : Arm Time) : Prop where
  servos : arm.positions.map Prod.fst = Joint.all.map Joint.servo
  reached : ∀ joint : Joint, ∃ angle target, arm.positions.lookup joint.servo = some angle ∧
    angle.value? = some target ∧ joint.Reaches target
  moves : ∀ record ∈ arm.calls.toList, record.call.IsSafe

theorem Joint.servo_injective (joint other : Joint) (same : joint.servo = other.servo) :
    joint = other := by
  cases joint <;> cases other <;> first | rfl | exact absurd same (by decide)

theorem homeAngle_reached (joint : Joint) :
    ∃ target, homeAngle.value? = some target ∧ joint.Reaches target := by
  obtain ⟨target, exact⟩ := (isFinite_iff 180).mp (by decide)
  exact ⟨target, exact,
    joint.reaches_of_range exact (by cases joint <;> decide) (by cases joint <;> decide)⟩

theorem gripperOpenAngle_reached :
    ∃ target, gripperOpenAngle.value? = some target ∧ Joint.gripper.Reaches target := by
  obtain ⟨target, exact⟩ := (isFinite_iff 270).mp (by decide)
  exact ⟨target, exact, Joint.gripper.reaches_of_range exact (by decide) (by decide)⟩

theorem lookup_constant {Key Value : Type} [DecidableEq Key] (entries : List (Key × Value))
    (key : Key) (value : Value) :
    (entries.map fun entry => (entry.1, value)).lookup key =
      (entries.lookup key).map fun _ => value := by
  induction entries with
  | nil => rfl
  | cons entry rest ih =>
      rw [List.map_cons, List.lookup_cons, List.lookup_cons, ih]
      split <;> rfl

namespace Arm

theorem resting_inReach (latency : Time) (connected : Bool) (failOn : Option String) :
    (Arm.resting latency connected failOn).IsInReach := by
  refine ⟨rfl, fun joint => ?_, fun record made => nomatch made⟩
  obtain ⟨target, exact, reached⟩ := homeAngle_reached joint
  exact ⟨homeAngle, target, by cases joint <;> rfl, exact, reached⟩

theorem setServo_inReach {arm : Arm Time} (inReach : arm.IsInReach) (joint : Joint)
    {angle : Number} {target : ℚ} (exact : angle.value? = some target)
    (reached : joint.Reaches target) : (arm.setServo joint.servo angle).IsInReach := by
  refine ⟨?_, fun other => ?_, inReach.moves⟩
  · have known : joint.servo ∈ Joint.all.map Joint.servo := by cases joint <;> decide
    simp only [setServo, Keyed.keys_put, inReach.servos, known, ↓reduceIte]
  · simp only [setServo, Keyed.lookup_put]
    split
    · rename_i same
      have : other = joint := Joint.servo_injective _ _ same
      subst this
      exact ⟨angle, target, rfl, exact, reached⟩
    · exact inReach.reached other

theorem start_inReach [TimeScale Time] {arm started : Arm Time} (inReach : arm.IsInReach)
    {now : Time} {call : Call} (safe : call.IsSafe) (made : arm.start now call = .ok started) :
    started.IsInReach := by
  unfold start at made
  split at made
  · cases made
  · cases made
    refine ⟨inReach.servos, inReach.reached, fun record listed => ?_⟩
    rw [Array.toList_push] at listed
    rcases List.mem_append.mp listed with old | new
    · exact inReach.moves record old
    · cases List.mem_singleton.mp new
      exact safe

theorem finish_inReach {arm : Arm Time} (inReach : arm.IsInReach) (call : Call)
    (safe : call.IsSafe) : (arm.finish call).IsInReach := by
  cases call with
  | moveJoints commands =>
      obtain ⟨joint, angle, target, command, rfl, serves⟩ := safe commands rfl
      simp only [finish, List.foldl_cons, List.foldl_nil, serves.servo]
      exact setServo_inReach inReach joint serves.value serves.reached
  | home =>
      refine ⟨List.map_map.trans inReach.servos, fun joint => ?_, inReach.moves⟩
      obtain ⟨angle, -, here, -⟩ := inReach.reached joint
      obtain ⟨target, exact, reached⟩ := homeAngle_reached joint
      exact ⟨homeAngle, target, by simp only [finish, lookup_constant, here, Option.map_some],
        exact, reached⟩
  | openGripper =>
      obtain ⟨target, exact, reached⟩ := gripperOpenAngle_reached
      exact setServo_inReach inReach .gripper exact reached
  | closeGripper =>
      obtain ⟨target, exact, reached⟩ := homeAngle_reached .gripper
      exact setServo_inReach inReach .gripper exact reached

end Arm

end ArmProgram
