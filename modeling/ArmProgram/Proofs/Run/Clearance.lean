import ArmProgram.Proofs.Run.Moment

/-!
When calls begin. The positions from which a call is made lie right behind a
checkpoint, and all but the homing one behind a charge as well; nothing that
suspends a run leads to one of them. So what the checkpoint and the charge
have found still holds when the call begins.
-/

namespace ArmProgram

variable {Time : Type} [TimeScale Time]

namespace Frame

def isParked (frame : Frame) : Bool :=
  match frame.pending, frame.stage with
  | _ :: _, .leave | _ :: _, .iterate _ | _ :: _, .paceLoop => true
  | _, _ => false

end Frame

namespace Position

def IsNested : Position → Prop
  | walking (_ :: below) => ∀ frame ∈ below, frame.isParked = true
  | _ => True

theorem takes_nested (plan : Plan) (view : View) (position : Position) (step : Step)
    (taken : Takes plan view position step) (nested : position.IsNested) :
    step.next.IsNested := by
  cases taken with
  | entry =>
      simp only [Step.act]
      split
      · exact True.intro
      · intro frame member
        cases member
  | homing | settling => exact True.intro
  | settled =>
      intro frame member
      cases member
  | pop stage below =>
      cases below with
      | nil => exact True.intro
      | cons frame below => exact fun other member => nested other (List.mem_cons_of_mem _ member)
  | enterIf | enterBranch | openIteration | openLoop =>
      intro frame member
      rcases List.mem_cons.mp member with rfl | deeper
      · rfl
      · exact nested frame deeper
  | _ => exact nested

def isChecked : Position → Bool
  | homing => true
  | walking (⟨_ :: _, .charge⟩ :: _) => true
  | walking (⟨_ :: _, .enter⟩ :: _) => true
  | _ => false

def isCharged : Position → Bool
  | walking (⟨_ :: _, .enter⟩ :: _) => true
  | _ => false

theorem isChecked_of_isCharged (position : Position) (charged : position.isCharged = true) :
    position.isChecked = true := by
  unfold isCharged at charged
  split at charged
  · rfl
  · cases charged

theorem fresh_unchecked (blocks : List Placed) (below : List Frame) :
    (walking (.fresh blocks :: below)).isChecked = false := by
  cases blocks <;> rfl

theorem fresh_uncharged (blocks : List Placed) (below : List Frame) :
    (walking (.fresh blocks :: below)).isCharged = false := by
  cases blocks <;> rfl

theorem parked_unchecked (stack : List Frame)
    (parked : ∀ frame ∈ stack, frame.isParked = true) : (walking stack).isChecked = false := by
  cases stack with
  | nil => rfl
  | cons frame below =>
      have top := parked frame List.mem_cons_self
      obtain ⟨pending, stage⟩ := frame
      cases pending with
      | nil => cases stage <;> rfl
      | cons node rest => cases stage <;> first | rfl | cases top

/-- A checked position is reached by a checkpoint, or by a charge from another
checked one. -/
theorem takes_checked (plan : Plan) (view : View) (position : Position) (step : Step)
    (taken : Takes plan view position step) (nested : position.IsNested)
    (checked : step.next.isChecked = true) :
    step.action = some .checkpoint ∨
      (step.action = some .charge ∧ position.isChecked = true) := by
  -- A parked frame is unchecked, so popping a list cannot lead to a checked position.
  cases taken with
  | entry | arrive | iterate | loop => exact Or.inl rfl
  | charge => exact Or.inr ⟨rfl, rfl⟩
  | settled | leave | enterIf | enterBranch | openIteration | openLoop =>
      simp only [Step.silent, Step.act, fresh_unchecked, Bool.false_eq_true] at checked
  | pop stage below =>
      have unchecked := parked_unchecked below nested
      rw [Step.silent, unchecked] at checked
      cases checked
  | _ => cases checked

theorem takes_charged (plan : Plan) (view : View) (position : Position) (step : Step)
    (taken : Takes plan view position step) (nested : position.IsNested)
    (charged : step.next.isCharged = true) : step.action = some .charge := by
  rcases takes_checked plan view position step taken nested
    (isChecked_of_isCharged _ charged) with passed | ⟨action, -⟩
  · -- A checkpoint leads to the charge that follows it, never past one.
    cases taken with
    | entry =>
        simp only [Step.act] at charged
        split at charged
        · cases charged
        · rw [fresh_uncharged] at charged
          cases charged
    | arrive | iterate | loop | leaf => cases charged
    | _ => cases passed
  · exact action

/-- Calls are made from charged positions, but for the one that homes the arm. -/
theorem takes_call (plan : Plan) (view : View) (position : Position) (step : Step) (call : Call)
    (taken : Takes plan view position step) (asked : step.action = some (.call call)) :
    position = .homing ∨ position.isCharged = true := by
  cases taken with
  | homing => exact Or.inl rfl
  | leaf => exact Or.inr rfl
  | _ => cases asked

end Position

/-- What a position relies on: behind a checkpoint the run is not aborted and
the robot reports to be connected, behind a charge both budgets are kept. -/
structure Moment.Clears (moment : Moment Time) (position : Position) : Prop where
  checked : position.isChecked = true → moment.run.token.aborted = false ∧
    moment.run.plan.abilities.probe.reports moment.connected = true
  charged : position.isCharged = true →
    (moment.run.token.steps : Int) ≤ moment.run.token.maxSteps ∧
      TimeScale.before moment.run.token.maxDuration
        (moment.run.token.elapsed moment.now) = false

theorem Moment.clears_of_unchecked (moment : Moment Time) (position : Position)
    (unchecked : position.isChecked = false) : moment.Clears position := by
  have absurd (checked : position.isChecked = true) : False := by
    rw [unchecked] at checked
    cases checked
  exact ⟨fun checked => (absurd checked).elim,
    fun charged => (absurd (Position.isChecked_of_isCharged position charged)).elim⟩

theorem Token.charge_in_time (now : Time) (token : Token Time)
    (within : (token.charge now).2 = none) :
    TimeScale.before (token.charge now).1.maxDuration ((token.charge now).1.elapsed now) =
      false := by
  unfold Token.charge at within ⊢
  simp only at within ⊢
  split at within
  · cases within
  · split at within
    · cases within
    · rename_i inTime
      simpa using inTime

theorem Token.charge_aborted (now : Time) (token : Token Time) :
    (token.charge now).1.aborted = token.aborted := by
  unfold Token.charge Token.start
  cases token.startedAt <;> rfl

/-- A run is cleared for the position at which it stands between two steps; one
that is suspended goes on at a position that relies on nothing. -/
structure Moment.IsCleared (moment : Moment Time) : Prop where
  nested : moment.run.Stands Position.IsNested
  moving : ∀ position, moment.run.activity = .moving position → moment.Clears position
  parked : ∀ position, moment.run.isOpen = true → moment.run.position? = some position →
    position.isChecked = false

namespace Moment

theorem cleared_of_moving {moment : Moment Time} {next : Position}
    (nested : moment.run.Stands Position.IsNested) (activity : moment.run.activity = .moving next)
    (clears : moment.Clears next) : moment.IsCleared := by
  refine ⟨nested, ?_, ?_⟩
  · intro position moving
    rw [activity] at moving
    cases moving
    exact clears
  · intro position suspended
    simp [Run.isOpen, activity] at suspended

theorem cleared_of_open {moment : Moment Time} (nested : moment.run.Stands Position.IsNested)
    (suspended : moment.run.isOpen = true)
    (unchecked : ∀ position, moment.run.position? = some position →
      position.isChecked = false) : moment.IsCleared := by
  refine ⟨nested, ?_, fun position _ there => unchecked position there⟩
  intro position moving
  simp [Run.isOpen, moving] at suspended

theorem cleared_of_ended {moment : Moment Time} (ended : moment.run.isEnded = true) :
    moment.IsCleared := by
  have nowhere := moment.run.position?_of_isEnded ended
  refine cleared_of_open ?_ (moment.run.isOpen_of_isEnded ended) ?_
  · intro position there
    rw [nowhere] at there
    cases there
  · intro position there
    rw [nowhere] at there
    cases there

theorem unchecked_of_takes {plan : Plan} {view : View} {position : Position} {step : Step}
    (taken : position.Takes plan view step) (nested : position.IsNested)
    (free : step.action ≠ some .checkpoint) (uncharged : step.action ≠ some .charge) :
    step.next.isChecked = false := by
  rw [Bool.eq_false_iff]
  intro checked
  rcases position.takes_checked plan view step taken nested checked with passed | charged
  · exact free passed
  · exact uncharged charged.1

theorem steps_cleared {now : Time} {connected : Bool} {run after : Run Time} {call : Option Call}
    (steps : run.Steps now connected after call) (nested : after.Stands Position.IsNested)
    (cleared : IsCleared ⟨now, connected, run⟩) : IsCleared ⟨now, connected, after⟩ := by
  have stood {position : Position} (activity : run.activity = .moving position) :
      position.IsNested := cleared.nested position (by simp [Run.position?, activity])
  have parked {position : Position} (suspended : run.isOpen = true)
      (there : run.position? = some position) : position.isChecked = false :=
    cleared.parked position suspended there
  cases steps with
  | begin => exact cleared_of_moving nested rfl (clears_of_unchecked _ _ rfl)
  | silent activity stepped =>
      have taken := Position.step?_takes _ _ _ _ stepped
      have unchecked := unchecked_of_takes taken (stood activity) (by simp) (by simp)
      exact cleared_of_moving nested rfl (clears_of_unchecked _ _ unchecked)
  | cleared activity stepped unaborted reported =>
      have taken := Position.step?_takes _ _ _ _ stepped
      refine cleared_of_moving nested rfl ⟨fun _ => ⟨unaborted, reported⟩, fun charged => ?_⟩
      cases Position.takes_charged _ _ _ _ taken (stood activity) charged
  | charged activity stepped within =>
      -- What the checkpoint found is kept by the charge, which only counts.
      have taken := Position.step?_takes _ _ _ _ stepped
      refine cleared_of_moving nested rfl ⟨fun checked => ?_, fun _ => ?_⟩
      · rcases Position.takes_checked _ _ _ _ taken (stood activity) checked with passed | before
        · cases passed
        · have kept := (cleared.moving _ activity).checked before.2
          exact ⟨(Token.charge_aborted now run.token).trans kept.1, kept.2⟩
      · have within' := Token.charge_within now run.token within
        rw [← Token.charge_maxSteps now run.token] at within'
        exact ⟨within', Token.charge_in_time now run.token within⟩
  | delayed activity stepped =>
      have taken := Position.step?_takes _ _ _ _ stepped
      refine cleared_of_open nested rfl fun position there => ?_
      cases there
      exact unchecked_of_takes taken (stood activity) (by simp) (by simp)
  | called activity stepped =>
      have taken := Position.step?_takes _ _ _ _ stepped
      refine cleared_of_open nested rfl fun position there => ?_
      cases there
      exact unchecked_of_takes taken (stood activity) (by simp) (by simp)
  | stirred activity | startled turns activity | rousing activity =>
      refine cleared_of_open nested rfl fun position there => ?_
      exact parked (by simp [Run.isOpen, activity]) (by simpa [Run.position?, activity] using there)
  | woken activity =>
      have unchecked := parked (by simp [Run.isOpen, activity])
        (show run.position? = some _ by simp [Run.position?, activity]; rfl)
      exact cleared_of_moving nested rfl (clears_of_unchecked _ _ unchecked)
  | complete | misread | halted | lost | limited | refused | overslept | roused =>
      exact cleared_of_ended rfl

theorem next_cleared {before after : Moment Time} {event : Event Time}
    (happens : before.Next event after) (cleared : before.IsCleared) : after.IsCleared := by
  have nested := next_stands True.intro
    (fun position step => Position.takes_nested _ _ position step) happens cleared.nested
  cases happens with
  | step ready => exact steps_cleared (Run.step_steps _ _ _ ready) nested cleared
  | lasts later activity =>
      refine cleared_of_open nested rfl fun position there => ?_
      exact cleared.parked position (by simp [Run.isOpen, activity])
        (by simpa [Run.position?, activity] using there)
  | returns activity =>
      have unchecked := cleared.parked _ (by simp [Run.isOpen, activity])
        (by simp [Run.position?, activity]; rfl)
      exact cleared_of_moving nested rfl (clears_of_unchecked _ _ unchecked)
  | raises => exact cleared_of_ended rfl
  | abort suspended | connection reported suspended | edit place parameters suspended =>
      exact cleared_of_open nested suspended fun position => cleared.parked position suspended
  | cancel => exact cleared_of_ended (Run.cancel_isEnded _)
  | pass later waiting =>
      have suspended := Run.isOpen_of_waits _ later _ waiting
      exact cleared_of_open nested suspended fun position => cleared.parked position suspended
  | @expire now due connected capped run next activity =>
      have suspended : run.isOpen = true := by simp [Run.isOpen, activity]
      exact cleared_of_open nested suspended fun position => cleared.parked position suspended

theorem initial_cleared (now : Time) (connected : Bool) (blocks : List Block)
    (abilities : Abilities) (config : Config) (token : Token Time) :
    (initial now connected blocks abilities config token).IsCleared := by
  refine cleared_of_open ?_ rfl ?_
  · intro position there
    cases there
  · intro position there
    cases there

/-- A call is asked for where a cleared run stands: at the homing position or
at a charged one. -/
theorem asked_at (moment : Moment Time) (call : Call)
    (asked : moment.asked? = some call) :
    ∃ position, moment.run.activity = .moving position ∧
      (position = .homing ∨ position.isCharged = true) := by
  unfold asked? at asked
  split at asked
  · rename_i ready
    have steps := Run.step_steps moment.now moment.connected moment.run ready
    rw [asked] at steps
    generalize (moment.run.step moment.now moment.connected).run = after at steps
    cases steps with
    | called activity stepped =>
        have taken := Position.step?_takes _ _ _ _ stepped
        exact ⟨_, activity, Position.takes_call _ _ _ _ call taken rfl⟩
  · cases asked

end Moment

/-- When a call begins the run is not aborted and its probe, if it has one,
reports the robot to be connected. All calls but the homing one begin within
the budgets of steps and of time as well. -/
theorem call_begins_cleared {now : Time} {connected : Bool} {blocks : List Block}
    {abilities : Abilities} {config : Config} {token : Token Time} {moment : Moment Time}
    (course : Course (.initial now connected blocks abilities config token) moment) (call : Call)
    (asked : moment.asked? = some call) :
    moment.run.token.aborted = false ∧
      abilities.probe.reports moment.connected = true ∧
      (moment.run.activity ≠ .moving .homing →
        (moment.run.token.steps : Int) ≤ token.maxSteps ∧
          TimeScale.before token.maxDuration (moment.run.token.elapsed moment.now) = false) := by
  have cleared : moment.IsCleared :=
    course.keeps (fun _ _ _ => Moment.next_cleared)
      (Moment.initial_cleared now connected blocks abilities config token)
  have terms := course.terms
  obtain ⟨position, activity, place⟩ := moment.asked_at call asked
  have clears := cleared.moving position activity
  have checked : position.isChecked = true := by
    rcases place with rfl | charged
    · rfl
    · exact position.isChecked_of_isCharged charged
  obtain ⟨unaborted, reported⟩ := clears.checked checked
  have plan : moment.run.plan.abilities = abilities := by rw [terms.plan]; rfl
  rw [plan] at reported
  refine ⟨unaborted, reported, fun elsewhere => ?_⟩
  rcases place with rfl | charged
  · exact absurd activity elsewhere
  · have budgets := clears.charged charged
    have maxSteps : moment.run.token.maxSteps = token.maxSteps := terms.maxSteps
    have maxDuration : moment.run.token.maxDuration = token.maxDuration := terms.maxDuration
    rw [maxSteps, maxDuration] at budgets
    exact budgets

theorem first_grip_begins_cleared :
    ∃ moment : Moment Float, Nonempty (Course (.initial 0 true
        [⟨"grip", "open_gripper", .empty, none, none⟩] ⟨false, true, false, .robot⟩ .default
        (.fresh 10 300)) moment) ∧
      moment.asked? = some .openGripper ∧ moment.run.activity ≠ .moving .homing ∧
      moment.run.token.aborted = false ∧ Probe.robot.reports moment.connected = true ∧
      (moment.run.token.steps : Int) ≤ 10 ∧
      TimeScale.before 300 (moment.run.token.elapsed moment.now) = false := by
  have reached : ∃ moment : Moment Float, Nonempty (Course (.initial 0 true
        [⟨"grip", "open_gripper", .empty, none, none⟩] ⟨false, true, false, .robot⟩ .default
        (.fresh 10 300)) moment) ∧
      moment.asked? = some .openGripper ∧ moment.run.phase = .running := by
    refine ⟨_, ⟨.next .step (.step rfl) <| .next .step (.step rfl) <| .next .step (.step rfl) <|
      .next .step (.step rfl) <| .here _⟩, ?_, ?_⟩
    · rfl
    · rfl
  obtain ⟨moment, ⟨course⟩, asked, running⟩ := reached
  have elsewhere : moment.run.activity ≠ .moving .homing := by
    intro homing
    simp [Run.phase, homing, Position.phase] at running
  obtain ⟨unaborted, reported, budgets⟩ := call_begins_cleared course .openGripper asked
  exact ⟨moment, ⟨course⟩, asked, elsewhere, unaborted, reported, budgets elsewhere⟩

end ArmProgram
