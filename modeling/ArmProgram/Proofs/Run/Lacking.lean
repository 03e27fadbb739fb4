import ArmProgram.Arm.Robot
import ArmProgram.Proofs.Run.Trail

/-!
Robots that lack abilities. A run on a robot that cannot home, or whose gripper
cannot be opened or closed, takes the trail of the run on the whole robot without
the calls that it cannot make. Its charges and its end are the same.
-/

namespace ArmProgram

/-! What is lacking. -/

structure Lack where
  home : Bool
  openGripper : Bool
  closeGripper : Bool

def Lack.bars (lack : Lack) : Call → Bool
  | .home => lack.home
  | .openGripper => lack.openGripper
  | .closeGripper => lack.closeGripper
  | .moveJoints _ => false

def Lack.spare (lack : Lack) (calls : List Call) : List Call :=
  calls.filter fun call => !lack.bars call

def Features.without (lack : Lack) (features : Features) : Features :=
  { features with
    home := features.home && !lack.home
    openGripper := features.openGripper && !lack.openGripper
    closeGripper := features.closeGripper && !lack.closeGripper }

def Plan.without (lack : Lack) (plan : Plan) : Plan :=
  { plan with
    abilities :=
      { plan.abilities with
        home := plan.abilities.home && !lack.home
        openGripper := plan.abilities.openGripper && !lack.openGripper
        closeGripper := plan.abilities.closeGripper && !lack.closeGripper } }

def Route.without (lack : Lack) (route : Route) : Route :=
  { route with plan := route.plan.without lack }

def Action.without (lack : Lack) : Action → Option Action
  | .call wanted => Walk.callIf (!lack.bars wanted) wanted
  | action => some action

def Position.without (lack : Lack) (plan : Plan) (position : Position) : Position :=
  if lack.home = true ∧ position.phase = .homing then .walking [.fresh plan.index.topLevel]
  else position

def Step.without (lack : Lack) (plan : Plan) (step : Step) : Step :=
  { step with
    action := step.action.bind (Action.without lack)
    next := step.next.without lack plan }

def Way.without (lack : Lack) (plan : Plan) : Way → Way
  | .on position => .on (position.without lack plan)
  | .ended ending => .ended ending

def Trail.without (lack : Lack) (plan : Plan) (trail : Trail) : Trail :=
  { trail with way := trail.way.without lack plan, calls := lack.spare trail.calls }

variable (lack : Lack) (plan : Plan) (view : View)

/-! One step of a walk. -/

theorem Position.walking_without (stack : List Frame) :
    (walking stack).without lack plan = walking stack :=
  if_neg fun there => by cases there.2

theorem Step.walking_without (notes : List Note) (action : Option Action) (stack : List Frame) :
    (Step.mk notes action (.walking stack)).without lack plan =
      ⟨notes, action.bind (Action.without lack), .walking stack⟩ := by
  rw [without, Position.walking_without]

theorem Step.charges_without (step : Step) :
    (step.without lack plan).charges = step.charges := by
  obtain ⟨notes, action, next⟩ := step
  cases action with
  | none => rfl
  | some action =>
      cases action with
      | call call =>
          cases barred : lack.bars call <;>
            simp [without, charges, Action.without, Walk.callIf, barred]
      | checkpoint | charge | delay ms => rfl

theorem Step.call?_without (step : Step) :
    (step.without lack plan).call?.toList = lack.spare step.call?.toList := by
  obtain ⟨notes, action, next⟩ := step
  cases action with
  | none => rfl
  | some action =>
      cases action with
      | call call =>
          cases barred : lack.bars call <;>
            simp [without, call?, Lack.spare, Action.without, Walk.callIf, barred]
      | checkpoint | charge | delay ms => rfl

namespace Walk

theorem callIf_without (able : Bool) (call : Call) :
    (callIf able call).bind (Action.without lack) = callIf (able && !lack.bars call) call := by
  cases able <;> rfl

theorem leaf_without (node : Placed) (parameters : Parameters) (kind : Option Kind) :
    leaf (plan.without lack) node parameters kind =
      (leaf plan node parameters kind).map fun found =>
        (found.1, found.2.bind (Action.without lack)) := by
  have optional (able : Bool) (call : Call) :
      (.ok ([], callIf (able && !lack.bars call) call) :
          Except CoercionFault (List Note × Option Action)) =
        (Except.ok ([], callIf able call)).map fun found =>
          (found.1, found.2.bind (Action.without lack)) := by
    simp only [Except.map, callIf_without]
  unfold leaf
  split
  · cases commandOfMove node.block.id parameters with
    | error fault => rfl
    | ok pair =>
        obtain ⟨command, remarks⟩ := pair
        cases command <;> rfl
  · change (waitDuration (parameters.get? "seconds") plan.defaultWait).map _ = _
    cases waitDuration (parameters.get? "seconds") plan.defaultWait <;> rfl
  · exact optional _ .openGripper
  · exact optional _ .closeGripper
  · exact optional _ .home
  · rfl

theorem enter_without (node : Placed) (rest : List Placed) (below : List Frame) :
    enter (plan.without lack) view node rest below =
      (enter plan view node rest below).map (Step.without lack plan) := by
  have quiet (stack : List Frame) :
      (Except.ok (Step.silent (.walking stack)) : Except CoercionFault Step) =
        (Except.ok (.silent (.walking stack))).map (Step.without lack plan) :=
    congrArg Except.ok (Step.walking_without lack plan [] none stack).symm
  unfold enter
  simp only
  split
  · cases repeatCount ((view node.place).get? "times") with
    | error fault => rfl
    | ok count => exact quiet _
  · split
    · exact quiet _
    · exact quiet _
  · exact quiet _
  · exact quiet _
  · rw [leaf_without]
    cases leaf plan node (view node.place) node.block.kind? with
    | error fault => rfl
    | ok found => exact congrArg Except.ok (Step.walking_without lack plan _ _ _).symm

theorem advance_without (node : Placed) (rest : List Placed) (stage : Stage)
    (below : List Frame) :
    advance (plan.without lack) view node rest stage below =
      (advance plan view node rest stage below).map (Step.without lack plan) := by
  have same (action : Option Action) (plain : action.bind (Action.without lack) = action)
      (stack : List Frame) :
      (Except.ok ⟨[], action, .walking stack⟩ : Except CoercionFault Step) =
        (Except.ok ⟨[], action, .walking stack⟩).map (Step.without lack plan) := by
    simp only [Except.map, Step.walking_without, plain]
  cases stage with
  | enter => exact enter_without lack plan view node rest below
  | iterate left => cases left <;> exact same _ rfl _
  | loop =>
      simp only [advance]
      split <;> exact same _ rfl _
  | _ => exact same _ rfl _

end Walk

namespace Position

theorem home_of_skipped {position : Position} (skipped : position.without lack plan ≠ position) :
    lack.home = true ∧ position.phase = .homing := by
  by_contra stays
  exact skipped (if_neg stays)

/-- Where it does not skip the homing, the walk goes on in the same way. -/
theorem step?_without (position : Position) (stays : position.without lack plan = position) :
    position.step? (plan.without lack) view =
      (position.step? plan view).map (Except.map (Step.without lack plan)) := by
  have able (homing : position.phase = .homing) : lack.home = false := by
    by_contra lacking
    rw [without, if_pos ⟨Bool.eq_true_of_not_eq_false lacking, homing⟩] at stays
    rw [← stays] at homing
    cases homing
  match position with
  | .entry =>
      by_cases homes : plan.abilities.home = true <;> by_cases lacks : lack.home = true <;>
        simp [step?, Except.map, Step.without, Step.act, Plan.without, homes, lacks, without, phase,
          Action.without]
  | .homing =>
      simp [step?, Except.map, Step.without, Action.without, Walk.callIf, Lack.bars, able rfl,
        without]
  | .settling =>
      simp [step?, Except.map, Step.without, Step.act, Action.without, able rfl, without,
        Plan.without]
  | .settled | .walking [] | .walking (⟨[], stage⟩ :: below) =>
      simp [step?, Except.map, Step.silent, Step.walking_without, Plan.without]
  | .walking (⟨node :: rest, stage⟩ :: below) =>
      exact congrArg some (Walk.advance_without lack plan view node rest stage below)

end Position

namespace Trail

theorem next_without (route : Route) (trail : Trail) :
    (trail.next route).without lack route.plan = trail.without lack route.plan ∨
      (trail.next route).without lack route.plan =
        (trail.without lack route.plan).next (route.without lack) := by
  obtain ⟨way, steps, calls⟩ := trail
  cases way with
  | ended ending => exact Or.inl rfl
  | on position =>
      by_cases stays : position.without lack route.plan = position
      · refine Or.inr ?_
        have same : without lack route.plan ⟨.on position, steps, calls⟩ =
            ⟨.on position, steps, lack.spare calls⟩ := by
          rw [without, Way.without, stays]
        have stepped := Position.step?_without lack route.plan route.view position stays
        rw [same]
        cases taken : position.step? route.plan route.view with
        | none => simp only [next, Route.without, stepped, taken, Option.map_none]; rfl
        | some result =>
            rw [taken] at stepped
            cases result with
            | error fault => simp only [next, Route.without, stepped, taken]; rfl
            | ok step =>
                have spared : position.step? (route.without lack).plan (route.without lack).view =
                    some (.ok (step.without lack route.plan)) := stepped
                have budget : (route.without lack).maxSteps = route.maxSteps := rfl
                rw [next_of_step taken, next_of_step spared, Step.charges_without,
                  Step.call?_without, budget]
                by_cases beyond :
                    step.charges = true ∧ route.maxSteps < (steps + step.charges.toNat : Nat)
                · rw [if_pos beyond, if_pos beyond]
                  rfl
                · rw [if_neg beyond, if_neg beyond, without, Lack.spare, List.filter_append]
                  rfl
      · refine Or.inl ?_
        obtain ⟨lacking, homing⟩ := Position.home_of_skipped lack route.plan stays
        cases position with
        | entry | walking stack => cases homing
        | homing | settling | settled =>
            simp [next, without, Way.without, Position.step?, Step.act, Step.silent, Step.charges,
              Step.call?, Position.without, Position.phase, lacking, Lack.spare, Lack.bars]

theorem iterate_without (route : Route) (count : Nat) (trail : Trail) :
    ∃ fewer, ((next route)^[count] trail).without lack route.plan =
      (next (route.without lack))^[fewer] (trail.without lack route.plan) := by
  induction count generalizing trail with
  | zero => exact ⟨0, rfl⟩
  | succ count ih =>
      obtain ⟨fewer, same⟩ := ih (trail.next route)
      rw [Function.iterate_succ_apply, same]
      rcases next_without lack route trail with stays | goes
      · exact ⟨fewer, by rw [stays]⟩
      · exact ⟨fewer + 1, by rw [goes, Function.iterate_succ_apply]⟩

def start : Trail :=
  ⟨.on .entry, 0, []⟩

theorem start_without : start.without lack plan = start := by
  have stays : Position.entry.without lack plan = .entry := if_neg fun there => by cases there.2
  rw [start, without, Way.without, stays]
  rfl

theorem isEnded_without (trail : Trail) :
    (trail.without lack plan).isEnded = trail.isEnded := by
  obtain ⟨way, steps, calls⟩ := trail
  cases way <;> rfl

end Trail

variable {Time : Type} [TimeScale Time]

omit [TimeScale Time] in
theorem Run.ending_of_trail {run other : Run Time} {calls others : List Call}
    (ended : run.isEnded = true) (ended' : other.isEnded = true)
    (same : (run.trail calls).without lack plan = other.trail others) :
    others = lack.spare calls ∧ other.token.steps = run.token.steps ∧ other.phase = run.phase ∧
      other.ending?.map Ending.timeless = run.ending?.map Ending.timeless := by
  cases activity : run.activity with
  | ended ending =>
      cases activity' : other.activity with
      | ended ending' =>
          simp only [trail, Trail.without, way, activity, activity', Way.without,
            Trail.mk.injEq, Way.ended.injEq] at same
          obtain ⟨endings, steps, calls⟩ := same
          refine ⟨calls.symm, steps.symm, ?_, ?_⟩
          · rw [phase_of_ended activity, phase_of_ended activity', ← ending'.phase_timeless,
              ← endings, ending.phase_timeless]
          · rw [ending?, ending?, activity, activity', Option.map_some, Option.map_some, endings]
      | _ => simp [isEnded, activity'] at ended'
  | _ => simp [isEnded, activity] at ended

/-- How two courses of a program go alike, one on the whole robot and one without what it
lacks. -/
structure Course.Spares (blocks : Nat) (maxSteps : Int) {first whole start part : Moment Time}
    (full : Course first whole) (bare : Course start part) : Prop where
  same : whole.run.isEnded = true → part.run.isEnded = true →
    bare.callSequence = lack.spare full.callSequence ∧
      part.run.token.steps = whole.run.token.steps ∧ part.run.phase = whole.run.phase ∧
      part.run.ending?.map Ending.timeless = whole.run.ending?.map Ending.timeless
  behind : whole.run.isEnded = true → bare.callSequence <+: lack.spare full.callSequence
  ahead : part.run.isEnded = true → lack.spare full.callSequence <+: bare.callSequence
  moves : bare.moves ≤ mostMoves blocks maxSteps
  goesOn : part.run.isEnded = false → ∃ event after, part.Next event after ∧
    event.isCalm = true ∧ (event.isMove = true ∨ event = .expire)

section

variable {now now' : Time} {connected connected' : Bool} {blocks : List Block}
  {features : Features} {simulate : Bool} {config : Config} {maxSteps : Int} {maxDuration : Time}
  {whole part : Moment Time}

/-- A run on a robot that lacks abilities does all that it does on the whole robot, but
for the calls that need them. -/
theorem run_lacking_abilities_spares_calls
    (full : Course (.initial now connected blocks (Robot.bind features simulate) config
      (.fresh maxSteps maxDuration)) whole)
    (bare : Course (.initial now' connected' blocks (Robot.bind (features.without lack) simulate)
      config (.fresh maxSteps maxDuration)) part)
    (reported : (Robot.probe features simulate).reports connected = true)
    (reported' : (Robot.probe features simulate).reports connected' = true)
    (calm : full.IsCalm) (calm' : bare.IsCalm)
    (inTime : ¬ whole.run.IsOutOfTime) (inTime' : ¬ part.run.IsOutOfTime) :
    full.Spares lack blocks.length maxSteps bare := by
  have fresh : Moment.IsCalm (.initial now connected blocks (Robot.bind features simulate) config
      (.fresh maxSteps maxDuration)) := ⟨rfl, nofun, reported⟩
  have fresh' : Moment.IsCalm (.initial now' connected' blocks
      (Robot.bind (features.without lack) simulate) config (.fresh maxSteps maxDuration)) :=
    ⟨rfl, nofun, reported'⟩
  obtain ⟨count, trail⟩ := full.follows_trail calm fresh inTime []
  obtain ⟨count', trail'⟩ := bare.follows_trail calm' fresh' inTime' []
  let route : Route :=
    (Run.prepare blocks (Robot.bind features simulate) config (.fresh maxSteps maxDuration)).route
  -- Both courses are looks at one trail, that of the robot without the abilities.
  let seen (count : Nat) : Trail := (Trail.next (route.without lack))^[count] Trail.start
  obtain ⟨fewer, spared⟩ := Trail.iterate_without lack route count Trail.start
  rw [Trail.start_without] at spared
  have onto : (whole.run.trail full.callSequence).without lack route.plan = seen fewer :=
    (congrArg (Trail.without lack route.plan) trail).trans spared
  have other : part.run.trail bare.callSequence = seen count' := trail'
  have done (ended : whole.run.isEnded = true) : (seen fewer).isEnded = true := by
    rw [← onto, Trail.isEnded_without, Run.isEnded_trail, ended]
  have done' (ended : part.run.isEnded = true) : (seen count').isEnded = true := by
    rw [← other, Run.isEnded_trail, ended]
  have calls : lack.spare full.callSequence = (seen fewer).calls := congrArg Trail.calls onto
  have calls' : bare.callSequence = (seen count').calls := congrArg Trail.calls other
  have moves := bare.moves_within blocks rfl
  have worth := Moment.initial_worth now' connected' blocks
    (Robot.bind (features.without lack) simulate) config maxSteps maxDuration
  refine { same := ?_, behind := ?_, ahead := ?_, moves := by omega, goesOn := part.goes_on_calm }
  · intro ended ended'
    have meet := Trail.iterate_unique (done ended) (done' ended')
    exact Run.ending_of_trail lack route.plan ended ended' ((onto.trans meet).trans other.symm)
  · intro ended
    rw [calls, calls']
    exact Trail.calls_prefix_of_isEnded (done ended)
  · intro ended
    rw [calls, calls']
    exact Trail.calls_prefix_of_isEnded (done' ended)

end

def twoGrips : List Block :=
  [⟨"open", "open_gripper", .empty, none, none⟩, ⟨"close", "close_gripper", .empty, none, none⟩]

/-- Without its homing and its opening gripper the robot makes no call at all before the
limit is reached. -/
theorem run_lacking_grip_spares_calls :
    ∃ (whole part : Moment Float)
      (full : Course (.initial 0 true twoGrips (Robot.bind .all false) Config.default.withoutPacing
        (.fresh 1 60)) whole)
      (bare : Course (.initial 0 true twoGrips
        (Robot.bind (Features.all.without ⟨true, true, false⟩) false) Config.default.withoutPacing
        (.fresh 1 60)) part),
      full.IsCalm ∧ bare.IsCalm ∧ whole.run.isEnded = true ∧ part.run.isEnded = true ∧
        full.callSequence = [.home, .openGripper] ∧
        full.Spares ⟨true, true, false⟩ twoGrips.length 1 bare := by
  let full : Course (.initial (0 : Float) true twoGrips (Robot.bind .all false)
      Config.default.withoutPacing (.fresh 1 60)) _ :=
    .next .step (.step rfl) <| .next .step (.step rfl) <| .next .step (.step rfl) <|
    .next .returns (.returns rfl) <| .next .step (.step rfl) <| .next .step (.step rfl) <|
    .next .step (.step rfl) <| .next .step (.step rfl) <| .next .step (.step rfl) <|
    .next .step (.step rfl) <| .next .returns (.returns rfl) <| .next .step (.step rfl) <|
    .next .step (.step rfl) <| .next .step (.step rfl) <| .next .step (.step rfl) <| .here _
  let bare : Course (.initial (0 : Float) true twoGrips
      (Robot.bind (Features.all.without ⟨true, true, false⟩) false)
      Config.default.withoutPacing (.fresh 1 60)) _ :=
    .next .step (.step rfl) <| .next .step (.step rfl) <| .next .step (.step rfl) <|
    .next .step (.step rfl) <| .next .step (.step rfl) <| .next .step (.step rfl) <|
    .next .step (.step rfl) <| .next .step (.step rfl) <| .next .step (.step rfl) <| .here _
  have calm : full.IsCalm := List.all_eq_true.mp (rfl : full.events.all Event.isCalm = true)
  have calm' : bare.IsCalm := List.all_eq_true.mp (rfl : bare.events.all Event.isCalm = true)
  refine ⟨_, _, full, bare, calm, calm', rfl, rfl, rfl, ?_⟩
  exact run_lacking_abilities_spares_calls ⟨true, true, false⟩ full bare rfl rfl calm calm'
    (fun ⟨_, _, _, late⟩ => by cases late) (fun ⟨_, _, _, late⟩ => by cases late)

end ArmProgram
