import ArmProgram.Proofs.Block.Liveness
import ArmProgram.Proofs.Run.Budget
import ArmProgram.Proofs.Run.Deadline

/-!
Whether a run completes in time. The budget is looked at before a block is run and
in every delay, so a run that is paced looks at it once more behind its last block.
A run without pacing does not, and may complete late after a long last call.
-/

namespace ArmProgram

/-! Walks with nothing left to run. -/

namespace Position

def isFinishing : Position → Bool
  | walking stack => stack.all (·.pending.isEmpty)
  | _ => false

/-- A walk of a program comes to have nothing left by the delay behind a block. -/
theorem takes_finishing {plan : Plan} {view : View} {position : Position} {step : Step}
    (taken : Takes plan view position step) (busy : plan.index.topLevel ≠ [])
    (finishing : step.next.isFinishing = true) :
    position.isFinishing = true ∧ step.action = none ∨
      step.action = some (.delay plan.interBlockDelay) := by
  have top : (walking [.fresh plan.index.topLevel]).isFinishing = false := by
    simpa [isFinishing, Frame.fresh] using busy
  cases taken with
  | entry =>
      simp only [Step.act] at finishing
      split at finishing
      · cases finishing
      · rw [top] at finishing
        cases finishing
  | settled =>
      simp only [Step.silent, top] at finishing
      cases finishing
  | pop stage below => exact Or.inl ⟨finishing, rfl⟩
  | leave | paceLoop => exact Or.inr rfl
  | _ => simp [isFinishing, Step.act, Step.silent] at finishing

end Position

/-! Pauses of a token. -/

theorem Pause.ofLength_cases {Time : Type} [TimeScale Time] (now length : Time) (capped : Bool) :
    (∃ due, ofLength now length capped = .till due capped) ∨
      ∃ more, ofLength now length capped = .turns more capped := by
  unfold ofLength
  simp only
  split
  · exact Or.inl ⟨_, rfl⟩
  · split <;> exact Or.inr ⟨_, rfl⟩

namespace Token

variable {token : Token EReal} {now start : EReal}

theorem elapsed_le (started : token.startedAt = some start)
    (early : now ≤ start + token.maxDuration) : token.elapsed now ≤ token.maxDuration := by
  simp only [elapsed, started]
  exact EReal.sub_le_of_le_add' early

theorem pause_in_time {ms : Number} {pause : Pause EReal}
    (paused : token.pause now ms = .ok pause) (started : token.startedAt = some start)
    (positive : ms.isPositive = true) :
    (∃ more, pause = .turns more true) ∨ token.elapsed now ≤ token.maxDuration := by
  have passed : token.elapsed now = now - start := by simp [elapsed, started, TimeScale.sub]
  rcases pause_cases paused started with ⟨-, nothing⟩ | cut | ⟨-, fits⟩
  · rw [positive] at nothing
    cases nothing
  · rcases Pause.ofLength_cases now (TimeScale.orZero (token.maxDuration - (now - start))) true
      with ⟨due, till⟩ | ⟨more, turns⟩
    · obtain ⟨ahead, within⟩ := pause_within paused started (cut.trans till)
      exact Or.inr (elapsed_le started (ahead.le.trans within))
    · exact Or.inl ⟨more, cut.trans turns⟩
  · right
    rw [passed]
    exact (EReal.sub_pos.mp ((ofMillis_pos positive).trans_le fits)).le

end Token

/-! Along a course. -/

def Activity.isFailing {Time : Type} : Activity Time → Bool
  | .pausing (.turns _ true) _ | .rousing _ _ => true
  | _ => false

namespace Moment

def FinishesInTime (moment : Moment EReal) : Prop :=
  ∀ position, moment.run.position? = some position → position.isFinishing = true →
    moment.run.activity.isFailing = false →
    (∀ call due, moment.run.activity ≠ .calling call due position) ∧
      moment.run.token.elapsed moment.now ≤ moment.run.token.maxDuration

theorem steps_finishes {now : EReal} {connected : Bool} {run after : Run EReal}
    {asked : Option Call} (steps : Run.Steps now connected run after asked)
    (clocked : run.IsClocked) (busy : run.plan.index.topLevel ≠ [])
    (paced : run.plan.interBlockDelay.isPositive = true)
    (finishes : FinishesInTime ⟨now, connected, run⟩) :
    FinishesInTime ⟨now, connected, after⟩ := by
  intro position there finishing unfailing
  -- A walk has nothing left to run behind such a position, or in the delay behind a block.
  have taken {before : Position} {step : Step}
      (stepped : before.step? run.plan run.view = some (.ok step)) (same : step.next = position) :
      before.isFinishing = true ∧ step.action = none ∨
        step.action = some (.delay run.plan.interBlockDelay) := by
    refine Position.takes_finishing (Position.step?_takes _ _ _ _ stepped) busy ?_
    rw [same]
    exact finishing
  cases steps with
  | begin =>
      cases there
      cases finishing
  | silent activity stepped =>
      cases there
      rcases taken stepped rfl with ⟨before, -⟩ | delays
      · obtain ⟨-, early⟩ := finishes _ (by simp only [Run.position?, activity]) before
          (by simp only [activity]; rfl)
        exact ⟨by simp, early⟩
      · cases delays
  | cleared activity stepped | charged activity stepped | called activity stepped =>
      cases there
      rcases taken stepped rfl with ⟨-, acts⟩ | delays
      · cases acts
      · cases delays
  | delayed activity stepped paused =>
      cases there
      refine ⟨by simp, ?_⟩
      rcases taken stepped rfl with ⟨-, acts⟩ | delays
      · cases acts
      · cases delays
        obtain ⟨start, started⟩ :=
          clocked (by simp [Run.hasBegun, activity]) (by simp [Run.isEnded, activity])
        rcases Token.pause_in_time paused started paced with ⟨more, rfl⟩ | early
        · cases unfailing
        · exact early
  | @stirred more capped next activity =>
      cases capped with
      | true => cases unfailing
      | false =>
          obtain ⟨-, early⟩ := finishes position
            (by simpa only [Run.position?, activity] using there) finishing
            (by simp only [activity]; rfl)
          exact ⟨by simp, early⟩
  | @woken pause next activity passed =>
      -- A pause that the budget has cut to turns does not go on.
      have unspoilt : run.activity.isFailing = false := by
        rw [activity]
        cases pause with
        | turn | till => rfl
        | turns more capped =>
            cases capped with
            | false => rfl
            | true =>
                cases aborted : run.token.aborted <;> simp [Token.afterPause, aborted] at passed
      obtain ⟨-, early⟩ := finishes position
        (by simpa only [Run.position?, activity] using there) finishing unspoilt
      exact ⟨by simp, early⟩
  | startled | rousing => cases unfailing
  | complete | misread | halted | lost | limited | refused | overslept | roused => cases there

theorem finishes_of_sleeps {moment : Moment EReal} (sleeps : moment.SleepsInTime) {due : EReal}
    {capped : Bool} {next : Position}
    (activity : moment.run.activity = .pausing (.till due capped) next) :
    moment.FinishesInTime := by
  intro position there finishing unfailing
  obtain ⟨early, deadline, known, within⟩ := sleeps due capped next activity
  obtain ⟨start, started, rfl⟩ := Option.map_eq_some_iff.mp known
  refine ⟨fun call due' calling => ?_, Token.elapsed_le started (early.trans within)⟩
  cases activity.symm.trans calling

theorem next_finishes {before after : Moment EReal} {event : Event EReal}
    (happens : before.Next event after) (clocked : before.run.IsClocked)
    (sleeps : after.SleepsInTime) (busy : before.run.plan.index.topLevel ≠ [])
    (paced : before.run.plan.interBlockDelay.isPositive = true)
    (finishes : before.FinishesInTime) : after.FinishesInTime := by
  cases happens with
  | step ready => exact steps_finishes (Run.step_steps _ _ _ ready) clocked busy paced finishes
  | lasts later activity | returns activity =>
      intro position there finishing unfailing
      obtain ⟨uncalled, -⟩ := finishes position
        (by simpa [Run.position?, Run.resume, activity] using there) finishing
        (by simp only [activity]; rfl)
      cases there
      exact absurd activity (uncalled _ _)
  | raises => exact fun position there => by cases there
  | @cancel now connected run =>
      intro position there
      rw [Run.position?_of_isEnded _ run.cancel_isEnded] at there
      cases there
  | abort | connection | edit => exact finishes
  | pass later waiting =>
      intro position there finishing unfailing
      rcases Run.sleeps_or_calls waiting there with ⟨due, capped, sleeping⟩ | ⟨call, due, calling⟩
      · exact finishes_of_sleeps sleeps sleeping position there finishing unfailing
      · -- There is no call with nothing left to run.
        obtain ⟨uncalled, -⟩ := finishes position there finishing unfailing
        exact absurd calling (uncalled call due)
  | expire activity => exact finishes_of_sleeps sleeps activity

end Moment

/-! How runs end by themselves. -/

section Ends

variable {Time : Type} [TimeScale Time]

theorem Run.steps_completed {now : Time} {connected : Bool} {run after : Run Time}
    {asked : Option Call} (steps : Steps now connected run after asked)
    (completed : after.activity = .ended .completed) :
    after.token = run.token ∧ run.activity = .moving (.walking []) := by
  cases steps with
  | complete activity stepped =>
      cases Position.step?_end _ _ _ stepped
      exact ⟨rfl, activity⟩
  | _ => cases completed

theorem Moment.completed_by_step {before after : Moment Time} {event : Event Time}
    (happens : before.Next event after) (completed : after.run.activity = .ended .completed)
    (running : before.run.activity ≠ .ended .completed) :
    after.now = before.now ∧ after.run.token = before.run.token ∧
      before.run.activity = .moving (.walking []) := by
  cases happens with
  | step ready => exact ⟨rfl, Run.steps_completed (Run.step_steps _ _ _ ready) completed⟩
  | lasts | returns | raises => cases completed
  | @cancel now connected run =>
      cases ended : run.isEnded with
      | true =>
          obtain ⟨ending, activity⟩ := run.isEnded_iff.mp ended
          simp only [Run.cancel_of_ended activity] at completed
          exact absurd completed running
      | false =>
          rcases Run.cancel_of_going ended with activity | activity <;>
            cases activity.symm.trans completed
  | abort | connection | edit | pass | expire => exact absurd completed running

def Run.IsRousedByAbort (run : Run Time) : Prop :=
  ∀ turns next, run.activity = .rousing turns next → run.token.aborted = true

theorem Run.steps_roused {now : Time} {connected : Bool} {run after : Run Time}
    {asked : Option Call} (steps : Steps now connected run after asked)
    (roused : run.IsRousedByAbort) : after.IsRousedByAbort := by
  intro turns next rousing
  cases steps with
  | startled turns activity aborted => exact aborted
  | rousing activity => exact roused _ _ activity
  | _ => cases rousing

theorem Moment.next_roused {before after : Moment Time} {event : Event Time}
    (happens : before.Next event after) (roused : before.run.IsRousedByAbort) :
    after.run.IsRousedByAbort := by
  cases happens with
  | step ready => exact Run.steps_roused (Run.step_steps _ _ _ ready) roused
  | lasts | returns | raises => exact fun _ _ rousing => by cases rousing
  | @cancel now connected run =>
      intro turns next rousing
      have ended := run.cancel_isEnded
      rw [Run.isEnded, rousing] at ended
      cases ended
  | abort => exact fun _ _ _ => rfl
  | connection | edit | pass | expire => exact roused

theorem Token.aborted_of_refused {now : Time} {ms : Number} {token : Token Time}
    {fault : Fault Time} (refused : token.pause now ms = .error fault) :
    token.aborted = true := by
  unfold pause at refused
  split at refused
  · assumption
  · split at refused
    · cases refused
    · simp only at refused
      split at refused
      · cases refused
      · split at refused <;> cases refused

theorem Token.aborted_of_afterPause {now : Time} {pause : Pause Time} {token : Token Time}
    (passed : token.afterPause now pause = some .aborted) : token.aborted = true := by
  unfold afterPause at passed
  split at passed
  · assumption
  · assumption
  · cases passed
  · cases passed
  · cases passed

inductive Run.Explains (connected : Bool) (run : Run Time) : Fault Time → Prop where
  | stepLimit (budget : Int) (steps : Nat) (elapsed : Time) :
      Explains connected run (.stepLimit budget steps elapsed)
  | timeLimit (budget : Time) (steps : Nat) (elapsed : Time) :
      Explains connected run (.timeLimit budget steps elapsed)
  | aborted (aborted : run.token.aborted = true) : Explains connected run .aborted
  | lost (unreported : run.plan.abilities.probe.reports connected = false) :
      Explains connected run .connectionLost
  | unread (fault : CoercionFault) : Explains connected run (.failed (.coercion fault))

theorem Run.steps_explained {now : Time} {connected : Bool} {run after : Run Time}
    {asked : Option Call} (steps : Steps now connected run after asked)
    (roused : run.IsRousedByAbort) {ending : Ending Time} (ended : after.activity = .ended ending)
    (incomplete : ending ≠ .completed) :
    ∃ fault, ending = .fault fault ∧ run.Explains connected fault := by
  cases steps with
  | complete =>
      cases ended
      exact absurd rfl incomplete
  | misread =>
      cases ended
      exact ⟨_, rfl, .unread _⟩
  | halted activity stepped aborted =>
      cases ended
      exact ⟨_, rfl, .aborted aborted⟩
  | lost activity stepped unaborted unreported =>
      cases ended
      exact ⟨_, rfl, .lost unreported⟩
  | limited activity stepped exceeded =>
      cases ended
      refine ⟨_, rfl, ?_⟩
      rcases Token.charge_refused now run.token _ exceeded with
        ⟨elapsed, rfl, -⟩ | ⟨budget, count, elapsed, rfl, -⟩
      · exact .stepLimit _ _ _
      · exact .timeLimit _ _ _
  | refused activity stepped paused =>
      cases ended
      cases Token.pause_refused _ _ _ _ paused
      exact ⟨_, rfl, .aborted (Token.aborted_of_refused paused)⟩
  | overslept activity passed =>
      cases ended
      refine ⟨_, rfl, ?_⟩
      rcases Token.afterPause_fault _ _ _ _ passed with rfl | ⟨budget, count, elapsed, rfl⟩
      · exact .aborted (Token.aborted_of_afterPause passed)
      · exact .timeLimit _ _ _
  | roused activity =>
      cases ended
      exact ⟨_, rfl, .aborted (roused _ _ activity)⟩
  | _ => cases ended

end Ends

/-- What holds of the end of a paced run at every moment of it. It completes within its
budget of time, and past that budget it ends by a limit, unless an abort, a lost
connection or a value that cannot be read comes first. -/
structure Moment.EndsInTime (moment : Moment EReal) : Prop where
  completed : ∀ event after, moment.Next event after →
    after.run.activity = .ended .completed → moment.run.activity ≠ .ended .completed →
    after.run.token.elapsed after.now ≤ after.run.token.maxDuration
  late : ∀ after ending, moment.Next .step after → after.run.activity = .ended ending →
    moment.run.token.maxDuration < moment.run.token.elapsed moment.now →
    ∃ fault, ending = .fault fault ∧ moment.run.Explains moment.connected fault

theorem ChildIndex.topLevel_ne_nil {blocks : List Block}
    (some : ∃ block ∈ blocks, block.parent = none) : (ofBlocks blocks).topLevel ≠ [] := by
  obtain ⟨block, listed, top⟩ := some
  obtain ⟨place, there⟩ := List.mem_iff_getElem?.mp listed
  have member : ⟨place, block⟩ ∈ (ofBlocks blocks).topLevel := by
    rw [topLevel, ofBlocks, members_ofPlaced, List.mem_filter]
    exact ⟨(mem_placed_iff blocks ⟨place, block⟩).mpr there, decide_eq_true top⟩
  exact List.ne_nil_of_mem member

structure Moment.IsPaced (plan : Plan) (moment : Moment EReal) : Prop where
  plan : moment.run.plan = plan
  clocked : moment.run.IsClocked
  sleeps : moment.SleepsInTime
  roused : moment.run.IsRousedByAbort
  finishes : moment.FinishesInTime

theorem Moment.next_paced {plan : Plan} (busy : plan.index.topLevel ≠ [])
    (paced : plan.interBlockDelay.isPositive = true) {before after : Moment EReal}
    {event : Event EReal} (happens : before.Next event after) (known : before.IsPaced plan) :
    after.IsPaced plan := by
  obtain ⟨rfl, clocked, sleeps, roused, finishes⟩ := known
  have later := next_sleeps happens clocked sleeps
  exact ⟨(next_terms happens).plan, next_clocked happens clocked, later,
    next_roused happens roused, next_finishes happens clocked later busy paced finishes⟩

theorem Moment.IsPaced.ends_in_time {plan : Plan} {moment : Moment EReal}
    (known : moment.IsPaced plan) : moment.EndsInTime := by
  have early {after : Moment EReal} {event : Event EReal} (happens : moment.Next event after)
      (ended : after.run.activity = .ended .completed)
      (running : moment.run.activity ≠ .ended .completed) :
      moment.run.token.elapsed moment.now ≤ moment.run.token.maxDuration := by
    obtain ⟨-, -, activity⟩ := completed_by_step happens ended running
    exact (known.finishes (.walking []) (by simp only [Run.position?, activity]) rfl
      (by simp only [activity]; rfl)).2
  refine ⟨fun event after happens ended running => ?_, fun after ending happens ended late => ?_⟩
  · obtain ⟨now, token, -⟩ := completed_by_step happens ended running
    rw [now, token]
    exact early happens ended running
  · cases happens with
    | @step now connected run ready =>
        refine Run.steps_explained (run.step_steps now connected ready) known.roused ended ?_
        rintro rfl
        have running : run.activity ≠ .ended .completed := by
          intro done
          simp [Run.canStep, Run.isReady, done] at ready
        exact absurd late (not_lt.mpr (early (.step ready) ended running))

/-- A run that is paced and has a block to run does not complete past its budget of
time. -/
theorem paced_run_ends_in_time {now : EReal} {connected : Bool} {blocks : List Block}
    {abilities : Abilities} {config : Config} {token : Token EReal} {moment : Moment EReal}
    (course : Course (.initial now connected blocks abilities config token) moment)
    (paced : 0 < config.interBlockDelay) (busy : ∃ block ∈ blocks, block.parent = none) :
    moment.EndsInTime := by
  have some : (ChildIndex.ofBlocks blocks).topLevel ≠ [] := ChildIndex.topLevel_ne_nil busy
  let plan := (Run.prepare blocks abilities config token).plan
  have delays : plan.interBlockDelay.isPositive = true := decide_eq_true paced
  have start : (Moment.initial now connected blocks abilities config token).IsPaced plan :=
    { plan := rfl
      clocked := fun begun => by cases begun
      sleeps := Moment.sleeps_of_awake fun _ _ sleeping => by cases sleeping
      roused := fun _ _ rousing => by cases rousing
      finishes := fun _ there => by cases there }
  have known : moment.IsPaced plan :=
    course.keeps (fun _ _ _ => Moment.next_paced some delays) start
  exact known.ends_in_time

def oneGrip : List Block :=
  [⟨"grip", "open_gripper", .empty, none, none⟩]

theorem paced_grip_ends_in_time :
    0 < Config.default.interBlockDelay ∧ (∃ block ∈ oneGrip, block.parent = none) ∧
      ∃ moment : Moment EReal, Nonempty (Course (.initial 0 true oneGrip
          ⟨false, true, false, .robot⟩ .default (.fresh 10 5)) moment) ∧
        moment.run.phase = .running ∧ moment.EndsInTime := by
  have paced : 0 < Config.default.interBlockDelay := by decide
  have busy : ∃ block ∈ oneGrip, block.parent = none := ⟨_, List.mem_cons_self, rfl⟩
  let course : Course (.initial (0 : EReal) true oneGrip ⟨false, true, false, .robot⟩ .default
      (.fresh 10 5)) _ :=
    .next .step (.step rfl) <| .next .step (.step rfl) <| .here _
  exact ⟨paced, busy, _, ⟨course⟩, rfl, paced_run_ends_in_time course paced busy⟩

/-- Without pacing a run whose last call outlasts the budget completes all the same:
here the homing and the grip take three seconds each, and the budget is five. -/
theorem unpaced_run_completes_late :
    ∃ last : Moment Float, Nonempty (Course (.initial 0 true oneGrip
        ⟨true, true, true, .robot⟩ { Config.default.withoutPacing with maxDuration := 5 }
        (.fresh 10000 5)) last) ∧
      last.run.activity = .ended .completed ∧
      TimeScale.before last.run.token.maxDuration (last.run.token.elapsed last.now) = true := by
  refine ⟨_, ⟨.next .step (.step rfl) <| .next .step (.step rfl) <| .next .step (.step rfl) <|
    .next (.lasts 3) (.lasts 3 rfl) <| .next (.pass 3) (.pass 3 rfl) <|
    .next .returns (.returns rfl) <| .next .step (.step rfl) <| .next .step (.step rfl) <|
    .next .step (.step rfl) <| .next .step (.step rfl) <| .next .step (.step rfl) <|
    .next .step (.step rfl) <| .next (.lasts 6) (.lasts 6 rfl) <|
    .next (.pass 6) (.pass 6 rfl) <| .next .returns (.returns rfl) <|
    .next .step (.step rfl) <| .next .step (.step rfl) <| .next .step (.step rfl) <|
    .next .step (.step rfl) <| .here _⟩, ?_, ?_⟩
  · rfl
  · rfl

end ArmProgram
