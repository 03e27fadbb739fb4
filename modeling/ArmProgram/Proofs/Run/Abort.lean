import ArmProgram.Proofs.Run.Moment

/-!
What an abort does to a suspended run. A live pause gives way within three
turns, and a call that returns is followed by a delay, which an aborted token
refuses. Neither asks for the connection or a budget, so the run ends as
aborted whatever these would have said.
-/

namespace ArmProgram

variable {Time : Type} [TimeScale Time]

/-- Whether an abort now ends a pause. A pause whose time has come is past it,
and so are the last turns of one that the clock does not show. -/
def Pause.isLive (now : Time) : Pause Time → Bool
  | .turn => true
  | .turns more _ => (Pause.cutTurns? more).isSome
  | .till due _ => TimeScale.before now due

namespace Position

def isPacing : Position → Bool
  | settling => true
  | walking (⟨_ :: _, .leave⟩ :: _) => true
  | _ => false

theorem takes_pacing (plan : Plan) (view : View) (position : Position) (step : Step) (call : Call)
    (taken : Takes plan view position step) (asked : step.action = some (.call call)) :
    step.next.isPacing = true := by
  cases taken with
  | homing => rfl
  | leaf => rfl
  | _ => cases asked

theorem pacing_delays (plan : Plan) (view : View) (position : Position)
    (pacing : position.isPacing = true) :
    ∃ ms next, position.step? plan view = some (.ok (.act (.delay ms) next)) := by
  unfold isPacing at pacing
  split at pacing
  · exact ⟨_, _, rfl⟩
  · exact ⟨_, _, rfl⟩
  · cases pacing

end Position

namespace Run

/-- Whether a run is suspended where an abort ends it: in a live pause or in a
call. -/
def hearsAbort (now : Time) (run : Run Time) : Bool :=
  match run.activity with
  | .pausing pause _ => pause.isLive now
  | .calling .. => true
  | _ => false

def PacesCalls (run : Run Time) : Prop :=
  ∀ call due next, run.activity = .calling call due next → next.isPacing = true

inductive Unwinds (now : Time) : Activity Time → Nat → Prop where
  | calling {call : Call} {due : Option Time} {next : Position} (pacing : next.isPacing = true) :
      Unwinds now (.calling call due next) 1
  | pacing {next : Position} (pacing : next.isPacing = true) : Unwinds now (.moving next) 1
  | turn {next : Position} : Unwinds now (.pausing .turn next) 1
  | turns {more left : Nat} {capped : Bool} {next : Position}
      (cut : Pause.cutTurns? more = some left) :
      Unwinds now (.pausing (.turns more capped) next) (left + 2)
  | till {due : Time} {capped : Bool} {next : Position}
      (ahead : TimeScale.before now due = true) :
      Unwinds now (.pausing (.till due capped) next) 3
  | rousing {turns : Nat} {next : Position} : Unwinds now (.rousing turns next) (turns + 1)
  | ended : Unwinds now (.ended (.fault .aborted)) 0

theorem unwinds_of_hears (now : Time) (run : Run Time) (paces : run.PacesCalls)
    (hears : run.hearsAbort now = true) :
    ∃ left, left ≤ 3 ∧ Unwinds now run.activity left := by
  unfold hearsAbort at hears
  split at hears
  · rename_i pause next activity
    rw [activity]
    cases pause with
    | turn => exact ⟨1, by decide, .turn⟩
    | turns more capped =>
        obtain ⟨left, cut⟩ := Option.isSome_iff_exists.mp hears
        refine ⟨left + 2, ?_, .turns cut⟩
        unfold Pause.cutTurns? at cut
        split at cut <;> cases cut <;> decide
    | till due capped => exact ⟨3, by decide, .till hears⟩
  · rename_i call due next activity
    rw [activity]
    exact ⟨1, by decide, .calling (paces call due next activity)⟩
  · cases hears

/-- A step of an aborted run brings it one step nearer to its end. It charges
nothing and asks for no call. -/
theorem step_unwinds (now : Time) (connected : Bool) (run : Run Time) (left : Nat)
    (aborted : run.token.aborted = true) (ready : run.canStep now = true)
    (unwinds : Unwinds now run.activity left) :
    ∃ fewer, left = fewer + 1 ∧ Unwinds now (run.step now connected).run.activity fewer ∧
      (run.step now connected).run.token = run.token ∧ (run.step now connected).call = none := by
  generalize activity : run.activity = doing at unwinds
  cases unwinds with
  | calling => simp [canStep, activity] at ready
  | ended => simp [canStep, isReady, activity] at ready
  | pacing pacing =>
      obtain ⟨ms, next, stepped⟩ := Position.pacing_delays run.plan run.view _ pacing
      have refused : run.token.pause now ms = .error .aborted := by
        simp [Token.pause, aborted]
      refine ⟨0, rfl, ?_⟩
      simp only [step, activity, move, stepped, Step.act, perform, beginDelay, refused]
      exact ⟨.ended, rfl, rfl⟩
  | turn =>
      have passed : run.token.afterPause now .turn = some .aborted := by
        simp [Token.afterPause, aborted]
      refine ⟨0, rfl, ?_⟩
      simp only [step, activity, stir, Pause.isOver, aborted, wake, passed]
      exact ⟨.ended, rfl, rfl⟩
  | @turns more fewer capped next cut =>
      cases more with
      | zero => cases cut
      | succ more =>
          refine ⟨fewer + 1, rfl, ?_⟩
          simp only [step, activity, stir, aborted, ↓reduceIte, cut]
          exact ⟨.rousing, rfl, rfl⟩
  | till ahead =>
      -- The timer is still ahead, so the abort is heard first, two turns from the end.
      refine ⟨2, rfl, ?_⟩
      simp only [step, activity, stir, Pause.isOver, aborted, ahead, Bool.not_true, Bool.not_false,
        Bool.and_self, ↓reduceIte]
      exact ⟨.rousing, rfl, rfl⟩
  | @rousing turns next =>
      cases turns with
      | zero =>
          refine ⟨0, rfl, ?_⟩
          simp only [step, activity, rouse]
          exact ⟨.ended, rfl, rfl⟩
      | succ turns =>
          refine ⟨turns + 1, rfl, ?_⟩
          simp only [step, activity, rouse]
          exact ⟨.rousing, rfl, rfl⟩

end Run

def Event.breaksOff : Event Time → Bool
  | .raises _ | .cancel => true
  | _ => false

def Event.isStep : Event Time → Bool
  | .step => true
  | _ => false

def Course.ownSteps {first last : Moment Time} : Course first last → Nat
  | .here _ => 0
  | .next event _ rest => event.isStep.toNat + rest.ownSteps

namespace Moment

theorem next_paces {before after : Moment Time} {event : Event Time}
    (happens : before.Next event after) (paces : before.run.PacesCalls) :
    after.run.PacesCalls := by
  intro call due next calling
  cases happens with
  | @step now connected run ready =>
      obtain ⟨-, position, notes, -, stepped⟩ :=
        Run.steps_calling (run.step_steps now connected ready) calling
      exact Position.takes_pacing _ _ _ _ _ (Position.step?_takes _ _ _ _ stepped) rfl
  | lasts later activity =>
      cases calling
      exact paces _ _ _ activity
  | returns | raises => cases calling
  | @cancel now connected run =>
      have ended := run.cancel_isEnded
      simp only at calling
      simp [Run.isEnded, calling] at ended
  | abort | connection | edit | pass | expire => exact paces call due next calling

structure Leaves (suspended moment : Moment Time) (left : Nat) : Prop where
  aborted : moment.run.token.aborted = true
  uncharged : moment.run.token.steps = suspended.run.token.steps
  unwinds : Run.Unwinds moment.now moment.run.activity left
  inFlight : ∀ call due next, moment.run.activity = .calling call due next →
    ∃ due, suspended.run.activity = .calling call due next

theorem next_leaves {suspended before after : Moment Time} {event : Event Time} {left : Nat}
    (happens : before.Next event after) (whole : event.breaksOff = false)
    (leaves : suspended.Leaves before left) :
    ∃ fewer, left = fewer + event.isStep.toNat ∧ suspended.Leaves after fewer := by
  obtain ⟨aborted, uncharged, unwinds, inFlight⟩ := leaves
  -- Others can still act on the run, but none of it brings the run to life again.
  cases happens with
  | @step now connected run ready =>
      obtain ⟨fewer, rfl, unwinds, token, uncalled⟩ :=
        run.step_unwinds now connected left aborted ready unwinds
      refine ⟨fewer, rfl, ⟨by rw [token]; exact aborted, by rw [token]; exact uncharged, unwinds, ?_⟩⟩
      intro call due next calling
      have asked := (Run.steps_calling (run.step_steps now connected ready) calling).1
      rw [uncalled] at asked
      cases asked
  | lasts later activity =>
      rw [activity] at unwinds
      cases unwinds with
      | calling pacing =>
          refine ⟨1, rfl, ⟨aborted, uncharged, .calling pacing, ?_⟩⟩
          intro call due next calling
          cases calling
          exact inFlight _ _ _ activity
  | returns activity =>
      rw [activity] at unwinds
      cases unwinds with
      | calling pacing =>
          refine ⟨1, rfl, ⟨aborted, uncharged, .pacing pacing, ?_⟩⟩
          intro call due next calling
          cases calling
  | raises => cases whole
  | cancel => cases whole
  | abort => exact ⟨left, rfl, ⟨rfl, uncharged, unwinds, inFlight⟩⟩
  | connection | edit => exact ⟨left, rfl, ⟨aborted, uncharged, unwinds, inFlight⟩⟩
  | @pass now connected run later waiting =>
      refine ⟨left, rfl, ⟨aborted, uncharged, ?_, inFlight⟩⟩
      generalize activity : run.activity = doing at unwinds
      cases unwinds with
      | calling pacing => exact .calling pacing
      | ended => exact .ended
      | _ =>
          have still : run.waits now later = false := by
            simp [Run.waits, activity, show run.token.aborted = true from aborted]
          rw [still] at waiting
          cases waiting
  | expire _ unaborted =>
      rw [unaborted] at aborted
      cases aborted

theorem course_leaves {suspended first last : Moment Time} (course : Course first last)
    (whole : ∀ event ∈ course.events, event.breaksOff = false) {left : Nat}
    (leaves : suspended.Leaves first left) :
    ∃ fewer, left = fewer + course.ownSteps ∧ suspended.Leaves last fewer := by
  induction course generalizing left with
  | here => exact ⟨left, rfl, leaves⟩
  | next event happens rest ih =>
      obtain ⟨middle, spent, leaves⟩ :=
        next_leaves happens (whole event List.mem_cons_self) leaves
      obtain ⟨fewer, later, leaves⟩ :=
        ih (fun other member => whole other (List.mem_cons_of_mem event member)) leaves
      refine ⟨fewer, ?_, leaves⟩
      rw [spent, later, Course.ownSteps]
      omega

/-- What holds of a run at every moment after it was aborted in a pause or in a
call. Time passes only for the rest of that call. -/
structure Yields (suspended moment : Moment Time) : Prop where
  uncharged : moment.run.token.steps = suspended.run.token.steps
  uncalled : moment.asked? = none
  inFlight : ∀ call due next, moment.run.activity = .calling call due next →
    ∃ due, suspended.run.activity = .calling call due next
  timeless : ∀ event after, moment.Next event after → after.now = moment.now ∨
    (∃ call due next, moment.run.activity = .calling call due next) ∨
    moment.run.activity = .ended (.fault .aborted)
  ends : ∀ ending, moment.run.activity = .ended ending → ending = .fault .aborted
  phase : moment.run.isEnded = true → moment.run.phase = .aborted
  proceeds : (∃ call due next, moment.run.activity = .calling call due next) ∨
    moment.run.activity = .ended (.fault .aborted) ∨ moment.run.canStep moment.now = true

theorem yields_of_leaves {suspended moment : Moment Time} {left : Nat}
    (leaves : suspended.Leaves moment left) : suspended.Yields moment := by
  obtain ⟨now, connected, run⟩ := moment
  obtain ⟨aborted, uncharged, unwinds, inFlight⟩ := leaves
  have aborted : run.token.aborted = true := aborted
  have ends : ∀ ending, run.activity = .ended ending → ending = .fault .aborted := by
    intro ending ended
    rw [ended] at unwinds
    cases unwinds
    rfl
  -- Time can pass only in the call in flight, or after the end.
  have place : (∃ call due next, run.activity = .calling call due next) ∨
      run.activity = .ended (.fault .aborted) ∨
      run.canStep now = true ∧ ∀ later, run.waits now later = false := by
    generalize activity : run.activity = doing at unwinds
    cases unwinds with
    | calling => exact Or.inl ⟨_, _, _, rfl⟩
    | ended => exact Or.inr (Or.inl rfl)
    | _ =>
        refine Or.inr (Or.inr ⟨?_, fun later => ?_⟩)
        · simp [Run.canStep, Run.isReady, activity, aborted]
        · simp [Run.waits, activity, aborted]
  refine ⟨uncharged, ?_, inFlight, ?_, ends, ?_, ?_⟩
  · unfold asked?
    split
    · rename_i ready
      obtain ⟨-, -, -, -, uncalled⟩ := run.step_unwinds now connected left aborted ready unwinds
      exact uncalled
    · rfl
  · intro event after happens
    rcases place with calling | ended | ⟨-, still⟩
    · exact Or.inr (Or.inl calling)
    · exact Or.inr (Or.inr ended)
    · cases happens with
      | pass later waiting =>
          rw [still later] at waiting
          cases waiting
      | expire _ unaborted =>
          rw [unaborted] at aborted
          cases aborted
      | _ => exact Or.inl rfl
  · intro ended
    cases activity : run.activity with
    | ended ending =>
        rw [Run.phase, activity, ends ending activity]
        rfl
    | _ => simp [Run.isEnded, activity] at ended
  · rcases place with calling | ended | ⟨ready, -⟩
    · exact Or.inl calling
    · exact Or.inr (Or.inl ended)
    · exact Or.inr (Or.inr ready)

end Moment

/-- An abort wins over everything else: once it has come in a live pause or in
a call, the run charges nothing, calls nothing and waits for nothing but the
call in flight, and three steps of its own bring it to its end as aborted. -/
theorem abort_wins {now : Time} {connected : Bool} {blocks : List Block} {abilities : Abilities}
    {config : Config} {token : Token Time} {suspended last : Moment Time}
    (reached : Course (.initial now connected blocks abilities config token) suspended)
    (hears : suspended.run.hearsAbort suspended.now = true)
    (course : Course ⟨suspended.now, suspended.connected, suspended.run.abort⟩ last)
    (whole : ∀ event ∈ course.events, event.breaksOff = false) :
    suspended.Yields last ∧
      (3 ≤ course.ownSteps → last.run.activity = .ended (.fault .aborted)) := by
  have paces : suspended.run.PacesCalls := by
    apply reached.keeps (fun _ _ _ => Moment.next_paces)
    intro call due next calling
    cases calling
  obtain ⟨left, few, unwinds⟩ := Run.unwinds_of_hears suspended.now suspended.run paces hears
  have leaves : suspended.Leaves ⟨suspended.now, suspended.connected, suspended.run.abort⟩ left :=
    ⟨rfl, rfl, unwinds, fun call due next calling => ⟨due, calling⟩⟩
  obtain ⟨fewer, spent, leaves⟩ := Moment.course_leaves course whole leaves
  refine ⟨Moment.yields_of_leaves leaves, fun enough => ?_⟩
  have none_left : fewer = 0 := by omega
  subst none_left
  have unwinds := leaves.unwinds
  generalize last.run.activity = doing at unwinds
  cases unwinds with
  | ended => rfl

/-- The last pause of a program, with its budget of steps used up and the robot
disconnected after the abort. -/
theorem last_pause_yields :
    ∃ suspended last : Moment Float,
      Nonempty (Course (.initial 0 true [⟨"grip", "open_gripper", .empty, none, none⟩]
        ⟨false, true, false, .robot⟩ .default (.fresh 1 300)) suspended) ∧
      suspended.run.hearsAbort suspended.now = true ∧
      (∃ course : Course ⟨suspended.now, suspended.connected, suspended.run.abort⟩ last,
        (∀ event ∈ course.events, event.breaksOff = false) ∧ 3 ≤ course.ownSteps) ∧
      suspended.Yields last ∧ last.run.activity = .ended (.fault .aborted) := by
  have reached : ∃ suspended : Moment Float,
      Nonempty (Course (.initial 0 true [⟨"grip", "open_gripper", .empty, none, none⟩]
        ⟨false, true, false, .robot⟩ .default (.fresh 1 300)) suspended) ∧
      suspended.run.hearsAbort suspended.now = true ∧
      ∃ last, ∃ course : Course ⟨suspended.now, suspended.connected, suspended.run.abort⟩ last,
        (∀ event ∈ course.events, event.breaksOff = false) ∧ 3 ≤ course.ownSteps := by
    refine ⟨_, ⟨.next .step (.step rfl) <| .next .step (.step rfl) <| .next .step (.step rfl) <|
      .next .step (.step rfl) <| .next .step (.step rfl) <| .next .returns (.returns rfl) <|
      .next .step (.step rfl) <| .here _⟩, ?_, ?_⟩
    · rfl
    · refine ⟨_, .next (.connection false) (.connection false rfl) <| .next .step (.step rfl) <|
        .next .step (.step rfl) <| .next .step (.step rfl) <| .here _, ?_, ?_⟩
      · simp [Course.events, Event.breaksOff]
      · simp [Course.ownSteps, Event.isStep]
  obtain ⟨suspended, ⟨reached⟩, hears, last, course, whole, enough⟩ := reached
  obtain ⟨yields, ended⟩ := abort_wins reached hears course whole
  exact ⟨suspended, last, ⟨reached⟩, hears, ⟨course, whole, enough⟩, yields, ended enough⟩

end ArmProgram
