import ArmProgram.Run.Journal
import ArmProgram.Run.Token
import ArmProgram.Config

/-!
One run of one block list. A run is suspended in a pause or in a call, or it
can go on; `step` takes it on by one action. Calls are asked for and made by
whoever owns the arm. Every step makes the run lighter, in the order of the
steps its budget still allows and then of its walk, so a run comes to its end.
-/

namespace ArmProgram

variable {Time : Type} [TimeScale Time]

inductive Phase where
  | idle
  | homing
  | running
  | completed
  | aborted
  | faulted
  deriving DecidableEq, Repr

def Phase.name : Phase → String
  | idle => "idle"
  | homing => "homing"
  | running => "running"
  | completed => "completed"
  | aborted => "aborted"
  | faulted => "faulted"

inductive Ending (Time : Type) where
  | completed
  | fault (fault : Fault Time)
  | cancelled
  | dropped
  deriving Repr

def Ending.phase : Ending Time → Phase
  | completed => .completed
  | fault .aborted => .aborted
  | fault _ => .faulted
  | cancelled => .aborted
  | dropped => .idle

def Position.phase : Position → Phase
  | entry => .idle
  | homing | settling | settled => .homing
  | walking _ => .running

inductive Activity (Time : Type) where
  | unstarted
  /-- Between two actions. -/
  | moving (position : Position)
  /-- Suspended in a delay. -/
  | pausing (pause : Pause Time) (next : Position)
  /-- An abort has ended the delay, which the run learns only after some more
  turns. -/
  | rousing (turns : Nat) (next : Position)
  /-- Suspended in a call; without a due time the call takes no time. -/
  | calling (call : Call) (due : Option Time) (next : Position)
  | ended (ending : Ending Time)
  deriving Repr

structure Run (Time : Type) where
  plan : Plan
  blocks : Array Block
  token : Token Time
  activity : Activity Time

namespace Run

def prepare (blocks : List Block) (abilities : Abilities) (config : Config)
    (token : Token Time) : Run Time :=
  { plan :=
      { index := ChildIndex.ofBlocks blocks
        abilities
        interBlockDelay := .double config.interBlockDelay
        postHomeDelay := .double config.postHomeDelay
        defaultWait := .double config.defaultWait }
    blocks := blocks.toArray
    token
    activity := .unstarted }

def phase (run : Run Time) : Phase :=
  match run.activity with
  | .unstarted => .idle
  | .moving position => position.phase
  | .pausing _ next => next.phase
  | .rousing _ next => next.phase
  | .calling _ _ next => next.phase
  | .ended ending => ending.phase

def begin? (run : Run Time) : Except Reuse (Run Time) :=
  if run.phase = .idle then .ok run else .error .alreadyBegun

def isEnded (run : Run Time) : Bool :=
  match run.activity with
  | .ended _ => true
  | _ => false

def ending? (run : Run Time) : Option (Ending Time) :=
  match run.activity with
  | .ended ending => some ending
  | _ => none

def view (run : Run Time) : View := fun place =>
  match run.blocks[place]? with
  | some block => block.parameters
  | none => .empty

def abort (run : Run Time) : Run Time :=
  { run with token := run.token.abort }

def setParameter (run : Run Time) (id name : String) (value : Value) : Run Time :=
  match run.blocks.findIdx? (·.id = id) with
  | some place => { run with blocks := run.blocks.modify place (·.setParameter name value) }
  | none => run

/-- What the journal says about the end of a run. Failures and cancellations
pass without a word. -/
def closing (now : Time) (token : Token Time) : Ending Time → List (Entry Time)
  | .completed => [.completed token.steps (token.elapsed now)]
  | .fault .aborted => [.abortedAfter token.steps]
  | .fault .connectionLost => [.connectionLostAfter token.steps]
  | .fault (.stepLimit budget steps elapsed) =>
      [.limitReached (.stepLimit budget steps elapsed) steps elapsed]
  | .fault (.timeLimit budget steps elapsed) =>
      [.limitReached (.timeLimit budget steps elapsed) steps elapsed]
  | .fault (.failed _) => []
  | .cancelled | .dropped => []

structure Outcome (Time : Type) where
  run : Run Time
  entries : List (Entry Time)
  call : Option Call

def finish (now : Time) (ending : Ending Time) (run : Run Time) : Outcome Time :=
  ⟨{ run with activity := .ended ending }, closing now run.token ending, none⟩

def fail (now : Time) (fault : Fault Time) (run : Run Time) : Outcome Time :=
  run.finish now (.fault fault)

def resume (position : Position) (run : Run Time) : Outcome Time :=
  ⟨{ run with activity := .moving position }, [], none⟩

def checkpoint (now : Time) (connected : Bool) (next : Position) (run : Run Time) :
    Outcome Time :=
  if run.token.aborted then run.fail now .aborted
  else if run.plan.abilities.probe.reports connected then run.resume next
  else run.fail now .connectionLost

def chargeStep (now : Time) (next : Position) (run : Run Time) : Outcome Time :=
  match run.token.charge now with
  | (token, none) => { run with token }.resume next
  | (token, some fault) => { run with token }.fail now fault

def suspend (pause : Pause Time) (next : Position) (run : Run Time) : Outcome Time :=
  ⟨{ run with activity := .pausing pause next }, [], none⟩

def beginDelay (now : Time) (ms : Number) (next : Position) (run : Run Time) : Outcome Time :=
  match run.token.pause now ms with
  | .error fault => run.fail now fault
  | .ok pause => run.suspend pause next

def beginCall (call : Call) (next : Position) (run : Run Time) : Outcome Time :=
  ⟨{ run with activity := .calling call none next }, [], some call⟩

def perform (now : Time) (connected : Bool) (next : Position) (run : Run Time) :
    Option Action → Outcome Time
  | none => run.resume next
  | some .checkpoint => run.checkpoint now connected next
  | some .charge => run.chargeStep now next
  | some (.delay ms) => run.beginDelay now ms next
  | some (.call call) => run.beginCall call next

def move (now : Time) (connected : Bool) (position : Position) (run : Run Time) :
    Outcome Time :=
  match position.step? run.plan run.view with
  | none => run.finish now .completed
  | some (.error fault) => run.fail now (.failed (.coercion fault))
  | some (.ok step) =>
      let outcome := run.perform now connected step.next step.action
      { outcome with entries := step.notes.map .note ++ outcome.entries }

def wake (now : Time) (pause : Pause Time) (next : Position) (run : Run Time) : Outcome Time :=
  match run.token.afterPause now pause with
  | some fault => run.fail now fault
  | none => run.resume next

def startle (turns : Nat) (next : Position) (run : Run Time) : Outcome Time :=
  ⟨{ run with activity := .rousing turns next }, [], none⟩

/-- One turn of a run in a pause. It takes more than one if an abort cuts the
pause short. -/
def stir (now : Time) (pause : Pause Time) (next : Position) (run : Run Time) : Outcome Time :=
  match pause with
  | .turns (more + 1) capped =>
      match if run.token.aborted then Pause.cutTurns? (more + 1) else none with
      | some turns => run.startle turns next
      | none => run.suspend (.turns more capped) next
  | pause =>
      if run.token.aborted && !pause.isOver now then run.startle 1 next
      else run.wake now pause next

def rouse (now : Time) (turns : Nat) (next : Position) (run : Run Time) : Outcome Time :=
  match turns with
  | 0 => run.fail now .aborted
  | turns + 1 => run.startle turns next

def step (now : Time) (connected : Bool) (run : Run Time) : Outcome Time :=
  match run.activity with
  | .unstarted => { run with token := run.token.start now }.resume .entry
  | .moving position => run.move now connected position
  | .pausing pause next => run.stir now pause next
  | .rousing turns next => run.rouse now turns next
  | .calling _ _ next => run.resume next
  | .ended _ => ⟨run, [], none⟩

def isReady (now : Time) (run : Run Time) : Bool :=
  match run.activity with
  | .unstarted => true
  | .moving _ => true
  | .pausing pause _ => run.token.aborted || pause.isOver now
  | .rousing _ _ => true
  | .calling _ none _ => true
  | .calling _ (some due) _ => !TimeScale.before now due
  | .ended _ => false

def isAtRest (run : Run Time) : Bool :=
  match run.activity with
  | .moving _ => false
  | .calling _ none _ => false
  | _ => true

def hasBegun (run : Run Time) : Bool :=
  match run.activity with
  | .unstarted => false
  | _ => true

def due? (run : Run Time) : Option Time :=
  match run.activity with
  | .pausing (.till due _) _ => some due
  | .calling _ due _ => due
  | _ => none

def cancel (run : Run Time) : Run Time :=
  match run.activity with
  | .unstarted => { run with activity := .ended .dropped }
  | .ended _ => run
  | _ => { run with activity := .ended .cancelled }

/-! Weights. -/

/-- Steps that the budget still allows, and the one that exceeds it. -/
def allowance (run : Run Time) : Nat :=
  (run.token.maxSteps + 1 - run.token.steps).toNat

def weight (run : Run Time) : Nat :=
  match run.activity with
  | .unstarted => 10 * Position.entry.weight run.plan.index + 2
  | .moving position => 10 * position.weight run.plan.index + 1
  | .pausing pause next => 10 * next.weight run.plan.index + pause.more + 4
  | .rousing turns next => 10 * next.weight run.plan.index + turns + 2
  | .calling _ _ next => 10 * next.weight run.plan.index + 2
  | .ended _ => 0

structure SameWork (after before : Run Time) : Prop where
  activity : after.activity = before.activity
  plan : after.plan = before.plan
  maxSteps : after.token.maxSteps = before.token.maxSteps
  steps : after.token.steps = before.token.steps

/-- Lighter: fewer steps allowed, or no more steps and less to walk. -/
def Lighter (after before : Run Time) : Prop :=
  Prod.Lex (· < ·) (· < ·) (after.allowance, after.weight) (before.allowance, before.weight)

omit [TimeScale Time] in
theorem SameWork.refl (run : Run Time) : SameWork run run :=
  ⟨rfl, rfl, rfl, rfl⟩

omit [TimeScale Time] in
theorem SameWork.trans {first second third : Run Time} (left : SameWork third second)
    (right : SameWork second first) : SameWork third first :=
  ⟨left.activity.trans right.activity, left.plan.trans right.plan,
    left.maxSteps.trans right.maxSteps, left.steps.trans right.steps⟩

omit [TimeScale Time] in
theorem SameWork.measure {after before : Run Time} (same : SameWork after before) :
    after.allowance = before.allowance ∧ after.weight = before.weight := by
  refine ⟨?_, ?_⟩
  · simp only [allowance, same.maxSteps, same.steps]
  · simp only [weight, same.activity, same.plan]

omit [TimeScale Time] in
theorem abort_sameWork (run : Run Time) : SameWork run.abort run :=
  ⟨rfl, rfl, rfl, rfl⟩

omit [TimeScale Time] in
theorem setParameter_sameWork (run : Run Time) (id name : String) (value : Value) :
    SameWork (run.setParameter id name value) run := by
  unfold setParameter
  split <;> exact ⟨rfl, rfl, rfl, rfl⟩

omit [TimeScale Time] in
theorem lighter_of_le {after before : Run Time} (less : after.allowance ≤ before.allowance)
    (drop : after.weight < before.weight) : Lighter after before := by
  unfold Lighter
  rcases Nat.lt_or_eq_of_le less with fewer | same
  · exact Prod.Lex.left _ _ fewer
  · rw [same]; exact Prod.Lex.right _ drop

omit [TimeScale Time] in
theorem lighter_of_le_of_lighter {after middle before : Run Time}
    (allowed : after.allowance ≤ middle.allowance) (less : after.weight ≤ middle.weight)
    (lighter : Lighter middle before) : Lighter after before := by
  unfold Lighter at *
  rw [Prod.lex_def] at *
  simp only at *
  omega

omit [TimeScale Time] in
theorem start_keeps (now : Time) (token : Token Time) :
    (token.start now).maxSteps = token.maxSteps ∧ (token.start now).steps = token.steps := by
  unfold Token.start
  cases token.startedAt <;> exact ⟨rfl, rfl⟩

theorem finish_lighter (now : Time) (ending : Ending Time) (run : Run Time)
    (active : run.isEnded = false) : Lighter (run.finish now ending).run run := by
  refine lighter_of_le (Nat.le_refl _) ?_
  unfold finish weight
  cases moving : run.activity <;> simp_all [isEnded]

theorem charge_lighter (now : Time) (next position : Position) (run : Run Time)
    (moving : run.activity = .moving position) : Lighter (run.chargeStep now next).run run := by
  have steps := Token.charge_steps now run.token
  have budget := Token.charge_maxSteps now run.token
  unfold chargeStep
  cases charged : run.token.charge now with
  | mk token fault =>
      rw [charged] at steps budget
      simp only at steps budget
      cases fault with
      | none =>
          have within := Token.charge_within now run.token (by rw [charged])
          rw [charged] at within
          simp only at within
          refine Prod.Lex.left _ _ ?_
          simp only [resume, allowance, budget, steps]
          omega
      | some fault =>
          refine lighter_of_le ?_ ?_
          · simp only [fail, finish, allowance, budget, steps]
            omega
          · simp [fail, finish, weight, moving]

omit [TimeScale Time] in
theorem resume_lighter (next position : Position) (run : Run Time)
    (moving : run.activity = .moving position)
    (less : next.weight run.plan.index < position.weight run.plan.index) :
    Lighter (run.resume next).run run := by
  refine lighter_of_le (Nat.le_refl _) ?_
  simp only [resume, weight, moving]
  omega

theorem perform_lighter (now : Time) (connected : Bool) (position : Position) (step : Step)
    (run : Run Time) (moving : run.activity = .moving position)
    (stepped : position.step? run.plan run.view = some (.ok step)) :
    Lighter (run.perform now connected step.next step.action).run run := by
  have active : run.isEnded = false := by simp [isEnded, moving]
  have drop := step_weight run.plan run.view position step stepped
  unfold Step.charges at drop
  unfold perform
  cases action : step.action with
  | none =>
      rw [action] at drop
      exact resume_lighter _ position run moving (drop rfl)
  | some action' =>
      rw [action] at drop
      cases action' with
      | checkpoint =>
          simp only [checkpoint]
          split
          · exact finish_lighter now _ run active
          · split
            · exact resume_lighter _ position run moving (drop rfl)
            · exact finish_lighter now _ run active
      | charge => exact charge_lighter now step.next position run moving
      | call call =>
          refine lighter_of_le (Nat.le_refl _) ?_
          have := drop rfl
          simp only [beginCall, weight, moving]
          omega
      | delay ms =>
          simp only [beginDelay]
          split
          · exact finish_lighter now _ run active
          · rename_i pause paused
            refine lighter_of_le (Nat.le_refl _) ?_
            have less := drop rfl
            have few := Token.pause_more now ms run.token pause paused
            simp only [suspend, weight, moving]
            omega

theorem wake_lighter (now : Time) (pause later : Pause Time) (next : Position) (run : Run Time)
    (pausing : run.activity = .pausing later next) :
    Lighter (run.wake now pause next).run run := by
  unfold wake
  split
  · exact finish_lighter now _ run (by simp [isEnded, pausing])
  · refine lighter_of_le (Nat.le_refl _) ?_
    simp only [resume, weight, pausing]
    omega

theorem stir_lighter (now : Time) (pause : Pause Time) (next : Position) (run : Run Time)
    (pausing : run.activity = .pausing pause next) :
    Lighter (run.stir now pause next).run run := by
  unfold stir
  split
  · split
    · rename_i more capped turns cut
      refine lighter_of_le (Nat.le_refl _) ?_
      split at cut
      · have less := Pause.cutTurns?_lt _ _ cut
        simp only [startle, weight, pausing, Pause.more]
        omega
      · cases cut
    · refine lighter_of_le (Nat.le_refl _) ?_
      simp only [suspend, weight, pausing, Pause.more]
      omega
  · split
    · refine lighter_of_le (Nat.le_refl _) ?_
      simp only [startle, weight, pausing]
      omega
    · exact wake_lighter now _ _ next run pausing

theorem step_lighter (now : Time) (connected : Bool) (run : Run Time)
    (active : run.isEnded = false) : Lighter (run.step now connected).run run := by
  unfold step
  cases activity : run.activity with
  | unstarted =>
      have keeps := start_keeps now run.token
      refine lighter_of_le ?_ ?_
      · simp only [resume, allowance, keeps]
        exact Nat.le_refl _
      · simp [resume, weight, activity]
  | moving position =>
      simp only [move]
      cases stepped : position.step? run.plan run.view with
      | none => exact finish_lighter now _ run active
      | some result =>
          cases result with
          | error fault => exact finish_lighter now _ run active
          | ok found => exact perform_lighter now connected position found run activity stepped
  | pausing pause next => exact stir_lighter now pause next run activity
  | rousing turns next =>
      cases turns with
      | zero => exact finish_lighter now _ run active
      | succ turns =>
          refine lighter_of_le (Nat.le_refl _) ?_
          simp [rouse, startle, weight, activity]
  | calling call due next =>
      refine lighter_of_le (Nat.le_refl _) ?_
      simp [resume, weight, activity]
  | ended ending => simp [isEnded, activity] at active

end Run

end ArmProgram
