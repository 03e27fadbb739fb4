import ArmProgram.Run.Basic
import ArmProgram.Proofs.Walk.Transitions

/-!
What one step of a run by itself can be, an outcome for each constructor.
Laws about runs are case analyses on `Steps`, so the step function is opened
only once.
-/

namespace ArmProgram

variable {Time : Type} [TimeScale Time]

namespace Run

inductive Steps (now : Time) (connected : Bool) : Run Time → Run Time → Option Call → Prop where
  | begin {run : Run Time} (activity : run.activity = .unstarted) :
      Steps now connected run
        { run with token := run.token.start now, activity := .moving .entry } none
  | complete {run : Run Time} {position : Position} (activity : run.activity = .moving position)
      (stepped : position.step? run.plan run.view = none) :
      Steps now connected run { run with activity := .ended .completed } none
  | misread {run : Run Time} {position : Position} {fault : CoercionFault}
      (activity : run.activity = .moving position)
      (stepped : position.step? run.plan run.view = some (.error fault)) :
      Steps now connected run
        { run with activity := .ended (.fault (.failed (.coercion fault))) } none
  | silent {run : Run Time} {position next : Position} {notes : List Note}
      (activity : run.activity = .moving position)
      (stepped : position.step? run.plan run.view = some (.ok ⟨notes, none, next⟩)) :
      Steps now connected run { run with activity := .moving next } none
  | cleared {run : Run Time} {position next : Position} {notes : List Note}
      (activity : run.activity = .moving position)
      (stepped : position.step? run.plan run.view = some (.ok ⟨notes, some .checkpoint, next⟩))
      (unaborted : run.token.aborted = false)
      (reported : run.plan.abilities.probe.reports connected = true) :
      Steps now connected run { run with activity := .moving next } none
  | halted {run : Run Time} {position next : Position} {notes : List Note}
      (activity : run.activity = .moving position)
      (stepped : position.step? run.plan run.view = some (.ok ⟨notes, some .checkpoint, next⟩))
      (aborted : run.token.aborted = true) :
      Steps now connected run { run with activity := .ended (.fault .aborted) } none
  | lost {run : Run Time} {position next : Position} {notes : List Note}
      (activity : run.activity = .moving position)
      (stepped : position.step? run.plan run.view = some (.ok ⟨notes, some .checkpoint, next⟩))
      (unaborted : run.token.aborted = false)
      (unreported : run.plan.abilities.probe.reports connected = false) :
      Steps now connected run { run with activity := .ended (.fault .connectionLost) } none
  | charged {run : Run Time} {position next : Position} {notes : List Note}
      (activity : run.activity = .moving position)
      (stepped : position.step? run.plan run.view = some (.ok ⟨notes, some .charge, next⟩))
      (within : (run.token.charge now).2 = none) :
      Steps now connected run
        { run with token := (run.token.charge now).1, activity := .moving next } none
  | limited {run : Run Time} {position next : Position} {notes : List Note} {fault : Fault Time}
      (activity : run.activity = .moving position)
      (stepped : position.step? run.plan run.view = some (.ok ⟨notes, some .charge, next⟩))
      (exceeded : (run.token.charge now).2 = some fault) :
      Steps now connected run
        { run with token := (run.token.charge now).1, activity := .ended (.fault fault) } none
  | delayed {run : Run Time} {position next : Position} {notes : List Note} {ms : Number}
      {pause : Pause Time} (activity : run.activity = .moving position)
      (stepped : position.step? run.plan run.view = some (.ok ⟨notes, some (.delay ms), next⟩))
      (paused : run.token.pause now ms = .ok pause) :
      Steps now connected run { run with activity := .pausing pause next } none
  | refused {run : Run Time} {position next : Position} {notes : List Note} {ms : Number}
      {fault : Fault Time} (activity : run.activity = .moving position)
      (stepped : position.step? run.plan run.view = some (.ok ⟨notes, some (.delay ms), next⟩))
      (paused : run.token.pause now ms = .error fault) :
      Steps now connected run { run with activity := .ended (.fault fault) } none
  | called {run : Run Time} {position next : Position} {notes : List Note} {call : Call}
      (activity : run.activity = .moving position)
      (stepped : position.step? run.plan run.view = some (.ok ⟨notes, some (.call call), next⟩)) :
      Steps now connected run { run with activity := .calling call none next } (some call)
  | stirred {run : Run Time} {more : Nat} {capped : Bool} {next : Position}
      (activity : run.activity = .pausing (.turns (more + 1) capped) next) :
      Steps now connected run { run with activity := .pausing (.turns more capped) next } none
  | startled {run : Run Time} {pause : Pause Time} {next : Position} (turns : Nat)
      (activity : run.activity = .pausing pause next) (aborted : run.token.aborted = true) :
      Steps now connected run { run with activity := .rousing turns next } none
  | woken {run : Run Time} {pause : Pause Time} {next : Position}
      (activity : run.activity = .pausing pause next)
      (passed : run.token.afterPause now pause = none) :
      Steps now connected run { run with activity := .moving next } none
  | overslept {run : Run Time} {pause : Pause Time} {next : Position} {fault : Fault Time}
      (activity : run.activity = .pausing pause next)
      (passed : run.token.afterPause now pause = some fault) :
      Steps now connected run { run with activity := .ended (.fault fault) } none
  | rousing {run : Run Time} {turns : Nat} {next : Position}
      (activity : run.activity = .rousing (turns + 1) next) :
      Steps now connected run { run with activity := .rousing turns next } none
  | roused {run : Run Time} {next : Position} (activity : run.activity = .rousing 0 next) :
      Steps now connected run { run with activity := .ended (.fault .aborted) } none

/-- Whether a run takes its next step without waiting for anything. The end of
a call is a matter of the effector. -/
def canStep (now : Time) (run : Run Time) : Bool :=
  match run.activity with
  | .calling .. => false
  | _ => run.isReady now

theorem perform_steps (now : Time) (connected : Bool) (run : Run Time) (position : Position)
    (step : Step) (activity : run.activity = .moving position)
    (stepped : position.step? run.plan run.view = some (.ok step)) :
    Steps now connected run (run.perform now connected step.next step.action).run
      (run.perform now connected step.next step.action).call := by
  obtain ⟨notes, action, next⟩ := step
  cases action with
  | none => exact .silent activity stepped
  | some action =>
      cases action with
      | checkpoint =>
          simp only [perform, checkpoint]
          cases aborted : run.token.aborted with
          | true => exact .halted activity stepped aborted
          | false =>
              cases reported : run.plan.abilities.probe.reports connected with
              | true => exact .cleared activity stepped aborted reported
              | false => exact .lost activity stepped aborted reported
      | charge =>
          simp only [perform, chargeStep]
          cases charged : run.token.charge now with
          | mk token fault =>
              cases fault with
              | none =>
                  have step : Steps now connected run _ none :=
                    .charged activity stepped (by rw [charged])
                  rwa [charged] at step
              | some fault =>
                  have step : Steps now connected run
                      { run with
                        token := (run.token.charge now).1, activity := .ended (.fault fault) }
                      none :=
                    .limited activity stepped (by rw [charged])
                  rwa [charged] at step
      | delay ms =>
          simp only [perform, beginDelay]
          cases paused : run.token.pause now ms with
          | error fault => exact .refused activity stepped paused
          | ok pause => exact .delayed activity stepped paused
      | call call => exact .called activity stepped

theorem stir_steps (now : Time) (connected : Bool) (run : Run Time) (pause : Pause Time)
    (next : Position) (activity : run.activity = .pausing pause next) :
    Steps now connected run (run.stir now pause next).run (run.stir now pause next).call := by
  have awake : Steps now connected run (run.wake now pause next).run
      (run.wake now pause next).call := by
    unfold wake
    split
    · rename_i fault passed
      exact .overslept activity passed
    · rename_i passed
      exact .woken activity passed
  unfold stir
  split
  · rename_i more capped
    split
    · rename_i turns cut
      cases aborted : run.token.aborted with
      | true => exact .startled turns activity aborted
      | false => simp [aborted] at cut
    · exact .stirred activity
  · split
    · rename_i heard
      rw [Bool.and_eq_true] at heard
      exact .startled 1 activity heard.1
    · exact awake

/-- Whatever a run does outside its calls is one of the steps, also before its
pause is over. -/
theorem steps_of_active (now : Time) (connected : Bool) (run : Run Time)
    (active : run.isEnded = false) (grounded : ∀ call due next, run.activity ≠ .calling call due next) :
    Steps now connected run (run.step now connected).run (run.step now connected).call := by
  unfold step
  cases activity : run.activity with
  | unstarted => exact .begin activity
  | moving position =>
      simp only [move]
      cases stepped : position.step? run.plan run.view with
      | none => exact .complete activity stepped
      | some result =>
          cases result with
          | error fault => exact .misread activity stepped
          | ok step => exact perform_steps now connected run position step activity stepped
  | pausing pause next => exact stir_steps now connected run pause next activity
  | rousing turns next =>
      cases turns with
      | zero => exact .roused activity
      | succ turns => exact .rousing activity
  | calling call due next => exact absurd activity (grounded call due next)
  | ended ending => simp [isEnded, activity] at active

theorem active_of_canStep (now : Time) (run : Run Time) (ready : run.canStep now = true) :
    run.isEnded = false := by
  cases activity : run.activity <;> simp_all [isEnded, canStep, isReady]

theorem step_steps (now : Time) (connected : Bool) (run : Run Time)
    (ready : run.canStep now = true) :
    Steps now connected run (run.step now connected).run (run.step now connected).call := by
  apply steps_of_active now connected run (active_of_canStep now run ready)
  intro call due next activity
  simp [canStep, activity] at ready

/-- A step into a call asks for that call and nothing else. -/
theorem steps_calling {now : Time} {connected : Bool} {run after : Run Time} {asked : Option Call}
    (steps : Steps now connected run after asked) {call : Call} {due : Option Time}
    {next : Position} (activity : after.activity = .calling call due next) :
    asked = some call ∧ ∃ position notes, run.activity = .moving position ∧
      position.step? run.plan run.view = some (.ok ⟨notes, some (.call call), next⟩) := by
  cases steps with
  | called moving stepped =>
      cases activity
      exact ⟨rfl, _, _, moving, stepped⟩
  | _ => cases activity

end Run

end ArmProgram
