import ArmProgram.Proofs.Run.ExactTime
import ArmProgram.Proofs.Run.Pair

/-!
One step of the same run under two budgets. It comes to the same, or it ends
the run with the smaller budget, or it begins a delay that the smaller budget
cuts short.
-/

namespace ArmProgram

variable {Time : Type} [TimeScale Time]

/-! The same run under other budgets. -/

def Token.under (fewSteps : Int) (shortTime : Time) (token : Token Time) : Token Time :=
  { token with maxSteps := fewSteps, maxDuration := shortTime }

def Run.under (fewSteps : Int) (shortTime : Time) (run : Run Time) : Run Time :=
  { run with token := run.token.under fewSteps shortTime }

namespace Track

def under (fewSteps : Int) (shortTime : Time) (track : Track Time) : Track Time :=
  { track with run := track.run.under fewSteps shortTime }

def busy (activity : Activity Time) (track : Track Time) : Track Time :=
  { track with run := { track.run with activity } }

end Track

/-! The token under two budgets. -/

namespace Token

theorem charge_none_iff (now : Time) (token : Token Time) :
    (token.charge now).2 = none ↔
      ((token.charge now).1.steps : Int) ≤ (token.charge now).1.maxSteps ∧
        TimeScale.before (token.charge now).1.maxDuration ((token.charge now).1.elapsed now) =
          false := by
  have fault : (token.charge now).2 =
      let charged := (token.charge now).1
      if charged.maxSteps < charged.steps then
        some (.stepLimit charged.maxSteps charged.steps (charged.elapsed now))
      else if TimeScale.before charged.maxDuration (charged.elapsed now) then
        some (charged.timeLimit now)
      else none := rfl
  rw [fault]
  generalize (token.charge now).1 = charged
  by_cases beyond : charged.maxSteps < charged.steps
  · simp [beyond, Int.not_le.mpr beyond]
  · cases late : TimeScale.before charged.maxDuration (charged.elapsed now) with
    | true => simp [beyond, late]
    | false => simpa [beyond, late] using Int.not_lt.mp beyond

variable (fewSteps : Int) (shortTime : Time) (now : Time) (token : Token Time)

omit [TimeScale Time] in
theorem start_under : (token.under fewSteps shortTime).start now =
    (token.start now).under fewSteps shortTime := by
  obtain ⟨maxSteps, maxDuration, aborted, steps, startedAt⟩ := token
  cases startedAt <;> rfl

theorem charge_under : ((token.under fewSteps shortTime).charge now).1 =
    (token.charge now).1.under fewSteps shortTime := by
  obtain ⟨maxSteps, maxDuration, aborted, steps, startedAt⟩ := token
  cases startedAt <;> rfl

section

variable [ExactTime Time] {fewSteps shortTime token}
  (shorter : TimeScale.before token.maxDuration shortTime = false)

include shorter

theorem charge_passes (fewer : fewSteps ≤ token.maxSteps)
    (passed : ((token.under fewSteps shortTime).charge now).2 = none) :
    (token.charge now).2 = none := by
  rw [charge_none_iff, charge_under] at passed
  obtain ⟨within, early⟩ := passed
  rw [charge_none_iff, charge_maxSteps, Run.charge_maxDuration]
  constructor
  · exact Int.le_trans within fewer
  · cases late : TimeScale.before token.maxDuration ((token.charge now).1.elapsed now) with
    | false => rfl
    | true =>
        rcases ExactTime.before_or shortTime late with longer | beyond
        · exact longer.symm.trans shorter
        · exact beyond.symm.trans early

variable (fewSteps) in
theorem pause_under (ms : Number) :
    (token.under fewSteps shortTime).pause now ms = token.pause now ms ∨
      ∃ pause later, (token.under fewSteps shortTime).pause now ms = .ok pause ∧
        token.pause now ms = .ok later ∧ Pause.Cut now pause later := by
  obtain ⟨maxSteps, longTime, aborted, steps, startedAt⟩ := token
  cases aborted with
  | true => exact Or.inl rfl
  | false =>
      by_cases positive : ms.isPositive = true
      · cases startedAt with
        | none => exact Or.inl (by simp [pause, under, positive, remaining?])
        | some start =>
            have left := ExactTime.sub_mono (TimeScale.sub now start) shorter
            simp only [pause, under, positive, remaining?, elapsed, Option.map_some,
              Bool.not_true, Bool.false_eq_true, if_false]
            simp only at left
            generalize TimeScale.sub shortTime (TimeScale.sub now start) = lessLeft at left
            generalize TimeScale.sub longTime (TimeScale.sub now start) = moreLeft at left
            by_cases fits : TimeScale.before lessLeft (TimeScale.ofMillis ms) = true
            · right
              rw [if_pos fits]
              by_cases longer : TimeScale.before moreLeft (TimeScale.ofMillis ms) = true
              · rw [if_pos longer]
                exact ⟨_, _, rfl, rfl,
                  Pause.cut_ofLength now _ _ true (ExactTime.orZero_ordered left)⟩
              · rw [if_neg longer]
                exact ⟨_, _, rfl, rfl, Pause.cut_ofLength now _ _ false (ExactTime.asymm fits)⟩
            · left
              have longer : ¬ TimeScale.before moreLeft (TimeScale.ofMillis ms) = true := by
                intro longer
                rcases ExactTime.before_or lessLeft longer with beyond | short
                · exact Bool.false_ne_true (left.symm.trans beyond)
                · exact fits short
              rw [if_neg fits, if_neg longer]
      · exact Or.inl (by simp [pause, under, positive])

end

/-- How a pause ends under another budget: the same, but for the limit that it
tells of. -/
theorem afterPause_under (pause : Pause Time) :
    (token.under fewSteps shortTime).afterPause now pause = token.afterPause now pause ∨
      (token.under fewSteps shortTime).afterPause now pause =
        some ((token.under fewSteps shortTime).timeLimit now) := by
  have gate : (token.under fewSteps shortTime).aborted = token.aborted := rfl
  unfold afterPause
  rw [gate]
  cases token.aborted <;> cases pause with
  | turn => exact Or.inl rfl
  | turns more capped => cases capped <;> simp
  | till due capped => cases capped <;> simp

end Token

/-! One step of the same run under two budgets. -/

namespace Run

def IsOver (fewSteps : Int) (run : Run Time) : Prop :=
  (∃ budget steps elapsed, run.activity = .ended (.fault (.timeLimit budget steps elapsed))) ∨
    fewSteps.toNat < run.token.steps ∧
      ∃ budget steps elapsed, run.activity = .ended (.fault (.stepLimit budget steps elapsed))

/-- What a step under the smaller budget and one under the larger come to: the
same, the end of the smaller, or a delay that the smaller cuts short. -/
inductive Forks (fewSteps : Int) (shortTime now : Time) : Outcome Time → Outcome Time → Prop where
  | same {less more : Outcome Time} (run : less.run = more.run.under fewSteps shortTime)
      (call : less.call = more.call) : Forks fewSteps shortTime now less more
  | exhausted {less more : Outcome Time} (ended : less.run.IsOver fewSteps)
      (steps : less.run.token.steps ≤ more.run.token.steps) (silent : less.call = none) :
      Forks fewSteps shortTime now less more
  | cut {less more : Outcome Time} {pause later : Pause Time} {next : Position}
      (cut : Pause.Cut now pause later) (activity : more.run.activity = .pausing later next)
      (run : less.run =
        { more.run.under fewSteps shortTime with activity := .pausing pause next })
      (silent : less.call = none) (mute : more.call = none) : Forks fewSteps shortTime now less more

theorem Forks.noting {fewSteps : Int} {shortTime now : Time} {less more : Outcome Time}
    (forks : Forks fewSteps shortTime now less more) (entries others : List (Entry Time)) :
    Forks fewSteps shortTime now { less with entries } { more with entries := others } := by
  cases forks with
  | same run call => exact .same run call
  | exhausted ended steps silent => exact .exhausted ended steps silent
  | cut cut activity run silent mute => exact .cut cut activity run silent mute

theorem chargeStep_passes {now : Time} {run : Run Time} {next : Position}
    (passed : (run.token.charge now).2 = none) :
    run.chargeStep now next =
      ⟨{ run with token := (run.token.charge now).1, activity := .moving next }, [], none⟩ := by
  unfold chargeStep
  cases charged : run.token.charge now with
  | mk token fault =>
      rw [charged] at passed
      cases passed
      rfl

theorem chargeStep_refused {now : Time} {run : Run Time} {fault : Fault Time} (next : Position)
    (refused : (run.token.charge now).2 = some fault) :
    (run.chargeStep now next).run =
        { run with token := (run.token.charge now).1, activity := .ended (.fault fault) } ∧
      (run.chargeStep now next).call = none := by
  unfold chargeStep
  cases charged : run.token.charge now with
  | mk token found =>
      rw [charged] at refused
      cases refused
      exact ⟨rfl, rfl⟩

theorem chargeStep_steps (now : Time) (run : Run Time) (next : Position) :
    (run.chargeStep now next).run.token.steps = run.token.steps + 1 := by
  rw [← Token.charge_steps now run.token]
  cases charged : (run.token.charge now).2 with
  | none => rw [chargeStep_passes charged]
  | some fault => rw [(chargeStep_refused _ charged).1]

variable [ExactTime Time] {fewSteps : Int} {shortTime now : Time} {run : Run Time}

section

variable (fewer : fewSteps ≤ run.token.maxSteps)
  (shorter : TimeScale.before run.token.maxDuration shortTime = false)

include shorter

include fewer in
theorem chargeStep_forks (next : Position) :
    Forks fewSteps shortTime now ((run.under fewSteps shortTime).chargeStep now next)
      (run.chargeStep now next) := by
  cases charged : ((run.under fewSteps shortTime).token.charge now).2 with
  | none =>
      rw [chargeStep_passes charged,
        chargeStep_passes (Token.charge_passes now shorter fewer charged)]
      refine .same ?_ rfl
      simp only [under, Token.charge_under]
  | some fault =>
      obtain ⟨ended, silent⟩ := chargeStep_refused next charged
      refine .exhausted ?_ ?_ silent
      · rw [ended]
        rcases Token.charge_refused now _ fault charged with
          ⟨elapsed, rfl, beyond⟩ | ⟨budget, count, elapsed, rfl, -⟩
        · right
          refine ⟨?_, _, _, _, rfl⟩
          have budget : (run.under fewSteps shortTime).token.maxSteps = fewSteps := rfl
          rw [budget] at beyond
          simp only [Token.charge_steps]
          omega
        · exact Or.inl ⟨_, _, _, rfl⟩
      · rw [chargeStep_steps, chargeStep_steps]
        exact Nat.le_refl _

theorem beginDelay_forks (ms : Number) (next : Position) :
    Forks fewSteps shortTime now ((run.under fewSteps shortTime).beginDelay now ms next)
      (run.beginDelay now ms next) := by
  have paused := Token.pause_under fewSteps now shorter ms
  unfold beginDelay
  have token : (run.under fewSteps shortTime).token = run.token.under fewSteps shortTime := rfl
  rw [token]
  rcases paused with same | ⟨pause, later, less, more, cut⟩
  · rw [same]
    cases paused : run.token.pause now ms with
    | error fault => exact .same rfl rfl
    | ok pause => exact .same rfl rfl
  · rw [less, more]
    exact .cut cut rfl rfl rfl rfl

end

omit [ExactTime Time] in
theorem wake_forks (pause : Pause Time) (next : Position) :
    Forks fewSteps shortTime now ((run.under fewSteps shortTime).wake now pause next)
      (run.wake now pause next) := by
  have token : (run.under fewSteps shortTime).token = run.token.under fewSteps shortTime := rfl
  have steps : (run.wake now pause next).run.token.steps = run.token.steps := by
    unfold wake
    split <;> rfl
  unfold wake at steps ⊢
  rw [token]
  rcases Token.afterPause_under fewSteps shortTime now run.token pause with same | limit
  · rw [same]
    cases ended : run.token.afterPause now pause with
    | none => exact .same rfl rfl
    | some fault => exact .same rfl rfl
  · rw [limit]
    refine .exhausted (Or.inl ⟨_, _, _, rfl⟩) ?_ rfl
    rw [steps]
    exact Nat.le_refl _

theorem perform_forks (fewer : fewSteps ≤ run.token.maxSteps)
    (shorter : TimeScale.before run.token.maxDuration shortTime = false) (connected : Bool)
    (next : Position) (action : Option Action) :
    Forks fewSteps shortTime now
      ((run.under fewSteps shortTime).perform now connected next action)
      (run.perform now connected next action) := by
  cases action with
  | none => exact .same rfl rfl
  | some action =>
      cases action with
      | checkpoint =>
          have aborted : (run.under fewSteps shortTime).token.aborted = run.token.aborted := rfl
          have plan : (run.under fewSteps shortTime).plan = run.plan := rfl
          simp only [perform, checkpoint, aborted, plan]
          split
          · exact .same rfl rfl
          · split <;> exact .same rfl rfl
      | charge => exact chargeStep_forks fewer shorter next
      | call call => exact .same rfl rfl
      | delay ms => exact beginDelay_forks shorter ms next

omit [ExactTime Time] in
theorem stir_forks (pause : Pause Time) (next : Position) :
    Forks fewSteps shortTime now ((run.under fewSteps shortTime).stir now pause next)
      (run.stir now pause next) := by
  have aborted : (run.under fewSteps shortTime).token.aborted = run.token.aborted := rfl
  unfold stir
  rw [aborted]
  split
  · split <;> exact .same rfl rfl
  · split
    · exact .same rfl rfl
    · exact wake_forks _ next

theorem step_forks (connected : Bool) (fewer : fewSteps ≤ run.token.maxSteps)
    (shorter : TimeScale.before run.token.maxDuration shortTime = false) :
    Forks fewSteps shortTime now ((run.under fewSteps shortTime).step now connected)
      (run.step now connected) := by
  have busy : (run.under fewSteps shortTime).activity = run.activity := rfl
  unfold step
  rw [busy]
  cases activity : run.activity with
  | unstarted =>
      refine .same ?_ rfl
      simp only [resume, under, Token.start_under]
  | moving position =>
      simp only [move]
      have same : position.step? (run.under fewSteps shortTime).plan
          (run.under fewSteps shortTime).view = position.step? run.plan run.view := rfl
      rw [same]
      cases stepped : position.step? run.plan run.view with
      | none => exact .same rfl rfl
      | some result =>
          cases result with
          | error fault => exact .same rfl rfl
          | ok step =>
              exact (perform_forks fewer shorter connected step.next step.action).noting _ _
  | pausing pause next => exact stir_forks pause next
  | rousing turns next =>
      cases turns with
      | zero => exact .same rfl rfl
      | succ turns => exact .same rfl rfl
  | calling call due next => exact .same rfl rfl
  | ended ending => exact .same rfl rfl

/-! What a run does in a pause. -/

section

omit [ExactTime Time]

theorem step_lapsed {connected : Bool} {next : Position}
    (activity : run.activity = .pausing (.turns 0 true) next) :
    run.step now connected = run.fail now (run.token.timeLimit now) := by
  simp [step, stir, activity, Pause.isOver, wake, Token.afterPause]

theorem canStep_turns {more : Nat} {capped : Bool} {next : Position}
    (activity : run.activity = .pausing (.turns more capped) next) : run.canStep now = true := by
  simp [canStep, isReady, activity, Pause.isOver]

variable {connected : Bool} {due : Time} {capped : Bool} {next : Position}
  (activity : run.activity = .pausing (.till due capped) next)

include activity

theorem canStep_till : run.canStep now = (run.token.aborted || !TimeScale.before now due) := by
  simp [canStep, isReady, activity, Pause.isOver]

theorem step_early (early : TimeScale.before now due = true) (aborted : run.token.aborted = true) :
    run.step now connected = run.startle 1 next := by
  simp [step, stir, activity, Pause.isOver, early, aborted]

theorem step_late (late : TimeScale.before now due = false) (aborted : run.token.aborted = true) :
    run.step now connected = run.fail now .aborted := by
  simp [step, stir, activity, Pause.isOver, late, wake, Token.afterPause, aborted]

theorem step_overslept (late : TimeScale.before now due = false) (beyond : capped = true)
    (unaborted : run.token.aborted = false) :
    run.step now connected = run.fail now (run.token.timeLimit now) := by
  simp [step, stir, activity, Pause.isOver, late, wake, Token.afterPause, unaborted, beyond]

end

omit [TimeScale Time] [ExactTime Time] in
theorem cancel_under (fewSteps : Int) (shortTime : Time) (run : Run Time) :
    (run.under fewSteps shortTime).cancel = run.cancel.under fewSteps shortTime := by
  obtain ⟨plan, blocks, token, activity⟩ := run
  cases activity <;> rfl

end Run

/-- Apart from its own steps a run does the same under other budgets. -/
theorem Track.meet_under (now : Time) (connected : Bool) (event : Event Time) (track : Track Time)
    (fewSteps : Int) (shortTime : Time) (other : event ≠ .step) :
    (track.under fewSteps shortTime).meet now connected event =
      (track.meet now connected event).under fewSteps shortTime := by
  have busy : (track.under fewSteps shortTime).run.activity = track.run.activity := rfl
  cases event with
  | step => exact absurd rfl other
  | lasts | returns | raises =>
      unfold meet
      rw [busy]
      cases track.run.activity <;> rfl
  | cancel =>
      have same : (track.under fewSteps shortTime).run.cancel =
          track.run.cancel.under fewSteps shortTime := Run.cancel_under fewSteps shortTime track.run
      simp only [meet, same]
      rfl
  | abort | edit | connection | pass | expire => rfl

end ArmProgram
