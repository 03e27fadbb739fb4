import ArmProgram.Run.Basic
import ArmProgram.Program.Basic

/-!
The work cell: the clock, the arm, the program that can be edited, and the
run in progress. `stepRun` takes the run on by one step and makes the calls
it asks for. Time moves only when the run cannot go on, and then to the next
thing that is due.
-/

namespace ArmProgram

variable {Time : Type} [TimeScale Time]

inductive Effect where
  | abort
  | disconnect
  | connect
  | failOn (name : Option String)
  | set (id name : String) (value : Value)
  deriving Repr

structure Hook where
  call : Nat
  effect : Effect
  deriving Repr

structure Alarm (Time : Type) where
  due : Time
  effect : Effect
  deriving Repr

/-- The run in progress sees the first `shared` blocks of the program, so an
edit of their parameters reaches it. -/
structure Cell (Time : Type) where
  now : Time
  arm : Arm Time
  hooks : List Hook
  journal : Array (Entry Time)
  program : Program
  shared : Nat
  run : Option (Run Time)

namespace Cell

def idle (arm : Arm Time) (hooks : List Hook) (program : Program) : Cell Time :=
  { now := TimeScale.zero, arm, hooks, journal := #[], program, shared := 0, run := none }

def log (entry : Entry Time) (cell : Cell Time) : Cell Time :=
  { cell with journal := cell.journal.push entry }

def logAll (entries : List (Entry Time)) (cell : Cell Time) : Cell Time :=
  { cell with journal := cell.journal ++ entries }

/-- Puts in an edited program. The run goes on sharing those of its blocks
that are still there. -/
def edit (program : Program) (cell : Cell Time) : Cell Time :=
  let shared := (cell.program.blocks.take cell.shared).filter fun block =>
    (program.find? block.id).isSome
  { cell with program, shared := shared.length }

def updateParameter (id name : String) (value : Value) (cell : Cell Time) :
    Except ProgramFault (Cell Time) :=
  (cell.program.updateParameter id name value).map fun program =>
    let seen := (cell.program.blocks.findIdx? (·.id = id)).any (· < cell.shared)
    { cell with
      program
      run := if seen then cell.run.map (·.setParameter id name value) else cell.run }

def applied? (effect : Effect) (cell : Cell Time) : Except ProgramFault (Cell Time) :=
  match effect with
  | .abort => .ok { cell with run := cell.run.map Run.abort }
  | .disconnect => .ok ({ cell with arm := cell.arm.disconnect }.log .armDisconnected)
  | .connect => .ok { cell with arm := cell.arm.connect }
  | .failOn name => .ok { cell with arm := { cell.arm with failOn := name } }
  | .set id name value => cell.updateParameter id name value

def apply (effect : Effect) (cell : Cell Time) : Cell Time :=
  match cell.applied? effect with
  | .ok changed => changed
  | .error _ => cell

def fire : List Hook → Cell Time → Cell Time × Option ProgramFault
  | [], cell => (cell, none)
  | hook :: rest, cell =>
      match cell.applied? hook.effect with
      | .ok changed => fire rest changed
      | .error fault => (cell, some fault)

def fireHooks (cell : Cell Time) : Cell Time × Option ProgramFault :=
  fire (cell.hooks.filter (·.call = cell.arm.calls.size)) cell

def failRun (failure : Failure) (run : Run Time) (cell : Cell Time) : Cell Time :=
  let outcome := run.fail cell.now (.failed failure)
  { cell with run := some outcome.run }.logAll outcome.entries

/-- The end of a call in flight: its hooks, the servos, and the run goes on.
Servos stay where they are if a hook fails, and the run ends. -/
def endCall (call : Call) (next : Position) (cell : Cell Time) : Cell Time :=
  match cell.fireHooks with
  | (fired, none) =>
      { fired with
        arm := fired.arm.finish call
        run := fired.run.map fun run => (run.resume next).run }
  | (fired, some fault) =>
      match fired.run with
      | none => fired
      | some run => fired.failRun (.edit fault) run

def startCall (call : Call) (next : Position) (run : Run Time) (cell : Cell Time) : Cell Time :=
  match cell.arm.start cell.now call with
  | .error failure => cell.failRun failure run
  | .ok arm =>
      let due := arm.callEnd? cell.now
      { cell with arm, run := some { run with activity := .calling call due next } }.log
        (.armCalled call)

def stepRun (cell : Cell Time) : Cell Time :=
  match cell.run with
  | none => cell
  | some run =>
      match run.activity with
      | .calling call _ next => cell.endCall call next
      | _ =>
          let outcome := run.step cell.now cell.arm.connected
          let cell := { cell with run := some outcome.run }.logAll outcome.entries
          match outcome.run.activity, outcome.call with
          | .calling _ _ next, some call => cell.startCall call next outcome.run
          | _, _ => cell

def isRunning (cell : Cell Time) : Bool :=
  cell.run.any fun run => !run.isEnded

def isReady (cell : Cell Time) : Bool :=
  cell.run.any (·.isReady cell.now)

def isAtRest (cell : Cell Time) : Bool :=
  cell.run.all (·.isAtRest)

def due? (cell : Cell Time) : Option Time :=
  cell.run.bind (·.due?)

def hasBegun (cell : Cell Time) : Bool :=
  cell.run.any (·.hasBegun)

def install (run : Run Time) (cell : Cell Time) : Cell Time :=
  { cell with run := some run, shared := cell.program.size }

/-! Weights. -/

def allowance (cell : Cell Time) : Nat :=
  (cell.run.map Run.allowance).getD 0

def weight (cell : Cell Time) : Nat :=
  (cell.run.map Run.weight).getD 0

def SameWork (after before : Cell Time) : Prop :=
  ∀ run, before.run = some run → ∃ later, after.run = some later ∧ Run.SameWork later run

omit [TimeScale Time] in
theorem SameWork.refl (cell : Cell Time) : SameWork cell cell :=
  fun run here => ⟨run, here, .refl run⟩

omit [TimeScale Time] in
theorem SameWork.trans {first second third : Cell Time} (left : SameWork third second)
    (right : SameWork second first) : SameWork third first := by
  intro run here
  obtain ⟨middle, there, same⟩ := right run here
  obtain ⟨later, last, again⟩ := left middle there
  exact ⟨later, last, again.trans same⟩

omit [TimeScale Time] in
theorem updateParameter_sameWork (id name : String) (value : Value) (cell changed : Cell Time)
    (updated : cell.updateParameter id name value = .ok changed) : SameWork changed cell := by
  intro run here
  unfold updateParameter at updated
  cases edited : cell.program.updateParameter id name value with
  | error fault => rw [edited] at updated; cases updated
  | ok program =>
      rw [edited] at updated
      cases updated
      simp only
      split
      · exact ⟨run.setParameter id name value, by simp [here],
          Run.setParameter_sameWork run id name value⟩
      · exact ⟨run, here, .refl run⟩

omit [TimeScale Time] in
theorem applied?_sameWork (effect : Effect) (cell changed : Cell Time)
    (applied : cell.applied? effect = .ok changed) : SameWork changed cell := by
  cases effect with
  | abort =>
      cases applied
      exact fun run here => ⟨run.abort, by simp [here], Run.abort_sameWork run⟩
  | disconnect => cases applied; exact fun run here => ⟨run, here, .refl run⟩
  | connect => cases applied; exact fun run here => ⟨run, here, .refl run⟩
  | failOn name => cases applied; exact fun run here => ⟨run, here, .refl run⟩
  | set id name value => exact updateParameter_sameWork id name value cell changed applied

omit [TimeScale Time] in
theorem fire_sameWork (hooks : List Hook) (cell : Cell Time) :
    SameWork (fire hooks cell).1 cell := by
  induction hooks generalizing cell with
  | nil => exact .refl cell
  | cons hook rest ih =>
      unfold fire
      cases applied : cell.applied? hook.effect with
      | error fault => exact .refl cell
      | ok changed => exact (ih changed).trans (applied?_sameWork hook.effect cell changed applied)

def Lighter (after before : Cell Time) : Prop :=
  Prod.Lex (· < ·) (· < ·) (after.allowance, after.weight) (before.allowance, before.weight)

omit [TimeScale Time] in
theorem Lighter.trans {first second third : Cell Time} (left : Lighter third second)
    (right : Lighter second first) : Lighter third first := by
  unfold Lighter at *
  rw [Prod.lex_def] at *
  simp only at *
  omega

omit [TimeScale Time] in
theorem lighter_of_runs {after before : Cell Time} {later earlier : Run Time}
    (there : after.run = some later) (here : before.run = some earlier)
    (less : Run.Lighter later earlier) : Lighter after before := by
  unfold Lighter allowance weight
  rw [there, here]
  exact less

theorem endCall_lighter (call : Call) (due : Option Time) (next : Position) (cell : Cell Time)
    (run : Run Time) (here : cell.run = some run)
    (calling : run.activity = .calling call due next) :
    Lighter (cell.endCall call next) cell := by
  obtain ⟨later, there, same⟩ := fire_sameWork _ cell run here
  have measure := same.measure
  unfold endCall fireHooks
  generalize fire (cell.hooks.filter (·.call = cell.arm.calls.size)) cell = fired at there
  obtain ⟨fired, fault⟩ := fired
  simp only at there
  cases fault with
  | none =>
      have ended : ({ fired with
          arm := fired.arm.finish call
          run := fired.run.map fun run => (run.resume next).run } : Cell Time).run =
          some (later.resume next).run := by simp [there]
      refine lighter_of_runs ended here (Run.lighter_of_le ?_ ?_)
      · have := measure.1
        simp only [Run.resume, Run.allowance] at this ⊢
        omega
      · simp only [Run.resume, Run.weight, calling, same.plan]
        omega
  | some fault =>
      simp only [there]
      refine lighter_of_runs rfl here (Run.lighter_of_le ?_ ?_)
      · have := measure.1
        simp only [Run.fail, Run.finish, Run.allowance] at this ⊢
        omega
      · simp [Run.fail, Run.finish, Run.weight, calling]

theorem startCall_lighter (call : Call) (next : Position) (cell : Cell Time) (run : Run Time)
    (calling : run.activity = .calling call none next) :
    ∃ later, (cell.startCall call next run).run = some later ∧
      later.allowance ≤ run.allowance ∧ later.weight ≤ run.weight := by
  unfold startCall
  cases cell.arm.start cell.now call with
  | error failure =>
      exact ⟨_, rfl, Nat.le_refl _, by simp [Run.fail, Run.finish, Run.weight]⟩
  | ok arm =>
      refine ⟨_, rfl, Nat.le_refl _, ?_⟩
      simp [Run.weight, calling]

theorem step_call (now : Time) (connected : Bool) (run : Run Time) (call : Call)
    (asked : (run.step now connected).call = some call) :
    ∃ next, (run.step now connected).run.activity = .calling call none next := by
  unfold Run.step at asked ⊢
  cases activity : run.activity with
  | unstarted => rw [activity] at asked; cases asked
  | pausing pause next =>
      rw [activity] at asked
      simp only [Run.stir, Run.wake] at asked
      split at asked
      · split at asked <;> cases asked
      · split at asked
        · cases asked
        · split at asked <;> cases asked
  | rousing turns next =>
      rw [activity] at asked
      cases turns <;> cases asked
  | calling call' due next => rw [activity] at asked; cases asked
  | ended ending => rw [activity] at asked; cases asked
  | moving position =>
      rw [activity] at asked
      simp only [Run.move] at asked ⊢
      cases stepped : position.step? run.plan run.view with
      | none => rw [stepped] at asked; cases asked
      | some result =>
          rw [stepped] at asked
          cases result with
          | error fault => cases asked
          | ok step =>
              simp only [Run.perform] at asked ⊢
              cases action : step.action with
              | none => rw [action] at asked; cases asked
              | some action' =>
                  rw [action] at asked
                  cases action' with
                  | checkpoint =>
                      simp only [Run.checkpoint] at asked
                      split at asked
                      · cases asked
                      · split at asked <;> cases asked
                  | charge =>
                      simp only [Run.chargeStep] at asked
                      split at asked <;> cases asked
                  | delay ms =>
                      simp only [Run.beginDelay] at asked
                      split at asked <;> cases asked
                  | call call' =>
                      cases asked
                      exact ⟨step.next, rfl⟩

theorem stepRun_lighter (cell : Cell Time) (active : cell.isRunning = true) :
    Lighter cell.stepRun cell := by
  unfold stepRun
  cases here : cell.run with
  | none => simp [isRunning, here] at active
  | some run =>
      have going : run.isEnded = false := by simpa [isRunning, here] using active
      have lighter := Run.step_lighter cell.now cell.arm.connected run going
      have called := step_call cell.now cell.arm.connected run
      simp only
      split
      · rename_i call due next calling
        exact endCall_lighter call due next cell run here calling
      · generalize run.step cell.now cell.arm.connected = outcome at lighter called
        split
        · rename_i call' due next call calling asked
          obtain ⟨next', there⟩ := called call asked
          rw [calling] at there
          cases there
          obtain ⟨later, last, allowed, less⟩ := startCall_lighter _ next
            ({ cell with run := some outcome.run }.logAll outcome.entries) outcome.run calling
          refine lighter_of_runs last here ?_
          exact Run.lighter_of_le_of_lighter allowed less lighter
        · exact lighter_of_runs rfl here lighter

/-! Playing a cell on its own. -/

def firstAlarm? : List (Alarm Time) → Option (Alarm Time × List (Alarm Time))
  | [] => none
  | alarm :: rest =>
      match firstAlarm? rest with
      | none => some (alarm, rest)
      | some (first, others) =>
          if TimeScale.before first.due alarm.due then some (first, alarm :: others)
          else some (alarm, rest)

theorem firstAlarm?_length (alarms rest : List (Alarm Time)) (first : Alarm Time)
    (found : firstAlarm? alarms = some (first, rest)) : rest.length < alarms.length := by
  induction alarms generalizing first rest with
  | nil => cases found
  | cons alarm tail ih =>
      unfold firstAlarm? at found
      cases later : firstAlarm? tail with
      | none => rw [later] at found; cases found; simp
      | some pair =>
          rw [later] at found
          simp only at found
          split at found
          · cases found
            have := ih pair.2 pair.1 later
            simpa using this
          · cases found; simp

def alarmFirst (due : Option Time) (alarm : Alarm Time) : Bool :=
  match due with
  | none => true
  | some due => TimeScale.before alarm.due due

def turn (cell : Cell Time) : Cell Time :=
  if _active : cell.isRunning = true then
    let stepped := cell.stepRun
    if stepped.isAtRest then stepped else turn stepped
  else cell
termination_by (cell.allowance, cell.weight)
decreasing_by exact stepRun_lighter cell _active

theorem turn_lighter (cell : Cell Time) (active : cell.isRunning = true) :
    Lighter cell.turn cell := by
  fun_induction turn cell with
  | case1 cell active' stepped rest => exact stepRun_lighter cell active'
  | case2 cell active' stepped rest ih =>
      have less := stepRun_lighter cell active'
      by_cases going : stepped.isRunning = true
      · exact (ih going).trans less
      · unfold turn
        simp only [going, Bool.false_eq_true, ↓reduceDIte]
        exact less
  | case3 cell idle => exact absurd active idle

/-- Plays until the run has ended, with effects at given times. Alarms that
are due ring after every turn of the run but its first; after that one they
ring only if the run has to wait. -/
def playOn (waited : Bool) (alarms : List (Alarm Time)) (cell : Cell Time) : Cell Time :=
  if _active : cell.isRunning = true then
    match _first : firstAlarm? alarms with
    | some (alarm, rest) =>
        if (waited || !cell.isReady) && !TimeScale.before cell.now alarm.due then
          playOn waited rest (cell.apply alarm.effect)
        else if cell.isReady then playOn cell.hasBegun alarms cell.turn
        else if alarmFirst cell.due? alarm then
          playOn true rest ({ cell with now := alarm.due }.apply alarm.effect)
        else playOn true alarms { cell with now := cell.due?.getD cell.now }.turn
    | none =>
        if cell.isReady then playOn true alarms cell.turn
        else playOn true alarms { cell with now := cell.due?.getD cell.now }.turn
  else cell
termination_by (alarms.length, cell.allowance, cell.weight)
decreasing_by
  · exact Prod.Lex.left _ _ (firstAlarm?_length alarms rest alarm _first)
  · exact Prod.Lex.right _ (turn_lighter cell _active)
  · exact Prod.Lex.left _ _ (firstAlarm?_length alarms rest alarm _first)
  · exact Prod.Lex.right _ (turn_lighter { cell with now := _ } _active)
  · exact Prod.Lex.right _ (turn_lighter cell _active)
  · exact Prod.Lex.right _ (turn_lighter { cell with now := _ } _active)

def play (alarms : List (Alarm Time)) (cell : Cell Time) : Cell Time :=
  cell.playOn false alarms

end Cell

end ArmProgram
