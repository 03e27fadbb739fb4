import ArmProgram.Proofs.Run.Steps
import ArmProgram.Run.Cell

/-!
What can happen to a cell: an effect from outside it, or a step of its run. An
effect may be refused, and the hooks at the end of a call are effects in a row.
Laws about cells are case analyses on `Takes` and `Advances`, so the functions of
a cell are opened only once.
-/

namespace ArmProgram

variable {Time : Type}

theorem Arm.eq_of_start {now : Time} {call : Call} {arm started : Arm Time}
    (made : arm.start now call = .ok started) :
    started = { arm with calls := arm.calls.push ⟨now, call⟩ } := by
  unfold start at made
  split at made <;> cases made
  rfl

/-- The end of a call moves servos and does nothing else. -/
theorem Arm.finish_eq (call : Call) (arm : Arm Time) :
    arm.finish call = { arm with positions := (arm.finish call).positions } := by
  have moved (commands : List Command) (arm : Arm Time) :
      let moved := commands.foldl (fun arm command => arm.setServo command.servo command.value) arm
      moved = { arm with positions := moved.positions } := by
    induction commands generalizing arm with
    | nil => rfl
    | cons command rest ih => exact ih _
  cases call with
  | moveJoints commands => exact moved commands arm
  | _ => rfl

namespace Cell

/-! Effects. -/

def shares (id : String) (cell : Cell Time) : Bool :=
  (cell.program.blocks.findIdx? (·.id = id)).any (· < cell.shared)

inductive Takes (cell : Cell Time) : Effect → Cell Time → Prop where
  | abort : Takes cell .abort { cell with run := cell.run.map Run.abort }
  | disconnect :
      Takes cell .disconnect ({ cell with arm := cell.arm.disconnect }.log .armDisconnected)
  | connect : Takes cell .connect { cell with arm := cell.arm.connect }
  | failOn (name : Option String) :
      Takes cell (.failOn name) { cell with arm := { cell.arm with failOn := name } }
  | edits {id name : String} {value : Value} {program : Program}
      (edited : cell.program.updateParameter id name value = .ok program)
      (unshared : cell.shares id = false) : Takes cell (.set id name value) { cell with program }
  | reaches {id name : String} {value : Value} {program : Program}
      (edited : cell.program.updateParameter id name value = .ok program)
      (shared : cell.shares id = true) :
      Takes cell (.set id name value)
        { cell with program, run := cell.run.map (·.setParameter id name value) }

theorem takes_of_applied {effect : Effect} {cell changed : Cell Time}
    (applied : cell.applied? effect = .ok changed) : Takes cell effect changed := by
  cases effect with
  | abort => cases applied; exact .abort
  | disconnect => cases applied; exact .disconnect
  | connect => cases applied; exact .connect
  | failOn name => cases applied; exact .failOn name
  | set id name value =>
      simp only [applied?, updateParameter] at applied
      cases edited : cell.program.updateParameter id name value with
      | error fault => rw [edited] at applied; cases applied
      | ok program =>
          rw [edited] at applied
          cases applied
          simp only
          split
          · rename_i shared
            exact .reaches edited shared
          · rename_i unshared
            exact .edits edited (Bool.eq_false_iff.mpr unshared)

theorem apply_cases (effect : Effect) (cell : Cell Time) :
    cell.apply effect = cell ∨ Takes cell effect (cell.apply effect) := by
  unfold apply
  cases applied : cell.applied? effect with
  | error fault => exact Or.inl rfl
  | ok changed => exact Or.inr (takes_of_applied applied)

/-- What each effect of some hooks keeps is kept by all of them. -/
theorem fire_keeps (law : Cell Time → Prop) (hooks : List Hook)
    (kept : ∀ hook ∈ hooks, ∀ before after, Takes before hook.effect after →
      law before → law after) {cell : Cell Time} (start : law cell) :
    law (fire hooks cell).1 := by
  induction hooks generalizing cell with
  | nil => exact start
  | cons hook rest ih =>
      rw [List.forall_mem_cons] at kept
      unfold fire
      cases applied : cell.applied? hook.effect with
      | error fault => exact start
      | ok changed => exact ih kept.2 (kept.1 cell changed (takes_of_applied applied) start)

theorem fireHooks_keeps (law : Cell Time → Prop) {cell : Cell Time}
    (kept : ∀ hook ∈ cell.hooks, ∀ before after, Takes before hook.effect after →
      law before → law after) (start : law cell) : law cell.fireHooks.1 :=
  fire_keeps law _ (fun hook member => kept hook (List.mem_filter.mp member).1) start

/-! Steps. -/

theorem isRunning_iff {cell : Cell Time} :
    cell.isRunning = true ↔ ∃ run, cell.run = some run ∧ run.isEnded = false := by
  unfold isRunning
  cases cell.run <;> simp

variable [TimeScale Time]

def told (outcome : Run.Outcome Time) (cell : Cell Time) : Cell Time :=
  { cell with run := some outcome.run }.logAll outcome.entries

/-- One step of a cell whose run has not ended. A call returns to the run as the
hooks have left it. -/
inductive Advances (cell : Cell Time) (run : Run Time) : Cell Time → Prop where
  | moves {outcome : Run.Outcome Time} (made : run.step cell.now cell.arm.connected = outcome)
      (steps : run.Steps cell.now cell.arm.connected outcome.run none) :
      Advances cell run (cell.told outcome)
  | calls {outcome : Run.Outcome Time} {call : Call} {due : Option Time} {next : Position}
      {arm : Arm Time} (made : run.step cell.now cell.arm.connected = outcome)
      (steps : run.Steps cell.now cell.arm.connected outcome.run (some call))
      (calling : outcome.run.activity = .calling call due next)
      (started : cell.arm.start cell.now call = .ok arm) :
      Advances cell run
        ({ cell.told outcome with
            arm
            run := some { outcome.run with
              activity := .calling call (arm.callEnd? cell.now) next } }.log (.armCalled call))
  | fails {outcome : Run.Outcome Time} {call : Call} {failure : Failure}
      (made : run.step cell.now cell.arm.connected = outcome)
      (steps : run.Steps cell.now cell.arm.connected outcome.run (some call))
      (unstarted : cell.arm.start cell.now call = .error failure) :
      Advances cell run ((cell.told outcome).failRun failure outcome.run)
  | returns {call : Call} {due : Option Time} {next : Position} {fired : Cell Time}
      {later : Run Time} (calling : run.activity = .calling call due next)
      (heard : cell.fireHooks = (fired, none)) (there : fired.run = some later) :
      Advances cell run
        { fired with arm := fired.arm.finish call, run := some (later.resume next).run }
  | refuses {call : Call} {due : Option Time} {next : Position} {fired : Cell Time}
      {later : Run Time} {fault : ProgramFault} (calling : run.activity = .calling call due next)
      (heard : cell.fireHooks = (fired, some fault)) (there : fired.run = some later) :
      Advances cell run (fired.failRun (.edit fault) later)

variable {cell after : Cell Time} {run : Run Time}

theorem endCall_advances (here : cell.run = some run) {call : Call} {due : Option Time}
    {next : Position} (calling : run.activity = .calling call due next) :
    Advances cell run (cell.endCall call next) := by
  obtain ⟨later, there, -⟩ : ∃ later, cell.fireHooks.1.run = some later ∧ Run.SameWork later run :=
    fire_sameWork _ cell run here
  unfold endCall
  cases heard : cell.fireHooks with
  | mk fired fault =>
      rw [heard] at there
      cases fault with
      | none =>
          simp only [show fired.run = some later from there, Option.map_some]
          exact .returns calling heard there
      | some fault =>
          simp only [show fired.run = some later from there]
          exact .refuses calling heard there

theorem stepRun_advances (here : cell.run = some run) (going : run.isEnded = false) :
    Advances cell run cell.stepRun := by
  unfold stepRun
  simp only [here]
  split
  · rename_i call due next calling
    exact endCall_advances here calling
  · rename_i grounded
    have steps := run.steps_of_active cell.now cell.arm.connected going grounded
    cases made : run.step cell.now cell.arm.connected with
    | mk later entries asked =>
        rw [made] at steps
        cases asked with
        | none =>
            split
            · rename_i asked
              cases asked
            · exact .moves made steps
        | some call =>
            obtain ⟨due, next, calling⟩ : ∃ due next, later.activity = .calling call due next := by
              cases steps
              exact ⟨_, _, rfl⟩
            simp only [calling]
            unfold startCall
            split
            · rename_i failure unstarted
              exact .fails made steps unstarted
            · rename_i arm started
              exact .calls made steps calling started

theorem Advances.present (advances : Advances cell run after) : after.run.isSome = true := by
  cases advances <;> rfl

theorem stepRun_present (running : cell.isRunning = true) : cell.stepRun.run.isSome = true := by
  obtain ⟨run, here, going⟩ := isRunning_iff.mp running
  exact (stepRun_advances here going).present

end Cell

end ArmProgram
