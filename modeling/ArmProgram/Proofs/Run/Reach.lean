import ArmProgram.Proofs.Run.Moves
import ArmProgram.Proofs.Run.Cell

/-!
The servos of a cell. They move only at the end of a call, and the call that is
in flight was safe when it was made, so an end that comes too early leaves them
where they may be: whether the run fails, is aborted or cancelled in its call.
-/

namespace ArmProgram

variable {Time : Type}

def Run.inFlight? (run : Run Time) : Option Call :=
  match run.activity with
  | .calling call _ _ => some call
  | _ => none

theorem Run.inFlight?_of_isEnded {run : Run Time} (ended : run.isEnded = true) :
    run.inFlight? = none := by
  cases activity : run.activity <;> simp_all [isEnded, inFlight?]

namespace Cell

def inFlight? (cell : Cell Time) : Option Call :=
  cell.run.bind Run.inFlight?

structure IsSafe (cell : Cell Time) : Prop where
  arm : cell.arm.IsInReach
  flies : ∀ call, cell.inFlight? = some call → call.IsSafe

/-- No servo has moved and no call has begun. A call in flight may have ended. -/
structure Rests (after before : Cell Time) : Prop where
  positions : after.arm.positions = before.arm.positions
  calls : after.arm.calls = before.arm.calls
  flies : ∀ call, after.inFlight? = some call → before.inFlight? = some call

theorem Rests.refl (cell : Cell Time) : Rests cell cell :=
  ⟨rfl, rfl, fun _ flies => flies⟩

theorem Rests.trans {first second third : Cell Time} (later : Rests third second)
    (earlier : Rests second first) : Rests third first :=
  ⟨later.positions.trans earlier.positions, later.calls.trans earlier.calls,
    fun call flies => earlier.flies call (later.flies call flies)⟩

theorem IsSafe.of_rests {after before : Cell Time} (safe : before.IsSafe)
    (rests : Rests after before) : after.IsSafe := by
  refine ⟨⟨?_, ?_, ?_⟩, fun call flies => safe.flies call (rests.flies call flies)⟩
  · rw [rests.positions]
    exact safe.arm.servos
  · rw [rests.positions]
    exact safe.arm.reached
  · rw [rests.calls]
    exact safe.arm.moves

theorem grounded_rests {after before : Cell Time}
    (positions : after.arm.positions = before.arm.positions)
    (calls : after.arm.calls = before.arm.calls) (grounded : after.inFlight? = none) :
    Rests after before :=
  ⟨positions, calls, fun call flies => by rw [grounded] at flies; cases flies⟩

/-! Effects. -/

theorem setParameter_inFlight? (run : Run Time) (id name : String) (value : Value) :
    (run.setParameter id name value).inFlight? = run.inFlight? := by
  simp only [Run.inFlight?, (Run.setParameter_sameWork run id name value).activity]

theorem Takes.rests {effect : Effect} {cell changed : Cell Time}
    (takes : Takes cell effect changed) : Rests changed cell := by
  cases takes with
  | abort =>
      refine ⟨rfl, rfl, fun call flies => ?_⟩
      obtain ⟨later, there, flying⟩ := Option.bind_eq_some_iff.mp flies
      obtain ⟨run, here, rfl⟩ := Option.map_eq_some_iff.mp there
      exact Option.bind_eq_some_iff.mpr ⟨run, here, flying⟩
  | disconnect | connect | failOn | edits => exact ⟨rfl, rfl, fun _ flies => flies⟩
  | reaches =>
      refine ⟨rfl, rfl, fun call flies => ?_⟩
      obtain ⟨later, there, flying⟩ := Option.bind_eq_some_iff.mp flies
      obtain ⟨run, here, rfl⟩ := Option.map_eq_some_iff.mp there
      rw [setParameter_inFlight?] at flying
      exact Option.bind_eq_some_iff.mpr ⟨run, here, flying⟩

theorem apply_rests (effect : Effect) (cell : Cell Time) : Rests (cell.apply effect) cell := by
  rcases cell.apply_cases effect with same | takes
  · rw [same]
    exact .refl cell
  · exact takes.rests

theorem fireHooks_rests (cell : Cell Time) : Rests cell.fireHooks.1 cell :=
  fireHooks_keeps (Rests · cell) (fun _ _ _ _ takes rests => takes.rests.trans rests) (.refl cell)

theorem cancel_rests (cell : Cell Time) :
    Rests { cell with run := cell.run.map Run.cancel } cell := by
  refine grounded_rests rfl rfl ?_
  simp only [inFlight?, Option.bind_map]
  cases cell.run with
  | none => rfl
  | some run => exact Run.inFlight?_of_isEnded run.cancel_isEnded

/-! The run. -/

variable [TimeScale Time]

/-- A step of the run keeps a cell safe: a call that it begins is safe, and one
that it ends was. The hooks come before the servos move. -/
theorem Advances.safe {cell after : Cell Time} {run : Run Time}
    (advances : Advances cell run after) (here : cell.run = some run) (safe : cell.IsSafe) :
    after.IsSafe := by
  have fires := safe.of_rests cell.fireHooks_rests
  cases advances with
  | @moves outcome made steps =>
      have grounded : outcome.run.inFlight? = none := by
        cases activity : outcome.run.activity with
        | calling call due next =>
            obtain ⟨asked, -⟩ := Run.steps_calling steps activity
            cases asked
        | _ => simp only [Run.inFlight?, activity]
      exact safe.of_rests (grounded_rests rfl rfl grounded)
  | calls made steps calling started =>
      obtain ⟨-, position, notes, moving, stepped⟩ := Run.steps_calling steps calling
      have mine := Position.takes_safe (Position.step?_takes _ _ _ _ stepped) rfl
      refine ⟨Arm.start_inReach safe.arm mine started, fun other flies => ?_⟩
      cases flies
      exact mine
  | fails made steps unstarted => exact safe.of_rests (grounded_rests rfl rfl rfl)
  | @returns call due next fired later calling heard there =>
      rw [heard] at fires
      have mine : call.IsSafe := safe.flies call (by
        simp only [inFlight?, here, Option.bind_some, Run.inFlight?, calling])
      exact ⟨Arm.finish_inReach fires.arm call mine, fun other flies => nomatch flies⟩
  | refuses calling heard there =>
      rw [heard] at fires
      exact fires.of_rests (grounded_rests rfl rfl rfl)

theorem stepRun_safe {cell : Cell Time} (safe : cell.IsSafe) (ready : cell.isReady = true) :
    cell.stepRun.IsSafe := by
  obtain ⟨run, here, able⟩ : ∃ run, cell.run = some run ∧ run.isReady cell.now = true :=
    (Option.any_eq_true _ _).mp ready
  have going : run.isEnded = false := by
    cases activity : run.activity <;> simp_all [Run.isEnded, Run.isReady]
  exact (stepRun_advances here going).safe here safe

inductive Driven : Cell Time → Prop where
  | opening (latency : Time) (connected : Bool) (failOn : Option String) (hooks : List Hook)
      (program : Program) : Driven (.idle (.resting latency connected failOn) hooks program)
  | begins {cell : Cell Time} (blocks : List Block) (abilities : Abilities) (config : Config)
      (token : Token Time) (driven : Driven cell) :
      Driven { cell with run := some (.prepare blocks abilities config token) }
  | steps {cell : Cell Time} (ready : cell.isReady = true) (driven : Driven cell) :
      Driven cell.stepRun
  | cancels {cell : Cell Time} (driven : Driven cell) :
      Driven { cell with run := cell.run.map Run.cancel }
  | effects {cell : Cell Time} (effect : Effect) (driven : Driven cell) :
      Driven (cell.apply effect)
  | arms {cell : Cell Time} (latency : Time) (failOn : Option String) (hooks : List Hook)
      (driven : Driven cell) :
      Driven { cell with arm := { cell.arm with latency, failOn }, hooks }
  | passes {cell : Cell Time} (later : Time) (driven : Driven cell) :
      Driven { cell with now := later }

theorem opening_safe (latency : Time) (connected : Bool) (failOn : Option String)
    (hooks : List Hook) (program : Program) :
    (Cell.idle (.resting latency connected failOn) hooks program).IsSafe :=
  ⟨Arm.resting_inReach latency connected failOn, fun _ flies => nomatch flies⟩

theorem Driven.safe {cell : Cell Time} (driven : Driven cell) : cell.IsSafe := by
  induction driven with
  | opening latency connected failOn hooks program =>
      exact opening_safe latency connected failOn hooks program
  | begins blocks abilities config token _ ih =>
      exact ih.of_rests (grounded_rests rfl rfl rfl)
  | steps ready _ ih => exact stepRun_safe ih ready
  | @cancels cell _ ih => exact ih.of_rests cell.cancel_rests
  | @effects cell effect _ ih => exact ih.of_rests (apply_rests effect cell)
  | arms | passes => rename_i ih; exact ih.of_rests ⟨rfl, rfl, fun _ flies => flies⟩

end Cell

end ArmProgram
