import ArmProgram.Proofs.Run.Budget
import ArmProgram.Proofs.Run.Cell
import ArmProgram.Proofs.Value.Readable

/-!
How runs end in a calm cell, where no call of the arm fails and the parameters
of the program and of the run can be read. A run that nobody cancels completes
there, or it ends by an abort, a lost connection or one of its limits.
-/

namespace ArmProgram

variable {Time : Type}

def Ending.IsExpected : Ending Time → Prop
  | .fault (.failed _) | .cancelled | .dropped => False
  | _ => True

/-! Programs whose parameters can be read. -/

theorem Block.setParameter_isReadable {block : Block} (readable : block.parameters.IsReadable)
    (name : String) (value : Value) (mine : value.IsReadable name) :
    (block.setParameter name value).parameters.IsReadable :=
  Parameters.set_isReadable readable name value mine

theorem Program.updateParameter_isReadable {program changed : Program}
    (readable : program.IsReadable) (id name : String) (value : Value)
    (mine : value.IsReadable name)
    (updated : program.updateParameter id name value = .ok changed) : changed.IsReadable := by
  have first (blocks : List Block) (known : ∀ block ∈ blocks, block.parameters.IsReadable) :
      ∀ block ∈ modifyFirst id (·.setParameter name value) blocks,
        block.parameters.IsReadable := by
    induction blocks with
    | nil => exact known
    | cons head rest ih =>
        rw [List.forall_mem_cons] at known
        unfold modifyFirst
        split <;> rw [List.forall_mem_cons]
        · exact ⟨Block.setParameter_isReadable known.1 name value mine, known.2⟩
        · exact ⟨known.1, ih known.2⟩
  unfold updateParameter at updated
  split at updated
  · cases updated
  · cases updated
    exact first program.blocks readable

namespace Run

def IsReadable (run : Run Time) : Prop :=
  ∀ block ∈ run.blocks, block.parameters.IsReadable

theorem view_isReadable {run : Run Time} (readable : run.IsReadable) (place : Nat) :
    (run.view place).IsReadable := by
  unfold view
  split
  · rename_i block there
    exact readable block (Array.mem_of_getElem? there)
  · intro name value there
    cases there

theorem setParameter_isReadable {run : Run Time} (readable : run.IsReadable)
    (id name : String) (value : Value) (mine : value.IsReadable name) :
    (run.setParameter id name value).IsReadable := by
  unfold setParameter
  split
  · intro block member
    obtain ⟨place, bound, rfl⟩ := Array.getElem_of_mem member
    have within : place < run.blocks.size := by simpa using bound
    have old := readable run.blocks[place] (Array.getElem_mem within)
    rw [Array.getElem_modify]
    split
    · exact Block.setParameter_isReadable old name value mine
    · exact old
  · exact readable

variable [TimeScale Time]

theorem steps_blocks {now : Time} {connected : Bool} {run after : Run Time} {asked : Option Call}
    (steps : Steps now connected run after asked) : after.blocks = run.blocks := by
  cases steps <;> rfl

/-- A step that ends a readable run ends it in an expected way. -/
theorem steps_expected {now : Time} {connected : Bool} {run after : Run Time}
    {asked : Option Call} (steps : Steps now connected run after asked)
    (readable : run.IsReadable) (ending : Ending Time) (ended : after.activity = .ended ending) :
    ending.IsExpected := by
  cases steps with
  | complete | halted | lost | roused =>
      cases ended
      exact True.intro
  | misread activity stepped =>
      exact absurd stepped (Position.step?_reads _ _ _ (view_isReadable readable) _)
  | limited activity stepped exceeded =>
      cases ended
      rcases Token.charge_refused now run.token _ exceeded with
        ⟨elapsed, rfl, -⟩ | ⟨budget, count, elapsed, rfl, -⟩ <;> exact True.intro
  | refused activity stepped paused =>
      cases ended
      cases Token.pause_refused _ _ _ _ paused
      exact True.intro
  | overslept activity passed =>
      cases ended
      rcases Token.afterPause_fault _ _ _ _ passed with
        rfl | ⟨budget, count, elapsed, rfl⟩ <;> exact True.intro
  | _ => cases ended

end Run

/-! Calm cells. -/

/-- What may happen to a calm cell: no call is made to fail, and a parameter is
set to a value that can be read. -/
def Effect.IsBenign : Effect → Prop
  | .abort | .disconnect | .connect => True
  | .failOn name => name = none
  | .set _ name value => value.IsReadable name

def Hook.IsBenign (hook : Hook) : Prop :=
  match hook.effect with
  | .abort | .disconnect | .connect => True
  | .failOn name => name = none
  | .set .. => False

theorem Hook.IsBenign.effect {hook : Hook} (benign : hook.IsBenign) : hook.effect.IsBenign := by
  unfold Hook.IsBenign at benign
  cases effect : hook.effect <;> simp_all [Effect.IsBenign]

/-- Only an effect that sets a parameter can be refused. -/
theorem Hook.IsBenign.applies {hook : Hook} (benign : hook.IsBenign) (cell : Cell Time) :
    ∃ changed, cell.applied? hook.effect = .ok changed := by
  unfold Hook.IsBenign at benign
  cases effect : hook.effect with
  | set id name value =>
      rw [effect] at benign
      cases benign
  | _ => exact ⟨_, rfl⟩

namespace Cell

structure IsCalm (cell : Cell Time) : Prop where
  arm : cell.arm.failOn = none
  hooks : ∀ hook ∈ cell.hooks, hook.IsBenign
  program : cell.program.IsReadable
  run : ∀ run, cell.run = some run → run.IsReadable

theorem Takes.calm {cell changed : Cell Time} {effect : Effect} (takes : Takes cell effect changed)
    (benign : effect.IsBenign) (calm : cell.IsCalm) : changed.IsCalm := by
  cases takes with
  | abort =>
      refine ⟨calm.arm, calm.hooks, calm.program, fun later there => ?_⟩
      obtain ⟨run, here, rfl⟩ := Option.map_eq_some_iff.mp there
      exact calm.run run here
  | disconnect | connect => exact ⟨calm.arm, calm.hooks, calm.program, calm.run⟩
  | failOn name => exact ⟨benign, calm.hooks, calm.program, calm.run⟩
  | @edits id name value program edited unshared =>
      have set := Program.updateParameter_isReadable calm.program id name value benign edited
      exact ⟨calm.arm, calm.hooks, set, calm.run⟩
  | @reaches id name value program edited shared =>
      have set := Program.updateParameter_isReadable calm.program id name value benign edited
      refine ⟨calm.arm, calm.hooks, set, fun later there => ?_⟩
      obtain ⟨run, here, rfl⟩ := Option.map_eq_some_iff.mp there
      exact Run.setParameter_isReadable (calm.run run here) id name value benign

theorem apply_calm {cell : Cell Time} (calm : cell.IsCalm) (effect : Effect)
    (benign : effect.IsBenign) : (cell.apply effect).IsCalm := by
  rcases cell.apply_cases effect with same | takes
  · rwa [same]
  · exact takes.calm benign calm

theorem apply_run (effect : Effect) (cell : Cell Time) (later : Run Time)
    (there : (cell.apply effect).run = some later) :
    ∃ run, cell.run = some run ∧ (later = run ∨ later = run.abort ∨
      ∃ id name value, later = run.setParameter id name value) := by
  rcases cell.apply_cases effect with same | takes
  · rw [same] at there
    exact ⟨later, there, Or.inl rfl⟩
  · generalize cell.apply effect = changed at there takes
    cases takes with
    | abort =>
        obtain ⟨run, here, rfl⟩ := Option.map_eq_some_iff.mp there
        exact ⟨run, here, Or.inr (Or.inl rfl)⟩
    | disconnect | connect | failOn | edits => exact ⟨later, there, Or.inl rfl⟩
    | @reaches id name value =>
        obtain ⟨run, here, rfl⟩ := Option.map_eq_some_iff.mp there
        exact ⟨run, here, Or.inr (Or.inr ⟨id, name, value, rfl⟩)⟩

theorem apply_activity (effect : Effect) (cell : Cell Time) (later : Run Time)
    (there : (cell.apply effect).run = some later) :
    ∃ run, cell.run = some run ∧ later.activity = run.activity := by
  obtain ⟨run, here, rfl | rfl | ⟨id, name, value, rfl⟩⟩ := apply_run effect cell later there
  · exact ⟨later, here, rfl⟩
  · exact ⟨run, here, rfl⟩
  · exact ⟨run, here, (Run.setParameter_sameWork run id name value).activity⟩

theorem fire_benign (hooks : List Hook) (benign : ∀ hook ∈ hooks, hook.IsBenign)
    (cell : Cell Time) : (fire hooks cell).2 = none := by
  induction hooks generalizing cell with
  | nil => rfl
  | cons hook rest ih =>
      rw [List.forall_mem_cons] at benign
      obtain ⟨changed, applied⟩ := benign.1.applies cell
      unfold fire
      rw [applied]
      exact ih benign.2 changed

theorem fireHooks_calm {cell : Cell Time} (calm : cell.IsCalm) :
    cell.fireHooks.2 = none ∧ cell.fireHooks.1.IsCalm := by
  constructor
  · exact fire_benign _ (fun hook member => calm.hooks hook (List.mem_filter.mp member).1) cell
  · exact fireHooks_keeps IsCalm
      (fun hook member _ _ takes => takes.calm (calm.hooks hook member).effect) calm

variable [TimeScale Time]

/-- A step in a calm cell keeps it calm, and if it ends the run then in an
expected way. -/
theorem Advances.calm {cell after : Cell Time} {run : Run Time}
    (advances : Advances cell run after) (here : cell.run = some run) (calm : cell.IsCalm) :
    after.IsCalm ∧ ∀ later ending, after.run = some later → later.activity = .ended ending →
      ending.IsExpected := by
  have readable := calm.run run here
  have kept {later : Run Time} {asked : Option Call}
      (steps : run.Steps cell.now cell.arm.connected later asked) : later.IsReadable := by
    intro block member
    rw [Run.steps_blocks steps] at member
    exact readable block member
  obtain ⟨unrefused, fires⟩ := fireHooks_calm calm
  cases advances with
  | moves made steps =>
      refine ⟨⟨calm.arm, calm.hooks, calm.program, fun later there => ?_⟩,
        fun later ending there => ?_⟩
      · cases there
        exact kept steps
      · cases there
        exact Run.steps_expected steps readable ending
  | calls made steps calling started =>
      have reads := kept steps
      cases Arm.eq_of_start started
      refine ⟨⟨calm.arm, calm.hooks, calm.program, fun later there => ?_⟩,
        fun later ending there ended => ?_⟩
      · cases there
        exact reads
      · cases there
        cases ended
  | fails made steps unstarted => simp [Arm.start, calm.arm] at unstarted
  | @returns call due next fired resumed calling heard there =>
      rw [heard] at fires
      have obeys : (fired.arm.finish call).failOn = none := by
        rw [Arm.finish_eq]
        exact fires.arm
      refine ⟨⟨obeys, fires.hooks, fires.program, fun later same => ?_⟩,
        fun later ending same ended => ?_⟩
      · cases same
        exact fires.run resumed there
      · cases same
        cases ended
  | refuses calling heard there =>
      rw [heard] at unrefused
      cases unrefused

theorem stepRun_calm {cell : Cell Time} (calm : cell.IsCalm) (active : cell.isRunning = true) :
    cell.stepRun.IsCalm ∧ ∀ later ending, cell.stepRun.run = some later →
      later.activity = .ended ending → ending.IsExpected := by
  obtain ⟨run, here, going⟩ := isRunning_iff.mp active
  exact (stepRun_advances here going).calm here calm

end Cell

end ArmProgram
