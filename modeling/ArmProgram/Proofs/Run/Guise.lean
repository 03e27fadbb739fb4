import ArmProgram.Proofs.Run.Cell
import ArmProgram.Proofs.Program.Edits

/-!
Cells in another guise. Their runs may be planned a little differently, their arm
may be linked differently and their programs may differ, as long as none of this
shows in what a run does. That two cells of this kind go on alike is proved here
once for any guise.
-/

namespace ArmProgram

variable {Time : Type}

namespace Cell

theorem shares_iff (id : String) (cell : Cell Time) :
    cell.shares id = true ↔ id ∈ cell.program.ids.take cell.shared := by
  unfold shares Program.ids
  generalize cell.program.blocks = blocks
  generalize cell.shared = shared
  induction blocks generalizing shared with
  | nil => simp
  | cons block rest ih =>
      cases shared with
      | zero => simp
      | succ shared =>
          by_cases same : block.id = id
          · simp [List.findIdx?_cons, same]
          · simp [List.findIdx?_cons, same, Ne.symm same, Option.any_map, ih shared]

theorem shares_ids {id : String} {cell : Cell Time} (shared : cell.shares id = true) :
    id ∈ cell.program.ids :=
  List.mem_of_mem_take ((shares_iff id cell).mp shared)

structure SameShare (after before : Cell Time) : Prop where
  ids : after.program.ids = before.program.ids
  shared : after.shared = before.shared

theorem SameShare.shares {after before : Cell Time} (same : SameShare after before)
    (id : String) : after.shares id = before.shares id := by
  rw [Bool.eq_iff_iff, shares_iff, shares_iff, same.ids, same.shared]

/-! Setting a parameter. -/

structure Heard (id name : String) (value : Value) (before after : Cell Time) : Prop where
  now : after.now = before.now
  arm : after.arm = before.arm
  hooks : after.hooks = before.hooks
  run : after.run =
    if before.shares id then before.run.map (·.setParameter id name value) else before.run
  program : after.program =
    (before.program.updateParameter id name value).toOption.getD before.program
  shared : after.shared = before.shared

variable {id name : String} {value : Value} {before after : Cell Time}

theorem Heard.sameShare (heard : Heard id name value before after) : SameShare after before where
  ids := by
    rw [heard.program]
    cases made : before.program.updateParameter id name value with
    | error fault => rfl
    | ok program => exact Program.updateParameter_ids made
  shared := heard.shared

/-- Setting a parameter is refused exactly where the block is not there. -/
theorem updateParameter_cases (id name : String) (value : Value) (cell : Cell Time) :
    (id ∈ cell.program.ids ∧ ∃ changed, cell.updateParameter id name value = .ok changed ∧
      Heard id name value cell changed) ∨
    (id ∉ cell.program.ids ∧
      cell.program.updateParameter id name value = .error (.unknownBlock id) ∧
      cell.updateParameter id name value = .error (.unknownBlock id)) := by
  have refused := cell.program.changed_refused_iff (.setParameter id name value)
  simp only [Program.changed?, Change.target?, Option.some.injEq, exists_eq_left'] at refused
  unfold updateParameter
  cases made : cell.program.updateParameter id name value with
  | error fault =>
      obtain ⟨absent, rfl⟩ := (refused fault).mp made
      exact Or.inr ⟨absent, rfl, rfl⟩
  | ok program =>
      refine Or.inl ⟨?_, _, rfl, ⟨rfl, rfl, rfl, rfl, by rw [made]; rfl, rfl⟩⟩
      by_contra absent
      rw [(refused (.unknownBlock id)).mpr ⟨absent, rfl⟩] at made
      cases made

/-- A block that is not there is not shared, so nothing is lost if setting its
parameter is refused. -/
theorem apply_heard (id name : String) (value : Value) (cell : Cell Time) :
    Heard id name value cell (cell.apply (.set id name value)) := by
  unfold apply applied?
  rcases cell.updateParameter_cases id name value with
    ⟨_, changed, made, heard⟩ | ⟨absent, untaken, refused⟩
  · simp only [made]
    exact heard
  · have apart : cell.shares id = false := by
      rw [Bool.eq_false_iff]
      exact fun shared => absent (shares_ids shared)
    simp only [refused]
    exact ⟨rfl, rfl, rfl, by simp [apart], by rw [untaken]; rfl, rfl⟩

structure Heeds (left right : Cell Time) (id : String) : Prop where
  shares : left.shares id = right.shares id
  present : id ∈ left.program.ids ↔ id ∈ right.program.ids

theorem Heeds.congr {left left' right right' : Cell Time} (heeds : Heeds left right id)
    (first : SameShare left' left) (second : SameShare right' right) : Heeds left' right' id where
  shares := by rw [first.shares, second.shares, heeds.shares]
  present := by rw [first.ids, second.ids, heeds.present]

structure SameBack (after before : Cell Time) : Prop where
  connected : after.arm.connected = before.arm.connected
  hooks : after.hooks = before.hooks
  program : after.program = before.program
  shared : after.shared = before.shared

theorem SameBack.sameShare {after before : Cell Time} (same : SameBack after before) :
    SameShare after before :=
  ⟨congrArg Program.ids same.program, same.shared⟩

end Cell

/-- A guise: how a run is planned in it, how its arm is linked, which runs it is
for, and what stands behind two runs that are the same but for the guise. -/
structure Guise (Time : Type) [TimeScale Time] where
  plan : Plan → Plan
  link : Bool → Bool
  fits : Run Time → Prop
  back : Cell Time → Cell Time → Prop
  walks : ∀ plan' view position, Position.step? (plan plan') view position =
    Position.step? plan' view position
  reports : ∀ {left right run}, back left right → fits run →
    (plan run.plan).abilities.probe.reports (link left.arm.connected) =
      run.plan.abilities.probe.reports left.arm.connected
  fits_step : ∀ {left right run}, back left right → fits run →
    fits (run.step left.now left.arm.connected).run
  fits_same : ∀ {later run}, fits run → Run.SameWork later run → fits later
  fits_put : ∀ {run activity}, fits run → activity ≠ .ended (.fault .connectionLost) →
    fits { run with activity }
  congr : ∀ {left left' right right'}, back left right → Cell.SameBack left' left →
    Cell.SameBack right' right → back left' right'
  heard : ∀ {left left' right right' id name value}, back left right →
    Cell.Heard id name value left left' → Cell.Heard id name value right right' →
    back left' right'

namespace Guise

variable [TimeScale Time] (guise : Guise Time)

def run (run : Run Time) : Run Time :=
  { run with plan := guise.plan run.plan }

def arm (arm : Arm Time) : Arm Time :=
  { arm with connected := guise.link arm.connected }

def outcome (outcome : Run.Outcome Time) : Run.Outcome Time :=
  { outcome with run := guise.run outcome.run }

theorem run_setParameter (run : Run Time) (id name : String) (value : Value) :
    guise.run (run.setParameter id name value) = (guise.run run).setParameter id name value := by
  simp only [Guise.run, Run.setParameter]
  cases run.blocks.findIdx? (·.id = id) <;> rfl

theorem arm_start (now : Time) (call : Call) (arm : Arm Time) :
    (guise.arm arm).start now call = (arm.start now call).map guise.arm := by
  unfold Arm.start
  by_cases fails : arm.failOn = some call.name
  · rw [if_pos fails, if_pos (show (guise.arm arm).failOn = _ from fails)]
    rfl
  · rw [if_neg fails, if_neg (show ¬ (guise.arm arm).failOn = _ from fails)]
    rfl

theorem arm_finish (call : Call) (arm : Arm Time) :
    guise.arm (arm.finish call) = (guise.arm arm).finish call := by
  have moved (commands : List Command) (arm : Arm Time) :
      guise.arm (commands.foldl (fun arm command => arm.setServo command.servo command.value) arm) =
        commands.foldl (fun arm command => arm.setServo command.servo command.value)
          (guise.arm arm) := by
    induction commands generalizing arm with
    | nil => rfl
    | cons command rest ih => exact ih _
  cases call with
  | moveJoints commands => exact moved commands arm
  | _ => rfl

variable {now : Time} {run : Run Time} {connected linked : Bool}

theorem run_perform (next : Position) (action : Option Action)
    (reports : (guise.plan run.plan).abilities.probe.reports linked =
      run.plan.abilities.probe.reports connected) :
    (guise.run run).perform now linked next action =
      guise.outcome (run.perform now connected next action) := by
  cases action with
  | none => rfl
  | some action =>
      cases action with
      | checkpoint =>
          have same : (guise.run run).plan.abilities.probe.reports linked =
              run.plan.abilities.probe.reports connected := reports
          have aborted : (guise.run run).token.aborted = run.token.aborted := rfl
          simp only [Run.perform, Run.checkpoint, same, aborted]
          split
          · rfl
          · split <;> rfl
      | charge =>
          have same : (guise.run run).token.charge now = run.token.charge now := rfl
          simp only [Run.perform, Run.chargeStep, same]
          obtain ⟨token, fault⟩ := run.token.charge now
          cases fault <;> rfl
      | delay ms =>
          have same : (guise.run run).token.pause now ms = run.token.pause now ms := rfl
          simp only [Run.perform, Run.beginDelay, same]
          cases run.token.pause now ms <;> rfl
      | call call => rfl

theorem run_stir (pause : Pause Time) (next : Position) :
    (guise.run run).stir now pause next = guise.outcome (run.stir now pause next) := by
  have woken : (guise.run run).wake now pause next = guise.outcome (run.wake now pause next) := by
    have same : (guise.run run).token.afterPause now pause = run.token.afterPause now pause := rfl
    simp only [Run.wake, same]
    cases run.token.afterPause now pause <;> rfl
  have aborted : (guise.run run).token.aborted = run.token.aborted := rfl
  unfold Run.stir
  simp only [aborted]
  split
  · split <;> rfl
  · split
    · rfl
    · exact woken

/-- A run does the same in its guise, as far as its probe reports the same. -/
theorem run_step (reports : (guise.plan run.plan).abilities.probe.reports linked =
      run.plan.abilities.probe.reports connected) :
    (guise.run run).step now linked = guise.outcome (run.step now connected) := by
  have activity : (guise.run run).activity = run.activity := rfl
  unfold Run.step
  rw [activity]
  cases run.activity with
  | moving position =>
      have same : position.step? (guise.run run).plan (guise.run run).view =
          position.step? run.plan run.view := guise.walks run.plan run.view position
      simp only [Run.move, same]
      cases position.step? run.plan run.view with
      | none => rfl
      | some result =>
          cases result with
          | error fault => rfl
          | ok step =>
              simp only [guise.run_perform step.next step.action reports]
              rfl
  | pausing pause next => exact guise.run_stir pause next
  | rousing turns next => cases turns <;> rfl
  | unstarted | calling call due next | ended ending => rfl

end Guise

theorem Arm.finish_connected (call : Call) (arm : Arm Time) :
    (arm.finish call).connected = arm.connected := by
  rw [Arm.finish_eq]

def Effect.links : Effect → Bool
  | connect | disconnect => true
  | abort | failOn _ | set .. => false

/-! Cells alike. -/

namespace Guise

variable [TimeScale Time]

structure Cells (guise : Guise Time) (left right : Cell Time) : Prop where
  now : right.now = left.now
  arm : right.arm = guise.arm left.arm
  run : right.run = left.run.map guise.run
  fits : ∀ run, left.run = some run → guise.fits run
  back : guise.back left right

namespace Cells

variable {guise : Guise Time} {left right : Cell Time}

theorem putRun (cells : guise.Cells left right) {run : Run Time} (fits : guise.fits run) :
    guise.Cells { left with run := some run } { right with run := some (guise.run run) } where
  now := cells.now
  arm := cells.arm
  run := rfl
  fits _ same := Option.some.inj same ▸ fits
  back := guise.congr cells.back ⟨rfl, rfl, rfl, rfl⟩ ⟨rfl, rfl, rfl, rfl⟩

theorem mapRun (cells : guise.Cells left right) {change : Run Time → Run Time}
    (keeps : ∀ run, guise.fits run → guise.fits (change run))
    (commutes : ∀ run, guise.run (change run) = change (guise.run run)) :
    guise.Cells { left with run := left.run.map change }
      { right with run := right.run.map change } where
  now := cells.now
  arm := cells.arm
  run := by
    rw [cells.run, Option.map_map, Option.map_map]
    exact congrArg (left.run.map ·) (funext fun run => (commutes run).symm)
  fits run there := by
    obtain ⟨before, here, rfl⟩ := Option.map_eq_some_iff.mp there
    exact keeps before (cells.fits before here)
  back := guise.congr cells.back ⟨rfl, rfl, rfl, rfl⟩ ⟨rfl, rfl, rfl, rfl⟩

theorem mapArm (cells : guise.Cells left right) (change : Arm Time → Arm Time)
    (connected : ∀ arm, (change arm).connected = arm.connected)
    (commutes : ∀ arm, guise.arm (change arm) = change (guise.arm arm)) :
    guise.Cells { left with arm := change left.arm } { right with arm := change right.arm } where
  now := cells.now
  arm := by rw [cells.arm, commutes]
  run := cells.run
  fits := cells.fits
  back := guise.congr cells.back ⟨connected _, rfl, rfl, rfl⟩ ⟨connected _, rfl, rfl, rfl⟩

theorem abort (cells : guise.Cells left right) :
    guise.Cells { left with run := left.run.map Run.abort }
      { right with run := right.run.map Run.abort } :=
  cells.mapRun (fun run fits => guise.fits_same fits (Run.abort_sameWork run)) fun _ => rfl

theorem logAll (cells : guise.Cells left right) (entries others : List (Entry Time)) :
    guise.Cells (left.logAll entries) (right.logAll others) :=
  { cells with back := guise.congr cells.back ⟨rfl, rfl, rfl, rfl⟩ ⟨rfl, rfl, rfl, rfl⟩ }

theorem log (cells : guise.Cells left right) (entry other : Entry Time) :
    guise.Cells (left.log entry) (right.log other) :=
  { cells with back := guise.congr cells.back ⟨rfl, rfl, rfl, rfl⟩ ⟨rfl, rfl, rfl, rfl⟩ }

theorem pass (cells : guise.Cells left right) (later : Time) :
    guise.Cells { left with now := later } { right with now := later } :=
  { cells with
    now := rfl
    back := guise.congr cells.back ⟨rfl, rfl, rfl, rfl⟩ ⟨rfl, rfl, rfl, rfl⟩ }

/-! Effects. -/

theorem heard (cells : guise.Cells left right) {id name : String} {value : Value}
    (same : left.shares id = right.shares id) {left' right' : Cell Time}
    (first : Cell.Heard id name value left left')
    (second : Cell.Heard id name value right right') : guise.Cells left' right' where
  now := by rw [first.now, second.now, cells.now]
  arm := by rw [first.arm, second.arm, cells.arm]
  run := by
    rw [first.run, second.run, ← same, cells.run]
    split
    · rw [Option.map_map, Option.map_map]
      exact congrArg (left.run.map ·) (funext fun run => (guise.run_setParameter run ..).symm)
    · rfl
  fits run there := by
    rw [first.run] at there
    split at there
    · obtain ⟨before, here, rfl⟩ := Option.map_eq_some_iff.mp there
      exact guise.fits_same (cells.fits before here)
        (Run.setParameter_sameWork before id name value)
    · exact cells.fits run there
  back := guise.heard cells.back first second

/-- What an effect comes to in two cells: it is refused in both for the same cause,
or it is applied to both. -/
inductive Parallel (guise : Guise Time) (left right : Cell Time) :
    Except ProgramFault (Cell Time) → Except ProgramFault (Cell Time) → Prop where
  | refused (fault : ProgramFault) : Parallel guise left right (.error fault) (.error fault)
  | applied {left' right' : Cell Time} (cells : guise.Cells left' right')
      (first : Cell.SameShare left' left) (second : Cell.SameShare right' right) :
      Parallel guise left right (.ok left') (.ok right')

theorem failOn (cells : guise.Cells left right) (name : Option String) :
    guise.Cells { left with arm := { left.arm with failOn := name } }
      { right with arm := { right.arm with failOn := name } } :=
  cells.mapArm (fun arm => { arm with failOn := name }) (fun _ => rfl) fun _ => rfl

/-- An effect that leaves the connection alone. -/
theorem applied? (cells : guise.Cells left right) {effect : Effect}
    (unlinked : effect.links = false)
    (heeds : ∀ id name value, effect = .set id name value → Cell.Heeds left right id) :
    Parallel guise left right (left.applied? effect) (right.applied? effect) := by
  cases effect with
  | abort => exact .applied cells.abort ⟨rfl, rfl⟩ ⟨rfl, rfl⟩
  | disconnect | connect => cases unlinked
  | failOn name => exact .applied (cells.failOn name) ⟨rfl, rfl⟩ ⟨rfl, rfl⟩
  | set id name value =>
      have same := heeds id name value rfl
      simp only [Cell.applied?]
      rcases left.updateParameter_cases id name value with
        ⟨here, left', made, first⟩ | ⟨here, _, refused⟩ <;>
        rcases right.updateParameter_cases id name value with
          ⟨there, right', done, second⟩ | ⟨there, _, denied⟩
      · rw [made, done]
        exact .applied (cells.heard same.shares first second) first.sameShare second.sameShare
      · exact absurd (same.present.mp here) there
      · exact absurd (same.present.mpr there) here
      · rw [refused, denied]
        exact .refused _

/-- An effect from outside may be refused in one of the cells alone, as long as it
would reach the run in neither. -/
theorem apply (cells : guise.Cells left right) {effect : Effect} (unlinked : effect.links = false)
    (same : ∀ id name value, effect = .set id name value → left.shares id = right.shares id) :
    guise.Cells (left.apply effect) (right.apply effect) := by
  cases effect with
  | abort => exact cells.abort
  | disconnect | connect => cases unlinked
  | failOn name => exact cells.failOn name
  | set id name value =>
      exact cells.heard (same id name value rfl) (left.apply_heard id name value)
        (right.apply_heard id name value)

/-! A run goes on. -/

def Fires (guise : Guise Time) (left right : Cell Time) : Prop :=
  guise.Cells left.fireHooks.1 right.fireHooks.1 ∧ right.fireHooks.2 = left.fireHooks.2

theorem failRun (cells : guise.Cells left right) (failure : Failure) {run : Run Time}
    (fits : guise.fits run) :
    guise.Cells (left.failRun failure run) (right.failRun failure (guise.run run)) := by
  have same : (guise.run run).fail right.now (.failed failure) =
      guise.outcome (run.fail left.now (.failed failure)) := by
    rw [cells.now]
    rfl
  have ended : guise.fits (run.fail left.now (.failed failure)).run := guise.fits_put fits nofun
  simp only [Cell.failRun, same]
  exact (cells.putRun ended).logAll _ _

theorem endCall (cells : Fires guise left right) (call : Call) (next : Position) :
    guise.Cells (left.endCall call next) (right.endCall call next) := by
  obtain ⟨fired, fault⟩ := cells
  unfold Cell.endCall
  generalize left.fireHooks = first at fired fault ⊢
  generalize right.fireHooks = second at fired fault ⊢
  obtain ⟨left', cause⟩ := first
  obtain ⟨right', other⟩ := second
  cases fault
  cases cause with
  | none =>
      have finished : guise.Cells { left' with arm := left'.arm.finish call }
          { right' with arm := right'.arm.finish call } :=
        fired.mapArm (Arm.finish call) (Arm.finish_connected call) (guise.arm_finish call)
      exact finished.mapRun (fun _ fits => guise.fits_put fits nofun) fun _ => rfl
  | some cause =>
      have run : right'.run = left'.run.map guise.run := fired.run
      simp only
      rw [run]
      cases here : left'.run with
      | none => exact fired
      | some run => exact fired.failRun _ (fired.fits run here)

theorem startCall (cells : guise.Cells left right) (call : Call) (next : Position)
    {run : Run Time} (fits : guise.fits run) :
    guise.Cells (left.startCall call next run) (right.startCall call next (guise.run run)) := by
  have same : right.arm.start right.now call = (left.arm.start left.now call).map guise.arm := by
    rw [cells.arm, cells.now, guise.arm_start]
  unfold Cell.startCall
  rw [same]
  cases started : left.arm.start left.now call with
  | error failure => exact cells.failRun failure fits
  | ok arm =>
      have due : (guise.arm arm).callEnd? right.now = arm.callEnd? left.now := by
        rw [cells.now]
        rfl
      have recorded : arm.connected = left.arm.connected := by rw [Arm.eq_of_start started]
      have calling : guise.Cells { left with arm := arm } { right with arm := guise.arm arm } := by
        refine { cells with arm := rfl, back := ?_ }
        refine guise.congr cells.back ⟨recorded, rfl, rfl, rfl⟩ ⟨?_, rfl, rfl, rfl⟩
        rw [cells.arm]
        exact congrArg guise.link recorded
      simp only [Except.map, due]
      have begun : guise.fits
          { run with activity := .calling call (arm.callEnd? left.now) next } :=
        guise.fits_put fits nofun
      exact (calling.putRun begun).log _ _

theorem stepRun (cells : guise.Cells left right) (fires : Fires guise left right) :
    guise.Cells left.stepRun right.stepRun := by
  unfold Cell.stepRun
  rw [cells.run]
  cases here : left.run with
  | none => exact cells
  | some run =>
      have fits := cells.fits run here
      have same : (guise.run run).step right.now right.arm.connected =
          guise.outcome (run.step left.now left.arm.connected) := by
        rw [cells.now, cells.arm]
        exact guise.run_step (guise.reports cells.back fits)
      have stays := guise.fits_step cells.back fits
      have activity : (guise.run run).activity = run.activity := rfl
      simp only [Option.map_some, activity, same]
      split
      · exact endCall fires _ _
      · generalize run.step left.now left.arm.connected = outcome at stays
        have told := (cells.putRun stays).logAll outcome.entries outcome.entries
        have next : (guise.outcome outcome).run.activity = outcome.run.activity := rfl
        have asked : (guise.outcome outcome).call = outcome.call := rfl
        rw [next, asked]
        split
        · exact told.startCall _ _ stays
        · exact told

end Cells

end Guise

end ArmProgram
