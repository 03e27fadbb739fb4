import ArmProgram.Proofs.Controller.Revisions
import ArmProgram.Proofs.Run.Budget

/-!
Simulation and the connection of the arm. A simulated run never looks at the
connection, and a run that is not simulated sees nothing of it while it holds.
Both look the same as a simulated run whose arm is always connected, so any two
of them look the same as each other.
-/

namespace ArmProgram

variable {Time : Type}

def Abilities.unprobed (abilities : Abilities) : Abilities :=
  { abilities with probe := .off }

def Plan.unprobed (plan : Plan) : Plan :=
  { plan with abilities := plan.abilities.unprobed }

def Run.unprobed (run : Run Time) : Run Time :=
  { run with plan := run.plan.unprobed }

def unlinkedHooks (hooks : List Hook) : List Hook :=
  hooks.filter (!·.effect.links)

namespace Robot

theorem abilities_probe {robot : Robot} {simulate : Bool} {abilities : Abilities}
    (fits : robot.abilities simulate = .ok abilities)
    (tells : simulate = false → robot.reports true = true) :
    abilities.probe = probe .all simulate := by
  cases simulate with
  | true => 
      cases robot with
      | absent | bare => cases fits
      | arm => cases fits; rfl
      | limited features =>
          simp only [Robot.abilities] at fits
          split at fits <;> cases fits
          rfl
  | false =>
      have told := tells rfl
      cases robot with
      | absent | bare => cases fits
      | arm => cases fits; rfl
      | limited features =>
          simp only [reports, Bool.and_true] at told
          simp only [Robot.abilities] at fits
          split at fits <;> cases fits
          simp [bind, probe, told, Features.all]

theorem abilities_unprobed (robot : Robot) (simulate : Bool) :
    robot.abilities true = (robot.abilities simulate).map Abilities.unprobed := by
  cases robot with
  | absent | bare | arm => rfl
  | limited features =>
      simp only [Robot.abilities]
      split <;> rfl

end Robot

/-! What a run keeps. -/

variable [TimeScale Time]

namespace Run

/-- A step of a run that has ended, of one whose call ends, and any other one. -/
theorem step_cases (now : Time) (connected : Bool) (run : Run Time) :
    (run.step now connected).run = run ∨
      (∃ position, (run.step now connected).run = { run with activity := .moving position }) ∨
      Steps now connected run (run.step now connected).run (run.step now connected).call := by
  cases activity : run.activity with
  | ended ending =>
      left
      simp only [step, activity]
  | calling call due next =>
      right; left
      refine ⟨next, ?_⟩
      simp only [step, activity]
      rfl
  | _ =>
      right; right
      exact run.steps_of_active now connected (by simp [isEnded, activity])
        (by simp [activity])

theorem step_plan (now : Time) (connected : Bool) (run : Run Time) :
    (run.step now connected).run.plan = run.plan := by
  rcases run.step_cases now connected with same | ⟨position, same⟩ | steps
  · rw [same]
  · rw [same]
  · generalize (run.step now connected).call = asked at steps
    generalize (run.step now connected).run = after at steps ⊢
    cases steps <;> rfl

theorem step_connected {now : Time} {connected : Bool} {run : Run Time}
    (reported : run.plan.abilities.probe.reports connected = true)
    (fine : run.activity ≠ .ended (.fault .connectionLost)) :
    (run.step now connected).run.activity ≠ .ended (.fault .connectionLost) := by
  rcases run.step_cases now connected with same | ⟨position, same⟩ | steps
  · rw [same]
    exact fine
  · rw [same]
    nofun
  · generalize (run.step now connected).call = asked at steps
    generalize (run.step now connected).run = after at steps ⊢
    intro lost
    cases steps with
    | lost activity stepped unaborted unreported =>
        rw [reported] at unreported
        cases unreported
    | limited activity stepped exceeded =>
        cases lost
        rcases Token.charge_refused now run.token _ exceeded with
          ⟨elapsed, same, -⟩ | ⟨budget, count, elapsed, same, -⟩ <;> cases same
    | refused activity stepped paused =>
        cases lost
        cases Token.pause_refused _ _ _ _ paused
    | overslept activity passed =>
        cases lost
        rcases Token.afterPause_fault _ _ _ _ passed with
          same | ⟨budget, count, elapsed, same⟩ <;> cases same
    | _ => cases lost

end Run

/-! The guise of a simulated run whose arm is connected. -/

/-- A simulated run takes any connection, another one takes one that holds. -/
theorem Robot.probe_reports {simulate connected : Bool} {probe : Probe}
    (mine : probe = Robot.probe .all simulate) (held : simulate = false → connected = true) :
    probe.reports connected = true := by
  subst mine
  cases simulate with
  | true => rfl
  | false => exact held rfl

namespace ControllerGuise

def steady (simulate : Bool) : ControllerGuise Time where
  plan := Plan.unprobed
  link _ := true
  fits run := run.plan.abilities.probe = Robot.probe .all simulate ∧
    run.activity ≠ .ended (.fault .connectionLost)
  back real bare := bare.hooks = unlinkedHooks real.hooks ∧ bare.program = real.program ∧
    bare.shared = real.shared ∧ (simulate = false → real.arm.connected = true ∧
      ∀ hook ∈ real.hooks, hook.effect ≠ .disconnect)
  walks _ _ _ := rfl
  reports := by
    intro real bare run back fits
    exact (Robot.probe_reports fits.1 fun plain => (back.2.2.2 plain).1).symm
  fits_step := by
    intro real bare run back fits
    have reported := Robot.probe_reports fits.1 fun plain => (back.2.2.2 plain).1
    exact ⟨by rw [Run.step_plan, fits.1], Run.step_connected reported fits.2⟩
  fits_same := by
    intro later run fits same
    rwa [same.plan, same.activity]
  fits_put := fun fits other => ⟨fits.1, other⟩
  congr := by
    intro real real' bare bare' back first second
    rw [first.hooks, first.program, first.shared, first.connected, second.hooks, second.program,
      second.shared]
    exact back
  heard := by
    intro real real' bare bare' id name value back first second
    rw [first.hooks, first.program, first.shared, first.arm, second.hooks, second.program,
      second.shared, back.2.1]
    exact ⟨back.1, rfl, back.2.2⟩
  flag _ := true
  suits flag := flag = simulate
  hooks := unlinkedHooks
  front real bare := bare.config = real.config ∧ bare.robot = real.robot ∧
    bare.needsTrust = real.needsTrust ∧ bare.nextId = real.nextId ∧
    (simulate = false → real.robot.reports true = true)
  front_congr := by
    intro real real' bare bare' front first second
    rw [first.config, first.robot, first.needsTrust, first.nextId, second.config, second.robot,
      second.needsTrust, second.nextId]
    exact front

end ControllerGuise

section Cells

variable {simulate : Bool} {real bare : Cell Time}

namespace Cell

abbrev Unlinked (simulate : Bool) (real bare : Cell Time) : Prop :=
  (ControllerGuise.steady simulate).Cells real bare

theorem Unlinked.idle {arm : Arm Time} {hooks : List Hook} (program : Program)
    (connected : Bool) (held : simulate = false → connected = true ∧
      ∀ hook ∈ hooks, hook.effect ≠ .disconnect) :
    Unlinked simulate (.idle { arm with connected } hooks program)
      (.idle { arm with connected := true } (unlinkedHooks hooks) program) :=
  ⟨rfl, rfl, rfl, fun _ there => (Option.some_ne_none _ there.symm).elim, rfl, rfl, rfl, held⟩

theorem Unlinked.link (cells : Unlinked simulate real bare) {effect : Effect}
    (links : effect.links = true) (holds : simulate = false → effect ≠ .disconnect) :
    ∃ linked, real.applied? effect = .ok linked ∧ Unlinked simulate linked bare ∧
      linked.hooks = real.hooks := by
  obtain ⟨hooks, program, shared, held⟩ := cells.back
  cases effect with
  | abort | failOn name | set id name value => cases links
  | connect =>
      refine ⟨_, rfl, { cells with back := ⟨hooks, program, shared, fun plain => ?_⟩ }, rfl⟩
      exact ⟨rfl, (held plain).2⟩
  | disconnect =>
      refine ⟨_, rfl, { cells with back := ⟨hooks, program, shared, fun plain => ?_⟩ }, rfl⟩
      exact absurd rfl (holds plain)

theorem Unlinked.heeds (cells : Unlinked simulate real bare) (id : String) :
    Heeds real bare id := by
  obtain ⟨-, program, shared, -⟩ := cells.back
  refine ⟨?_, by rw [program]⟩
  unfold Cell.shares
  rw [program, shared]

theorem Unlinked.fire (hooks : List Hook) (cells : Unlinked simulate real bare)
    (hold : simulate = false → ∀ hook ∈ hooks, hook.effect ≠ .disconnect) :
    Unlinked simulate (fire hooks real).1 (fire (unlinkedHooks hooks) bare).1 ∧
      (fire (unlinkedHooks hooks) bare).2 = (fire hooks real).2 := by
  induction hooks generalizing real bare with
  | nil => exact ⟨cells, rfl⟩
  | cons hook rest ih =>
      have others (plain : simulate = false) (later : Hook) (listed : later ∈ rest) :
          later.effect ≠ .disconnect :=
        hold plain later (List.mem_cons_of_mem _ listed)
      cases links : hook.effect.links with
      | true =>
          -- The other cell has no such hook and stays as it is meanwhile.
          obtain ⟨linked, applied, later, -⟩ :=
            cells.link links fun plain => hold plain hook List.mem_cons_self
          have skipped : unlinkedHooks (hook :: rest) = unlinkedHooks rest := by
            simp [unlinkedHooks, links]
          rw [skipped]
          simp only [Cell.fire, applied]
          exact ih later others
      | false =>
          have kept : unlinkedHooks (hook :: rest) = hook :: unlinkedHooks rest := by
            simp [unlinkedHooks, links]
          have parallel := Guise.Cells.applied? cells links fun id _ _ _ => cells.heeds id
          rw [kept]
          simp only [Cell.fire]
          generalize real.applied? hook.effect = first at parallel ⊢
          generalize bare.applied? hook.effect = second at parallel ⊢
          cases parallel with
          | refused fault => exact ⟨cells, rfl⟩
          | applied later left right => exact ih later others

theorem Unlinked.fires (cells : Unlinked simulate real bare) :
    Guise.Cells.Fires (ControllerGuise.steady simulate).toGuise real bare := by
  obtain ⟨hooks, -, -, held⟩ := cells.back
  have calls : bare.arm.calls = real.arm.calls := by rw [cells.arm]; rfl
  have latest : (unlinkedHooks real.hooks).filter (·.call = real.arm.calls.size) =
      unlinkedHooks (real.hooks.filter (·.call = real.arm.calls.size)) := by
    unfold unlinkedHooks
    rw [List.filter_filter, List.filter_filter]
    exact List.filter_congr fun hook _ => Bool.and_comm _ _
  unfold Guise.Cells.Fires fireHooks
  rw [hooks, calls, latest]
  exact cells.fire _ fun plain hook listed => (held plain).2 hook (List.mem_filter.mp listed).1

end Cell

end Cells

/-! Launches. -/

namespace Controller

variable {simulate : Bool} {real bare : Controller Time}

abbrev Unlinked (simulate : Bool) (real bare : Controller Time) : Prop :=
  (ControllerGuise.steady simulate).Controllers real bare

theorem Unlinked.idle {cell other : Cell Time} (cells : Cell.Unlinked simulate cell other)
    (config : Config) (robot : Robot) (nextId : Nat)
    (tells : simulate = false → robot.reports true = true) :
    Unlinked simulate (.idle cell config robot nextId) (.idle other config robot nextId) :=
  ⟨cells, rfl, rfl, rfl, rfl, rfl,
    fun _ there => there.elim (fun holds => (Option.some_ne_none _ holds.symm).elim)
      fun queued => (List.not_mem_nil queued).elim,
    rfl, rfl, rfl, rfl, tells⟩

theorem Unlinked.refusal (alike : Unlinked simulate real bare) (confirm : Bool) :
    bare.refusal? true confirm = real.refusal? simulate confirm := by
  obtain ⟨-, robot, trust, -, told⟩ := alike.front
  obtain ⟨-, program, -, held⟩ := alike.cell.back
  have connected : (!simulate && !real.robot.reports real.cell.arm.connected) = false := by
    cases simulate with
    | true => rfl
    | false => rw [(held rfl).1, told rfl]; rfl
  unfold refusal?
  rw [robot, trust, program, connected]
  rfl

theorem launches_unlinked (simulate : Bool) :
    (ControllerGuise.steady simulate : ControllerGuise Time).Launches simulate := by
  intro real bare alike
  obtain ⟨config, robot, trust, nextId, told⟩ := alike.front
  obtain ⟨hooks, program, shared, held⟩ := alike.cell.back
  have cleared : Unlinked simulate { real with needsTrust := false, target := .unused }
      { bare with needsTrust := false, target := .unused } :=
    { alike with target := rfl, front := ⟨config, robot, rfl, nextId, told⟩ }
  have seen : bare.robot.abilities true =
      (real.robot.abilities simulate).map Abilities.unprobed := by
    rw [robot, Robot.abilities_unprobed real.robot simulate]
  have flag : (ControllerGuise.steady simulate : ControllerGuise Time).flag simulate = true := rfl
  unfold launch
  simp only [flag, seen]
  cases abilities : real.robot.abilities simulate with
  | error unfit => exact ⟨cleared, rfl⟩
  | ok able =>
      -- What the robot says of its connection goes into the probe of the run alone.
      let run : Run Time := Run.prepare real.cell.program.blocks able real.config
        (Token.fresh real.config.maxSteps (TimeScale.ofSeconds real.config.maxDuration))
      have fits : (ControllerGuise.steady simulate).fits run :=
        ⟨Robot.abilities_probe abilities told, nofun⟩
      have installed : Cell.Unlinked simulate (real.cell.install run)
          (bare.cell.install ((ControllerGuise.steady simulate).run run)) :=
        { alike.cell.putRun fits with back := ⟨hooks, program, congrArg Program.size program, held⟩ }
      have same : (ControllerGuise.steady simulate).run run =
          Run.prepare bare.cell.program.blocks able.unprobed bare.config
            (Token.fresh bare.config.maxSteps
              (TimeScale.ofSeconds bare.config.maxDuration)) := by
        rw [program, config]
        rfl
      rw [same] at installed
      refine ⟨?_, rfl⟩
      exact ((cleared.withCell installed).withTarget .run).log _ _

theorem Unlinked.greets (alike : Unlinked simulate real bare) {wish : Wish}
    (suits : (ControllerGuise.steady simulate : ControllerGuise Time).Suits wish) :
    (ControllerGuise.steady simulate).Greets real bare wish := by
  cases wish with
  | stop => trivial
  | start flag confirm =>
      have same : flag = simulate := suits
      subst same
      exact ⟨alike.refusal confirm, Or.inr (launches_unlinked flag)⟩

/-! Revisions. -/

theorem Unlinked.withDraft (alike : Unlinked simulate real bare) (draft : Draft)
    (entries others : List (Entry Time)) :
    Unlinked simulate (real.withDraft draft entries) (bare.withDraft draft others) := by
  obtain ⟨config, robot, trust, -, told⟩ := alike.front
  obtain ⟨hooks, program, shared, held⟩ := alike.cell.back
  have edited : Cell.Unlinked simulate (real.cell.edit draft.program)
      (bare.cell.edit draft.program) := by
    refine { alike.cell with back := ⟨hooks, rfl, ?_, held⟩ }
    simp only [Cell.edit, program, shared]
  exact { alike with
    cell := edited.logAll entries others
    front := ⟨config, robot, trust, rfl, told⟩ }

theorem Unlinked.revise (alike : Unlinked simulate real bare) (revision : Revision) :
    Unlinked simulate (real.revise revision) (bare.revise revision) := by
  obtain ⟨config, robot, trust, nextId, told⟩ := alike.front
  obtain ⟨hooks, program, shared, held⟩ := alike.cell.back
  have draft : bare.draft = real.draft := by
    unfold Controller.draft
    rw [program, nextId]
  have taken {α : Type} (edit : Edit Time α) :
      Unlinked simulate (real.takeIn edit) (bare.takeIn edit) := by
    unfold takeIn
    split
    · exact alike.withDraft _ _ _
    · exact alike
  cases revision with
  | addBlock definition given => simp only [Controller.revise, draft]; exact taken _
  | addChild parent definition given slot => simp only [Controller.revise, draft]; exact taken _
  | removeBlock id => simp only [Controller.revise, draft]; exact taken _
  | clear =>
      refine alike.withCell { alike.cell with back := ⟨hooks, rfl, ?_, held⟩ }
      simp only [Cell.edit, program, shared]
  | importBlocks blocks =>
      have imported : Cell.Unlinked simulate { real.cell with program := ⟨blocks⟩, shared := 0 }
          { bare.cell with program := ⟨blocks⟩, shared := 0 } :=
        { alike.cell with back := ⟨hooks, rfl, rfl, held⟩ }
      exact { alike with
        cell := Guise.Cells.log imported _ _
        front := ⟨config, robot, rfl, nextId, told⟩ }

end Controller

/-! Schedules. -/

def Move.unlinked : Move Time → Move Time
  | .call (.start _ confirm) => .call (.start true confirm)
  | .call (.run _ confirm) => .call (.run true confirm)
  | .arm latency failOn hooks => .arm latency failOn (unlinkedHooks hooks)
  | other => other

namespace Occurrence

def unlinked? : Occurrence Time → Option (Occurrence Time)
  | .moves (.effect effect) => if effect.links then none else some (.moves (.effect effect))
  | .moves move => some (.moves move.unlinked)
  | .revises revision => some (.revises revision)

/-- Every start is simulated, or none is and the arm stays connected to a robot that
can tell. -/
def Keeps (simulate : Bool) : Occurrence Time → Prop
  | .moves (.call (.start flag _)) | .moves (.call (.run flag _)) => flag = simulate
  | .moves (.effect .disconnect) => simulate = true
  | .moves (.arm _ _ hooks) => simulate = false → ∀ hook ∈ hooks, hook.effect ≠ .disconnect
  | .moves (.equip robot _) => simulate = false → robot.reports true = true
  | _ => True

end Occurrence

namespace Scene

variable {simulate : Bool} {real bare : Scene Time}

abbrev Unlinked (simulate : Bool) (real bare : Scene Time) : Prop :=
  (ControllerGuise.steady simulate).Scenes real bare

theorem Unlinked.goes (scenes : Unlinked simulate real bare) {move : Move Time}
    (unlinked : ∀ effect, move = .effect effect → effect.links = false)
    (keeps : Occurrence.Keeps simulate (.moves move)) :
    (ControllerGuise.steady simulate).Goes real bare move := by
  have alike : Controller.Unlinked simulate real.controller bare.controller := scenes.controller
  obtain ⟨config, robot, trust, nextId, told⟩ := alike.front
  obtain ⟨hooks, program, shared, held⟩ := alike.cell.back
  cases move with
  | call errand =>
      cases errand with
      | start flag confirm | run flag confirm => exact ⟨keeps, fun _ _ => alike.greets keeps⟩
      | importBlocks blocks => exact alike.revise (.importBlocks blocks)
      | stop | wait => trivial
  | letIn =>
      intro caller first
      exact alike.greets (alike.suits caller (Or.inr (List.mem_of_head? first)))
  | resume =>
      intro caller holds flag confirm start
      have suits := alike.suits caller (Or.inl holds)
      rw [start] at suits
      have same : flag = simulate := suits
      subst same
      exact Controller.launches_unlinked flag
  | step number =>
      intro run fits
      have lent : Cell.Unlinked simulate { real.controller.cell with run }
          { bare.controller.cell with run := run.map (ControllerGuise.steady simulate).run } :=
        { alike.cell with run := rfl, fits := fits }
      exact lent.fires
  | effect effect =>
      refine Guise.Cells.apply alike.cell (unlinked effect rfl) fun id _ _ _ => ?_
      exact (Cell.Unlinked.heeds alike.cell id).shares
  | equip robot config => exact ⟨rfl, rfl, trust, nextId, keeps⟩
  | arm latency failOn hooks =>
      refine { alike.cell with
        arm := by rw [alike.cell.arm]; rfl
        back := ⟨rfl, program, shared, fun plain => ⟨(held plain).1, keeps plain⟩⟩ }
  | _ => trivial

theorem steady_move (simulate : Bool) (move : Move Time) :
    (ControllerGuise.steady simulate).move move = move.unlinked := by
  cases move with
  | call errand => cases errand <;> rfl
  | _ => rfl

theorem Unlinked.next (scenes : Unlinked simulate real bare) {move : Move Time}
    (unlinked : ∀ effect, move = .effect effect → effect.links = false)
    (keeps : Occurrence.Keeps simulate (.moves move)) :
    Unlinked simulate (real.next move) (bare.next move.unlinked) := by
  rw [← steady_move simulate]
  exact ControllerGuise.Scenes.next scenes (scenes.goes unlinked keeps)

theorem Unlinked.link (scenes : Unlinked simulate real bare) {effect : Effect}
    (links : effect.links = true) (holds : simulate = false → effect ≠ .disconnect) :
    Unlinked simulate (real.next (.effect effect)) bare := by
  obtain ⟨linked, applied, later, -⟩ := Cell.Unlinked.link scenes.controller.cell links holds
  have changed : real.controller.cell.apply effect = linked := by
    simp only [Cell.apply, applied]
  have alike : Controller.Unlinked simulate { real.controller with cell := linked }
      bare.controller := { scenes.controller with cell := later }
  simp only [Scene.next, changed]
  exact { scenes with controller := alike }

/-- One occurrence, which may have no counterpart on the arm that stays connected. -/
theorem Unlinked.undergo (scenes : Unlinked simulate real bare) (occurrence : Occurrence Time)
    (keeps : occurrence.Keeps simulate) :
    (occurrence.unlinked? = none ∧ (∃ effect, occurrence = .moves (.effect effect)) ∧
      Unlinked simulate (real.undergo occurrence) bare) ∨
    ∃ other, occurrence.unlinked? = some other ∧
      Unlinked simulate (real.undergo occurrence) (bare.undergo other) ∧
      ∀ rest rest', (bare.undergo other).allowsAll rest' = (real.undergo occurrence).allowsAll rest →
        bare.allowsAll (other :: rest') = real.allowsAll (occurrence :: rest) := by
  cases occurrence with
  | revises revision =>
      refine Or.inr ⟨_, rfl, { scenes with controller := ?_ }, fun _ _ same => same⟩
      exact Controller.Unlinked.revise scenes.controller revision
  | moves move =>
      by_cases linking : ∃ effect, move = .effect effect ∧ effect.links = true
      · obtain ⟨effect, rfl, links⟩ := linking
        have holds (plain : simulate = false) : effect ≠ .disconnect := by
          rintro rfl
          rw [plain] at keeps
          cases keeps
        refine Or.inl ⟨?_, ⟨effect, rfl⟩, Unlinked.link scenes links holds⟩
        simp only [Occurrence.unlinked?, links, ↓reduceIte]
      · have unlinked (effect : Effect) (same : move = .effect effect) : effect.links = false := by
          cases links : effect.links with
          | false => rfl
          | true => exact absurd ⟨effect, same, links⟩ linking
        have named : (Occurrence.moves move).unlinked? = some (.moves move.unlinked) := by
          cases move with
          | effect effect => simp [Occurrence.unlinked?, unlinked effect rfl, Move.unlinked]
          | _ => rfl
        refine Or.inr ⟨_, named, scenes.next unlinked keeps, fun rest rest' same => ?_⟩
        have allowed : bare.allows move.unlinked = real.allows move := by
          rw [← ControllerGuise.Scenes.allows scenes move]
          cases move with
          | call errand => cases errand <;> rfl
          | _ => rfl
        simp only [allowsAll, allowed]
        exact congrArg (real.allows move && ·) same

theorem Unlinked.through (scenes : Unlinked simulate real bare)
    (occurrences : List (Occurrence Time)) (keep : ∀ one ∈ occurrences, one.Keeps simulate) :
    Unlinked simulate (real.through occurrences)
        (bare.through (occurrences.filterMap (·.unlinked?))) ∧
      bare.allowsAll (occurrences.filterMap (·.unlinked?)) = real.allowsAll occurrences := by
  induction occurrences generalizing real bare with
  | nil => exact ⟨scenes, rfl⟩
  | cons occurrence rest ih =>
      rw [List.forall_mem_cons] at keep
      rcases scenes.undergo occurrence keep.1 with
        ⟨none, ⟨effect, rfl⟩, later⟩ | ⟨other, some, later, same⟩
      · obtain ⟨last, allowed⟩ := ih later keep.2
        rw [List.filterMap_cons_none none]
        exact ⟨last, allowed⟩
      · obtain ⟨last, allowed⟩ := ih later keep.2
        rw [List.filterMap_cons_some some]
        exact ⟨last, same _ _ allowed⟩

end Scene

/-! Two ways to go on. -/

/-- How a controller is set up, and what happens to it then: whether its arm is
connected at first, its hooks, and all that happens around it. -/
structure Outing (Time : Type) where
  connected : Bool
  hooks : List Hook
  schedule : List (Occurrence Time)

namespace Outing

/-- All runs are simulated, or none is and the robot stays connected throughout. -/
structure IsSteady (outing : Outing Time) (simulate : Bool) (robot : Robot) : Prop where
  connected : simulate = false → outing.connected = true
  hooks : simulate = false → ∀ hook ∈ outing.hooks, hook.effect ≠ .disconnect
  robot : simulate = false → robot.reports true = true
  keeps : ∀ occurrence ∈ outing.schedule, occurrence.Keeps simulate

structure SameBut (first second : Outing Time) : Prop where
  hooks : unlinkedHooks first.hooks = unlinkedHooks second.hooks
  schedule : first.schedule.filterMap (·.unlinked?) = second.schedule.filterMap (·.unlinked?)

def opening (outing : Outing Time) (arm : Arm Time) (program : Program) (config : Config)
    (robot : Robot) (nextId : Nat) : Scene Time :=
  .opening { arm with connected := outing.connected } outing.hooks program config robot nextId

def bare (outing : Outing Time) : Outing Time :=
  ⟨true, unlinkedHooks outing.hooks, outing.schedule.filterMap (·.unlinked?)⟩

omit [TimeScale Time] in
theorem bare_eq {first second : Outing Time} (same : first.SameBut second) :
    first.bare = second.bare := by
  unfold bare
  rw [same.hooks, same.schedule]

variable (arm : Arm Time) (program : Program) (config : Config) (robot : Robot) (nextId : Nat)

def last (outing : Outing Time) : Scene Time :=
  (outing.opening arm program config robot nextId).through outing.schedule

/-- A steady outing looks the same as the bare one. -/
theorem IsSteady.unlinked {outing : Outing Time} {simulate : Bool}
    (steady : outing.IsSteady simulate robot) :
    Scene.Unlinked simulate (outing.last arm program config robot nextId)
        (outing.bare.last arm program config robot nextId) ∧
      (outing.bare.opening arm program config robot nextId).allowsAll outing.bare.schedule =
        (outing.opening arm program config robot nextId).allowsAll outing.schedule := by
  have alike : Controller.Unlinked simulate
      (.idle (.idle { arm with connected := outing.connected } outing.hooks program) config robot
        nextId)
      (.idle (.idle { arm with connected := true } (unlinkedHooks outing.hooks) program) config
        robot nextId) :=
    Controller.Unlinked.idle
      (Cell.Unlinked.idle _ _ fun plain => ⟨steady.connected plain, steady.hooks plain⟩)
      config robot nextId steady.robot
  have opened : Scene.Unlinked simulate (outing.opening arm program config robot nextId)
      (outing.bare.opening arm program config robot nextId) :=
    ⟨alike, rfl, fun _ there => (List.not_mem_nil there).elim, rfl, rfl, rfl, rfl, rfl⟩
  exact opened.through outing.schedule steady.keeps

end Outing

/-- Outings that differ only in how the connection varies, simulated or connected
throughout, allow the same moves and come to the same: the same calls at the same
times, the same runs with the same steps and ends, the same results and answers. No
run of them loses its connection. -/
theorem simulation_ignores_connection (arm : Arm Time) (program : Program) (config : Config)
    (robot : Robot) (nextId : Nat) {simulate simulate' : Bool} {first second : Outing Time}
    (same : first.SameBut second) (steady : first.IsSteady simulate robot)
    (steady' : second.IsSteady simulate' robot) :
    let left := first.last arm program config robot nextId
    let right := second.last arm program config robot nextId
    (first.opening arm program config robot nextId).allowsAll first.schedule =
        (second.opening arm program config robot nextId).allowsAll second.schedule ∧
      left.controller.cell.now = right.controller.cell.now ∧
      left.controller.cell.arm.calls = right.controller.cell.arm.calls ∧
      left.controller.cell.arm.positions = right.controller.cell.arm.positions ∧
      left.tasks.map Run.unprobed = right.tasks.map Run.unprobed ∧
      left.controller.lastResult = right.controller.lastResult ∧
      left.controller.answers = right.controller.answers ∧
      ∀ run ∈ left.tasks, run.ending? ≠ some (.fault .connectionLost) := by
  intro left right
  obtain ⟨mine, allowed⟩ := steady.unlinked arm program config robot nextId
  obtain ⟨yours, permitted⟩ := steady'.unlinked arm program config robot nextId
  rw [← Outing.bare_eq same] at yours permitted
  have arms : (left.controller.cell.arm.connect : Arm Time) = right.controller.cell.arm.connect :=
    mine.controller.cell.arm.symm.trans yours.controller.cell.arm
  refine ⟨allowed.symm.trans permitted, ?_, ?_, ?_, ?_, ?_, ?_, ?_⟩
  · exact mine.controller.cell.now.symm.trans yours.controller.cell.now
  · exact (congrArg Arm.calls arms :)
  · exact (congrArg Arm.positions arms :)
  · exact (ControllerGuise.Scenes.tasks mine).symm.trans (ControllerGuise.Scenes.tasks yours)
  · exact mine.controller.lastResult.symm.trans yours.controller.lastResult
  · exact mine.controller.answers.symm.trans yours.controller.answers
  · intro run there lost
    refine (ControllerGuise.Scenes.fits_tasks mine there).2 ?_
    unfold Run.ending? at lost
    cases activity : run.activity <;> simp_all

/-- A simulated run whose arm is disconnected before its first block comes to the same
as a run on the arm that stays connected. -/
theorem disconnected_simulation_runs_alike :
    let arm : Arm Float := .resting 0 true none
    let program : Program := ⟨[⟨"grip", "open_gripper", .empty, none, none⟩]⟩
    let first : Outing Float := ⟨false, [⟨0, .connect⟩],
      [.moves (.call (.start true false)), .moves (.effect .disconnect), .moves (.step 0),
        .moves (.effect .abort), .moves (.step 0)]⟩
    let second : Outing Float := ⟨true, [],
      [.moves (.call (.start false false)), .moves (.step 0), .moves (.effect .abort),
        .moves (.step 0)]⟩
    first.SameBut second ∧ first.IsSteady true .arm ∧ second.IsSteady false .arm ∧
      (first.last arm program .default .arm 1).controller.phase = .aborted ∧
      (first.last arm program .default .arm 1).tasks.map Run.unprobed =
        (second.last arm program .default .arm 1).tasks.map Run.unprobed := by
  intro arm program first second
  have same : first.SameBut second := ⟨rfl, rfl⟩
  have steady : first.IsSteady true .arm := by
    refine ⟨nofun, nofun, nofun, ?_⟩
    simp [first, Occurrence.Keeps]
  have steady' : second.IsSteady false .arm := by
    refine ⟨fun _ => rfl, fun _ => nofun, fun _ => rfl, ?_⟩
    simp [second, Occurrence.Keeps]
  obtain ⟨-, -, -, -, tasks, -⟩ :=
    simulation_ignores_connection arm program .default .arm 1 same steady steady'
  exact ⟨same, steady, steady', rfl, tasks⟩

end ArmProgram
