import ArmProgram.Proofs.Controller.Results
import ArmProgram.Controller.Status

/-!
What a controller shows of a run that has ended. Until the next run is launched it
shows the same phase and the same steps, whatever else is done. The clock of the run
is never stopped: the time it shows is that since the start of the run.
-/

namespace ArmProgram

variable {Time : Type}

structure Run.ShowsAlike (later run : Run Time) : Prop where
  activity : later.activity = run.activity
  steps : later.token.steps = run.token.steps
  startedAt : later.token.startedAt = run.token.startedAt

namespace Run

theorem ShowsAlike.isEnded {run later : Run Time} (alike : later.ShowsAlike run) :
    later.isEnded = run.isEnded := by
  simp only [Run.isEnded, alike.activity]

theorem ShowsAlike.phase {run later : Run Time} (alike : later.ShowsAlike run) :
    later.phase = run.phase := by
  simp only [Run.phase, alike.activity]

theorem ShowsAlike.elapsed [TimeScale Time] {run later : Run Time} (alike : later.ShowsAlike run)
    (now : Time) : later.token.elapsed now = run.token.elapsed now := by
  simp only [Token.elapsed, alike.startedAt]

theorem showsAlike_isLasting : IsLasting (ShowsAlike : Run Time → Run Time → Prop) where
  refl run := ⟨rfl, rfl, rfl⟩
  trans second first := ⟨second.activity.trans first.activity, second.steps.trans first.steps,
    second.startedAt.trans first.startedAt⟩
  isEnded := ShowsAlike.isEnded
  abort run := ⟨rfl, rfl, rfl⟩
  setParameter run id name value := by
    unfold setParameter
    split <;> exact ⟨rfl, rfl, rfl⟩

end Run

namespace Scene

variable [TimeScale Time]

/-- While no run is unfinished, nothing that is done reaches the latest one but through
its token and its blocks. -/
theorem next_showsAlike {scene : Scene Time} (sound : scene.Sound)
    (idle : scene.controller.isRunning = false) (move : Move Time)
    (allowed : scene.allows move = true) :
    Controller.Follows Run.ShowsAlike scene.controller (scene.next move).controller := by
  have lasting : Run.IsLasting (Run.ShowsAlike : Run Time → Run Time → Prop) :=
    Run.showsAlike_isLasting
  have kept := Controller.follows_isKept lasting
  -- Only an unfinished run takes a step or unwinds.
  have busy {number : Nat} (unfinished : scene.isUnfinished number = true) : False := by
    obtain ⟨-, running, -⟩ := onTask_latest sound number cancelled unfinished
    exact Bool.false_ne_true (idle.symm.trans running)
  cases move with
  | call errand =>
      cases errand with
      | start | run | stop => exact kept.arrive _ _
      | wait =>
          simp only [next, meet]
          split <;> exact Controller.follows_of_same lasting rfl
      | importBlocks blocks => exact Controller.follows_of_same lasting rfl
  | letIn => exact kept.admitNext _
  | resume => exact kept.resumeHolder _
  | unwind number =>
      simp only [allows, Bool.and_eq_true] at allowed
      exact (busy allowed.2).elim
  | step number =>
      simp only [allows, Bool.and_eq_true] at allowed
      exact (busy allowed.1).elim
  | effect effect => exact Controller.apply_follows lasting effect _
  | abandonWait place =>
      simp only [next, abandon]
      split <;> exact Controller.follows_of_same lasting rfl
  | abandonHold | abandonQueue | finishWait | doom | equip | arm | pass =>
      exact Controller.follows_of_same lasting rfl

structure Ended (scene : Scene Time) (run : Run Time) : Prop where
  sound : scene.Sound
  latest : ∃ later, scene.controller.cell.run = some later ∧ later.ShowsAlike run
  ended : run.isEnded = true

omit [TimeScale Time] in
theorem Ended.idle {scene : Scene Time} {run : Run Time} (ended : scene.Ended run) :
    scene.controller.isRunning = false := by
  obtain ⟨later, here, alike⟩ := ended.latest
  rw [Controller.isRunning_of_latest here, alike.isEnded, ended.ended, Bool.not_true]

/-- Whatever is done, the latest run stays ended as it is until one is launched. -/
theorem Ended.after {scene : Scene Time} {run : Run Time} (ended : scene.Ended run)
    (deed : Deed Time) (allowed : scene.allowsDeed deed = true)
    (unstarted : scene.controller.starter? (scene.after deed).controller = none) :
    (scene.after deed).Ended run := by
  have idle := ended.idle
  obtain ⟨earlier, here, alike⟩ := ended.latest
  have follows :
      Controller.Follows Run.ShowsAlike scene.controller (scene.after deed).controller := by
    cases deed with
    | moves move => exact next_showsAlike ended.sound idle move allowed
    | edit draft entries => exact Controller.follows_of_same Run.showsAlike_isLasting rfl
  refine ⟨after_sound ended.sound deed allowed, ?_, ended.ended⟩
  cases after_turns ended.sound deed allowed with
  | rests past latest result unstarted =>
      obtain ⟨still, present⟩ := Controller.isRunning_of_stays latest
      rw [here, Option.isSome_some] at present
      obtain ⟨later, there⟩ := Option.isSome_iff_exists.mp present
      refine ⟨later, there, ?_⟩
      -- Another run could only be one that has not ended.
      rcases follows later there with going | ⟨other, known, same⟩
      · rw [idle, Controller.isRunning_of_latest there, going] at still
        cases still
      · cases here.symm.trans known
        exact Run.showsAlike_isLasting.trans same alike
  | ends latest ending past running concludes doomed unstarted =>
      cases idle.symm.trans running
  | launches id idle past running result started => cases unstarted.symm.trans started

end Scene

variable [TimeScale Time]

/-- Whether nothing that is done starts a run. A start may be refused, or find a robot
that no run can be built for. -/
def Vigil.startsNone {first last : Watch Time} : Vigil first last → Bool
  | .here _ => true
  | .next deed _ rest =>
      (first.scene.controller.starter? (first.scene.after deed).controller).isNone &&
        rest.startsNone

theorem Vigil.keeps_ended {first last : Watch Time} (vigil : Vigil first last) {run : Run Time}
    (ended : first.scene.Ended run) (calm : vigil.startsNone = true) : last.scene.Ended run := by
  induction vigil with
  | here => exact ended
  | next deed allowed rest ih =>
      simp only [startsNone, Bool.and_eq_true, Option.isNone_iff_eq_none] at calm
      exact ih (ended.after deed allowed calm.1) calm.2

/-! The status. -/

theorem Scene.Ended.status {scene : Scene Float} {run : Run Float} (ended : scene.Ended run) :
    scene.controller.status.phase = run.phase ∧
      scene.controller.status.isRunning = false ∧
      scene.controller.status.steps = run.token.steps ∧
      scene.controller.status.elapsedMs =
        Decimal.roundTo 1 (run.token.elapsed scene.controller.cell.now * 1000) := by
  obtain ⟨later, here, alike⟩ := ended.latest
  refine ⟨?_, ended.idle, ?_, ?_⟩
  · simp only [Controller.status, Controller.phase, here, alike.phase]
  · simp only [Controller.status, here, Option.map_some, Option.getD_some, alike.steps]
  · simp only [Controller.status, here, Option.map_some, Option.getD_some, alike.elapsed]

/-- From the end of a run to the start of the next, a controller shows the phase and the
steps it ended with, and nothing that runs. It shows the time since the run was started:
the same as at its end for as long as the clock stands still. -/
theorem ended_run_keeps_status (arm : Arm Float) (hooks : List Hook) (program : Program)
    (config : Config) (robot : Robot) (nextId : Nat) {first last : Watch Float}
    (vigil : Vigil (.ofScene (.opening arm hooks program config robot nextId)) first)
    (run : Run Float) (latest : first.scene.controller.cell.run = some run)
    (ended : run.isEnded = true) (rest : Vigil first last) (calm : rest.startsNone = true) :
    let atEnd := first.scene.controller.status
    let later := last.scene.controller.status
    atEnd.isRunning = false ∧ later.isRunning = false ∧
      later.phase = atEnd.phase ∧ later.steps = atEnd.steps ∧
      later.elapsedMs =
        Decimal.roundTo 1 (run.token.elapsed last.scene.controller.cell.now * 1000) ∧
      (last.scene.controller.cell.now = first.scene.controller.cell.now →
        later.elapsedMs = atEnd.elapsedMs) := by
  have recorded := vigil.recorded (Scene.opening_recorded arm hooks program config robot nextId)
  have same := Run.showsAlike_isLasting.refl run
  have start : first.scene.Ended run := ⟨recorded.sound, ⟨run, latest, same⟩, ended⟩
  obtain ⟨phase, idle, steps, elapsed⟩ := start.status
  obtain ⟨phase', idle', steps', elapsed'⟩ := (rest.keeps_ended start calm).status
  refine ⟨idle, idle', phase'.trans phase.symm, steps'.trans steps.symm, elapsed', fun still => ?_⟩
  rw [elapsed', elapsed, still]

/-- A run is aborted. Then its program is cleared, somebody stops what no longer runs,
and a second goes by. -/
theorem aborted_run_keeps_status :
    ∃ (first last : Watch Float) (run : Run Float) (rest : Vigil first last),
      Nonempty (Vigil (.ofScene (.opening (.resting 0 true none) []
        ⟨[⟨"grip", "open_gripper", .empty, none, none⟩]⟩ .default .arm 0)) first) ∧
      first.scene.controller.cell.run = some run ∧ run.isEnded = true ∧
      rest.startsNone = true ∧
      first.scene.controller.status.phase = .aborted ∧
      last.scene.controller.status.phase = .aborted ∧
      last.scene.controller.status.isRunning = false ∧
      last.scene.controller.cell.now = 1 := by
  have reached : ∃ (first last : Watch Float) (run : Run Float) (rest : Vigil first last),
      Nonempty (Vigil (.ofScene (.opening (.resting 0 true none) []
        ⟨[⟨"grip", "open_gripper", .empty, none, none⟩]⟩ .default .arm 0)) first) ∧
      first.scene.controller.cell.run = some run ∧ run.isEnded = true ∧
      rest.startsNone = true ∧
      first.scene.controller.status.phase = .aborted ∧
      last.scene.controller.cell.now = 1 :=
    ⟨_, _, _, .next (.edit ⟨.empty, 0⟩ []) rfl <| .next (.moves (.call .stop)) rfl <|
        .next (.moves (.pass 1)) rfl <| .here _,
      ⟨.next (.moves (.call (.start false false))) rfl <| .next (.moves (.step 0)) rfl <|
        .next (.moves (.effect .abort)) rfl <| .next (.moves (.step 0)) rfl <| .here _⟩,
      rfl, rfl, rfl, rfl, rfl⟩
  obtain ⟨first, last, run, rest, ⟨before⟩, latest, ended, calm, aborted, now⟩ := reached
  obtain ⟨-, idle, phase, -⟩ :=
    ended_run_keeps_status _ _ _ _ _ _ before run latest ended rest calm
  exact ⟨first, last, run, rest, ⟨before⟩, latest, ended, calm, aborted, phase.trans aborted, idle,
    now⟩

/-- A run completes, and a second goes by: it shows a second more. -/
theorem completed_run_shows_later_time :
    ∃ (first last : Watch Float) (rest : Vigil first last),
      Nonempty (Vigil (.ofScene (.opening (.resting 0 true none) []
        ⟨[⟨"grip", "open_gripper", .empty, none, none⟩]⟩ Config.default.withoutPacing .arm 0))
        first) ∧
      first.scene.controller.status.phase = .completed ∧
      first.scene.controller.status.isRunning = false ∧
      rest.startsNone = true ∧
      first.scene.controller.status.elapsedMs = 0 ∧
      last.scene.controller.status.elapsedMs = 1000 ∧
      last.scene.controller.status.elapsedMs ≠ first.scene.controller.status.elapsedMs := by
  have more : (1000 : Float) ≠ 0 := by decide
  exact ⟨_, _, .next (.moves (.pass 1)) rfl <| .here _,
    ⟨.next (.moves (.call (.start false false))) rfl <| .next (.moves (.step 0)) rfl <|
      .next (.moves (.step 0)) rfl <| .next (.moves (.step 0)) rfl <|
      .next (.moves (.step 0)) rfl <| .next (.moves (.step 0)) rfl <|
      .next (.moves (.step 0)) rfl <| .next (.moves (.step 0)) rfl <|
      .next (.moves (.step 0)) rfl <| .next (.moves (.step 0)) rfl <|
      .next (.moves (.step 0)) rfl <| .next (.moves (.step 0)) rfl <|
      .next (.moves (.step 0)) rfl <| .next (.moves (.step 0)) rfl <|
      .next (.moves (.step 0)) rfl <| .next (.moves (.step 0)) rfl <| .here _⟩,
    rfl, rfl, rfl, rfl, rfl, more⟩

end ArmProgram
