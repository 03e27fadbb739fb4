import ArmProgram.Proofs.Run.Endings
import ArmProgram.Proofs.Controller.SingleRun
import ArmProgram.Proofs.Controller.Watch
import ArmProgram.Controller.Schedule

/-!
How runs end under a controller. While the arm fails no call and every parameter
that comes in can be read, each run ends as expected or is cancelled, no result
reports an error, and a run that is left to itself comes to its end.
-/

namespace ArmProgram

variable {Time : Type} [TimeScale Time]

theorem Result.ofEnding_kind (now : Time) (token : Token Time) {ending : Ending Time}
    (expected : ending.IsExpected) :
    ∃ result, ofEnding now token ending = some result ∧ result.errorKind ≠ some .error := by
  cases ending with
  | completed => exact ⟨_, rfl, nofun⟩
  | cancelled | dropped => cases expected
  | fault fault =>
      refine ⟨_, rfl, ?_⟩
      cases fault with
      | failed failure => cases expected
      | _ => nofun

namespace Controller

structure IsCalm (controller : Controller Time) : Prop where
  cell : controller.cell.IsCalm
  result : ∀ result, controller.lastResult = some result → result.errorKind ≠ some .error

def EndsWell (controller : Controller Time) : Prop :=
  ∃ run ending result, controller.cell.run = some run ∧ run.activity = .ended ending ∧
    ending.IsExpected ∧ controller.lastResult = some result ∧
    Result.ofEnding controller.cell.now run.token ending = some result

omit [TimeScale Time] in
theorem isRunning_iff (controller : Controller Time) :
    controller.isRunning = true ↔ ∃ run, controller.cell.run = some run ∧ run.isEnded = false :=
  Cell.isRunning_iff

theorem conclude_ended (controller : Controller Time) (run : Run Time) (ending : Ending Time)
    (here : controller.cell.run = some run) (ended : run.activity = .ended ending) :
    controller.conclude.cell.now = controller.cell.now ∧
      controller.conclude.lastResult =
        (Result.ofEnding controller.cell.now run.token ending).or controller.lastResult := by
  have known : run.ending? = some ending := (Run.ending?_eq run ending).mpr ended
  unfold conclude
  simp only [here, known]
  cases ending <;> exact ⟨rfl, rfl⟩

omit [TimeScale Time] in
theorem Reports.calm {before after : Controller Time} (reports : before.Reports after)
    (calm : before.cell.IsCalm) : after.cell.IsCalm := by
  obtain ⟨journal, target, result, rfl⟩ := reports
  exact ⟨calm.arm, calm.hooks, calm.program, calm.run⟩

/-- A step keeps a controller calm. Its run goes on, or it has ended well. -/
theorem stepRun_calm {controller : Controller Time} (calm : controller.IsCalm)
    (running : controller.isRunning = true) :
    controller.stepRun.IsCalm ∧
      (controller.stepRun.isRunning = true ∨ controller.stepRun.EndsWell) := by
  obtain ⟨cell, ends⟩ := Cell.stepRun_calm calm.cell running
  rcases stepRun_cases running with ⟨going, outcome⟩ | ⟨stopped, outcome⟩
  · rw [outcome]
    exact ⟨⟨cell, calm.result⟩, Or.inl going⟩
  · obtain ⟨run, here⟩ := Option.isSome_iff_exists.mp (Cell.stepRun_present running)
    obtain ⟨ending, ended⟩ := run.isEnded_iff.mp (by simpa [Cell.isRunning, here] using stopped)
    have expected := ends run ending here ended
    let stepped : Controller Time := { controller with cell := controller.cell.stepRun }
    obtain ⟨now, noted⟩ := conclude_ended stepped run ending here ended
    obtain ⟨result, made, kind⟩ := Result.ofEnding_kind stepped.cell.now run.token expected
    rw [made, Option.some_or] at noted
    rw [outcome]
    refine ⟨⟨(conclude_reports stepped).calm cell, fun other reported => ?_⟩, Or.inr ?_⟩
    · cases noted.symm.trans reported
      exact kind
    · refine ⟨run, ending, result, ?_, ended, expected, noted, ?_⟩
      · exact (conclude_run stepped).trans here
      · exact (congrArg (Result.ofEnding · run.token ending) now).trans made

/-! A run left to itself. -/

theorem due_of_unready (cell : Cell Time) (running : cell.isRunning = true)
    (unready : cell.isReady = false) : ∃ due, cell.due? = some due := by
  cases here : cell.run with
  | none => simp [Cell.isRunning, here] at running
  | some run =>
      have active : run.isEnded = false := by simpa [Cell.isRunning, here] using running
      have waits : run.isReady cell.now = false := by simpa [Cell.isReady, here] using unready
      simp only [Cell.due?, here, Option.bind_some]
      cases activity : run.activity with
      | pausing pause next =>
          cases pause with
          | till due capped => exact ⟨due, by simp only [Run.due?, activity]⟩
          | turn | turns => simp [Run.isReady, activity, Pause.isOver] at waits
      | calling call due next =>
          cases due with
          | some due => exact ⟨due, by simp only [Run.due?, activity]⟩
          | none => simp [Run.isReady, activity] at waits
      | ended ending => simp [Run.isEnded, activity] at active
      | _ => simp [Run.isReady, activity] at waits

theorem play_of_idle (limit : Option Time) (controller : Controller Time)
    (idle : controller.isRunning = false) : controller.play limit = controller := by
  unfold play
  simp [idle]

/-- The clock only has to move when the run waits, and each step brings it
nearer to its end. -/
theorem play_endsWell (controller : Controller Time) (calm : controller.IsCalm)
    (running : controller.isRunning = true) : (controller.play none).EndsWell := by
  -- What remains to be played after a step.
  have onward {stepped : Controller Time}
      (ih : stepped.IsCalm → stepped.isRunning = true → (stepped.play none).EndsWell)
      (kept : stepped.IsCalm) (outcome : stepped.isRunning = true ∨ stepped.EndsWell) :
      (stepped.play none).EndsWell := by
    cases still : stepped.isRunning with
    | true => exact ih kept still
    | false =>
        rw [play_of_idle none stepped still]
        rcases outcome with going | ended
        · rw [still] at going
          cases going
        · exact ended
  fun_induction play none controller with
  | case1 controller active ready ih =>
      obtain ⟨kept, outcome⟩ := stepRun_calm calm running
      exact onward ih kept outcome
  | case2 controller active unready undue =>
      obtain ⟨due, there⟩ := due_of_unready controller.cell running (by simpa using unready)
      rw [undue] at there
      cases there
  | case3 controller active unready due there reached ih =>
      have later : (controller.atTime due).IsCalm :=
        ⟨⟨calm.cell.arm, calm.cell.hooks, calm.cell.program, calm.cell.run⟩, calm.result⟩
      obtain ⟨kept, outcome⟩ := stepRun_calm later running
      exact onward ih kept outcome
  | case4 controller active unready due there beyond => exact absurd rfl beyond
  | case5 controller idle => exact absurd running idle

/-! Callers. -/

omit [TimeScale Time] in
theorem Retains.calm {before after : Controller Time} (retains : before.Retains after)
    (calm : before.IsCalm) : after.IsCalm := by
  refine ⟨⟨?_, ?_, ?_, fun later there => ?_⟩, ?_⟩
  · rw [retains.arm]
    exact calm.cell.arm
  · rw [retains.hooks]
    exact calm.cell.hooks
  · rw [retains.program]
    exact calm.cell.program
  · intro block member
    rcases retains.run later there with ⟨-, blocks⟩ | ⟨run, here, -, blocks⟩
    · rw [blocks, List.mem_toArray] at member
      exact calm.cell.program block member
    · rw [blocks] at member
      exact calm.cell.run run here block member
  · rw [retains.result]
    exact calm.result

theorem cancelled_calm {controller : Controller Time} (calm : controller.IsCalm)
    (running : controller.isRunning = true) : (Scene.cancelled controller).IsCalm := by
  obtain ⟨run, here, going⟩ := controller.isRunning_iff.mp running
  let ended : Controller Time :=
    { controller with cell := { controller.cell with run := some run.cancel } }
  have outcome : Scene.cancelled controller = ended.conclude := cancelled_of_going here going
  have cell : ended.cell.IsCalm := by
    refine ⟨calm.cell.arm, calm.cell.hooks, calm.cell.program, fun later there => ?_⟩
    cases there
    rw [Run.cancel_eq]
    exact calm.cell.run run here
  have unreported : ended.conclude.lastResult = controller.lastResult := by
    rcases Run.cancel_of_going going with activity | activity <;>
      exact (conclude_ended ended run.cancel _ rfl activity).2
  rw [outcome]
  refine ⟨(conclude_reports ended).calm cell, ?_⟩
  rw [unreported]
  exact calm.result

end Controller

namespace Scene

/-- Each run that has ended did so as expected, or it was to be cancelled. -/
def EndsWell (scene : Scene Time) : Prop :=
  ∀ number run ending, scene.tasks[number]? = some run → run.activity = .ended ending →
    ending.IsExpected ∨ number ∈ scene.doomed

structure IsCalm (scene : Scene Time) : Prop where
  sound : scene.Sound
  controller : scene.controller.IsCalm
  ends : scene.EndsWell

omit [TimeScale Time] in
/-- Only how the latest run ends has to be looked at while none is added. -/
theorem endsWell_of_latest {before after : Scene Time} (ends : before.EndsWell)
    (past : after.past = before.past) (doomed : ∀ number ∈ before.doomed, number ∈ after.doomed)
    (latest : ∀ run ending, after.controller.cell.run = some run → run.activity = .ended ending →
      ending.IsExpected ∨ before.past.length ∈ after.doomed) : after.EndsWell := by
  intro number run ending there ended
  rcases after.tasks_cases there with old | ⟨rfl, here⟩
  · rw [past] at old
    rcases ends number run ending (before.tasks_past old) ended with fine | listed
    · exact Or.inl fine
    · exact Or.inr (doomed number listed)
  · rw [past]
    exact latest run ending here ended

omit [TimeScale Time] in
theorem endsWell_of_same {before after : Scene Time} (ends : before.EndsWell)
    (past : after.past = before.past) (doomed : ∀ number ∈ before.doomed, number ∈ after.doomed)
    (latest : ∀ later, after.controller.cell.run = some later → later.isEnded = false ∨
      ∃ run, before.controller.cell.run = some run ∧ later.activity = run.activity) :
    after.EndsWell := by
  refine endsWell_of_latest ends past doomed fun later ending there ended => ?_
  rcases latest later there with going | ⟨run, here, same⟩
  · simp [Run.isEnded, ended] at going
  · rcases ends before.past.length run ending (before.tasks_last.trans here)
      (same.symm.trans ended) with fine | listed
    · exact Or.inl fine
    · exact Or.inr (doomed _ listed)

omit [TimeScale Time] in
theorem follow_endsWell {scene : Scene Time} (ends : scene.EndsWell) {after : Controller Time}
    (serves : scene.controller.Serves after) (retains : scene.controller.Retains after) :
    (scene.follow after).EndsWell := by
  have unadded (past : scene.pastAfter after = scene.past) : (scene.follow after).EndsWell := by
    refine endsWell_of_same ends past (fun _ listed => listed) fun later there => ?_
    rcases retains.run later there with ⟨fresh, -⟩ | ⟨run, here, same, -⟩
    · exact Or.inl (by simp [Run.isEnded, fresh])
    · exact Or.inr ⟨run, here, same⟩
  cases serves with
  | done _ _ unstarted _ =>
      exact unadded (pastAfter_kept (Controller.starter?_of_unstarted unstarted))
  | waits _ _ _ unanswered =>
      exact unadded (pastAfter_kept (Controller.starter?_of_unanswered unanswered))
  | launches id idle started running target free =>
      have past : (scene.follow after).past = scene.tasks :=
        pastAfter_started (Controller.starter?_iff.mpr started)
      intro number run ending there ended
      rcases (scene.follow after).tasks_cases there with old | ⟨-, here⟩
      · rw [past] at old
        exact ends number run ending old ended
      · obtain ⟨latest, known, going⟩ := after.isRunning_iff.mp running
        cases known.symm.trans here
        simp [Run.isEnded, ended] at going

end Scene

/-! What may happen to a calm scene. -/

def Deed.IsBenign : Deed Time → Prop
  | .edit draft _ => draft.program.IsReadable
  | .moves (.call (.importBlocks blocks)) => (Program.mk blocks).IsReadable
  | .moves (.effect effect) => effect.IsBenign
  | .moves (.arm _ failOn hooks) => failOn = none ∧ ∀ hook ∈ hooks, hook.IsBenign
  | .moves _ => True

namespace Scene

omit [TimeScale Time] in
theorem follow_calm {scene : Scene Time} (calm : scene.IsCalm) {after : Controller Time}
    (serves : scene.controller.Serves after) (retains : scene.controller.Retains after) :
    (scene.follow after).IsCalm :=
  ⟨goes_sound calm.sound (follow_goes scene after serves), retains.calm calm.controller,
    follow_endsWell calm.ends serves retains⟩

theorem receive_calm {scene : Scene Time} (calm : scene.IsCalm) (wish : Wish) (stays : Bool) :
    (scene.receive wish stays).IsCalm := by
  have joined : ({ scene with
      callers := scene.callers + 1
      stayers := if stays then scene.callers :: scene.stayers else scene.stayers } :
        Scene Time).IsCalm := ⟨⟨calm.sound.past, calm.sound.reach, calm.sound.holds⟩,
          calm.controller, calm.ends⟩
  exact follow_calm joined (Controller.arrive_serves _ _) (Controller.arrive_retains _ _)

omit [TimeScale Time] in
/-- Lets the latest run go on, the only one that can be unfinished. -/
theorem onTask_latest {scene : Scene Time} (sound : scene.Sound) (number : Nat)
    (goOn : Controller Time → Controller Time) (unfinished : scene.isUnfinished number = true) :
    number = scene.past.length ∧ scene.controller.isRunning = true ∧
      scene.onTask number goOn = { scene with controller := goOn scene.controller } := by
  obtain ⟨run, there, going⟩ := unfinished_of scene number unfinished
  obtain ⟨rfl, latest⟩ := latest_of_unfinished sound there going
  refine ⟨rfl, ?_, ?_⟩
  · exact scene.controller.isRunning_iff.mpr ⟨run, latest, going⟩
  · simp only [onTask, ↓reduceIte]

theorem step_calm {scene : Scene Time} (calm : scene.IsCalm) (number : Nat)
    (allowed : scene.allows (.step number) = true) : (scene.next (.step number)).IsCalm := by
  have sound := goes_sound calm.sound (next_goes calm.sound (.step number) allowed)
  simp only [allows, Bool.and_eq_true] at allowed
  obtain ⟨rfl, running, outcome⟩ := onTask_latest calm.sound number (·.stepRun) allowed.1
  obtain ⟨stepped, well⟩ := Controller.stepRun_calm calm.controller running
  simp only [next, outcome] at sound ⊢
  refine ⟨sound, stepped, endsWell_of_latest calm.ends rfl (fun _ listed => listed) ?_⟩
  intro run ending here ended
  rcases well with going | ⟨latest, ending', result, there, ended', expected, -⟩
  · obtain ⟨latest, there, active⟩ := Controller.isRunning_iff _ |>.mp going
    cases there.symm.trans here
    simp [Run.isEnded, ended] at active
  · cases there.symm.trans here
    cases ended'.symm.trans ended
    exact Or.inl expected

theorem unwind_calm {scene : Scene Time} (calm : scene.IsCalm) (number : Nat)
    (allowed : scene.allows (.unwind number) = true) : (scene.next (.unwind number)).IsCalm := by
  have sound := goes_sound calm.sound (next_goes calm.sound (.unwind number) allowed)
  simp only [allows, Bool.and_eq_true, List.contains_eq_mem, decide_eq_true_eq] at allowed
  obtain ⟨rfl, running, outcome⟩ := onTask_latest calm.sound number cancelled allowed.2
  simp only [next, outcome] at sound ⊢
  refine ⟨sound, Controller.cancelled_calm calm.controller running,
    endsWell_of_latest calm.ends rfl (fun _ listed => listed) ?_⟩
  intro run ending here ended
  exact Or.inr allowed.1

omit [TimeScale Time] in
theorem calm_of_same {before after : Scene Time} (calm : before.IsCalm) (sound : after.Sound)
    (controller : after.controller.IsCalm) (past : after.past = before.past)
    (latest : after.controller.cell.run = before.controller.cell.run)
    (doomed : ∀ number ∈ before.doomed, number ∈ after.doomed) : after.IsCalm := by
  refine ⟨sound, controller, endsWell_of_same calm.ends past doomed fun later there => ?_⟩
  rw [latest] at there
  exact Or.inr ⟨later, there, rfl⟩

theorem next_calm {scene : Scene Time} (calm : scene.IsCalm) (move : Move Time)
    (allowed : scene.allows move = true) (benign : (Deed.moves move).IsBenign) :
    (scene.next move).IsCalm := by
  have sound := goes_sound calm.sound (next_goes calm.sound move allowed)
  have quiet {after : Controller Time} (cell : after.cell = scene.controller.cell)
      (result : after.lastResult = scene.controller.lastResult) : after.IsCalm :=
    (Controller.Retains.of_same cell result).calm calm.controller
  have same (number : Nat) (listed : number ∈ scene.doomed) : number ∈ scene.doomed := listed
  -- Only its task ends the latest run. Whatever else happens leaves it where it stands.
  cases move with
  | call errand =>
      cases errand with
      | start | run | stop => exact receive_calm calm _ _
      | wait =>
          refine calm_of_same calm sound ?_ ?_ ?_ ?_ <;> simp only [next, meet] <;> split
          all_goals first | exact calm.controller | rfl | exact same
      | importBlocks blocks =>
          have cell := calm.controller.cell
          exact calm_of_same calm sound
            ⟨⟨cell.arm, cell.hooks, benign, cell.run⟩, calm.controller.result⟩ rfl rfl same
  | letIn =>
      have free : scene.controller.holder = none := Option.isNone_iff_eq_none.mp allowed
      exact follow_calm calm (Controller.admitNext_serves _ free) (Controller.admitNext_retains _)
  | resume =>
      have idle := idle_of_resume calm.sound allowed
      have let_go : scene.letGo.IsCalm :=
        ⟨⟨calm.sound.past, calm.sound.reach, fun held => absurd held Bool.false_ne_true⟩,
          quiet rfl rfl, calm.ends⟩
      have freed : scene.letGo.controller.Retains scene.controller := .of_same rfl rfl
      exact follow_calm let_go (Controller.resumeHolder_serves _ idle)
        (freed.trans (Controller.resumeHolder_retains _))
  | abandonHold | abandonQueue | finishWait | equip =>
      exact calm_of_same calm sound (quiet rfl rfl) rfl rfl same
  | doom number =>
      exact calm_of_same calm sound (quiet rfl rfl) rfl rfl fun _ => List.mem_cons_of_mem _
  | abandonWait place =>
      refine calm_of_same calm sound ?_ ?_ ?_ ?_ <;> simp only [next, abandon] <;> split
      all_goals first
        | exact calm.controller | rfl | exact same | exact fun _ => List.mem_cons_of_mem _
  | unwind number => exact unwind_calm calm number allowed
  | step number => exact step_calm calm number allowed
  | effect effect =>
      have cell := Cell.apply_calm calm.controller.cell effect benign
      refine ⟨sound, ⟨cell, calm.controller.result⟩,
        endsWell_of_same calm.ends rfl same fun later there => Or.inr ?_⟩
      exact Cell.apply_activity effect scene.controller.cell later there
  | arm latency failOn hooks =>
      have cell := calm.controller.cell
      exact calm_of_same calm sound
        ⟨⟨benign.1, benign.2, cell.program, cell.run⟩, calm.controller.result⟩ rfl rfl same
  | pass later =>
      have cell := calm.controller.cell
      exact calm_of_same calm sound
        ⟨⟨cell.arm, cell.hooks, cell.program, cell.run⟩, calm.controller.result⟩ rfl rfl same

theorem after_calm {scene : Scene Time} (calm : scene.IsCalm) (deed : Deed Time)
    (allowed : scene.allowsDeed deed = true) (benign : deed.IsBenign) :
    (scene.after deed).IsCalm := by
  cases deed with
  | moves move => exact next_calm calm move allowed benign
  | edit draft entries =>
      have cell := calm.controller.cell
      exact calm_of_same calm ⟨calm.sound.past, calm.sound.reach, calm.sound.holds⟩
        ⟨⟨cell.arm, cell.hooks, benign, cell.run⟩, calm.controller.result⟩ rfl rfl
        (fun _ listed => listed)

theorem opening_calm (arm : Arm Time) (hooks : List Hook) (program : Program) (config : Config)
    (robot : Robot) (nextId : Nat) (obeys : arm.failOn = none)
    (benign : ∀ hook ∈ hooks, hook.IsBenign) (readable : program.IsReadable) :
    (opening arm hooks program config robot nextId).IsCalm := by
  have sound := opening_sound arm hooks program config robot nextId
  refine ⟨sound, ⟨⟨obeys, benign, readable, fun run here => ?_⟩, fun result given => ?_⟩, ?_⟩
  · cases here
  · cases given
  · intro number run ending there
    cases there

end Scene

namespace Vigil

def deeds {first last : Watch Time} : Vigil first last → List (Deed Time)
  | .here _ => []
  | .next deed _ rest => deed :: rest.deeds

theorem calm {first last : Watch Time} (vigil : Vigil first last)
    (benign : ∀ deed ∈ vigil.deeds, deed.IsBenign) (start : first.scene.IsCalm) :
    last.scene.IsCalm := by
  induction vigil with
  | here => exact start
  | next deed allowed rest ih =>
      rw [deeds, List.forall_mem_cons] at benign
      exact ih benign.2 (Scene.after_calm start deed allowed benign.1)

end Vigil

/-- Parameters that can be read never stop a run: what states no number falls
back, and a move without a joint or a finite angle is left out. So with an arm
that fails no call every run ends as expected unless it is cancelled, no result
reports an error, and a run that is left to itself ends. -/
theorem readable_runs_end_as_expected :
    (∀ (value : Option Value) (fallback : Number),
      (∀ known, value = some known → known.IsReadable "seconds") →
        ∃ ms, waitDuration value fallback = .ok ms ∧ (StatesNoTime value → ms = fallback)) ∧
    (∀ value : Option Value, (∀ known, value = some known → known.IsReadable "times") →
      ∃ count, repeatCount value = .ok count ∧ (StatesNoCount value → count = 1)) ∧
    (∀ (block : String) (parameters : Parameters),
      (∀ known, parameters.get? "angle" = some known → known.IsReadable "angle") →
        ∃ command remarks, commandOfMove block parameters = .ok (command, remarks) ∧
          (jointOf (parameters.get? "joint") = none ∨ StatesNoAngle (parameters.get? "angle") →
            command = none)) ∧
    ∀ (arm : Arm Time) (hooks : List Hook) (program : Program) (config : Config) (robot : Robot)
      (nextId : Nat) (watch : Watch Time)
      (vigil : Vigil (.ofScene (.opening arm hooks program config robot nextId)) watch),
      arm.failOn = none → (∀ hook ∈ hooks, hook.IsBenign) → program.IsReadable →
      (∀ deed ∈ vigil.deeds, deed.IsBenign) →
        watch.scene.EndsWell ∧
        (∀ result, watch.scene.controller.lastResult = some result →
          result.errorKind ≠ some .error) ∧
        (watch.scene.controller.isRunning = true → watch.scene.controller.playOut.EndsWell) := by
  refine ⟨fun value fallback readable => ?_, fun value readable => ?_,
    fun block parameters readable => ?_, ?_⟩
  · obtain ⟨ms, waited⟩ := waitDuration_reads value fallback readable
    refine ⟨ms, waited, fun bad => ?_⟩
    cases waited.symm.trans (waitDuration_of_noTime value fallback bad)
    rfl
  · obtain ⟨count, counted⟩ := repeatCount_reads value readable
    exact ⟨count, counted, fun bad => repeatCount_of_noCount value bad count counted⟩
  · obtain ⟨command, remarks, made⟩ := commandOfMove_reads block parameters readable
    exact ⟨command, remarks, made, fun bad =>
      commandOfMove_of_noAngle block parameters bad command remarks made⟩
  · intro arm hooks program config robot nextId watch vigil obeys harmless readable benign
    have calm := vigil.calm benign
      (Scene.opening_calm arm hooks program config robot nextId obeys harmless readable)
    exact ⟨calm.ends, calm.controller.result,
      Controller.play_endsWell watch.scene.controller calm.controller⟩

def oddities : Program :=
  ⟨[⟨"pause", "wait_seconds", ⟨[("seconds", .text "soon")]⟩, none, none⟩,
    ⟨"again", "repeat", ⟨[("times", .number (.double (0 / 0)))]⟩, none, none⟩,
    ⟨"turn", "move_to", ⟨[("joint", .text "base"), ("angle", .number (.int 400))]⟩, none, none⟩,
    ⟨"dance", "samba", .empty, none, none⟩]⟩

theorem oddities_isReadable : oddities.IsReadable := by
  have near : 400 < Decimal.leastInfinite :=
    (Decimal.lt_leastInfinite_iff 400 (by decide)).mpr (Or.inl (by decide))
  simp only [Program.IsReadable, oddities, List.forall_mem_cons]
  refine ⟨?_, ?_, ?_, ?_, nofun⟩ <;> apply Parameters.isReadable_of_entries
  · simp [Value.IsReadable]
  · simp [Value.IsReadable]
  · simp [Value.IsReadable, near]
  · exact nofun

theorem odd_values_end_as_expected :
    oddities.IsReadable ∧ ∃ watch : Watch Float,
      Nonempty (Vigil (.ofScene (.opening (.resting 0 true none) [] oddities .default .arm 0))
        watch) ∧
      watch.scene.controller.isRunning = true ∧ watch.scene.controller.playOut.EndsWell := by
  have reached : ∃ watch : Watch Float, ∃ vigil : Vigil (.ofScene
      (.opening (.resting 0 true none) [] oddities .default .arm 0)) watch,
      (∀ deed ∈ vigil.deeds, deed.IsBenign) ∧ watch.scene.controller.isRunning = true := by
    refine ⟨_, .next (.moves (.call (.start false false))) rfl <| .here _, ?_, rfl⟩
    intro deed member
    cases List.mem_singleton.mp member
    exact True.intro
  obtain ⟨watch, vigil, benign, running⟩ := reached
  have ends := readable_runs_end_as_expected.2.2.2 (.resting 0 true none) [] oddities .default
    .arm 0 watch vigil rfl nofun oddities_isReadable benign
  exact ⟨oddities_isReadable, watch, ⟨vigil⟩, running, ends.2.2 running⟩

/-- A count that no finite double is near to does not run into a limit, it fails
the run. -/
theorem huge_count_fails_run :
    ∃ watch : Watch Float, Nonempty (Vigil (.ofScene (.opening (.resting 0 true none) []
          ⟨[⟨"again", "repeat", ⟨[("times", .number (.int (10 ^ 200 * 10 ^ 200)))]⟩, none, none⟩]⟩
          .default (.limited ⟨true, false, false, false, true⟩) 0)) watch) ∧
      watch.scene.doomed = [] ∧
      watch.scene.controller.lastResult.bind (·.errorKind) = some .error := by
  refine ⟨_, ⟨.next (.moves (.call (.start false false))) rfl <|
    .next (.moves (.step 0)) rfl <| .next (.moves (.step 0)) rfl <|
    .next (.moves (.step 0)) rfl <| .next (.moves (.step 0)) rfl <|
    .next (.moves (.step 0)) rfl <| .here _⟩, ?_⟩
  decide +kernel

end ArmProgram
