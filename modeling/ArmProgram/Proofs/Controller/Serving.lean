import ArmProgram.Proofs.Controller.Scene
import ArmProgram.Proofs.Run.Cell
import ArmProgram.Proofs.Run.Moment

/-!
What the operations of a controller leave of its latest run. Serving a caller
is done without a new run, or it makes the caller wait, or it starts a new run
once the latest has ended. Everything else goes on with the latest run.
-/

namespace ArmProgram

variable {Time : Type}

namespace Controller

variable {before middle after : Controller Time}

theorem newAnswer?_same (same : after.answers = before.answers) :
    before.newAnswer? after = none := by
  simp [newAnswer?, same]

theorem newAnswer?_cons {entry : Nat × Answer} (given : after.answers = entry :: before.answers) :
    before.newAnswer? after = some entry := by
  simp [newAnswer?, given]

theorem starter?_iff {id : Nat} :
    before.starter? after = some id ↔ before.newAnswer? after = some (id, .started) := by
  unfold starter?
  cases before.newAnswer? after with
  | none => simp
  | some entry =>
      obtain ⟨other, answer⟩ := entry
      cases answer <;> simp

theorem starter?_of_unstarted (unstarted : ∀ id, before.newAnswer? after ≠ some (id, .started)) :
    before.starter? after = none :=
  Option.eq_none_iff_forall_ne_some.mpr fun id started => unstarted id (starter?_iff.mp started)

theorem starter?_of_unanswered (unanswered : before.newAnswer? after = none) :
    before.starter? after = none :=
  starter?_of_unstarted fun _ started => nomatch unanswered.symm.trans started

structure Keeps (before after : Controller Time) : Prop where
  ends : after.cell.run.map Run.isEnded = before.cell.run.map Run.isEnded
  calls : after.cell.arm.calls = before.cell.arm.calls
  target : before.isRunning = true → after.target = before.target

theorem isRunning_congr
    (ends : after.cell.run.map Run.isEnded = before.cell.run.map Run.isEnded) :
    after.isRunning = before.isRunning := by
  unfold isRunning Cell.isRunning
  cases here : before.cell.run <;> cases there : after.cell.run <;> simp_all

theorem Keeps.isRunning (keeps : Keeps before after) : after.isRunning = before.isRunning :=
  isRunning_congr keeps.ends

theorem Keeps.present (keeps : Keeps before after) :
    after.cell.run.isSome = before.cell.run.isSome := by
  have ends := keeps.ends
  cases here : before.cell.run <;> cases there : after.cell.run <;> simp_all

theorem Keeps.refl (controller : Controller Time) : Keeps controller controller :=
  ⟨rfl, rfl, fun _ => rfl⟩

theorem Keeps.trans (first : Keeps before middle) (second : Keeps middle after) :
    Keeps before after where
  ends := second.ends.trans first.ends
  calls := second.calls.trans first.calls
  target running :=
    (second.target (first.isRunning.trans running)).trans (first.target running)

/-- What serving a caller comes to: it is done without a new run, it has to
wait for the latest run, or it has started a new one. -/
inductive Serves (before after : Controller Time) : Prop where
  | done (keeps : Keeps before after) (holder : after.holder = before.holder)
      (unstarted : ∀ id, before.newAnswer? after ≠ some (id, .started))
      (stopped : ∀ id, before.newAnswer? after = some (id, .stopped) → before.isRunning = false)
  | waits (keeps : Keeps before after) (running : before.isRunning = true)
      (free : before.holder = none) (unanswered : before.newAnswer? after = none)
  | launches (id : Nat) (idle : before.isRunning = false)
      (started : before.newAnswer? after = some (id, .started)) (running : after.isRunning = true)
      (target : after.target = .run) (free : after.holder = none)

theorem Serves.refl (controller : Controller Time) : Serves controller controller := by
  have unanswered : controller.newAnswer? controller = none := newAnswer?_same rfl
  apply Serves.done (.refl controller) rfl
  · intro id started
    rw [unanswered] at started
    cases started
  · intro id stopped
    rw [unanswered] at stopped
    cases stopped

theorem Serves.of_keeps (keeps : Keeps before middle) (answers : middle.answers = before.answers)
    (holder : middle.holder = before.holder) (serves : Serves middle after) :
    Serves before after := by
  have news : before.newAnswer? after = middle.newAnswer? after := by
    simp only [newAnswer?, answers]
  cases serves with
  | done kept held unstarted stopped =>
      apply Serves.done (keeps.trans kept) (held.trans holder)
      · intro id
        rw [news]
        exact unstarted id
      · intro id answered
        rw [news] at answered
        exact keeps.isRunning ▸ stopped id answered
  | waits kept running free unanswered =>
      exact .waits (keeps.trans kept) (keeps.isRunning ▸ running) (holder ▸ free)
        (news.trans unanswered)
  | launches id idle started running target free =>
      exact .launches id (keeps.isRunning ▸ idle) (news.trans started) running target free

theorem answer_serves (caller : Caller) (answer : Answer) (keeps : Keeps before after)
    (answers : after.answers = before.answers) (holder : after.holder = before.holder)
    (unstarted : answer ≠ .started) (stopped : answer = .stopped → before.isRunning = false) :
    Serves before (after.answer caller answer) := by
  have news : before.newAnswer? (after.answer caller answer) = some (caller.id, answer) :=
    newAnswer?_cons (by simp only [Controller.answer, answers])
  have kept : Keeps before (after.answer caller answer) := ⟨keeps.ends, keeps.calls, keeps.target⟩
  apply Serves.done kept holder
  · intro id started
    rw [news] at started
    cases started
    exact unstarted rfl
  · intro id answered
    rw [news] at answered
    cases answered
    exact stopped rfl

/-- What the latest run can change of a controller by going on, and others from
outside it: no run is begun, and an unfinished one can still be reached. -/
structure GoesOn (before after : Controller Time) : Prop where
  present : after.cell.run.isSome = before.cell.run.isSome
  running : after.isRunning = true → before.isRunning = true ∧ after.target = before.target
  holder : after.holder = before.holder
  answers : after.answers = before.answers
  calls : before.isRunning = false → after.cell.arm.calls = before.cell.arm.calls

theorem Keeps.goesOn (keeps : Keeps before after) (target : after.target = before.target)
    (holder : after.holder = before.holder) (answers : after.answers = before.answers) :
    GoesOn before after where
  present := keeps.present
  running running := ⟨keeps.isRunning ▸ running, target⟩
  holder := holder
  answers := answers
  calls _ := keeps.calls

theorem present_of_running (controller : Controller Time) (running : controller.isRunning = true) :
    controller.cell.run.isSome = true := by
  cases here : controller.cell.run with
  | none => simp [isRunning, Cell.isRunning, here] at running
  | some run => rfl

theorem apply_keeps (effect : Effect) (controller : Controller Time) :
    Keeps controller { controller with cell := controller.cell.apply effect } := by
  rcases controller.cell.apply_cases effect with same | takes
  · rw [same]
    exact .refl controller
  · generalize controller.cell.apply effect = changed at takes ⊢
    cases takes with
    | abort =>
        refine ⟨?_, rfl, fun _ => rfl⟩
        cases controller.cell.run <;> rfl
    | disconnect | connect | failOn | edits => exact ⟨rfl, rfl, fun _ => rfl⟩
    | @reaches id name value =>
        refine ⟨?_, rfl, fun _ => rfl⟩
        cases controller.cell.run with
        | none => rfl
        | some run =>
            have same := (Run.setParameter_sameWork run id name value).activity
            simp only [Option.map_some, Run.isEnded, same]

theorem abort_keeps (controller : Controller Time) :
    Keeps controller controller.abortTarget := by
  unfold abortTarget
  split
  · exact apply_keeps .abort controller
  · exact .refl controller

theorem abort_answers (controller : Controller Time) :
    controller.abortTarget.answers = controller.answers ∧
      controller.abortTarget.holder = controller.holder := by
  unfold abortTarget
  split <;> exact ⟨rfl, rfl⟩

/-! Callers. -/

variable [TimeScale Time]

theorem release_serves (caller : Caller) (controller : Controller Time)
    (free : controller.holder = none) (idle : controller.isRunning = false) :
    Serves controller (controller.release caller) := by
  -- No run is left that a stop could reach, so any target will do.
  have unreached : ∀ target, controller.isRunning = true → target = controller.target :=
    fun _ running => by simp [idle] at running
  unfold release
  cases caller.wish with
  | stop =>
      have freed : Keeps controller { controller with target := .nobody } :=
        ⟨rfl, rfl, unreached .nobody⟩
      exact answer_serves caller .stopped freed rfl rfl (by decide) fun _ => idle
  | start simulate confirm =>
      cases fits : controller.robot.abilities simulate with
      | error unfit =>
          have cleared : Keeps controller
              { controller with needsTrust := false, target := .unused } :=
            ⟨rfl, rfl, unreached .unused⟩
          simp only [launch, fits]
          apply answer_serves caller (.unfit unfit) cleared rfl rfl
          · intro same
            cases same
          · intro same
            cases same
      | ok abilities =>
          simp only [launch, fits]
          exact .launches caller.id idle (newAnswer?_cons rfl) rfl rfl free

theorem stopActive_serves (caller : Caller) (controller : Controller Time)
    (free : controller.holder = none) : Serves controller (controller.stopActive caller) := by
  have aborted := abort_keeps controller
  obtain ⟨answers, holder⟩ := abort_answers controller
  unfold stopActive
  cases running : controller.abortTarget.isRunning with
  | true =>
      simp only [running, ↓reduceIte]
      have held : Keeps controller
          ({ controller.abortTarget with holder := some caller }.log .stopping) :=
        ⟨aborted.ends, aborted.calls, aborted.target⟩
      exact .waits held (aborted.isRunning ▸ running) free (newAnswer?_same answers)
  | false =>
      simp only [running, Bool.false_eq_true, ↓reduceIte]
      exact .of_keeps aborted answers holder
        (release_serves caller _ (holder.trans free) running)

theorem enter_serves (caller : Caller) (controller : Controller Time)
    (free : controller.holder = none) : Serves controller (controller.enter caller) := by
  unfold enter
  cases caller.wish with
  | stop => exact stopActive_serves caller controller free
  | start simulate confirm =>
      cases refused : controller.refusal? simulate confirm with
      | none =>
          simp only [refused]
          exact stopActive_serves caller controller free
      | some refusal =>
          simp only [refused]
          apply answer_serves caller (.refused refusal) (.refl controller) rfl rfl
          · intro same
            cases same
          · intro same
            cases same

theorem arrive_serves (caller : Caller) (controller : Controller Time) :
    Serves controller (controller.arrive caller) := by
  unfold arrive
  split
  · rename_i open'
    rw [Bool.and_eq_true, Option.isNone_iff_eq_none] at open'
    exact enter_serves caller controller open'.1
  · have lined : Keeps controller { controller with queue := controller.queue ++ [caller] } :=
      ⟨rfl, rfl, fun _ => rfl⟩
    exact .of_keeps lined rfl rfl (.refl _)

theorem admitNext_serves (controller : Controller Time) (free : controller.holder = none) :
    Serves controller controller.admitNext := by
  unfold admitNext
  cases controller.queue with
  | nil => exact .refl controller
  | cons caller rest =>
      have called : Keeps controller { controller with queue := rest } :=
        ⟨rfl, rfl, fun _ => rfl⟩
      exact .of_keeps called rfl rfl (enter_serves caller _ free)

theorem resumeHolder_serves (controller : Controller Time) (idle : controller.isRunning = false) :
    Serves { controller with holder := none } controller.resumeHolder := by
  unfold resumeHolder
  cases held : controller.holder with
  | none =>
      simp only
      rw [← held]
      exact .refl controller
  | some caller => exact release_serves caller { controller with holder := none } rfl idle

/-! What holds of all that serving a caller is made of holds of serving it. -/

structure Undisturbed (before after : Controller Time) : Prop where
  run : after.cell.run = before.cell.run
  arm : after.cell.arm = before.cell.arm
  hooks : after.cell.hooks = before.cell.hooks
  program : after.cell.program = before.cell.program
  result : after.lastResult = before.lastResult

structure IsKept (law : Controller Time → Controller Time → Prop) : Prop where
  trans : ∀ {before middle after}, law before middle → law middle after → law before after
  noted : ∀ {before after}, Undisturbed before after → law before after
  abort : ∀ controller, law controller controller.abortTarget
  release : ∀ caller controller, law controller (controller.release caller)

section

variable {law : Controller Time → Controller Time → Prop} (kept : IsKept law)
  (caller : Caller) (controller : Controller Time)

include kept

theorem IsKept.stopActive : law controller (controller.stopActive caller) := by
  have aborted := kept.abort controller
  unfold Controller.stopActive
  simp only
  split
  · exact kept.trans aborted (kept.noted ⟨rfl, rfl, rfl, rfl, rfl⟩)
  · exact kept.trans aborted (kept.release caller _)

theorem IsKept.enter : law controller (controller.enter caller) := by
  unfold Controller.enter
  split
  · exact kept.stopActive caller controller
  · split
    · exact kept.noted ⟨rfl, rfl, rfl, rfl, rfl⟩
    · exact kept.stopActive caller controller

theorem IsKept.arrive : law controller (controller.arrive caller) := by
  unfold Controller.arrive
  split
  · exact kept.enter caller controller
  · exact kept.noted ⟨rfl, rfl, rfl, rfl, rfl⟩

theorem IsKept.admitNext : law controller controller.admitNext := by
  unfold Controller.admitNext
  split
  · exact kept.noted ⟨rfl, rfl, rfl, rfl, rfl⟩
  · rename_i caller rest _
    have called : law controller { controller with queue := rest } :=
      kept.noted ⟨rfl, rfl, rfl, rfl, rfl⟩
    exact kept.trans called (kept.enter caller _)

theorem IsKept.resumeHolder : law controller controller.resumeHolder := by
  unfold Controller.resumeHolder
  split
  · exact kept.noted ⟨rfl, rfl, rfl, rfl, rfl⟩
  · rename_i caller _
    have freed : law controller { controller with holder := none } :=
      kept.noted ⟨rfl, rfl, rfl, rfl, rfl⟩
    exact kept.trans freed (kept.release caller _)

end

/-! Nothing but the token of the latest run, who waits and what is noted changes
with a caller, unless a new run is made. -/

structure Retains (before after : Controller Time) : Prop where
  arm : after.cell.arm = before.cell.arm
  hooks : after.cell.hooks = before.cell.hooks
  program : after.cell.program = before.cell.program
  result : after.lastResult = before.lastResult
  run : ∀ later, after.cell.run = some later →
    (later.activity = .unstarted ∧ later.blocks = before.cell.program.blocks.toArray) ∨
      ∃ run, before.cell.run = some run ∧ later.activity = run.activity ∧ later.blocks = run.blocks

omit [TimeScale Time] in
theorem Retains.of_same (cell : after.cell = before.cell)
    (result : after.lastResult = before.lastResult) : Retains before after := by
  refine ⟨by rw [cell], by rw [cell], by rw [cell], result, fun later there => ?_⟩
  rw [cell] at there
  exact Or.inr ⟨later, there, rfl, rfl⟩

omit [TimeScale Time] in
theorem Retains.trans (first : Retains before middle) (second : Retains middle after) :
    Retains before after := by
  refine ⟨second.arm.trans first.arm, second.hooks.trans first.hooks,
    second.program.trans first.program, second.result.trans first.result, fun later there => ?_⟩
  rcases second.run later there with ⟨fresh, blocks⟩ | ⟨run, here, activity, blocks⟩
  · exact Or.inl ⟨fresh, by rw [blocks, first.program]⟩
  · rcases first.run run here with ⟨fresh, old⟩ | ⟨earlier, known, same, old⟩
    · exact Or.inl ⟨activity.trans fresh, blocks.trans old⟩
    · exact Or.inr ⟨earlier, known, activity.trans same, blocks.trans old⟩

omit [TimeScale Time] in
theorem abortTarget_retains (controller : Controller Time) :
    Retains controller controller.abortTarget := by
  unfold abortTarget
  split
  · refine ⟨rfl, rfl, rfl, rfl, fun later there => ?_⟩
    obtain ⟨run, here, rfl⟩ := Option.map_eq_some_iff.mp there
    exact Or.inr ⟨run, here, rfl, rfl⟩
  · exact .of_same rfl rfl

theorem release_retains (caller : Caller) (controller : Controller Time) :
    Retains controller (controller.release caller) := by
  unfold release
  cases caller.wish with
  | stop => exact .of_same rfl rfl
  | start simulate confirm =>
      simp only [launch]
      cases controller.robot.abilities simulate with
      | error unfit => exact .of_same rfl rfl
      | ok abilities =>
          refine ⟨rfl, rfl, rfl, rfl, fun later there => ?_⟩
          cases there
          exact Or.inl ⟨rfl, rfl⟩

theorem retains_isKept : IsKept (Retains : Controller Time → Controller Time → Prop) where
  trans := Retains.trans
  noted same := ⟨same.arm, same.hooks, same.program, same.result,
    fun later there => Or.inr ⟨later, same.run.symm.trans there, rfl, rfl⟩⟩
  abort := abortTarget_retains
  release := release_retains

theorem arrive_retains (caller : Caller) (controller : Controller Time) :
    Retains controller (controller.arrive caller) :=
  retains_isKept.arrive caller controller

theorem admitNext_retains (controller : Controller Time) :
    Retains controller controller.admitNext :=
  retains_isKept.admitNext controller

theorem resumeHolder_retains (controller : Controller Time) :
    Retains controller controller.resumeHolder :=
  retains_isKept.resumeHolder controller

/-! The latest run by itself. -/

def Reports (before after : Controller Time) : Prop :=
  ∃ journal target result, after =
    { before with cell := { before.cell with journal }, target, lastResult := result }

omit [TimeScale Time] in
theorem reports_of_run (controller : Controller Time) {run : Option (Run Time)}
    (same : controller.cell.run = run) :
    Reports { controller with cell := { controller.cell with run } } controller := by
  subst same
  exact ⟨_, _, _, rfl⟩

omit [TimeScale Time] in
theorem Reports.callers (reports : Reports before after) :
    after.holder = before.holder ∧ after.answers = before.answers := by
  obtain ⟨journal, target, result, rfl⟩ := reports
  exact ⟨rfl, rfl⟩

theorem conclude_reports (controller : Controller Time) :
    Reports controller controller.conclude := by
  unfold conclude
  split
  · exact reports_of_run controller rfl
  · split
    · exact reports_of_run controller rfl
    · exact reports_of_run controller rfl
    · split <;> exact ⟨_, _, _, rfl⟩

theorem stepRun_cases {controller : Controller Time} (running : controller.isRunning = true) :
    controller.cell.stepRun.isRunning = true ∧
        controller.stepRun = { controller with cell := controller.cell.stepRun } ∨
      controller.cell.stepRun.isRunning = false ∧
        controller.stepRun = conclude { controller with cell := controller.cell.stepRun } := by
  have stepped : isRunning { controller with cell := controller.cell.stepRun } =
      controller.cell.stepRun.isRunning := rfl
  simp only [stepRun, running, stepped, Bool.true_and]
  cases controller.cell.stepRun.isRunning with
  | true => exact Or.inl ⟨rfl, rfl⟩
  | false => exact Or.inr ⟨rfl, rfl⟩

theorem stepRun_reports (controller : Controller Time) :
    Reports { controller with cell := controller.cell.stepRun } controller.stepRun := by
  unfold stepRun
  simp only
  split
  · exact conclude_reports _
  · exact ⟨_, _, _, rfl⟩

theorem stepRun_goesOn (controller : Controller Time) (running : controller.isRunning = true) :
    GoesOn controller controller.stepRun := by
  have present := present_of_running controller running
  have run := stepRun_run controller
  have same : controller.stepRun.isRunning = controller.cell.stepRun.isRunning := by
    simp only [isRunning, Cell.isRunning, run]
  obtain ⟨holder, answers⟩ := (stepRun_reports controller).callers
  refine ⟨?_, fun still => ⟨running, ?_⟩, holder, answers, fun idle => ?_⟩
  · rw [run, present]
    exact Cell.stepRun_present running
  · rcases stepRun_cases running with ⟨-, outcome⟩ | ⟨ended, -⟩
    · rw [outcome]
    · rw [same, ended] at still
      cases still
  · rw [running] at idle
    cases idle

theorem cancelled_of_going {controller : Controller Time} {run : Run Time}
    (here : controller.cell.run = some run) (going : run.isEnded = false) :
    Scene.cancelled controller =
      conclude { controller with cell := { controller.cell with run := some run.cancel } } := by
  simp only [Scene.cancelled, cancelRun?, here, Option.map_some, going, Bool.false_eq_true,
    ↓reduceIte, Option.getD_some]

theorem cancelled_reports (controller : Controller Time) :
    Reports { controller with
      cell := { controller.cell with run := controller.cell.run.map Run.cancel } }
      (Scene.cancelled controller) := by
  unfold Scene.cancelled cancelRun?
  cases here : controller.cell.run with
  | none => exact reports_of_run controller here
  | some run =>
      simp only [Option.map_some, Option.getD_some]
      split
      · rename_i ended
        obtain ⟨ending, activity⟩ := run.isEnded_iff.mp ended
        rw [Run.cancel_of_ended activity]
        exact reports_of_run controller here
      · exact conclude_reports _

theorem cancelled_goesOn (controller : Controller Time) (running : controller.isRunning = true) :
    GoesOn controller (Scene.cancelled controller) := by
  obtain ⟨run, here, -⟩ := Cell.isRunning_iff.mp running
  obtain ⟨journal, target, result, outcome⟩ := cancelled_reports controller
  have latest : (Scene.cancelled controller).cell.run = some run.cancel := by
    rw [outcome]
    simp only [here, Option.map_some]
  obtain ⟨holder, answers⟩ := (cancelled_reports controller).callers
  refine ⟨?_, fun still => ?_, holder, answers, fun idle => ?_⟩
  · rw [latest, here]
    rfl
  · simp [isRunning, Cell.isRunning, latest, Run.cancel_isEnded] at still
  · rw [running] at idle
    cases idle

end Controller

end ArmProgram
