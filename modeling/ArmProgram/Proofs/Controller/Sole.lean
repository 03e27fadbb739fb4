import ArmProgram.Proofs.Controller.Admission
import ArmProgram.Controller.Schedule

/-!
One caller at a time. Nobody holds the controller or is in line when the caller
arrives, so it takes hold, waits for the run before if there is one, and leaves
with its answer; then again nobody is there.
-/

namespace ArmProgram.Controller

variable {Time : Type} {controller before after : Controller Time}

structure SameLine (before after : Controller Time) : Prop where
  holder : after.holder = before.holder
  queue : after.queue = before.queue
  answers : after.answers = before.answers

structure IsQuiet (controller : Controller Time) : Prop where
  holder : controller.holder = none
  queue : controller.queue = []
  answers : controller.answers = []

theorem IsQuiet.of_sameLine (quiet : before.IsQuiet) (same : before.SameLine after) :
    after.IsQuiet :=
  ⟨same.holder.trans quiet.holder, same.queue.trans quiet.queue, same.answers.trans quiet.answers⟩

structure Releases (id : Nat) (before after : Controller Time) : Prop where
  holder : after.holder = before.holder
  queue : after.queue = before.queue
  answers : ∃ answer, (∀ refusal, answer ≠ .refused refusal) ∧
    after.answers = (id, answer) :: before.answers

/-- What serving one caller comes to: it has its answer, nobody else is there, and
if it was refused nothing has changed. -/
structure Serving (before after : Controller Time) (answer : Option Answer) : Prop where
  quiet : after.IsQuiet
  answered : ∃ given, answer = some given
  refused : ∀ refusal, answer = some (.refused refusal) → after = before

theorem RunsOn.sameLine (goes : before.RunsOn after) : before.SameLine after := by
  obtain ⟨cell, target, result, rfl⟩ := goes
  exact ⟨rfl, rfl, rfl⟩

theorem abortTarget_runsOn (controller : Controller Time) :
    controller.RunsOn controller.abortTarget := by
  unfold abortTarget
  split
  · exact ⟨_, _, _, rfl⟩
  · exact .refl controller

variable [TimeScale Time]

theorem play_runsOn (limit : Option Time) (controller : Controller Time) :
    controller.RunsOn (controller.play limit) := by
  fun_induction play limit controller with
  | case1 controller running ready ih => exact (stepRun_runsOn controller).trans ih
  | case3 controller running waits due next inside ih =>
      have moved : controller.RunsOn (controller.atTime due) := ⟨_, _, _, rfl⟩
      exact (moved.trans (stepRun_runsOn _)).trans ih
  | case2 | case4 | case5 => exact .refl _

theorem turn_runsOn (controller : Controller Time) : controller.RunsOn controller.turn := by
  fun_induction turn controller with
  | case1 controller running ready stepped rest => exact stepRun_runsOn controller
  | case2 controller running ready stepped rest ih => exact (stepRun_runsOn controller).trans ih
  | case3 | case4 => exact .refl _

theorem sleep_runsOn (ms : Number) (controller : Controller Time) :
    controller.RunsOn (controller.sleep ms) := by
  unfold sleep
  simp only
  split
  · have played := play_runsOn
      (some (TimeScale.add controller.cell.now (TimeScale.ofMillis ms))) controller
    exact played.trans ⟨_, _, _, rfl⟩
  · split
    · exact (turn_runsOn controller).trans (turn_runsOn controller.turn)
    · exact turn_runsOn controller

theorem release_releases (caller : Caller) (controller : Controller Time) :
    controller.Releases caller.id (controller.release caller) := by
  unfold release
  cases caller.wish with
  | stop =>
      refine ⟨rfl, rfl, .stopped, ?_, rfl⟩
      rintro refusal ⟨⟩
  | start simulate confirm =>
      simp only [launch]
      cases controller.robot.abilities simulate with
      | error unfit =>
          refine ⟨rfl, rfl, .unfit unfit, ?_, rfl⟩
          rintro refusal ⟨⟩
      | ok abilities =>
          refine ⟨rfl, rfl, .started, ?_, rfl⟩
          rintro refusal ⟨⟩

theorem resumeHolder_free (controller : Controller Time) :
    controller.resumeHolder.holder = none := by
  unfold resumeHolder
  split
  · assumption
  · exact (release_releases _ _).holder

def settled (entered : Controller Time) : Controller Time × Option Answer :=
  let served := (entered.settle entered.queue.length).takeAnswers 1
  (served.1, served.2.head?)

theorem settled_of_answered {entered : Controller Time} (given : Answer)
    (free : entered.holder = none) (empty : entered.queue = [])
    (answers : entered.answers = [(0, given)]) :
    entered.settled = ({ entered with answers := [] }, some given) := by
  simp [settled, empty, settle, settleHolder, free, takeAnswers, answers]

/-- The caller that has to wait goes on after the run has unwound. -/
theorem settled_of_held {entered : Controller Time} (wish : Wish)
    (held : entered.holder = some ⟨0, wish⟩) (empty : entered.queue = []) :
    entered.settled = ({ entered.playOut with holder := none }.release ⟨0, wish⟩).settled := by
  have played : entered.SameLine entered.playOut := (play_runsOn none entered).sameLine
  have goes : entered.playOut.resumeHolder =
      { entered.playOut with holder := none }.release ⟨0, wish⟩ := by
    simp only [resumeHolder, played.holder.trans held]
  have releases := release_releases ⟨0, wish⟩ { entered.playOut with holder := none }
  have line := releases.queue.trans (played.queue.trans empty)
  have free := releases.holder
  rw [← goes] at line free ⊢
  simp [settled, empty, settle, settleHolder, held, line, free]

theorem answered_serving {entered : Controller Time} (given : Answer)
    (free : entered.holder = none) (empty : entered.queue = [])
    (answers : entered.answers = [(0, given)])
    (refused : ∀ refusal, given = .refused refusal → { entered with answers := [] } = before) :
    before.Serving entered.settled.1 entered.settled.2 := by
  rw [settled_of_answered given free empty answers]
  refine ⟨⟨free, empty, rfl⟩, ⟨given, rfl⟩, fun refusal same => ?_⟩
  cases same
  exact refused refusal rfl

theorem released_serving {released entered : Controller Time} (free : released.holder = none)
    (empty : released.queue = []) (untaken : released.answers = [])
    (releases : released.Releases 0 entered) :
    before.Serving entered.settled.1 entered.settled.2 := by
  obtain ⟨given, unrefused, answers⟩ := releases.answers
  refine answered_serving given (releases.holder.trans free) (releases.queue.trans empty)
    (answers.trans (by rw [untaken])) fun refusal same => ?_
  exact absurd same (unrefused refusal)

/-- Who is not refused goes on when the run before has unwound. -/
theorem stopActive_settled (wish : Wish) (quiet : controller.IsQuiet) :
    ∃ free : Controller Time, controller.RunsOn free ∧
      (controller.stopActive ⟨0, wish⟩).settled = (free.release ⟨0, wish⟩).settled := by
  have goes := abortTarget_runsOn controller
  unfold stopActive
  simp only
  split
  · have line := goes.sameLine.queue.trans quiet.queue
    -- What the run still does leaves all but its own affairs alone.
    refine ⟨_, ?_, settled_of_held wish rfl line⟩
    obtain ⟨cell, target, result, same⟩ := play_runsOn none
      (({ controller.abortTarget with holder := some ⟨0, wish⟩ } : Controller Time).log .stopping)
    obtain ⟨_, _, _, aborted⟩ := goes
    refine ⟨cell, target, result, ?_⟩
    rw [playOut, same, aborted, log, ← quiet.holder]
  · exact ⟨controller.abortTarget, goes, rfl⟩

theorem serve_settled (wish : Wish) (quiet : controller.IsQuiet) :
    controller.serve wish = (controller.enter ⟨0, wish⟩).settled := by
  simp [serve, settled, arrive, quiet.holder, quiet.queue]

theorem stopActive_serving (wish : Wish) (quiet : controller.IsQuiet) :
    before.Serving (controller.stopActive ⟨0, wish⟩).settled.1
      (controller.stopActive ⟨0, wish⟩).settled.2 := by
  obtain ⟨free, goes, outcome⟩ := stopActive_settled wish quiet
  have still := quiet.of_sameLine goes.sameLine
  rw [outcome]
  exact released_serving still.holder still.queue still.answers (release_releases ⟨0, wish⟩ free)

theorem serve_serving (wish : Wish) (quiet : controller.IsQuiet) :
    controller.Serving (controller.serve wish).1 (controller.serve wish).2 := by
  rw [serve_settled wish quiet]
  cases wish with
  | stop => exact stopActive_serving .stop quiet
  | start simulate confirm =>
      cases refused : controller.refusal? simulate confirm with
      | none =>
          simp only [enter, refused]
          exact stopActive_serving (.start simulate confirm) quiet
      | some refusal =>
          simp only [enter, refused]
          refine answered_serving (.refused refusal) quiet.holder quiet.queue ?_ fun _ _ => ?_
          · simp [answer, quiet.answers]
          · simp only [answer, ← quiet.answers]

end ArmProgram.Controller
