import Mathlib.Data.List.TFAE
import ArmProgram.Proofs.Controller.Callers
import ArmProgram.Proofs.Controller.Endings

/-!
What becomes of the runs of a controller from one moment to the next. A run that
has ended stays as it is, and the latest one goes on, is concluded, or is followed
by a new run. When it is concluded its result, the way it ended and its phase say
the same.
-/

namespace ArmProgram

variable {Time : Type}

def Ending.isCancelled : Ending Time → Bool
  | cancelled | dropped => true
  | _ => false

def Fault.isLimit : Fault Time → Bool
  | stepLimit .. | timeLimit .. => true
  | _ => false

namespace Run

def isCancelled (run : Run Time) : Bool :=
  run.ending?.any (·.isCancelled)

structure Stays (run later : Run Time) : Prop where
  ended : later.isEnded = run.isEnded
  activity : run.isEnded = true → later.activity = run.activity
  steps : run.isEnded = true → later.token.steps = run.token.steps

theorem SameWork.stays {run later : Run Time} (same : SameWork later run) : Stays run later :=
  ⟨by simp only [isEnded, same.activity], fun _ => same.activity, fun _ => same.steps⟩

theorem Stays.refl (run : Run Time) : Stays run run :=
  (SameWork.refl run).stays

theorem stays_of_going {run later : Run Time} (going : run.isEnded = false)
    (still : later.isEnded = false) : Stays run later :=
  ⟨still.trans going.symm, fun ended => absurd (going.symm.trans ended) Bool.false_ne_true,
    fun ended => absurd (going.symm.trans ended) Bool.false_ne_true⟩

/-- A relation of a later state of a run to one before, kept by all that may reach a run
that has ended: an abort and an edit of its blocks. -/
structure IsLasting (bond : Run Time → Run Time → Prop) : Prop where
  refl : ∀ run, bond run run
  trans : ∀ {run middle later}, bond later middle → bond middle run → bond later run
  isEnded : ∀ {run later}, bond later run → later.isEnded = run.isEnded
  abort : ∀ run : Run Time, bond run.abort run
  setParameter : ∀ (run : Run Time) id name value, bond (run.setParameter id name value) run

theorem sameWork_isLasting :
    IsLasting (SameWork : Run Time → Run Time → Prop) where
  refl := SameWork.refl
  trans := SameWork.trans
  isEnded same := same.stays.ended
  abort := abort_sameWork
  setParameter := setParameter_sameWork

theorem isEnded_of_activity {run : Run Time} {ending : Ending Time}
    (ended : run.activity = .ended ending) : run.isEnded = true :=
  run.isEnded_iff.mpr ⟨ending, ended⟩

end Run

/-! Results. -/

structure Result.Tells (result : Result Time) (run : Run Time) (ending : Ending Time) : Prop where
  phase : result.phase = run.phase
  steps : result.steps = run.token.steps
  completed : [result.success = true, ending = .completed, run.phase = .completed,
    result.errorKind = none].TFAE
  aborted : [result.errorKind = some .aborted, ending = .fault .aborted,
    run.phase = .aborted].TFAE
  connectionLost : result.errorKind = some .connectionLost ↔ ending = .fault .connectionLost
  limit : result.errorKind = some .limit ↔ ∃ fault, ending = .fault fault ∧ fault.isLimit = true
  error : result.errorKind = some .error ↔ ∃ failure, ending = .fault (.failed failure)
  faulted : [result.errorMessage.isSome = true, run.phase = .faulted,
    result.errorKind ≠ none ∧ result.errorKind ≠ some .aborted].TFAE

theorem Result.Tells.stays {result : Result Time} {run later : Run Time} {ending : Ending Time}
    (tells : result.Tells run ending) (stays : run.Stays later) (ended : run.isEnded = true) :
    result.Tells later ending := by
  have phase : later.phase = run.phase := by
    unfold Run.phase
    rw [stays.activity ended]
  obtain ⟨same, steps, completed, aborted, connectionLost, limit, error, faulted⟩ := tells
  rw [← phase] at same completed aborted faulted
  exact ⟨same, steps.trans (stays.steps ended).symm, completed, aborted, connectionLost, limit,
    error, faulted⟩

section Endings

variable [TimeScale Time]

theorem Result.ofEnding_cancelled (now : Time) (token : Token Time) {ending : Ending Time}
    (cancelled : ending.isCancelled = true) : ofEnding now token ending = none := by
  cases ending with
  | cancelled | dropped => rfl
  | _ => cases cancelled

theorem Result.ofEnding_tells (now : Time) {run : Run Time} {ending : Ending Time}
    (ended : run.activity = .ended ending) (uncancelled : ending.isCancelled = false) :
    ∃ result, ofEnding now run.token ending = some result ∧ result.Tells run ending := by
  have phase : run.phase = ending.phase := by simp only [Run.phase, ended]
  cases ending with
  | cancelled | dropped => cases uncancelled
  | completed =>
      refine ⟨_, rfl, ?_⟩
      constructor <;> simp [phase, Ending.phase, List.tfae_singleton]
  | fault fault =>
      refine ⟨_, rfl, ?_⟩
      cases fault <;> constructor <;>
        simp [phase, Ending.phase, Fault.explain, Fault.isLimit, List.tfae_singleton]

end Endings

/-! How the latest run ends. -/

section Latest

variable [TimeScale Time]

theorem Run.steps_uncancelled {now : Time} {connected : Bool} {run after : Run Time}
    {asked : Option Call} (steps : Steps now connected run after asked) :
    after.isCancelled = false := by
  cases steps <;> rfl

theorem Cell.Advances.uncancelled {cell after : Cell Time} {run later : Run Time}
    (advances : Advances cell run after) (there : after.run = some later) :
    later.isCancelled = false := by
  cases advances with
  | moves made steps =>
      cases there
      exact Run.steps_uncancelled steps
  | calls | fails | returns | refuses =>
      cases there
      rfl

namespace Controller

variable {before after : Controller Time}

omit [TimeScale Time] in
theorem isRunning_of_latest {controller : Controller Time} {run : Run Time}
    (here : controller.cell.run = some run) : controller.isRunning = !run.isEnded := by
  simp only [isRunning, Cell.isRunning, here, Option.any_some]

structure Concludes (before after : Controller Time) (run : Run Time) (ending : Ending Time) :
    Prop where
  latest : after.cell.run = some run
  ended : run.activity = .ended ending
  result : ∃ now, after.lastResult = (Result.ofEnding now run.token ending).or before.lastResult

theorem Concludes.idle {run : Run Time} {ending : Ending Time}
    (concludes : Concludes before after run ending) : after.isRunning = false := by
  rw [isRunning_of_latest concludes.latest, Run.isEnded_of_activity concludes.ended, Bool.not_true]

theorem conclude_concludes (controller : Controller Time) {run : Run Time} {ending : Ending Time}
    (here : controller.cell.run = some run) (ended : run.activity = .ended ending) :
    Concludes controller controller.conclude run ending :=
  ⟨(conclude_run controller).trans here, ended, controller.cell.now,
    (conclude_ended controller run ending here ended).2⟩

theorem stepRun_concludes {controller : Controller Time} (running : controller.isRunning = true) :
    (controller.stepRun.isRunning = true ∧
        controller.stepRun.lastResult = controller.lastResult) ∨
      ∃ run ending, Concludes controller controller.stepRun run ending ∧
        ending.isCancelled = false := by
  obtain ⟨run, here, going⟩ := controller.isRunning_iff.mp running
  rcases stepRun_cases running with ⟨still, outcome⟩ | ⟨stopped, outcome⟩
  · left
    rw [outcome]
    exact ⟨still, rfl⟩
  · obtain ⟨later, there⟩ := Option.isSome_iff_exists.mp (Cell.stepRun_present running)
    have ended : later.isEnded = true := by simpa [Cell.isRunning, there] using stopped
    obtain ⟨ending, activity⟩ := later.isEnded_iff.mp ended
    have uncancelled := (Cell.stepRun_advances here going).uncancelled there
    simp only [Run.isCancelled, Run.ending?, activity, Option.any_some] at uncancelled
    obtain ⟨latest, same, result⟩ := conclude_concludes
      { controller with cell := controller.cell.stepRun } there activity
    right
    rw [outcome]
    exact ⟨later, ending, ⟨latest, same, result⟩, uncancelled⟩

theorem cancelled_concludes {controller : Controller Time}
    (running : controller.isRunning = true) :
    ∃ run ending, Concludes controller (Scene.cancelled controller) run ending ∧
      ending.isCancelled = true := by
  obtain ⟨run, here, going⟩ := controller.isRunning_iff.mp running
  let ended : Controller Time :=
    { controller with cell := { controller.cell with run := some run.cancel } }
  have outcome : Scene.cancelled controller = ended.conclude := cancelled_of_going here going
  obtain ⟨ending, activity, cancelled⟩ : ∃ ending, run.cancel.activity = .ended ending ∧
      ending.isCancelled = true := by
    rcases Run.cancel_of_going going with activity | activity <;> exact ⟨_, activity, rfl⟩
  rw [outcome]
  obtain ⟨latest, same, result⟩ := conclude_concludes ended rfl activity
  exact ⟨run.cancel, ending, ⟨latest, same, result⟩, cancelled⟩

/-! What callers leave of it. -/

def Follows (bond : Run Time → Run Time → Prop) (before after : Controller Time) : Prop :=
  ∀ later, after.cell.run = some later →
    later.isEnded = false ∨ ∃ run, before.cell.run = some run ∧ bond later run

section Follows

variable {bond : Run Time → Run Time → Prop} (lasting : Run.IsLasting bond)

include lasting

omit [TimeScale Time] in
theorem follows_of_same (same : after.cell.run = before.cell.run) : Follows bond before after :=
  fun later there => Or.inr ⟨later, same.symm.trans there, lasting.refl later⟩

omit [TimeScale Time] in
theorem Follows.trans {middle : Controller Time} (first : Follows bond before middle)
    (second : Follows bond middle after) : Follows bond before after := by
  intro later there
  rcases second later there with fresh | ⟨run, here, same⟩
  · exact Or.inl fresh
  · rcases first run here with fresh | ⟨earlier, known, old⟩
    · exact Or.inl ((lasting.isEnded same).trans fresh)
    · exact Or.inr ⟨earlier, known, lasting.trans same old⟩

omit [TimeScale Time] in
theorem apply_follows (effect : Effect) (controller : Controller Time) :
    Follows bond controller { controller with cell := controller.cell.apply effect } := by
  intro later there
  obtain ⟨run, here, rfl | rfl | ⟨id, name, value, rfl⟩⟩ :=
    Cell.apply_run effect controller.cell later there
  · exact Or.inr ⟨later, here, lasting.refl later⟩
  · exact Or.inr ⟨run, here, lasting.abort run⟩
  · exact Or.inr ⟨run, here, lasting.setParameter run id name value⟩

omit [TimeScale Time] in
theorem abortTarget_follows (controller : Controller Time) :
    Follows bond controller controller.abortTarget := by
  unfold abortTarget
  split
  · exact apply_follows lasting .abort controller
  · exact follows_of_same lasting rfl

theorem release_follows (caller : Caller) (controller : Controller Time) :
    Follows bond controller (controller.release caller) := by
  unfold release
  cases caller.wish with
  | stop => exact follows_of_same lasting rfl
  | start simulate confirm =>
      simp only [launch]
      cases controller.robot.abilities simulate with
      | error unfit => exact follows_of_same lasting rfl
      | ok abilities =>
          intro later there
          cases there
          exact Or.inl rfl

theorem follows_isKept : IsKept (Follows bond) where
  trans := Follows.trans lasting
  noted same := follows_of_same lasting same.run
  abort := abortTarget_follows lasting
  release := release_follows lasting

end Follows

def Continues (before after : Controller Time) : Prop :=
  ∀ later, after.cell.run = some later →
    later.isEnded = false ∨ ∃ run, before.cell.run = some run ∧ Run.SameWork later run

theorem continues_isKept : IsKept (Continues : Controller Time → Controller Time → Prop) :=
  follows_isKept Run.sameWork_isLasting

omit [TimeScale Time] in
theorem apply_continues (effect : Effect) (controller : Controller Time) :
    Continues controller { controller with cell := controller.cell.apply effect } :=
  apply_follows Run.sameWork_isLasting effect controller

omit [TimeScale Time] in
theorem Keeps.stays (keeps : before.Keeps after) (continues : before.Continues after) :
    Option.Rel Run.Stays before.cell.run after.cell.run := by
  have ends := keeps.ends
  cases here : before.cell.run with
  | none =>
      rw [here, Option.map_none, Option.map_eq_none_iff] at ends
      rw [ends]
      exact .none
  | some run =>
      obtain ⟨later, there, same⟩ : ∃ later, after.cell.run = some later ∧
          later.isEnded = run.isEnded := by
        rw [here] at ends
        obtain ⟨later, there, same⟩ := Option.map_eq_some_iff.mp ends
        exact ⟨later, there, same⟩
      rw [there]
      refine .some ?_
      -- Only a run that has not ended may be another one than before.
      rcases continues later there with fresh | ⟨earlier, known, work⟩
      · exact Run.stays_of_going (same.symm.trans fresh) fresh
      · cases here.symm.trans known
        exact work.stays

omit [TimeScale Time] in
theorem isRunning_of_stays (latest : Option.Rel Run.Stays before.cell.run after.cell.run) :
    after.isRunning = before.isRunning ∧ after.cell.run.isSome = before.cell.run.isSome := by
  unfold isRunning Cell.isRunning
  generalize before.cell.run = run at latest
  generalize after.cell.run = later at latest
  cases latest with
  | none => exact ⟨rfl, rfl⟩
  | some stays => exact ⟨by simp only [Option.any_some, stays.ended], rfl⟩

end Controller

end Latest

/-! Deeds. -/

namespace Scene

variable [TimeScale Time] {before after : Scene Time}

/-- What a deed does to the runs and to the result that the controller shows: nothing
that counts, or the latest run ends, or there is a new one. -/
inductive Turns (before after : Scene Time) : Prop where
  | rests (past : after.past = before.past)
      (latest : Option.Rel Run.Stays before.controller.cell.run after.controller.cell.run)
      (result : after.controller.lastResult = before.controller.lastResult)
      (unstarted : before.controller.starter? after.controller = none)
  | ends (run : Run Time) (ending : Ending Time) (past : after.past = before.past)
      (running : before.controller.isRunning = true)
      (concludes : before.controller.Concludes after.controller run ending)
      (doomed : ending.isCancelled = true → before.past.length ∈ before.doomed)
      (unstarted : before.controller.starter? after.controller = none)
  | launches (id : Nat) (idle : before.controller.isRunning = false)
      (past : after.past = before.tasks) (running : after.controller.isRunning = true)
      (result : after.controller.lastResult = before.controller.lastResult)
      (started : before.controller.starter? after.controller = some id)

omit [TimeScale Time] in
theorem unstarted_of_same (same : after.controller.answers = before.controller.answers) :
    before.controller.starter? after.controller = none :=
  Controller.starter?_of_unanswered (Controller.newAnswer?_same same)

theorem turns_of_same (past : after.past = before.past)
    (run : after.controller.cell.run = before.controller.cell.run)
    (result : after.controller.lastResult = before.controller.lastResult)
    (answers : after.controller.answers = before.controller.answers) : before.Turns after := by
  refine .rests past ?_ result (unstarted_of_same answers)
  rw [run]
  cases before.controller.cell.run with
  | none => exact .none
  | some run => exact .some (.refl run)

/-- What happens is the same before and after a caller has come or gone. -/
theorem Turns.from {middle : Scene Time} (turns : middle.Turns after)
    (past : middle.past = before.past)
    (run : middle.controller.cell.run = before.controller.cell.run)
    (result : middle.controller.lastResult = before.controller.lastResult)
    (answers : middle.controller.answers = before.controller.answers)
    (doomed : middle.doomed = before.doomed) : before.Turns after := by
  have running : middle.controller.isRunning = before.controller.isRunning := by
    unfold Controller.isRunning Cell.isRunning
    rw [run]
  have starter (given : Option Nat)
      (same : middle.controller.starter? after.controller = given) :
      before.controller.starter? after.controller = given := by
    unfold Controller.starter? Controller.newAnswer? at same ⊢
    rwa [← answers]
  cases turns with
  | rests same latest noted unstarted =>
      exact .rests (same.trans past) (run ▸ latest) (noted.trans result) (starter _ unstarted)
  | ends ended ending same active concludes gone unstarted =>
      obtain ⟨latest, activity, now, noted⟩ := concludes
      rw [result] at noted
      rw [past, doomed] at gone
      exact .ends ended ending (same.trans past) (running.symm.trans active)
        ⟨latest, activity, now, noted⟩ gone (starter _ unstarted)
  | launches id idle same active noted started =>
      refine .launches id (running.symm.trans idle) ?_ active (noted.trans result) (starter _ started)
      rw [same, tasks, tasks, past, run]

theorem follow_turns (scene : Scene Time) {after : Controller Time}
    (serves : scene.controller.Serves after) (continues : scene.controller.Continues after)
    (retains : scene.controller.Retains after) : scene.Turns (scene.follow after) := by
  cases serves with
  | done keeps holder quiet stopped =>
      have unstarted := Controller.starter?_of_unstarted quiet
      exact .rests (pastAfter_kept unstarted) (keeps.stays continues) retains.result unstarted
  | waits keeps running free unanswered =>
      have unstarted := Controller.starter?_of_unanswered unanswered
      exact .rests (pastAfter_kept unstarted) (keeps.stays continues) retains.result unstarted
  | launches id idle started running target free =>
      have starter := Controller.starter?_iff.mpr started
      exact .launches id idle (pastAfter_started starter) running retains.result starter

theorem receive_turns (wish : Wish) (stays : Bool) (scene : Scene Time) :
    scene.Turns (scene.receive wish stays) := by
  have turns := follow_turns
    { scene with
      callers := scene.callers + 1
      stayers := if stays then scene.callers :: scene.stayers else scene.stayers }
    (Controller.arrive_serves ⟨scene.callers, wish⟩ scene.controller)
    (Controller.continues_isKept.arrive _ _) (Controller.arrive_retains _ _)
  exact turns.from rfl rfl rfl rfl rfl

theorem next_turns {scene : Scene Time} (sound : scene.Sound) (move : Move Time)
    (allowed : scene.allows move = true) : scene.Turns (scene.next move) := by
  -- Only a caller that is served can start a run, and only its task can end one.
  cases move with
  | call errand =>
      cases errand with
      | start | run | stop => exact receive_turns _ _ scene
      | wait =>
          simp only [next, meet]
          split <;> exact turns_of_same rfl rfl rfl rfl
      | importBlocks blocks => exact turns_of_same rfl rfl rfl rfl
  | letIn =>
      have free : scene.controller.holder = none := Option.isNone_iff_eq_none.mp allowed
      exact follow_turns scene (Controller.admitNext_serves _ free)
        (Controller.continues_isKept.admitNext _) (Controller.admitNext_retains _)
  | resume =>
      have idle := idle_of_resume sound allowed
      have continues : scene.letGo.controller.Continues scene.controller.resumeHolder :=
        Controller.continues_isKept.resumeHolder scene.controller
      have freed : scene.letGo.controller.Retains scene.controller := .of_same rfl rfl
      have turns := follow_turns scene.letGo (Controller.resumeHolder_serves _ idle) continues
        (freed.trans (Controller.resumeHolder_retains _))
      exact turns.from rfl rfl rfl rfl rfl
  | unwind number =>
      simp only [allows, Bool.and_eq_true, List.contains_eq_mem, decide_eq_true_eq] at allowed
      obtain ⟨rfl, running, outcome⟩ := onTask_latest sound number cancelled allowed.2
      obtain ⟨run, ending, concludes, -⟩ := Controller.cancelled_concludes running
      have same := scene.controller.cancelled_runsOn.sameLine.answers
      simp only [next, outcome]
      exact .ends run ending rfl running concludes (fun _ => allowed.1) (unstarted_of_same same)
  | step number =>
      simp only [allows, Bool.and_eq_true] at allowed
      obtain ⟨rfl, running, outcome⟩ := onTask_latest sound number (·.stepRun) allowed.1
      have same := scene.controller.stepRun_runsOn.sameLine.answers
      simp only [next, outcome]
      rcases Controller.stepRun_concludes running with
        ⟨still, result⟩ | ⟨run, ending, concludes, uncancelled⟩
      · refine .rests rfl ?_ result (unstarted_of_same same)
        obtain ⟨run, here, going⟩ := scene.controller.isRunning_iff.mp running
        obtain ⟨later, there, unended⟩ := (Controller.isRunning_iff _).mp still
        simp only [here, there]
        exact .some (Run.stays_of_going going unended)
      · exact .ends run ending rfl running concludes
          (fun cancelled => absurd (uncancelled.symm.trans cancelled) Bool.false_ne_true)
          (unstarted_of_same same)
  | effect effect =>
      have keeps := Controller.apply_keeps effect scene.controller
      exact .rests rfl (keeps.stays (Controller.apply_continues effect _)) rfl (unstarted_of_same rfl)
  | abandonWait place =>
      simp only [next, abandon]
      split <;> exact turns_of_same rfl rfl rfl rfl
  | abandonHold | abandonQueue | finishWait | doom | equip | arm | pass =>
      exact turns_of_same rfl rfl rfl rfl

theorem after_turns {scene : Scene Time} (sound : scene.Sound) (deed : Deed Time)
    (allowed : scene.allowsDeed deed = true) : scene.Turns (scene.after deed) := by
  cases deed with
  | moves move => exact next_turns sound move allowed
  | edit draft entries => exact turns_of_same rfl rfl rfl rfl

end Scene

end ArmProgram
