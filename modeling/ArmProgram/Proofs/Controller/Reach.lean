import ArmProgram.Proofs.Run.Reach
import ArmProgram.Proofs.Controller.Watch

/-!
The servos of an arm under a controller. Callers never move one; the runs do, in
the steps they take, and every run of the past keeps the call it was left in, so
it can still end later.
-/

namespace ArmProgram

variable {Time : Type} [TimeScale Time]

namespace Controller

open Cell (Rests grounded_rests)

omit [TimeScale Time] in
theorem Retains.rests {before after : Controller Time} (retains : before.Retains after) :
    Rests after.cell before.cell := by
  refine ⟨by rw [retains.arm], by rw [retains.arm], fun call flies => ?_⟩
  obtain ⟨later, there, flying⟩ := Option.bind_eq_some_iff.mp flies
  rcases retains.run later there with ⟨fresh, -⟩ | ⟨run, here, activity, -⟩
  · simp [Run.inFlight?, fresh] at flying
  · simpa [Cell.inFlight?, Run.inFlight?, here, activity] using flying

/-! What the runs do. -/

omit [TimeScale Time] in
theorem Reports.rests {before after : Controller Time} (reports : before.Reports after) :
    Rests after.cell before.cell := by
  obtain ⟨journal, target, result, rfl⟩ := reports
  exact ⟨rfl, rfl, fun _ flies => flies⟩

theorem stepRun_safe {controller : Controller Time} (safe : controller.cell.IsSafe)
    (ready : controller.cell.isReady = true) : controller.stepRun.cell.IsSafe :=
  (Cell.stepRun_safe safe ready).of_rests (stepRun_reports controller).rests

theorem cancelled_rests (controller : Controller Time) :
    Rests (Scene.cancelled controller).cell controller.cell :=
  (cancelled_reports controller).rests.trans controller.cell.cancel_rests

end Controller

namespace Scene

/-- The arm is in reach, and no run waits for a call that could change that. -/
structure IsSafe (scene : Scene Time) : Prop where
  cell : scene.controller.cell.IsSafe
  past : ∀ run ∈ scene.past, ∀ call, run.inFlight? = some call → call.IsSafe

omit [TimeScale Time] in
theorem IsSafe.tasks {scene : Scene Time} (safe : scene.IsSafe) (run : Run Time)
    (member : run ∈ scene.tasks) (call : Call) (flies : run.inFlight? = some call) :
    call.IsSafe := by
  rcases List.mem_append.mp member with old | latest
  · exact safe.past run old call flies
  · refine safe.cell.flies call ?_
    rw [Cell.inFlight?, Option.mem_toList.mp latest]
    exact flies

omit [TimeScale Time] in
theorem follow_safe {scene : Scene Time} (safe : scene.IsSafe) {after : Controller Time}
    (rests : Cell.Rests after.cell scene.controller.cell) : (scene.follow after).IsSafe := by
  refine ⟨safe.cell.of_rests rests, fun run member call flies => ?_⟩
  simp only [follow, pastAfter] at member
  split at member
  · exact safe.tasks run member call flies
  · exact safe.past run member call flies

theorem receive_safe {scene : Scene Time} (safe : scene.IsSafe) (wish : Wish) (stays : Bool) :
    (scene.receive wish stays).IsSafe := by
  have joined : ({ scene with
      callers := scene.callers + 1
      stayers := if stays then scene.callers :: scene.stayers else scene.stayers } :
      Scene Time).IsSafe := ⟨safe.cell, safe.past⟩
  exact follow_safe joined (Controller.arrive_retains ⟨scene.callers, wish⟩ scene.controller).rests

omit [TimeScale Time] in
theorem onTask_safe {scene : Scene Time} (safe : scene.IsSafe) (number : Nat)
    (goOn : Controller Time → Controller Time)
    (kept : ∀ controller : Controller Time, controller.cell.now = scene.controller.cell.now →
      controller.cell.run = scene.tasks[number]? → controller.cell.IsSafe →
        (goOn controller).cell.IsSafe) : (scene.onTask number goOn).IsSafe := by
  unfold onTask
  split
  · rename_i latest
    refine ⟨kept scene.controller rfl ?_ safe.cell, safe.past⟩
    rw [latest, tasks_last]
  · split
    · exact safe
    · rename_i run there
      have member : run ∈ scene.past := List.mem_of_getElem? there
      have same := scene.tasks_past there
      -- The past run takes the cell over, and then gives it back to the latest.
      have lent := kept
        { scene.controller with cell := { scene.controller.cell with run := some run } }
        rfl same.symm ⟨safe.cell.arm, fun call flies => safe.past run member call flies⟩
      simp only
      generalize goOn
        { scene.controller with cell := { scene.controller.cell with run := some run } } =
          after at lent ⊢
      refine ⟨⟨lent.arm, fun call flies => safe.cell.flies call flies⟩,
        fun other listed call flies => ?_⟩
      rcases List.mem_or_eq_of_mem_set listed with old | new
      · exact safe.past other old call flies
      · subst new
        cases here : after.cell.run with
        | none => exact safe.past run member call (by simpa [here] using flies)
        | some later =>
            exact lent.flies call (by simpa [Cell.inFlight?, here] using flies)

theorem next_safe {scene : Scene Time} (safe : scene.IsSafe) (move : Move Time)
    (allowed : scene.allows move = true) : (scene.next move).IsSafe := by
  have calm {controller : Controller Time}
      (rests : Cell.Rests controller.cell scene.controller.cell) : controller.cell.IsSafe :=
    safe.cell.of_rests rests
  cases move with
  | call errand =>
      cases errand with
      | start | run | stop => exact receive_safe safe _ _
      | wait =>
          simp only [next, meet]
          split
          · exact ⟨safe.cell, safe.past⟩
          · exact safe
      | importBlocks blocks => exact ⟨calm ⟨rfl, rfl, fun _ flies => flies⟩, safe.past⟩
  | letIn => exact follow_safe safe (Controller.admitNext_retains scene.controller).rests
  | resume =>
      have free : scene.letGo.IsSafe := ⟨safe.cell, safe.past⟩
      exact follow_safe free (Controller.resumeHolder_retains scene.controller).rests
  | abandonHold | abandonQueue | finishWait | doom | equip => exact ⟨safe.cell, safe.past⟩
  | abandonWait place =>
      simp only [next, abandon]
      split <;> exact ⟨safe.cell, safe.past⟩
  | unwind number =>
      exact onTask_safe safe number _ fun controller _ _ mine =>
        mine.of_rests controller.cancelled_rests
  | step number =>
      simp only [allows, Bool.and_eq_true] at allowed
      refine onTask_safe safe number _ fun controller now run mine =>
        Controller.stepRun_safe mine ?_
      rw [Cell.isReady, run, now]
      exact allowed.2
  | effect effect => exact ⟨calm (Cell.apply_rests effect _), safe.past⟩
  | arm | pass => exact ⟨calm ⟨rfl, rfl, fun _ flies => flies⟩, safe.past⟩

theorem after_safe {scene : Scene Time} (safe : scene.IsSafe) (deed : Deed Time)
    (allowed : scene.allowsDeed deed = true) : (scene.after deed).IsSafe := by
  cases deed with
  | moves move => exact next_safe safe move allowed
  | edit draft entries =>
      exact ⟨safe.cell.of_rests ⟨rfl, rfl, fun _ flies => flies⟩, safe.past⟩

theorem opening_safe (latency : Time) (connected : Bool) (failOn : Option String)
    (hooks : List Hook) (program : Program) (config : Config) (robot : Robot) (nextId : Nat) :
    (opening (.resting latency connected failOn) hooks program config robot nextId).IsSafe :=
  ⟨Cell.opening_safe latency connected failOn hooks program, fun _ member => nomatch member⟩

end Scene

theorem Vigil.safe {first last : Watch Time} (vigil : Vigil first last)
    (start : first.scene.IsSafe) : last.scene.IsSafe := by
  induction vigil with
  | here => exact start
  | next deed allowed _ ih => exact ih (Scene.after_safe start deed allowed)

/-- Every move that a run asks for is a single command that serves the joint of
its block. So no servo ever leaves the limits of its joint, in cells that are
driven by the engine and under a controller. -/
theorem moves_stay_in_reach :
    (∀ (now : Time) (connected : Bool) (blocks : List Block) (abilities : Abilities)
        (config : Config) (token : Token Time) (moment : Moment Time),
      Course (.initial now connected blocks abilities config token) moment →
      ∀ commands, moment.asked? = some (.moveJoints commands) →
        ∃ node joint angle target command, commands = [command] ∧
          Block.Commands blocks moment.run.view node joint angle target command) ∧
    (∀ cell : Cell Time, cell.Driven → cell.arm.IsInReach) ∧
    (∀ (latency : Time) (connected : Bool) (failOn : Option String) (hooks : List Hook)
        (program : Program) (config : Config) (robot : Robot) (nextId : Nat) (watch : Watch Time),
      Vigil (.ofScene (.opening (.resting latency connected failOn) hooks program config robot
        nextId)) watch →
      watch.scene.controller.cell.arm.IsInReach) := by
  refine ⟨?_, ?_, ?_⟩
  · intro now connected blocks abilities config token moment course commands asked
    exact course.move_commands commands asked
  · intro cell driven
    exact driven.safe.arm
  · intro latency connected failOn hooks program config robot nextId watch vigil
    have safe := vigil.safe
      (Scene.opening_safe latency connected failOn hooks program config robot nextId)
    exact safe.cell.arm

/-- A base that is to turn further than it can stops at its limit. -/
theorem far_turn_stops_at_limit :
    ∃ blocks : List Block, blocks = [⟨"turn", "move_to",
        .ofList [("joint", .text "base"), ("angle", .number (.int 400))], none, none⟩] ∧
      ∃ moment : Moment Float, Nonempty (Course
          (.initial 0 true blocks ⟨false, false, false, .robot⟩ .default (.fresh 9 9)) moment) ∧
        moment.asked? = some (.moveJoints [⟨1, .double 290⟩]) ∧
        ∃ node joint angle target,
          Block.Commands blocks moment.run.view node joint angle target ⟨1, .double 290⟩ := by
  refine ⟨_, rfl, ?_⟩
  have reached : ∃ moment : Moment Float, Nonempty (Course
        (.initial 0 true [⟨"turn", "move_to",
          .ofList [("joint", .text "base"), ("angle", .number (.int 400))], none, none⟩]
          ⟨false, false, false, .robot⟩ .default (.fresh 9 9)) moment) ∧
      moment.asked? = some (.moveJoints [⟨1, .double 290⟩]) := by
    refine ⟨_, ⟨.next .step (.step rfl) <| .next .step (.step rfl) <| .next .step (.step rfl) <|
      .next .step (.step rfl) <| .here _⟩, ?_⟩
    rfl
  obtain ⟨moment, ⟨course⟩, asked⟩ := reached
  obtain ⟨node, joint, angle, target, command, single, commands⟩ :=
    moves_stay_in_reach.1 _ _ _ _ _ _ moment course _ asked
  cases single
  exact ⟨moment, ⟨course⟩, asked, node, joint, angle, target, commands⟩

end ArmProgram
