import Mathlib.Data.List.Perm.Subperm
import Mathlib.Data.List.Nodup
import ArmProgram.Proofs.Controller.Sole
import ArmProgram.Proofs.Controller.Watch

/-!
Callers and their answers. A caller holds the controller, is in line or has been
answered, one of these at a time, so it is answered once at most. The answers say
whose start has launched which run.
-/

namespace ArmProgram

variable {Time : Type}

namespace Controller

variable {before middle after : Controller Time}

def line (controller : Controller Time) : List Nat :=
  (controller.holder.toList ++ controller.queue).map (·.id) ++ controller.answers.map (·.1)

structure Advances (arrived : List Nat) (before after : Controller Time) : Prop where
  line : after.line.Subperm (arrived ++ before.line)
  answers : after.answers = (before.newAnswer? after).toList ++ before.answers

theorem advances_unanswered {arrived : List Nat} (line : after.line.Subperm (arrived ++ before.line))
    (answers : after.answers = before.answers) : Advances arrived before after := by
  refine ⟨line, ?_⟩
  rw [newAnswer?_same answers]
  exact answers

theorem SameLine.advances (same : before.SameLine after) : Advances [] before after := by
  refine advances_unanswered ?_ same.answers
  unfold Controller.line
  rw [same.holder, same.queue, same.answers]
  exact List.Subperm.refl _

/-- What a controller was before counts only by its line and its answers. -/
theorem Advances.from {arrived : List Nat} (advances : Advances arrived middle after)
    {others : List Nat} (line : (arrived ++ middle.line).Subperm (others ++ before.line))
    (answers : middle.answers = before.answers) : Advances others before after := by
  refine ⟨advances.line.trans line, ?_⟩
  have same := advances.answers
  unfold newAnswer? at same ⊢
  rwa [answers] at same

inductive Attends (caller : Caller) (before after : Controller Time) : Prop where
  | holds (holder : after.holder = some caller) (queue : after.queue = before.queue)
      (answers : after.answers = before.answers)
  | answers (answer : Answer) (holder : after.holder = before.holder)
      (queue : after.queue = before.queue)
      (answers : after.answers = (caller.id, answer) :: before.answers)

theorem Attends.advances {caller : Caller} (attends : Attends caller before after)
    (free : before.holder = none) : Advances [caller.id] before after := by
  cases attends with
  | holds holder queue answers =>
      refine advances_unanswered ?_ answers
      simp only [Controller.line, holder, queue, answers, free]
      exact List.Subperm.refl _
  | answers answer holder queue answers =>
      refine ⟨?_, ?_⟩
      · simp only [Controller.line, holder, queue, answers, List.map_cons]
        exact List.perm_middle.subperm
      · rw [newAnswer?_cons answers]
        exact answers

theorem Releases.attends {caller : Caller} (releases : Releases caller.id before after) :
    Attends caller before after :=
  have ⟨answer, _, answers⟩ := releases.answers
  .answers answer releases.holder releases.queue answers

variable [TimeScale Time]

theorem stopActive_attends (caller : Caller) (controller : Controller Time) :
    Attends caller controller (controller.stopActive caller) := by
  have aborted := (abortTarget_runsOn controller).sameLine
  unfold stopActive
  simp only
  split
  · exact .holds rfl aborted.queue aborted.answers
  · have released := release_releases caller controller.abortTarget
    obtain ⟨answer, -, answers⟩ := released.answers
    refine .answers answer (released.holder.trans aborted.holder)
      (released.queue.trans aborted.queue) ?_
    rw [answers, aborted.answers]

theorem enter_attends (caller : Caller) (controller : Controller Time) :
    Attends caller controller (controller.enter caller) := by
  unfold enter
  split
  · exact stopActive_attends caller controller
  · split
    · exact .answers _ rfl rfl rfl
    · exact stopActive_attends caller controller

theorem arrive_advances (caller : Caller) (controller : Controller Time) :
    Advances [caller.id] controller (controller.arrive caller) := by
  unfold arrive
  split
  · rename_i vacant
    rw [Bool.and_eq_true, Option.isNone_iff_eq_none] at vacant
    exact (enter_attends caller controller).advances vacant.1
  · refine advances_unanswered ?_ rfl
    simp only [line, ← List.append_assoc, List.map_append, List.map_cons, List.map_nil]
    rw [List.append_assoc _ [caller.id], List.singleton_append]
    exact List.perm_middle.subperm

theorem admitNext_advances (controller : Controller Time) (free : controller.holder = none) :
    Advances [] controller controller.admitNext := by
  unfold admitNext
  cases queue : controller.queue with
  | nil => exact SameLine.advances ⟨rfl, rfl, rfl⟩
  | cons caller rest =>
      have entered := (enter_attends caller { controller with queue := rest }).advances free
      refine entered.from ?_ rfl
      simp only [line, free, queue]
      exact List.Subperm.refl _

theorem resumeHolder_advances (controller : Controller Time) :
    Advances [] controller controller.resumeHolder := by
  unfold resumeHolder
  cases held : controller.holder with
  | none => exact SameLine.advances ⟨rfl, rfl, rfl⟩
  | some caller =>
      have released := release_releases caller { controller with holder := none }
      refine (released.attends.advances rfl).from ?_ rfl
      simp only [line, held]
      exact List.Subperm.refl _

end Controller

namespace Scene

variable {before after : Scene Time}

def starters (scene : Scene Time) : List Nat :=
  (scene.controller.answers.filterMap fun
    | (id, .started) => some id
    | _ => none).reverse

/-- Every caller is in one place of the line, and all of them have come. -/
structure Lined (scene : Scene Time) : Prop where
  nodup : scene.controller.line.Nodup
  known : ∀ id ∈ scene.controller.line, id < scene.callers

/-- What a move does to the callers: it brings at most one, under a new number. -/
def Proceeds (before after : Scene Time) : Prop :=
  (before.controller.Advances [] after.controller ∧ after.callers = before.callers) ∨
    (before.controller.Advances [before.callers] after.controller ∧
      after.callers = before.callers + 1)

theorem Proceeds.answers (proceeds : before.Proceeds after) :
    after.controller.answers =
      (before.controller.newAnswer? after.controller).toList ++ before.controller.answers := by
  rcases proceeds with ⟨advances, -⟩ | ⟨advances, -⟩
  · exact advances.answers
  · exact advances.answers

theorem Proceeds.lined (proceeds : before.Proceeds after) (lined : before.Lined) : after.Lined := by
  rcases proceeds with ⟨⟨line, -⟩, callers⟩ | ⟨⟨line, -⟩, callers⟩
  · obtain ⟨same, perm, sub⟩ := line
    refine ⟨perm.nodup_iff.mp (lined.nodup.sublist sub), fun id member => ?_⟩
    rw [callers]
    exact lined.known id (sub.subset (perm.mem_iff.mpr member))
  · have fresh : (before.callers :: before.controller.line).Nodup :=
      List.nodup_cons.mpr ⟨fun old => Nat.lt_irrefl _ (lined.known _ old), lined.nodup⟩
    obtain ⟨same, perm, sub⟩ := line
    refine ⟨perm.nodup_iff.mp (fresh.sublist sub), fun id member => ?_⟩
    rw [callers]
    rcases List.mem_cons.mp (sub.subset (perm.mem_iff.mpr member)) with rfl | old
    · exact Nat.lt_succ_self _
    · exact Nat.lt_succ_of_lt (lined.known id old)

theorem Proceeds.starters (proceeds : before.Proceeds after) :
    after.starters =
      before.starters ++ (before.controller.starter? after.controller).toList := by
  unfold Scene.starters Controller.starter?
  rw [proceeds.answers]
  cases before.controller.newAnswer? after.controller with
  | none => simp
  | some entry =>
      obtain ⟨id, answer⟩ := entry
      cases answer <;> simp

theorem mem_starters {scene : Scene Time} {id : Nat} (started : id ∈ scene.starters) :
    id ∈ scene.controller.line := by
  obtain ⟨⟨caller, answer⟩, answered, same⟩ :=
    List.mem_filterMap.mp (List.mem_reverse.mp started)
  refine List.mem_append_right _ (List.mem_map.mpr ⟨(caller, answer), answered, ?_⟩)
  cases answer with
  | started => exact Option.some.inj same
  | _ => cases same

theorem Lined.starters {scene : Scene Time} (lined : scene.Lined) : scene.starters.Nodup := by
  have answered : (scene.controller.answers.map (·.1)).Nodup :=
    lined.nodup.sublist (List.sublist_append_right _ _)
  unfold Scene.starters
  rw [List.nodup_reverse]
  refine answered.sublist ?_
  induction scene.controller.answers with
  | nil => exact List.Sublist.slnil
  | cons entry rest ih =>
      obtain ⟨id, answer⟩ := entry
      cases answer with
      | started => exact ih.cons_cons id
      | _ => exact ih.cons id

/-- A run that goes on leaves all callers where they are. -/
theorem onTask_people (number : Nat) (goOn : Controller Time → Controller Time)
    (scene : Scene Time) :
    (scene.onTask number goOn).callers = scene.callers ∧
      (scene.onTask number goOn).stayers = scene.stayers ∧
      (scene.onTask number goOn).waiters = scene.waiters ∧
      (scene.onTask number goOn).doomed = scene.doomed := by
  unfold onTask
  split
  · exact ⟨rfl, rfl, rfl, rfl⟩
  · split <;> exact ⟨rfl, rfl, rfl, rfl⟩

variable [TimeScale Time]

theorem receive_proceeds (wish : Wish) (stays : Bool) (scene : Scene Time) :
    scene.Proceeds (scene.receive wish stays) :=
  Or.inr ⟨Controller.arrive_advances ⟨scene.callers, wish⟩ scene.controller, rfl⟩

theorem next_proceeds (scene : Scene Time) (move : Move Time)
    (allowed : scene.allows move = true) : scene.Proceeds (scene.next move) := by
  have quiet {after : Scene Time} (same : scene.controller.SameLine after.controller)
      (callers : after.callers = scene.callers) : scene.Proceeds after :=
    Or.inl ⟨same.advances, callers⟩
  cases move with
  | call errand =>
      cases errand with
      | start | run | stop => exact receive_proceeds _ _ scene
      | wait =>
          simp only [next, meet]
          split <;> exact quiet ⟨rfl, rfl, rfl⟩ rfl
      | importBlocks blocks => exact quiet ⟨rfl, rfl, rfl⟩ rfl
  | letIn =>
      have free : scene.controller.holder = none := Option.isNone_iff_eq_none.mp allowed
      exact Or.inl ⟨Controller.admitNext_advances _ free, rfl⟩
  | resume => exact Or.inl ⟨Controller.resumeHolder_advances _, rfl⟩
  | abandonHold =>
      refine Or.inl ⟨Controller.advances_unanswered (List.Sublist.subperm ?_) rfl, rfl⟩
      refine (List.Sublist.map _ ?_).append_right _
      exact List.sublist_append_right _ _
  | abandonQueue place =>
      refine Or.inl ⟨Controller.advances_unanswered (List.Sublist.subperm ?_) rfl, rfl⟩
      refine (List.Sublist.map _ ?_).append_right _
      exact (List.eraseIdx_sublist _ _).append_left _
  | abandonWait place =>
      simp only [next, abandon]
      split <;> exact quiet ⟨rfl, rfl, rfl⟩ rfl
  | unwind number =>
      exact quiet (onTask_runsOn number _ scene Controller.cancelled_runsOn).sameLine
        (scene.onTask_people number cancelled).1
  | step number =>
      exact quiet (onTask_runsOn number _ scene Controller.stepRun_runsOn).sameLine
        (scene.onTask_people number (·.stepRun)).1
  | finishWait | doom | effect | equip | arm | pass => exact quiet ⟨rfl, rfl, rfl⟩ rfl

theorem after_proceeds (scene : Scene Time) (deed : Deed Time)
    (allowed : scene.allowsDeed deed = true) : scene.Proceeds (scene.after deed) := by
  cases deed with
  | moves move => exact scene.next_proceeds move allowed
  | edit draft entries => exact Or.inl ⟨Controller.SameLine.advances ⟨rfl, rfl, rfl⟩, rfl⟩

end Scene

end ArmProgram
