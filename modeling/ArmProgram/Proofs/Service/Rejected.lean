import ArmProgram.Proofs.Service.Requests
import ArmProgram.Proofs.Controller.SingleRun

/-!
Requests that are turned down. Whatever is wrong with a request, its path, its
body, what it looks for or the moment at which it comes, nothing changes with
it.
-/

namespace ArmProgram

namespace Scene

/-- Nothing has changed but who is in line and which answers were given: not the
program, the need for a confirmation, the last result or any run. -/
structure Spares (before after : Scene Float) : Prop where
  controller : before.controller.Spares after.controller
  past : after.past = before.past

theorem spares_refl (scene : Scene Float) : scene.Spares scene :=
  ⟨rfl, rfl⟩

/-- A caller that is refused has found the controller as it leaves it. -/
theorem follow_refused (scene : Scene Float) {after : Controller Float} {served : Option Caller}
    (admits : scene.controller.Admits after served) (id : Nat) (refusal : Refusal)
    (given : scene.controller.newAnswer? after = some (id, .refused refusal)) :
    scene.Spares (scene.follow after) := by
  obtain ⟨simulate, confirm, -, fails⟩ := admits.failure id (.refused refusal) given rfl
  cases fails with
  | refused _ _ spared =>
      have unstarted := Controller.starter?_of_unstarted fun other started =>
        nomatch given.symm.trans started
      exact ⟨spared, pastAfter_kept unstarted⟩

theorem receive_refused (wish : Wish) (stays : Bool) (scene : Scene Float) (id : Nat)
    (refusal : Refusal)
    (given : scene.controller.newAnswer? (scene.receive wish stays).controller =
      some (id, .refused refusal)) : scene.Spares (scene.receive wish stays) := by
  have refused := follow_refused
    { scene with
      callers := scene.callers + 1
      stayers := if stays then scene.callers :: scene.stayers else scene.stayers }
    (Controller.arrive_admits ⟨scene.callers, wish⟩ scene.controller) id refusal given
  exact ⟨refused.controller, refused.past⟩

theorem obey_rejected (order : Order) (scene : Scene Float) (response : Response)
    (answered : (scene.obey order).2 = some response) (problem : 400 ≤ response.status) :
    scene.Spares (scene.obey order).1 := by
  unfold obey at answered ⊢
  split at answered
  · rename_i after response' handled
    cases answered
    have same := scene.controller.handle_rejected order response (by rw [handled]) problem
    rw [handled] at same
    simp only
    cases same
    exact spares_refl scene
  · rename_i wish handled
    simp only
    obtain ⟨answer, given, replied⟩ := Option.bind_eq_some_iff.mp answered
    obtain ⟨⟨id, _⟩, news, rfl⟩ := Option.map_eq_some_iff.mp given
    cases reply : Service.replyOf (some _) with
    | error breakdown => rw [reply] at replied; cases replied
    | ok response' =>
        rw [reply] at replied
        cases replied
        obtain ⟨refusal, rfl⟩ := Service.replyOf_problem _ response reply problem
        exact receive_refused wish false scene id refusal news

theorem respond_rejected (request : Request) (scene : Scene Float) (response : Response)
    (answered : (scene.respond request).2 = some response) (problem : 400 ≤ response.status) :
    scene.Spares (scene.respond request).1 := by
  unfold respond at answered ⊢
  cases given : request.order scene.controller.nextId with
  | error misread => exact spares_refl scene
  | ok order =>
      rw [given] at answered
      exact scene.obey_rejected order response answered problem

/-- A start that has been in line is refused when it is let in, and changes
nothing then. -/
theorem letIn_refused (scene : Scene Float) (allowed : scene.allows .letIn = true) (id : Nat)
    (refusal : Refusal)
    (given : scene.controller.newAnswer? (scene.next .letIn).controller =
      some (id, .refused refusal)) : scene.Spares (scene.next .letIn) := by
  have free : scene.controller.holder = none := Option.isNone_iff_eq_none.mp allowed
  exact follow_refused scene (Controller.admitNext_admits scene.controller free) id refusal given

/-- A start that has waited for a run to unwind is refused no more. -/
theorem resume_unrefused (scene : Scene Float) (id : Nat) (refusal : Refusal) :
    scene.controller.newAnswer? (scene.next .resume).controller ≠ some (id, .refused refusal) := by
  intro given
  have admits := Controller.resumeHolder_admits scene.controller
  obtain ⟨simulate, confirm, held, fails⟩ := admits.failure id (.refused refusal) given rfl
  cases fails with
  | refused _ _ spared =>
      -- Who goes on lets go of the controller, and a refusal would have left it held.
      have same := congrArg Controller.holder spared
      rw [scene.controller.resumeHolder_free] at same
      exact absurd (same.trans held) nofun

end Scene

/-- Whatever a controller and its callers are at, a request that is turned down
changes nothing: one that is answered at once, a start that is refused when its
turn comes, and any request to the service while nobody else makes one. A start
that has waited for the run before is not refused any more. -/
theorem rejected_requests_change_nothing :
    (∀ (scene : Scene Float) (request : Request) (response : Response),
      (scene.respond request).2 = some response → 400 ≤ response.status →
      scene.Spares (scene.respond request).1) ∧
    (∀ (scene : Scene Float) (id : Nat) (refusal : Refusal), scene.allows .letIn = true →
      scene.controller.newAnswer? (scene.next .letIn).controller = some (id, .refused refusal) →
      scene.Spares (scene.next .letIn)) ∧
    (∀ (scene : Scene Float) (id : Nat) (refusal : Refusal),
      scene.controller.newAnswer? (scene.next .resume).controller ≠
        some (id, .refused refusal)) ∧
    (∀ (start : Service) (happenings : List Service.Happening) (request : Request)
      (response : Response), start.IsNew →
      ((happenings.foldl Service.undergo start).respond request).2 = .ok response →
      400 ≤ response.status →
      ((happenings.foldl Service.undergo start).respond request).1.standing =
          (happenings.foldl Service.undergo start).standing ∧
        ∀ controller, happenings.foldl Service.undergo start = .opened controller →
          ((happenings.foldl Service.undergo start).respond request).1 = .opened controller) := by
  refine ⟨fun scene request response => scene.respond_rejected request response,
    fun scene id refusal allowed => scene.letIn_refused allowed id refusal,
    fun scene => scene.resume_unrefused, ?_⟩
  intro start happenings request response new replied problem
  have quiet := Service.undergoes_quiet happenings new.isQuiet
  obtain ⟨same, kept⟩ :=
    (Service.respond_responds request quiet).rejected response replied problem
  exact ⟨same, fun controller there => (kept controller there).trans there⟩

def lonelyGrip : Scene Float :=
  .opening (.resting 0 true none) [] ⟨[⟨"grip", "open_gripper", .empty, none, none⟩]⟩ .default .arm 1

/-- The second of three starts has let go of the controller, and the arm is gone before the third
is let in. -/
def lostArm : Scene Float :=
  [.call (.start false false), .call (.start false false), .call (.start false false), .abandonHold,
    .effect .disconnect].foldl Scene.next lonelyGrip

def removal : Request := ⟨"DELETE", "/program/blocks/loop", .absent⟩

theorem removal_changes_nothing :
    ((lostArm.respond removal).2 = some .running ∧ lostArm.Spares (lostArm.respond removal).1) ∧
    (lostArm.controller.newAnswer? (lostArm.next .letIn).controller =
        some (2, .refused .notConnected) ∧ lostArm.Spares (lostArm.next .letIn)) ∧
    ((Service.opened lonelyGrip.controller).respond removal).2 =
        .ok (.unknownTarget (.unknownBlock "loop")) ∧
      ((Service.opened lonelyGrip.controller).respond removal).1.standing =
        (Service.opened lonelyGrip.controller).standing := by
  have given : removal.order 1 = .ok (.removeBlock "loop") := rfl
  have running : (lostArm.respond removal).2 = some .running := by
    have active : lostArm.controller.isRunning = true := by decide +kernel
    have numbered : lostArm.controller.nextId = 1 := by decide +kernel
    rw [← numbered] at given
    rw [Scene.respond_of_order given]
    simp only [Scene.obey, Controller.handle, Controller.whenIdle, active, ↓reduceIte]
  have refused : lostArm.controller.newAnswer? (lostArm.next .letIn).controller =
      some (2, .refused .notConnected) := by decide +kernel
  have unknown : ((Service.opened lonelyGrip.controller).respond removal).2 =
      .ok (.unknownTarget (.unknownBlock "loop")) := by
    have numbered : (Service.opened lonelyGrip.controller).nextId = 1 := rfl
    rw [Service.respond_eq, numbered, given]
    rfl
  obtain ⟨turned, late, -, served⟩ := rejected_requests_change_nothing
  refine ⟨⟨running, ?_⟩, ⟨refused, ?_⟩, unknown, ?_⟩
  · exact turned _ _ _ running (by decide)
  · exact late _ 2 .notConnected rfl refused
  · exact (served _ [] removal _ (.given ..) unknown (by decide)).1

end ArmProgram
