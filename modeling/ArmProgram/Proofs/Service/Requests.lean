import ArmProgram.Service.Basic
import ArmProgram.Proofs.Controller.Sole
import ArmProgram.Proofs.Program.Edits

/-!
Requests. What a request asks for is read off it before the controller is looked
at; the order it gives is then carried out in one step, or its caller waits. A
service answers its requests one after another, and whatever is turned down is
turned down before anything is changed.
-/

namespace ArmProgram

/-! What a request asks for. -/

def Order.edits : Order → Bool
  | importProgram .. | clearProgram | addBlock .. | addChild .. | setParameter ..
  | removeBlock _ => true
  | health | showProgram | start .. | stop | showStatus | showResult | showRobot => false

def Request.order (next : Nat) (request : Request) : Except Response Order :=
  match Endpoint.atTarget request.target with
  | [] => .error .unknownPath
  | endpoints =>
      match (Method.ofName? request.method).bind (endpoints.lookup ·) with
      | none => .error .wrongMethod
      | some endpoint =>
          (Order.ofRequest next request.body endpoint).mapError Service.responseTo

theorem Request.order_of_endpoint (next : Nat) {method target : String} (body : Body)
    {endpoint : Endpoint} (found : (Method.ofName? method).bind
      ((Endpoint.atTarget target).lookup ·) = some endpoint) :
    order next ⟨method, target, body⟩ =
      (Order.ofRequest next body endpoint).mapError Service.responseTo := by
  unfold order
  cases there : Endpoint.atTarget target with
  | nil =>
      obtain ⟨_, -, none⟩ := Option.bind_eq_some_iff.mp found
      rw [there] at none
      cases none
  | cons first rest =>
      rw [there] at found
      simp only [found]

theorem Service.respond_eq (request : Request) (service : Service) :
    service.respond request =
      match request.order service.nextId with
      | .error response => (service, .ok response)
      | .ok order => service.obey order := by
  unfold Service.respond Request.order
  cases Endpoint.atTarget request.target with
  | nil => rfl
  | cons first rest =>
      simp only
      cases (Method.ofName? request.method).bind ((first :: rest).lookup ·) with
      | none => rfl
      | some endpoint =>
          simp only
          cases Order.ofRequest service.nextId request.body endpoint <;> rfl

namespace Scene

def obey (order : Order) (scene : Scene Float) : Scene Float × Option Response :=
  match scene.controller.handle order with
  | (after, .answered response) => ({ scene with controller := after }, some response)
  | (_, .waiting wish) =>
      let later := scene.receive wish false
      let answer := (scene.controller.newAnswer? later.controller).map (·.2)
      (later, answer.bind fun answer => (Service.replyOf (some answer)).toOption)

def respond (request : Request) (scene : Scene Float) : Scene Float × Option Response :=
  match request.order scene.controller.nextId with
  | .error response => (scene, some response)
  | .ok order => scene.obey order

theorem respond_of_order {request : Request} {scene : Scene Float} {order : Order}
    (given : request.order scene.controller.nextId = .ok order) :
    scene.respond request = scene.obey order := by
  unfold respond
  rw [given]

end Scene
/-! Orders that are answered at once. -/

namespace Controller

theorem handle_rejected (order : Order) (controller : Controller Float) (response : Response)
    (answered : (controller.handle order).2 = .answered response)
    (problem : 400 ≤ response.status) : (controller.handle order).1 = controller := by
  cases asks : order.change? controller.nextId with
  | some change =>
      obtain ⟨outcome, handled, comes⟩ := controller.handle_edit order change asks
      rw [handled] at answered ⊢
      cases answered
      by_cases running : controller.isRunning = true
      · rw [if_pos running] at comes
        rw [comes]
      · rw [if_neg running, Carries] at comes
        split at comes
        · rw [comes]
        · exact absurd problem (Nat.not_le_of_lt comes.2)
  | none =>
      cases order with
      | importProgram program nextId =>
          simp only [handle, whenIdle, importProgram] at answered ⊢
          split at answered
          · rw [if_pos ‹_›]
          · rw [if_neg ‹_›]
            split at answered
            · rfl
            · cases answered
              simp [Response.ok] at problem
      | clearProgram | addBlock | addChild | setParameter | removeBlock => cases asks
      | health | showProgram | start | stop | showStatus | showResult | showRobot => rfl

theorem handle_waiting (order : Order) (controller : Controller Float) (wish : Wish)
    (waiting : (controller.handle order).2 = .waiting wish) :
    (controller.handle order).1 = controller := by
  cases order <;> first | rfl | cases waiting

/-- What an order that is done in one step leaves as it is: who is there, whether
the latest run has ended, what reaches it, and the hooks. -/
structure Edits (before after : Controller Float) : Prop where
  line : before.SameLine after
  goes : before.GoesOn after
  hooks : after.cell.hooks = before.cell.hooks

theorem Edits.refl (controller : Controller Float) : controller.Edits controller :=
  ⟨⟨rfl, rfl, rfl⟩, (Keeps.refl controller).goesOn rfl rfl rfl, rfl⟩

theorem edits_of_same {before after : Controller Float} (line : before.SameLine after)
    (run : after.cell.run = before.cell.run)
    (calls : after.cell.arm.calls = before.cell.arm.calls) (target : after.target = before.target)
    (hooks : after.cell.hooks = before.cell.hooks) : before.Edits after := by
  have keeps : before.Keeps after := ⟨by rw [run], calls, fun _ => target⟩
  exact ⟨line, keeps.goesOn target line.holder line.answers, hooks⟩

theorem settleEdit_edits {α : Type} (edit : Edit Float α) (respond : α → Response)
    (controller : Controller Float) : controller.Edits (controller.settleEdit edit respond).1 := by
  unfold settleEdit
  split <;> exact edits_of_same ⟨rfl, rfl, rfl⟩ rfl rfl rfl rfl

theorem importProgram_edits (program : Program) (nextId : Nat) (controller : Controller Float) :
    controller.Edits (controller.importProgram program nextId).1 := by
  unfold importProgram
  split <;> exact edits_of_same ⟨rfl, rfl, rfl⟩ rfl rfl rfl rfl

theorem setParameter_edits (id name : String) (value : Value) (controller : Controller Float) :
    controller.Edits (controller.setParameter id name value).1 := by
  have keeps := apply_keeps (.set id name value) controller
  unfold setParameter updateParameter
  cases updated : controller.cell.updateParameter id name value with
  | error fault => exact .refl controller
  | ok changed =>
      have edited : controller.Edits { controller with cell := changed } := by
        simp only [Cell.apply, Cell.applied?, updated] at keeps
        refine ⟨⟨rfl, rfl, rfl⟩, keeps.goesOn rfl rfl rfl, ?_⟩
        unfold Cell.updateParameter at updated
        cases made : controller.cell.program.updateParameter id name value with
        | error fault => rw [made] at updated; cases updated
        | ok program => rw [made] at updated; cases updated; rfl
      simp only [Except.map]
      split
      · exact .refl controller
      · exact edited

theorem whenIdle_edits {controller : Controller Float}
    {change : Controller Float → Controller Float × Response}
    (edits : controller.Edits (change controller).1) :
    controller.Edits (controller.whenIdle change).1 := by
  unfold whenIdle
  split
  · exact .refl controller
  · exact edits

theorem handle_edits (order : Order) (controller : Controller Float) :
    controller.Edits (controller.handle order).1 := by
  cases order with
  | importProgram program nextId =>
      exact whenIdle_edits (importProgram_edits program nextId controller)
  | setParameter id name value => exact whenIdle_edits (setParameter_edits id name value controller)
  | clearProgram => exact whenIdle_edits (edits_of_same ⟨rfl, rfl, rfl⟩ rfl rfl rfl rfl)
  | addBlock | addChild | removeBlock => exact whenIdle_edits (settleEdit_edits _ _ _)
  | health | showProgram | start | stop | showStatus | showResult | showRobot =>
      exact .refl controller

/-- While a run is active nothing is edited, whatever else an edit would have come
to. -/
theorem handle_running (order : Order) (controller : Controller Float)
    (running : controller.isRunning = true) :
    (controller.handle order).1 = controller ∧
      (order.edits = true → controller.handle order = (controller, .answered .running)) := by
  cases order with
  | importProgram | clearProgram | addBlock | addChild | setParameter | removeBlock =>
      simp only [handle, whenIdle, running, ↓reduceIte, implies_true, and_self]
  | health | showProgram | start | stop | showStatus | showResult | showRobot =>
      refine ⟨rfl, fun edits => ?_⟩
      cases edits

end Controller

/-- The status of a response to an answer tells whether it was a refusal. -/
theorem Service.replyOf_problem (answer : Answer) (response : Response)
    (replied : Service.replyOf (some answer) = .ok response) (problem : 400 ≤ response.status) :
    ∃ refusal, answer = .refused refusal := by
  cases answer with
  | refused refusal => exact ⟨refusal, rfl⟩
  | unfit unfit => cases replied
  | started | stopped =>
      cases replied
      simp [Response.done, Response.ok] at problem

/-! The service. -/

namespace Service

structure Completes (before after : Controller Float) (reply : Reply) : Prop where
  quiet : after.IsQuiet
  rejected : ∀ response, reply = .ok response → 400 ≤ response.status → after = before

theorem complete_completes (order : Order) {controller : Controller Float}
    (quiet : controller.IsQuiet) :
    Completes controller (complete order controller).1 (complete order controller).2 := by
  unfold complete
  cases handled : controller.handle order with
  | mk after handling =>
      have line := (controller.handle_edits order).line
      cases handling with
      | answered response =>
          have rejected := controller.handle_rejected order response
          rw [handled] at line rejected
          simp only at line rejected ⊢
          refine ⟨quiet.of_sameLine line, fun other same problem => ?_⟩
          cases same
          exact rejected trivial problem
      | waiting wish =>
          have waits := controller.handle_waiting order wish
          simp only [handled, forall_const] at waits ⊢
          subst waits
          have serving := Controller.serve_serving wish quiet
          refine ⟨serving.quiet, fun response same problem => ?_⟩
          obtain ⟨answer, given⟩ := serving.answered
          rw [given] at same
          obtain ⟨refusal, rfl⟩ := replyOf_problem answer response same problem
          exact serving.refused refusal given

inductive IsQuiet : Service → Prop where
  | unopened (environment : List (String × String)) (now : Float)
      (journal : Array (Entry Float)) : IsQuiet (.unopened environment now journal)
  | opened {controller : Controller Float} (quiet : controller.IsQuiet) :
      IsQuiet (.opened controller)

/-- What a service is about: its program with the need for a confirmation, the
last result, and the latest run with its token. -/
structure Standing where
  program : Program
  needsTrust : Bool
  lastResult : Option (Result Float)
  run : Option (Run Float)
  target : AbortTarget

def standing : Service → Standing
  | unopened .. => ⟨.empty, false, none, none, .nobody⟩
  | opened controller =>
      ⟨controller.cell.program, controller.needsTrust, controller.lastResult,
        controller.cell.run, controller.target⟩

/-- To see to it that there is a controller leaves the service where it stands. -/
theorem ensureOpen_standing {service : Service} (quiet : service.IsQuiet) :
    service.ensureOpen.1.IsQuiet ∧ service.ensureOpen.1.standing = service.standing ∧
      ∀ controller, service.ensureOpen.2 = .ok controller →
        service.ensureOpen.1 = .opened controller := by
  cases quiet with
  | opened quiet =>
      exact ⟨.opened quiet, rfl, fun _ same => congrArg Service.opened (Except.ok.inj same)⟩
  | unopened environment now journal =>
      simp only [ensureOpen]
      generalize Config.ofEnvironment environment Config.variableStart = settings
      obtain ⟨entries, checked⟩ := settings
      cases checked with
      | error issues => exact ⟨.unopened environment now _, rfl, fun _ same => by cases same⟩
      | ok config =>
          exact ⟨.opened ⟨rfl, rfl, rfl⟩, rfl,
            fun _ same => congrArg Service.opened (Except.ok.inj same)⟩

structure Responds (before after : Service) (reply : Reply) : Prop where
  quiet : after.IsQuiet
  rejected : ∀ response, reply = .ok response → 400 ≤ response.status →
    after.standing = before.standing ∧ ∀ controller, before = .opened controller → after = before

theorem obey_responds (order : Order) {service : Service} (quiet : service.IsQuiet) :
    service.Responds (service.obey order).1 (service.obey order).2 := by
  obtain ⟨still, same, opens⟩ := ensureOpen_standing quiet
  unfold obey
  split
  · exact ⟨quiet, fun _ _ _ => ⟨rfl, fun _ _ => rfl⟩⟩
  · cases there : service.ensureOpen with
    | mk later settings =>
        rw [there] at still same opens
        cases settings with
        | error issues => exact ⟨still, nofun⟩
        | ok controller =>
            cases opens controller rfl
            cases still with
            | opened still =>
                have completes := complete_completes order still
                refine ⟨.opened completes.quiet, fun response replied problem => ?_⟩
                have unchanged := completes.rejected response replied problem
                simp only [unchanged]
                refine ⟨same, fun other known => ?_⟩
                subst known
                cases there
                rfl

theorem respond_responds (request : Request) {service : Service} (quiet : service.IsQuiet) :
    service.Responds (service.respond request).1 (service.respond request).2 := by
  rw [respond_eq]
  cases request.order service.nextId with
  | error response => exact ⟨quiet, fun _ _ _ => ⟨rfl, fun _ _ => rfl⟩⟩
  | ok order => exact obey_responds order quiet

inductive Happening where
  | request (request : Request)
  | sleep (ms : Number)
  | effect (effect : Effect)
  | close

def undergo (service : Service) : Happening → Service
  | .request request => (service.respond request).1
  | .sleep ms => service.sleep ms
  | .effect effect =>
      match service.applied? effect with
      | .ok changed => changed
      | .error _ => service
  | .close => service.close

/-- A service of which nobody has asked anything: one that has yet to make its
controller, or one with a controller that it was given. -/
inductive IsNew : Service → Prop where
  | fresh (environment : List (String × String)) : IsNew (.fresh environment)
  | given (cell : Cell Float) (config : Config) (robot : Robot) (nextId : Nat) :
      IsNew (.opened (.idle cell config robot nextId))

theorem undergo_quiet (happening : Happening) {service : Service} (quiet : service.IsQuiet) :
    (service.undergo happening).IsQuiet := by
  cases happening with
  | request request => exact (respond_responds request quiet).quiet
  | sleep ms =>
      cases quiet with
      | unopened environment now journal => exact .unopened environment _ journal
      | @opened controller quiet =>
          exact .opened (quiet.of_sameLine (controller.sleep_runsOn ms).sameLine)
  | effect effect =>
      cases quiet with
      | unopened environment now journal => exact .unopened environment now journal
      | @opened controller quiet =>
          simp only [undergo, applied?]
          cases controller.cell.applied? effect with
          | error fault => exact .opened quiet
          | ok cell => exact .opened ⟨quiet.holder, quiet.queue, quiet.answers⟩
  | close =>
      cases quiet with
      | unopened environment now journal => exact .unopened environment now journal
      | opened quiet => exact .opened (Controller.serve_serving .stop quiet).quiet

theorem undergoes_quiet (happenings : List Happening) {service : Service}
    (quiet : service.IsQuiet) : (happenings.foldl undergo service).IsQuiet := by
  induction happenings generalizing service with
  | nil => exact quiet
  | cons happening rest ih => exact ih (undergo_quiet happening quiet)

theorem IsNew.isQuiet {service : Service} (new : service.IsNew) : service.IsQuiet := by
  cases new with
  | fresh environment => exact .unopened environment 0 #[]
  | given cell config robot nextId => exact .opened ⟨rfl, rfl, rfl⟩

end Service

end ArmProgram
