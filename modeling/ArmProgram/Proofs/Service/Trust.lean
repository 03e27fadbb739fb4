import ArmProgram.Proofs.Controller.Watch
import ArmProgram.Proofs.Service.Bodies

/-!
Programs from outside. A program that has come in with a request has to be confirmed
by the next start, whatever else is asked for and whatever becomes of the runs in
between. Only a program that is taken in brings the need for a confirmation, and only
a start that is answered with success takes it away.
-/

namespace ArmProgram

open Input.Checked (app_ok map_ok)

/-! Requests and what they are answered. -/

def Request.confirms (request : Request) : Bool :=
  match request.body with
  | .given json =>
      match Input.withDefault false Input.lenientBool Order.confirmField Order.bodyPath json with
      | .ok confirm => confirm
      | .error _ => false
  | _ => false

theorem Request.confirms_of_order {next : Nat} {request : Request} {simulate confirm : Bool}
    (given : request.order next = .ok (.start simulate confirm)) : request.confirms = confirm := by
  obtain ⟨json, body, found⟩ := Order.ofObject_ok (Request.order_ok given).2
  obtain ⟨_, _, toSimulate, checked, same⟩ := app_ok found
  obtain ⟨_, -, rfl⟩ := map_ok toSimulate
  cases same
  simp only [Request.confirms, body, checked]

namespace Service

def accepted : Reply → Bool
  | .ok response => response.status == 200
  | .error _ => false

end Service

theorem Request.order_error {next : Nat} {request : Request} {response : Response}
    (given : request.order next = .error response) : Service.accepted (.ok response) = false := by
  unfold Request.order at given
  split at given
  · cases given; rfl
  · split at given
    · cases given; rfl
    · rename_i endpoint found
      cases made : Order.ofRequest next request.body endpoint with
      | ok order => rw [made] at given; cases given
      | error misread =>
          rw [made] at given
          cases given
          cases misread <;> rfl

/-! What an order makes of the need for a confirmation. -/

/-- The need for a confirmation after a request to an endpoint, by the need before it and
by whether it was answered with success. -/
def Endpoint.trustAfter (accepted needed : Bool) : Endpoint → Bool
  | importProgram => accepted || needed
  | startRun => needed && !accepted
  | _ => needed

theorem Endpoint.trustAfter_false (endpoint : Endpoint) (needed : Bool) :
    endpoint.trustAfter false needed = needed := by
  cases endpoint <;> simp [trustAfter]

namespace Controller

variable {Time : Type} {controller before after : Controller Time}

theorem RunsOn.trust (goes : before.RunsOn after) :
    after.needsTrust = before.needsTrust ∧ after.robot = before.robot := by
  obtain ⟨cell, target, result, rfl⟩ := goes
  exact ⟨rfl, rfl⟩

variable [TimeScale Time]

inductive Resolves (before after : Controller Time) : Wish → Option Answer → Prop where
  | stopped (trust : after.needsTrust = before.needsTrust) :
      Resolves before after .stop (some .stopped)
  | refused {simulate confirm : Bool} (refusal : Refusal) (same : after = before) :
      Resolves before after (.start simulate confirm) (some (.refused refusal))
  | started {simulate confirm : Bool} (passed : before.refusal? simulate confirm = none)
      (trust : after.needsTrust = false) :
      Resolves before after (.start simulate confirm) (some .started)

theorem release_robot (caller : Caller) (controller : Controller Time) :
    (controller.release caller).robot = controller.robot := by
  unfold release
  cases caller.wish with
  | stop => rfl
  | start simulate confirm =>
      simp only [launch]
      cases controller.robot.abilities simulate <;> rfl

/-- Who goes on while nobody else is there is done with its answer. -/
theorem released_settled (wish : Wish) (quiet : controller.IsQuiet) {given : Answer}
    (answers : (controller.release ⟨0, wish⟩).answers = (0, given) :: controller.answers) :
    (controller.release ⟨0, wish⟩).settled =
      ({ controller.release ⟨0, wish⟩ with answers := [] }, some given) := by
  have releases := release_releases ⟨0, wish⟩ controller
  rw [quiet.answers] at answers
  exact settled_of_answered given (releases.holder.trans quiet.holder)
    (releases.queue.trans quiet.queue) answers

theorem serve_resolves (wish : Wish) (quiet : controller.IsQuiet)
    (armed : controller.robot = .arm) :
    (controller.serve wish).1.robot = .arm ∧
      controller.Resolves (controller.serve wish).1 wish (controller.serve wish).2 := by
  obtain ⟨free, goes, outcome⟩ := stopActive_settled wish quiet
  obtain ⟨trust, robot⟩ := goes.trust
  have still := quiet.of_sameLine goes.sameLine
  have kept : (free.release ⟨0, wish⟩).robot = .arm :=
    (release_robot _ free).trans (robot.trans armed)
  rw [serve_settled wish quiet]
  cases wish with
  | stop =>
      have answers : (free.release ⟨0, .stop⟩).answers = (0, .stopped) :: free.answers := rfl
      rw [enter, outcome, released_settled .stop still answers]
      exact ⟨kept, .stopped trust⟩
  | start simulate confirm =>
      cases passed : controller.refusal? simulate confirm with
      | some refusal =>
          let entered := controller.answer ⟨0, .start simulate confirm⟩ (.refused refusal)
          have free : entered.holder = none := quiet.holder
          have answers : entered.answers = [(0, .refused refusal)] := by
            simp only [entered, answer, quiet.answers]
          have refused := settled_of_answered _ free quiet.queue answers
          have same : ({ entered with answers := [] } : Controller Time) = controller := by
            simp only [entered, answer, ← quiet.answers]
          rw [enter]
          simp only [passed]
          rw [refused, same]
          exact ⟨armed, .refused refusal rfl⟩
      | none =>
          have fits : free.robot.abilities simulate = .ok (Robot.bind .all simulate) := by
            rw [robot, armed]
            rfl
          have launched := release_fit free 0 simulate confirm _ fits
          simp only [enter, passed, outcome, released_settled _ still launched.answers]
          exact ⟨kept, .started passed launched.needsTrust⟩

def Leaves (before after : Controller Float) : Prop :=
  ∃ cell nextId, after = { before with cell, nextId }

theorem settleEdit_leaves {α : Type} (edit : Edit Float α) (respond : α → Response)
    (controller : Controller Float) : controller.Leaves (controller.settleEdit edit respond).1 := by
  unfold settleEdit
  split <;> exact ⟨_, _, rfl⟩

theorem setParameter_leaves (id name : String) (value : Value) (controller : Controller Float) :
    controller.Leaves (controller.setParameter id name value).1 := by
  unfold setParameter updateParameter
  cases controller.cell.updateParameter id name value with
  | error fault => exact ⟨_, _, rfl⟩
  | ok changed =>
      simp only [Except.map]
      split <;> exact ⟨_, _, rfl⟩

/-- Unless it brings in a program, an order that is done in one step leaves the robot and
the need for a confirmation alone. -/
theorem handle_leaves (order : Order) (controller : Controller Float)
    (homemade : order.endpoint ≠ .importProgram) :
    controller.Leaves (controller.handle order).1 := by
  have idle {change : Controller Float → Controller Float × Response}
      (leaves : controller.Leaves (change controller).1) :
      controller.Leaves (controller.whenIdle change).1 := by
    unfold whenIdle
    split
    · exact ⟨_, _, rfl⟩
    · exact leaves
  cases order with
  | importProgram => exact absurd rfl homemade
  | clearProgram => exact idle ⟨_, _, rfl⟩
  | addBlock | addChild | removeBlock => exact idle (settleEdit_leaves _ _ _)
  | setParameter id name value => exact idle (setParameter_leaves id name value controller)
  | health | showProgram | start | stop | showStatus | showResult | showRobot => exact ⟨_, _, rfl⟩

end Controller

namespace Service

structure Settles (before after : Controller Float) (order : Order) (reply : Reply) : Prop where
  armed : after.robot = .arm
  trust : after.needsTrust = order.endpoint.trustAfter (accepted reply) before.needsTrust
  confirmed : ∀ simulate confirm, order = .start simulate confirm → accepted reply = true →
    before.needsTrust = true → confirm = true

variable {controller : Controller Float}

/-- Only a tree is taken in, and only while no run is active. -/
theorem import_settles (program : Program) (nextId : Nat) (armed : controller.robot = .arm) :
    Settles controller (complete (.importProgram program nextId) controller).1
      (.importProgram program nextId) (complete (.importProgram program nextId) controller).2 := by
  simp only [complete, Controller.handle, Controller.whenIdle, Controller.importProgram]
  split
  · exact ⟨armed, rfl, fun _ _ same => by cases same⟩
  · cases program.validateTree Program.depthLimit <;>
      exact ⟨armed, rfl, fun _ _ same => by cases same⟩

theorem answered_settles {order : Order} {response : Response} (armed : controller.robot = .arm)
    (answered : (controller.handle order).2 = .answered response)
    (homemade : order.endpoint ≠ .importProgram) (unstarted : order.endpoint ≠ .startRun) :
    Settles controller (complete order controller).1 order (complete order controller).2 := by
  obtain ⟨cell, nextId, same⟩ := controller.handle_leaves order homemade
  have kept (done needed : Bool) : order.endpoint.trustAfter done needed = needed := by
    cases order <;> first | rfl | exact absurd rfl homemade | exact absurd rfl unstarted
  have outcome : complete order controller = ({ controller with cell, nextId }, .ok response) := by
    cases handled : controller.handle order with
    | mk after handling =>
        rw [handled] at same answered
        cases same
        cases answered
        simp only [complete, handled]
  rw [outcome]
  refine ⟨armed, (kept _ _).symm, fun simulate confirm starts => ?_⟩
  subst starts
  exact absurd rfl unstarted

theorem complete_settles (order : Order) (quiet : controller.IsQuiet)
    (armed : controller.robot = .arm) :
    Settles controller (complete order controller).1 order (complete order controller).2 := by
  cases order with
  | importProgram program nextId => exact import_settles program nextId armed
  | start simulate confirm =>
      obtain ⟨robot, resolves⟩ := Controller.serve_resolves (.start simulate confirm) quiet armed
      simp only [complete, Controller.handle]
      generalize controller.serve (.start simulate confirm) = served at robot resolves
      obtain ⟨after, answer⟩ := served
      cases resolves with
      | refused refusal same =>
          cases same
          exact ⟨robot, (Bool.and_true _).symm, fun _ _ _ done => by cases done⟩
      | started passed trust =>
          -- It has been looked at with the need for a confirmation that there was.
          refine ⟨robot, trust.trans (Bool.and_false _).symm, fun _ _ same _ needed => ?_⟩
          cases same
          exact ((Controller.refusal?_none_iff _ _ _).mp passed).trust needed
  | stop =>
      obtain ⟨robot, resolves⟩ := Controller.serve_resolves .stop quiet armed
      simp only [complete, Controller.handle]
      generalize controller.serve .stop = served at robot resolves
      obtain ⟨after, answer⟩ := served
      cases resolves with
      | stopped trust => exact ⟨robot, trust, fun _ _ same => by cases same⟩
  | health | showProgram | clearProgram | addBlock | addChild | setParameter | removeBlock
  | showStatus | showResult | showRobot =>
      exact answered_settles armed rfl (by simp [Order.endpoint]) (by simp [Order.endpoint])

/-! Sequences of requests. -/

inductive IsArmed : Service → Prop where
  | unopened (environment : List (String × String)) (now : Float)
      (journal : Array (Entry Float)) : IsArmed (.unopened environment now journal)
  | opened {controller : Controller Float} (arm : controller.robot = .arm) :
      IsArmed (.opened controller)

theorem ensureOpen_armed {service : Service} (armed : service.IsArmed) :
    service.ensureOpen.1.IsArmed := by
  cases armed with
  | opened arm => exact .opened arm
  | unopened environment now journal =>
      simp only [ensureOpen]
      generalize Config.ofEnvironment environment Config.variableStart = settings
      obtain ⟨entries, checked⟩ := settings
      cases checked with
      | error issues => exact .unopened environment now _
      | ok config => exact .opened rfl

structure Exchange where
  request : Request
  reply : Reply

def Exchange.imports (exchange : Exchange) : Bool :=
  exchange.request.endpoint? = some .importProgram && accepted exchange.reply

def Exchange.starts (exchange : Exchange) : Bool :=
  exchange.request.endpoint? = some .startRun && accepted exchange.reply

def exchange (service : Service) (request : Request) : Exchange :=
  ⟨request, (service.respond request).2⟩

def exchange? (service : Service) : Happening → Option Exchange
  | .request request => some (service.exchange request)
  | .sleep _ | .effect _ | .close => none

def exchanges (service : Service) : List Happening → List Exchange
  | [] => []
  | happening :: rest =>
      (service.exchange? happening).toList ++ (service.undergo happening).exchanges rest

def ImportedSinceStart (exchanges : List Exchange) : Prop :=
  ∃ earlier put later, exchanges = earlier ++ put :: later ∧ put.imports = true ∧
    ∀ other ∈ later, other.starts = false

theorem obey_settles (order : Order) {service : Service} (quiet : service.IsQuiet)
    (armed : service.IsArmed) :
    (service.obey order).1.IsArmed ∧
      (service.obey order).1.standing.needsTrust =
        order.endpoint.trustAfter (accepted (service.obey order).2) service.standing.needsTrust ∧
      ∀ simulate confirm, order = .start simulate confirm →
        accepted (service.obey order).2 = true → service.standing.needsTrust = true →
          confirm = true := by
  obtain ⟨still, same, opens⟩ := ensureOpen_standing quiet
  have arm := ensureOpen_armed armed
  unfold obey
  split
  · exact ⟨armed, rfl, fun _ _ same => by cases same⟩
  · cases there : service.ensureOpen with
    | mk later settings =>
        rw [there] at still same opens arm
        have known : later.standing.needsTrust = service.standing.needsTrust :=
          congrArg Standing.needsTrust same
        rw [← known]
        cases settings with
        | error issues =>
            exact ⟨arm, (order.endpoint.trustAfter_false _).symm, fun _ _ _ done => by cases done⟩
        | ok controller =>
            cases opens controller rfl
            cases still with
            | opened still =>
                cases arm with
                | opened arm =>
                    obtain ⟨arm, trust, confirmed⟩ := complete_settles order still arm
                    exact ⟨.opened arm, trust, confirmed⟩

/-- What a request makes of the need for a confirmation: only a program that is taken in
brings it, only a run that is started takes it away, and such a run was confirmed. -/
structure Gates (before after : Service) (exchange : Exchange) : Prop where
  armed : after.IsArmed
  trust : after.standing.needsTrust =
    (exchange.imports || (before.standing.needsTrust && !exchange.starts))
  confirmed : exchange.starts = true → before.standing.needsTrust = true →
    exchange.request.confirms = true

theorem respond_gates (request : Request) {service : Service} (quiet : service.IsQuiet)
    (armed : service.IsArmed) :
    service.Gates (service.respond request).1 (service.exchange request) := by
  unfold exchange
  rw [respond_eq]
  cases given : request.order service.nextId with
  | error response =>
      have rejected := Request.order_error given
      refine ⟨armed, ?_, fun starts => ?_⟩
      · simp [Exchange.imports, Exchange.starts, rejected]
      · simp [Exchange.starts, rejected] at starts
  | ok order =>
      obtain ⟨settled, trust, confirmed⟩ := obey_settles order quiet armed
      obtain ⟨found, -⟩ := Request.order_ok given
      refine ⟨settled, ?_, fun starts needed => ?_⟩
      · rw [trust]
        simp only [Exchange.imports, Exchange.starts, found]
        cases order <;> simp [Order.endpoint, Endpoint.trustAfter]
      · simp only [Exchange.starts, found, Bool.and_eq_true, decide_eq_true_eq] at starts
        obtain ⟨asked, done⟩ := starts
        cases order with
        | start simulate confirm =>
            rw [Request.confirms_of_order given]
            exact confirmed simulate confirm rfl done needed
        | _ => cases asked

/-- Nothing but requests touches the need for a confirmation. -/
theorem undergo_gates (happening : Happening) {service : Service} (quiet : service.IsQuiet)
    (armed : service.IsArmed) :
    (service.undergo happening).IsArmed ∧
      match service.exchange? happening with
      | some exchange => service.Gates (service.undergo happening) exchange
      | none => (service.undergo happening).standing.needsTrust = service.standing.needsTrust := by
  cases happening with
  | request request =>
      have gates := respond_gates request quiet armed
      simp only [undergo, exchange?]
      exact ⟨gates.armed, gates⟩
  | sleep ms =>
      cases armed with
      | unopened environment now journal => exact ⟨.unopened environment _ journal, rfl⟩
      | @opened controller arm =>
          obtain ⟨trust, robot⟩ := (controller.sleep_runsOn ms).trust
          exact ⟨.opened (robot.trans arm), trust⟩
  | effect effect =>
      cases armed with
      | unopened environment now journal => exact ⟨.unopened environment now journal, rfl⟩
      | @opened controller arm =>
          simp only [undergo, applied?]
          cases controller.cell.applied? effect <;> exact ⟨.opened arm, rfl⟩
  | close =>
      cases quiet with
      | unopened environment now journal => exact ⟨.unopened environment now journal, rfl⟩
      | @opened controller quiet =>
          cases armed with
          | opened arm =>
              obtain ⟨robot, resolves⟩ := Controller.serve_resolves .stop quiet arm
              simp only [undergo, close, exchange?]
              generalize controller.serve .stop = served at robot resolves
              obtain ⟨after, answer⟩ := served
              cases resolves with
              | stopped trust => exact ⟨.opened robot, trust⟩

theorem importedSinceStart_cons (exchange : Exchange) (rest : List Exchange) :
    ImportedSinceStart (exchange :: rest) ↔
      (exchange.imports = true ∧ ∀ other ∈ rest, other.starts = false) ∨
        ImportedSinceStart rest := by
  constructor
  · rintro ⟨earlier, put, later, split, imports, calm⟩
    cases earlier with
    | nil => cases split; exact Or.inl ⟨imports, calm⟩
    | cons first earlier => cases split; exact Or.inr ⟨earlier, put, later, rfl, imports, calm⟩
  · rintro (⟨imports, calm⟩ | ⟨earlier, put, later, rfl, imports, calm⟩)
    · exact ⟨[], exchange, rest, rfl, imports, calm⟩
    · exact ⟨exchange :: earlier, put, later, rfl, imports, calm⟩

/-- The need for a confirmation comes from a program that was taken in since the last
start, or it was there and nothing has been started. -/
theorem needsTrust_iff (happenings : List Happening) {service : Service} (quiet : service.IsQuiet)
    (armed : service.IsArmed) :
    (happenings.foldl undergo service).IsArmed ∧
      ((happenings.foldl undergo service).standing.needsTrust = true ↔
        ImportedSinceStart (service.exchanges happenings) ∨
          service.standing.needsTrust = true ∧
            ∀ other ∈ service.exchanges happenings, other.starts = false) := by
  induction happenings generalizing service with
  | nil => 
      refine ⟨armed, ?_⟩
      simp [exchanges, ImportedSinceStart]
  | cons happening rest ih =>
      obtain ⟨still, gates⟩ := undergo_gates happening quiet armed
      obtain ⟨last, iff⟩ := ih (undergo_quiet happening quiet) still
      refine ⟨last, ?_⟩
      rw [List.foldl_cons, iff, exchanges]
      cases seen : service.exchange? happening with
      | none =>
          rw [seen] at gates
          rw [gates]
          rfl
      | some exchange =>
          rw [seen] at gates
          rw [Option.toList_some, List.singleton_append, importedSinceStart_cons,
            List.forall_mem_cons, gates.trust]
          simp only [Bool.or_eq_true, Bool.and_eq_true, Bool.not_eq_true']
          constructor
          · rintro (later | ⟨imports | ⟨needed, idle⟩, calm⟩)
            · exact Or.inl (Or.inr later)
            · exact Or.inl (Or.inl ⟨imports, calm⟩)
            · exact Or.inr ⟨needed, idle, calm⟩
          · rintro ((⟨imports, calm⟩ | later) | ⟨needed, idle, calm⟩)
            · exact Or.inr ⟨Or.inl imports, calm⟩
            · exact Or.inl later
            · exact Or.inr ⟨Or.inr ⟨needed, idle⟩, calm⟩

end Service

/-- However requests follow one another, and whatever becomes of the runs in between: a
service needs a confirmation exactly if a program was taken in and no run has been started
since. A run that is started while it is needed was confirmed by its request, and no
request touches the need for it but one that takes in a program or starts a run. -/
theorem confirmation_follows_requests {first : Service} (new : first.IsNew)
    (armed : first.IsArmed) (happenings : List Service.Happening) :
    let service := happenings.foldl Service.undergo first
    (service.standing.needsTrust = true ↔
        Service.ImportedSinceStart (first.exchanges happenings)) ∧
      ∀ request,
        ((service.exchange request).starts = true → service.standing.needsTrust = true →
          request.confirms = true) ∧
        ((service.exchange request).imports = false → (service.exchange request).starts = false →
          (service.respond request).1.standing.needsTrust = service.standing.needsTrust) := by
  obtain ⟨still, iff⟩ := Service.needsTrust_iff happenings new.isQuiet armed
  have trusted : first.standing.needsTrust = false := by
    cases new <;> rfl
  rw [trusted] at iff
  refine ⟨by simpa using iff, fun request => ?_⟩
  have gates := Service.respond_gates request
    (Service.undergoes_quiet happenings new.isQuiet) still
  refine ⟨gates.confirmed, fun spared idle => ?_⟩
  rw [gates.trust, spared, idle, Bool.false_or, Bool.not_false, Bool.and_true]

/-- A program comes in. A start that does not confirm it is refused and changes nothing;
one that confirms it is answered with success, and nothing is left to be confirmed. -/
theorem imported_program_runs_confirmed :
    let put : Request := ⟨"PUT", "/program", .given (.object [("blocks", .list
      [.object [("id", .text "grip"), ("definitionId", .text "open_gripper")]])])⟩
    let run (confirm : Bool) : Request :=
      ⟨"POST", "/execution/run", .given (.object [("confirmImported", .flag confirm)])⟩
    let service := (Service.fresh []).undergo (.request put)
    (Service.fresh []).IsNew ∧ (Service.fresh []).IsArmed ∧
      service.standing.needsTrust = true ∧
      ((service.exchange (run false)).starts = false ∧
        (service.respond (run false)).1.standing.needsTrust = true) ∧
      (service.exchange (run true)).starts = true ∧ (run true).confirms = true ∧
      (service.respond (run true)).1.standing.needsTrust = false := by
  intro put run service
  have new : (Service.fresh []).IsNew := .fresh []
  have armed : (Service.fresh []).IsArmed := .unopened [] 0 #[]
  obtain ⟨iff, gates⟩ := confirmation_follows_requests new armed [.request put]
  have taken : ((Service.fresh []).exchange put).imports = true := by decide +kernel
  have imported : service.standing.needsTrust = true :=
    iff.mpr ⟨[], _, [], rfl, taken, fun _ listed => (List.not_mem_nil listed).elim⟩
  have refused : (service.exchange (run false)).starts = false := by decide +kernel
  have started : (service.exchange (run true)).starts = true := by decide +kernel
  have spared := (gates (run false)).2 (by decide +kernel) refused
  have trusted : (service.respond (run true)).1.standing.needsTrust = false := by decide +kernel
  exact ⟨new, armed, imported, ⟨refused, spared.trans imported⟩, started,
    (gates (run true)).1 started imported, trusted⟩

end ArmProgram
