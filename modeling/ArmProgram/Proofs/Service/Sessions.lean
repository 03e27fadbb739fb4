import ArmProgram.Proofs.Service.Bodies
import ArmProgram.Proofs.Service.Running

/-!
Sessions: what a service comes to by requests of any kind, with waiting, runs and
disturbances of the arm between them. Only requests change the program, each by
one edit or for a tree from outside, so that it stays a tree that can be written.
-/

namespace ArmProgram

/-! Runs and callers leave the program alone. -/

namespace Controller

section

variable {Time : Type} {before middle after : Controller Time}

structure SameProgram (before after : Controller Time) : Prop where
  program : after.cell.program = before.cell.program
  hooks : after.cell.hooks = before.cell.hooks

theorem SameProgram.refl (controller : Controller Time) : controller.SameProgram controller :=
  ⟨rfl, rfl⟩

theorem SameProgram.trans (first : before.SameProgram middle) (second : middle.SameProgram after) :
    before.SameProgram after :=
  ⟨second.program.trans first.program, second.hooks.trans first.hooks⟩

theorem SameProgram.spares (same : before.SameProgram after)
    (spares : before.cell.sparesProgram = true) : after.cell.sparesProgram = true := by
  rw [Cell.sparesProgram, same.hooks]
  exact spares

theorem Retains.sameProgram (retains : before.Retains after) : before.SameProgram after :=
  ⟨retains.program, retains.hooks⟩

variable [TimeScale Time]

theorem stepRun_sameProgram {controller : Controller Time}
    (spares : controller.cell.sparesProgram = true) (running : controller.isRunning = true) :
    controller.SameProgram controller.stepRun :=
  have same := stepRun_sameBlocks spares running
  ⟨same.program, same.hooks⟩

theorem play_sameProgram (limit : Option Time) (controller : Controller Time)
    (spares : controller.cell.sparesProgram = true) :
    controller.SameProgram (controller.play limit) := by
  fun_induction play limit controller with
  | case1 controller running ready ih =>
      have stepped := stepRun_sameProgram spares running
      exact stepped.trans (ih (stepped.spares spares))
  | case3 controller running waits due next inside ih =>
      have stepped := @stepRun_sameProgram _ _ (controller.atTime due) spares running
      exact SameProgram.trans ⟨stepped.program, stepped.hooks⟩ (ih (stepped.spares spares))
  | case2 | case4 | case5 => exact .refl _

theorem turn_sameProgram (controller : Controller Time)
    (spares : controller.cell.sparesProgram = true) : controller.SameProgram controller.turn := by
  fun_induction turn controller with
  | case1 controller running ready stepped rest => exact stepRun_sameProgram spares running
  | case2 controller running ready stepped rest ih =>
      have first := stepRun_sameProgram spares running
      exact first.trans (ih (first.spares spares))
  | case3 | case4 => exact .refl _

theorem sleep_sameProgram (ms : Number) (controller : Controller Time)
    (spares : controller.cell.sparesProgram = true) :
    controller.SameProgram (controller.sleep ms) := by
  have turned := turn_sameProgram controller spares
  unfold sleep
  simp only
  split
  · have played := play_sameProgram
      (some (TimeScale.add controller.cell.now (TimeScale.ofMillis ms))) controller spares
    exact ⟨played.program, played.hooks⟩
  · split
    · exact turned.trans (turn_sameProgram controller.turn (turned.spares spares))
    · exact turned

theorem settleHolder_sameProgram (controller : Controller Time)
    (spares : controller.cell.sparesProgram = true) :
    controller.SameProgram controller.settleHolder := by
  unfold settleHolder
  split
  · exact (play_sameProgram none controller spares).trans
      (resumeHolder_retains controller.playOut).sameProgram
  · exact .refl _

theorem settle_sameProgram (waiting : Nat) (controller : Controller Time)
    (spares : controller.cell.sparesProgram = true) :
    controller.SameProgram (controller.settle waiting) := by
  induction waiting generalizing controller with
  | zero => exact settleHolder_sameProgram controller spares
  | succ waiting ih =>
      have held := settleHolder_sameProgram controller spares
      have turned := held.trans (turn_sameProgram _ (held.spares spares))
      have admitted := turned.trans (admitNext_retains _).sameProgram
      exact admitted.trans (ih _ (admitted.spares spares))

theorem serve_sameProgram (wish : Wish) (controller : Controller Time)
    (spares : controller.cell.sparesProgram = true) :
    controller.SameProgram (controller.serve wish).1 := by
  have arrived := (arrive_retains ⟨0, wish⟩ controller).sameProgram
  have settled := arrived.trans (settle_sameProgram
    (controller.arrive ⟨0, wish⟩).queue.length _ (arrived.spares spares))
  exact ⟨settled.program, settled.hooks⟩

end

end Controller

/-! Services whose program can be sent out. -/

namespace Service

def hooks : Service → List Hook
  | unopened .. => []
  | opened controller => controller.cell.hooks

structure IsExportable (service : Service) : Prop where
  nested : service.standing.program.IsNested
  writable : service.standing.program.IsWritable
  spares : service.hooks.all (·.effect.sparesProgram) = true

theorem isExportable_of_empty {service : Service} (empty : service.standing.program = .empty)
    (spares : service.hooks.all (·.effect.sparesProgram) = true) : service.IsExportable := by
  constructor
  · rw [empty]
    exact Program.empty_nested
  · rw [empty]
    exact (Program.isWritable_iff _).mpr nofun
  · exact spares

theorem IsExportable.of_same {before after : Service} (exportable : before.IsExportable)
    (program : after.standing.program = before.standing.program)
    (hooks : after.hooks = before.hooks) : after.IsExportable := by
  constructor
  · rw [program]
    exact exportable.nested
  · rw [program]
    exact exportable.writable
  · rw [hooks]
    exact exportable.spares

/-- To see to it that there is a controller leaves the program and the hooks alone. -/
theorem ensureOpen_exportable {service : Service} (exportable : service.IsExportable) :
    service.ensureOpen.1.IsExportable := by
  cases service with
  | opened controller => exact exportable
  | unopened environment now journal =>
      apply exportable.of_same <;>
      · simp only [ensureOpen]
        generalize Config.ofEnvironment environment Config.variableStart = settings
        obtain ⟨entries, checked⟩ := settings
        cases checked <;> rfl

theorem ensureOpen_ok {service : Service} {controller : Controller Float}
    (usable : service.ensureOpen.2 = .ok controller) :
    service.ensureOpen = (.opened controller, .ok controller) ∧
      controller.cell.program = service.standing.program ∧ controller.nextId = service.nextId := by
  cases service with
  | opened known =>
      cases usable
      exact ⟨rfl, rfl, rfl⟩
  | unopened environment now journal =>
      simp only [ensureOpen] at usable ⊢
      generalize Config.ofEnvironment environment Config.variableStart = settings at usable ⊢
      obtain ⟨entries, checked⟩ := settings
      cases checked with
      | error issues => cases usable
      | ok config =>
          cases usable
          exact ⟨rfl, rfl, rfl⟩

theorem complete_gives (order : Order) (controller : Controller Float)
    (spares : controller.cell.sparesProgram = true) :
    controller.Gives order (complete order controller).1.cell.program ∧
      (complete order controller).1.cell.hooks = controller.cell.hooks := by
  have gives := controller.handle_gives order
  have hooks := (controller.handle_edits order).hooks
  unfold complete
  cases handled : controller.handle order with
  | mk after handling =>
      rw [handled] at gives hooks
      cases handling with
      | answered response => exact ⟨gives, hooks⟩
      | waiting wish =>
          have waits := controller.handle_waiting order wish
          simp only [handled, forall_const] at waits
          subst waits
          have same := Controller.serve_sameProgram wish after spares
          refine ⟨?_, same.hooks⟩
          simp only [same.program]
          exact .kept

theorem obey_exportable (order : Order) {service : Service} (exportable : service.IsExportable)
    (writable : order.IsWritable)
    (fresh : ∀ change, order.change? service.nextId = some change →
      change.IsNew service.standing.program) : (service.obey order).1.IsExportable := by
  have still := ensureOpen_exportable exportable
  unfold obey
  split
  · exact exportable
  · cases there : service.ensureOpen with
    | mk later settings =>
        rw [there] at still
        cases settings with
        | error issues => exact still
        | ok controller =>
            obtain ⟨same, program, next⟩ := ensureOpen_ok (congrArg Prod.snd there)
            rw [there] at same
            cases same
            rw [← program, ← next] at fresh
            obtain ⟨gives, hooks⟩ := complete_gives order controller still.spares
            constructor
            · exact gives.keeps_nested fresh still.nested
            · exact gives.keeps_writable writable still.writable
            · simp only [Service.hooks, hooks]
              exact still.spares

/-- A request as it can come in: its body is text, in valid Unicode, and a new block gets an id
that no block of the program has. -/
structure Fits (service : Service) (request : Request) : Prop where
  text : ∃ text, Body.IsUnicode text ∧ request.body = .ofText text
  fresh : ∀ order change, request.order service.nextId = .ok order →
    order.change? service.nextId = some change → change.IsNew service.standing.program

theorem respond_exportable {request : Request} {service : Service}
    (exportable : service.IsExportable) (fits : service.Fits request) :
    (service.respond request).1.IsExportable := by
  rw [respond_eq]
  cases given : request.order service.nextId with
  | error response => exact exportable
  | ok order =>
      obtain ⟨text, -, body⟩ := fits.text
      exact obey_exportable order exportable (Request.order_writable ⟨text, body⟩ given)
        fun change => fits.fresh order change given

def Permits (service : Service) : Happening → Prop
  | .request request => service.Fits request
  | .effect effect => effect.sparesProgram = true
  | .sleep _ | .close => True

theorem undergo_exportable {service : Service} (exportable : service.IsExportable)
    (happening : Happening) (permitted : service.Permits happening) :
    (service.undergo happening).IsExportable := by
  cases happening with
  | request request => exact respond_exportable exportable permitted
  | sleep ms =>
      cases service with
      | unopened environment now journal => exact exportable.of_same rfl rfl
      | opened controller =>
          have same := controller.sleep_sameProgram ms exportable.spares
          exact exportable.of_same same.program same.hooks
  | effect effect =>
      cases service with
      | unopened environment now journal => exact exportable
      | opened controller =>
          simp only [undergo, applied?]
          cases applied : controller.cell.applied? effect with
          | error fault => exact exportable
          | ok cell =>
              have same := (Cell.takes_of_applied applied).sameBlocks permitted
              exact exportable.of_same same.program same.hooks
  | close =>
      cases service with
      | unopened environment now journal => exact exportable
      | opened controller =>
          have same := controller.serve_sameProgram .stop exportable.spares
          exact exportable.of_same same.program same.hooks

/-- What a service has come to that had no blocks in its program, by requests of any kind, with
runs, waiting and disturbances of the arm in between. -/
inductive Session : Service → Prop where
  | new {service : Service} (new : service.IsNew) (empty : service.standing.program = .empty)
      (spares : service.hooks.all (·.effect.sparesProgram) = true) : Session service
  | next {service : Service} (session : Session service) (happening : Happening)
      (permitted : service.Permits happening) : Session (service.undergo happening)

theorem Session.request {service : Service} (session : service.Session) {request : Request}
    (fits : service.Fits request) : (service.respond request).1.Session :=
  session.next (.request request) fits

theorem Session.exportable {service : Service} (session : service.Session) :
    service.IsExportable := by
  induction session with
  | new new empty spares => exact isExportable_of_empty empty spares
  | next session happening permitted ih => exact undergo_exportable ih happening permitted

theorem Session.opened {service : Service} (session : service.Session)
    {controller : Controller Float} (usable : service.ensureOpen.2 = .ok controller) :
    controller.cell.program.IsNested ∧ controller.cell.program.IsWritable ∧
      controller.cell.sparesProgram = true := by
  have still := ensureOpen_exportable session.exportable
  rw [(ensureOpen_ok usable).1] at still
  exact ⟨still.nested, still.writable, still.spares⟩

end Service

end ArmProgram
