import ArmProgram.Service.Order
import ArmProgram.Service.Response
import ArmProgram.Controller.Editing
import ArmProgram.Controller.Status
import ArmProgram.Arm.Snapshot

/-!
How the controller carries out an order. All but starting and stopping are
done in one step, so a run sees either all of an edit or nothing of it, and
edits are turned down while a run is active. Starting and stopping may have to
wait for a run to unwind and are left to the controller as wishes.
-/

namespace ArmProgram

inductive Handling where
  | answered (response : Response)
  | waiting (wish : Wish)

namespace Controller

def whenIdle (change : Controller Float → Controller Float × Response)
    (controller : Controller Float) : Controller Float × Response :=
  if controller.isRunning then (controller, .running) else change controller

def importProgram (program : Program) (nextId : Nat) (controller : Controller Float) :
    Controller Float × Response :=
  match program.validateTree Program.depthLimit with
  | .error fault => (controller, .invalidTree fault)
  | .ok _ =>
      ({ controller.importBlocks program.blocks with nextId },
        .ok (.object [("status", .text "ok"), ("blockCount", .int program.size)]))

def clearProgram (controller : Controller Float) : Controller Float × Response :=
  (controller.clear.log .cleared, .done)

def settleEdit (edit : Edit Float α) (respond : α → Response) (controller : Controller Float) :
    Controller Float × Response :=
  match edit.result with
  | .ok (draft, value) => (controller.withDraft draft edit.entries, respond value)
  | .error (.program fault) => (controller, .unknownTarget fault)
  | .error (.issues issues) => (controller, .invalid issues)

def setParameter (id name : String) (value : Value) (controller : Controller Float) :
    Controller Float × Response :=
  match controller.updateParameter id name value with
  | .error fault => (controller, .unknownTarget fault)
  | .ok updated =>
      match updated.cell.program.get id with
      | .error fault => (controller, .unknownTarget fault)
      | .ok block => (updated, .ok block.toJson)

def removedJson (ids : List String) : Json :=
  .object [("status", .text "ok"), ("removed", Json.ofList .text ids)]

def showResult (controller : Controller Float) : Response :=
  match controller.lastResult with
  | some result => .ok result.toJson
  | none => .noResult

def showRobot (controller : Controller Float) : Response :=
  if controller.robot = .arm then .ok controller.cell.arm.snapshot else .noSimulatedArm

/-- An order that is done in one step, and its response; none for a wish. -/
def handle (order : Order) (controller : Controller Float) : Controller Float × Handling :=
  let shown (response : Response) := (controller, Handling.answered response)
  let edited (change : Controller Float → Controller Float × Response) :=
    let outcome := controller.whenIdle change
    (outcome.1, Handling.answered outcome.2)
  match order with
  | .health => shown .done
  | .showProgram => shown (.ok controller.cell.program.toJson)
  | .importProgram program nextId => edited (importProgram program nextId)
  | .clearProgram => edited clearProgram
  | .addBlock definition given => edited fun controller =>
      controller.settleEdit (controller.draft.addBlock definition given.entries)
        fun block => .created block.toJson
  | .addChild parent definition given slot => edited fun controller =>
      controller.settleEdit
        (controller.draft.addChild parent definition given.entries (some slot))
        fun block => .created block.toJson
  | .setParameter id name value => edited (setParameter id name value)
  | .removeBlock id => edited fun controller =>
      controller.settleEdit (controller.draft.remove id) fun ids => .ok (removedJson ids)
  | .start simulate confirm => (controller, .waiting (.start simulate confirm))
  | .stop => (controller, .waiting .stop)
  | .showStatus => shown (.ok controller.status.toJson)
  | .showResult => shown controller.showResult
  | .showRobot => shown controller.showRobot

end Controller

end ArmProgram
