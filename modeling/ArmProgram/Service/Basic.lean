import ArmProgram.Service.Handling
import ArmProgram.Controller.Schedule
import ArmProgram.Config.Environment

/-!
The service: requests in, responses out. It makes its controller when the
first request needs one, with settings from the environment; settings that
cannot be used are reported to every request that needs the controller.
-/

namespace ArmProgram

open Input (Issue)

structure Request where
  method : String
  target : String
  body : Body
  deriving Inhabited

inductive Breakdown where
  | settings (issues : List Issue)
  | unfit (unfit : Unfit)
  deriving Repr

abbrev Reply := Except Breakdown Response

inductive Service where
  /-- No request has needed the controller so far. -/
  | unopened (environment : List (String × String)) (now : Float) (journal : Array (Entry Float))
  | opened (controller : Controller Float)

namespace Service

def fresh (environment : List (String × String)) : Service :=
  .unopened environment 0 #[]

def now : Service → Float
  | unopened _ now _ => now
  | opened controller => controller.cell.now

def journal : Service → Array (Entry Float)
  | unopened _ _ journal => journal
  | opened controller => controller.cell.journal

def nextId : Service → Nat
  | unopened .. => 1
  | opened controller => controller.nextId

def newController (config : Config) (now : Float) (journal : Array (Entry Float)) :
    Controller Float :=
  let cell := Cell.idle (Arm.resting 0 true none) [] .empty
  Controller.idle { cell with now, journal } config .arm 1

def ensureOpen : Service → Service × Except (List Issue) (Controller Float)
  | opened controller => (opened controller, .ok controller)
  | unopened environment now journal =>
      let settings : List (Entry Float) × Input.Checked Config :=
        Config.ofEnvironment environment Config.variableStart
      let journal := journal ++ settings.1
      match settings.2 with
      | .error issues => (unopened environment now journal, .error issues)
      | .ok config =>
          let controller := newController config now journal
          (opened controller, .ok controller)

def replyOf : Option Answer → Reply
  | some (.refused refusal) => .ok (.refused refusal)
  | some (.unfit unfit) => .error (.unfit unfit)
  | _ => .ok .done

def complete (order : Order) (controller : Controller Float) : Controller Float × Reply :=
  match controller.handle order with
  | (after, .answered response) => (after, .ok response)
  | (after, .waiting wish) =>
      let served := after.serve wish
      (served.1, replyOf served.2)

def obey (order : Order) (service : Service) : Service × Reply :=
  match order with
  | .health => (service, .ok .done)
  | order =>
      match service.ensureOpen with
      | (service, .error issues) => (service, .error (.settings issues))
      | (_, .ok controller) =>
          let completed := complete order controller
          (opened completed.1, completed.2)

def responseTo : Order.Misread → Response
  | .issues issues => .invalid issues
  | .unparsable => .unparsable

/-- The response to a request: first the path, then the method, then the body
has to be right. -/
def respond (request : Request) (service : Service) : Service × Reply :=
  match Endpoint.atTarget request.target with
  | [] => (service, .ok .unknownPath)
  | endpoints =>
      match (Method.ofName? request.method).bind (endpoints.lookup ·) with
      | none => (service, .ok .wrongMethod)
      | some endpoint =>
          match Order.ofRequest service.nextId request.body endpoint with
          | .error misread => (service, .ok (responseTo misread))
          | .ok order => service.obey order

def sleep (ms : Number) : Service → Service
  | opened controller => opened (controller.sleep ms)
  | unopened environment now journal =>
      unopened environment (if ms.isPositive then now + TimeScale.ofMillis ms else now) journal

def applied? (effect : Effect) : Service → Except ProgramFault Service
  | opened controller =>
      (controller.cell.applied? effect).map fun cell => opened { controller with cell }
  | service => .ok service

def log (entry : Entry Float) : Service → Service
  | unopened environment now journal => unopened environment now (journal.push entry)
  | opened controller => opened (controller.log entry)

def close : Service → Service
  | opened controller => opened (controller.serve .stop).1
  | service => service

end Service

end ArmProgram
