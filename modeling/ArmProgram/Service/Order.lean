import ArmProgram.Service.Body
import ArmProgram.Service.Route
import ArmProgram.Program.Document

/-!
Orders: what a request asks for once its body has been checked. A body is
checked before the controller is looked at, so a malformed one is reported
whether or not a run is active.
-/

namespace ArmProgram

open Input (FieldName Step Issue Checked)

inductive Order where
  | health
  | showProgram
  /-- A program from outside, with the number of the next new id after it. -/
  | importProgram (program : Program) (nextId : Nat)
  | clearProgram
  | addBlock (definition : String) (given : Parameters)
  | addChild (parent definition : String) (given : Parameters) (slot : Slot)
  | setParameter (id name : String) (value : Value)
  | removeBlock (id : String)
  | start (simulate confirm : Bool)
  | stop
  | showStatus
  | showResult
  | showRobot

namespace Order

def nameField : FieldName := ⟨"name", "name"⟩
def valueField : FieldName := ⟨"value", "value"⟩
def simulateField : FieldName := ⟨"simulate", "simulate"⟩
def confirmField : FieldName := ⟨"confirmImported", "confirm_imported"⟩

def bodyPath : List Step := [.key "body"]

def adding (definition : String) (given : Option Parameters) (parent : Option String)
    (slot : Slot) : Order :=
  let given := given.getD .empty
  match parent with
  | none => addBlock definition given
  | some parent => addChild parent definition given slot

def addBlockOf (json : Json) : Checked Order :=
  (Input.required Input.text Block.definitionField bodyPath json).map adding
    |> (Checked.app · (Input.withDefault none (Input.orNull Input.parameters)
        Block.parametersField bodyPath json))
    |> (Checked.app · (Input.withDefault none (Input.orNull Input.text)
        Block.parentField bodyPath json))
    |> (Checked.app · (Input.withDefault .thenSide Block.checkSlot
        Block.slotField bodyPath json))

def setParameterOf (id : String) (json : Json) : Checked Order :=
  (Input.required Input.text nameField bodyPath json).map (setParameter id)
    |> (Checked.app · (Input.required Input.parameterValue valueField bodyPath json))

def startOf (json : Json) : Checked Order :=
  (Input.withDefault false Input.lenientBool simulateField bodyPath json).map start
    |> (Checked.app · (Input.withDefault false Input.lenientBool confirmField bodyPath json))

def importOf (next : Nat) (json : Json) : Checked Order :=
  let read := Program.ofInput next bodyPath json
  read.1.map (importProgram · read.2)

inductive Misread where
  | issues (issues : List Issue)
  /-- There is no telling what the body holds. -/
  | unparsable
  deriving DecidableEq, Repr

def ofObject (read : Json → Checked Order) : Body → Except Misread Order
  | .absent => .error (.issues [⟨.missing, bodyPath⟩])
  | .malformed => .error (.issues [⟨.notJson, bodyPath⟩])
  | .unparsable => .error .unparsable
  | .given (.object fields) => (read (.object fields)).mapError .issues
  | .given _ => .error (.issues [⟨.notModel "request", bodyPath⟩])

def ofRequest (next : Nat) (body : Body) : Endpoint → Except Misread Order
  | .health => .ok health
  | .showProgram => .ok showProgram
  | .importProgram => ofObject (importOf next) body
  | .clearProgram => .ok clearProgram
  | .addBlock => ofObject addBlockOf body
  | .setParameter id => ofObject (setParameterOf id) body
  | .removeBlock id => .ok (removeBlock id)
  | .startRun => ofObject startOf body
  | .stopRun => .ok stop
  | .showStatus => .ok showStatus
  | .showResult => .ok showResult
  | .showRobot => .ok showRobot

end Order

end ArmProgram
