import ArmProgram.Controller.Basic
import ArmProgram.Program.Editing

/-!
Edits of the program that a controller owns. A run in progress keeps the list
of blocks it was started with; only parameters set in its own blocks reach it.
-/

namespace ArmProgram.Controller

variable {Time : Type} [TimeScale Time]

def draft (controller : Controller Time) : Draft :=
  ⟨controller.cell.program, controller.nextId⟩

def withDraft (draft : Draft) (entries : List (Entry Time)) (controller : Controller Time) :
    Controller Time :=
  { controller with
    cell := (controller.cell.edit draft.program).logAll entries
    nextId := draft.nextId }

def clear (controller : Controller Time) : Controller Time :=
  { controller with cell := controller.cell.edit .empty }

def updateParameter (id name : String) (value : Value) (controller : Controller Time) :
    Except ProgramFault (Controller Time) :=
  (controller.cell.updateParameter id name value).map fun cell => { controller with cell }

end ArmProgram.Controller
