import ArmProgram.Program.Document
import ArmProgram.Run.Journal

/-!
Edits of a program as the editor makes them: with new ids, with unchecked
input where it comes from outside, and with what the journal notes. An edit
that fails leaves the program and the numbering of ids as they were.
-/

namespace ArmProgram

open Input (Issue Step Checked)

inductive EditFault where
  | program (fault : ProgramFault)
  | issues (issues : List Issue)
  deriving Repr

structure Draft where
  program : Program
  nextId : Nat
  deriving Inhabited

structure Edit (Time : Type) (α : Type) where
  entries : List (Entry Time)
  result : Except EditFault (Draft × α)

namespace Edit

variable {Time α : Type}

def refused (fault : EditFault) : Edit Time α := ⟨[], .error fault⟩

def done (draft : Draft) (entries : List (Entry Time)) (value : α) : Edit Time α :=
  ⟨entries, .ok (draft, value)⟩

end Edit

namespace Draft

variable {Time : Type}

def addBlock (definition : String) (given : List (String × Value)) (draft : Draft) :
    Edit Time Block :=
  let added := draft.program.addBlock (newBlockId draft.nextId) definition given
  .done ⟨added.1, draft.nextId + 1⟩ [.added added.2.id definition] added.2

def childWarning (parent : Block) (definition : String) : List (Entry Time) :=
  if parent.isControl then [] else [.childIgnored parent.id parent.definition definition]

def addChild (parent definition : String) (given : List (String × Value)) (slot : Option Slot)
    (draft : Draft) : Edit Time Block :=
  match draft.program.get parent with
  | .error fault => .refused (.program fault)
  | .ok above =>
      match draft.program.addChild (newBlockId draft.nextId) parent definition given slot with
      | .error fault => .refused (.program fault)
      | .ok (program, block) =>
          .done ⟨program, draft.nextId + 1⟩
            (childWarning above definition ++ [.addedChild block.id definition parent slot]) block

def addBlockInput (definition : Json) (given : List (String × Json)) (draft : Draft) :
    Edit Time Block :=
  match Block.ofParts draft.nextId definition given [] with
  | (.error issues, _) => .refused (.issues issues)
  | (.ok block, next) =>
      .done ⟨draft.program.append block, next⟩ [.added block.id block.definition] block

def shownPlain : Json → String
  | .text s => s
  | .flag b => Value.shown (some (.flag b))
  | .number n => n.text
  | _ => Value.shown none

/-- Appends a child given by unchecked parts. The parent is looked for, and
warned about, before the parts are checked. -/
def addChildInput (parent : String) (definition : Json) (given : List (String × Json))
    (slot : Json) (draft : Draft) : Edit Time Block :=
  match draft.program.get parent with
  | .error fault => .refused (.program fault)
  | .ok above =>
      let warning := childWarning above (shownPlain definition)
      match Block.ofParts draft.nextId definition given
          [("parent_id", .text parent), ("child_slot", slot)] with
      | (.error issues, _) => ⟨warning, .error (.issues issues)⟩
      | (.ok block, next) =>
          .done ⟨draft.program.append block, next⟩
            (warning ++ [.addedChild block.id block.definition parent block.slot]) block

def remove (id : String) (draft : Draft) : Edit Time (List String) :=
  match draft.program.removeBlock id with
  | .error fault => .refused (.program fault)
  | .ok (program, ids) => .done { draft with program } [.removed ids.length id] ids

end Draft

end ArmProgram
