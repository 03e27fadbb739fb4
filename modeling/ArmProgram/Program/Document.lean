import ArmProgram.Program.Tree
import ArmProgram.Input.Field
import ArmProgram.Json.Reader
import ArmProgram.Json.Writer

/-!
Blocks and programs as JSON. Reading checks every field, collects all issues
in field order, and gives an id to a block that has none; the number of the
next new id runs through the blocks in order. Of parameters with one name all
are checked and the last is kept. Writing gives the fields in a fixed order.
-/

namespace ArmProgram

open Input (Form Step FieldName Checked)

/-- Documents are read up to a nesting of 200, with at most 4300 digits before
the point of a number. -/
def documentDialect : Json.Dialect := ⟨some 200, false, some 4300, true, false⟩

/-- Reads JSON text and then what it holds. Text that cannot be read counts
as no JSON, whatever the reason. -/
def ofDocument (next : Nat) (read : Json → Checked α × Nat) (text : String) : Checked α × Nat :=
  match Json.read documentDialect text with
  | .ok json => read json
  | .error _ => (.issue .notJson [], next)

def Value.toJson : Value → Json
  | .flag b => .flag b
  | .number n => .number n
  | .text s => .text s

def Parameters.toJson (parameters : Parameters) : Json :=
  .object (parameters.entries.map fun entry => (entry.1, entry.2.toJson))

namespace Block

def toJson (block : Block) : Json :=
  .object
    [("id", .text block.id),
     ("definitionId", .text block.definition),
     ("parameters", block.parameters.toJson),
     ("parentId", Json.ofOption .text block.parent),
     ("childSlot", Json.ofOption (fun slot => .text slot.name) block.slot)]

def idField : FieldName := ⟨"id", "id"⟩
def definitionField : FieldName := ⟨"definitionId", "definition_id"⟩
def parametersField : FieldName := ⟨"parameters", "parameters"⟩
def parentField : FieldName := ⟨"parentId", "parent_id"⟩
def slotField : FieldName := ⟨"childSlot", "child_slot"⟩

def checkSlot : Input.Check Slot
  | path, .text name =>
      match Slot.ofName? name with
      | some slot => .ok slot
      | none => .issue .notSlot path
  | path, _ => .issue .notSlot path

def ofInput (next : Nat) (path : List Step) (json : Json) : Checked Block × Nat :=
  match json with
  | .object _ =>
      let given := idField.find? json
      let id : Checked String := match given with
        | some (name, value) => Input.text (path ++ [.key name]) value
        | none => .ok (newBlockId next)
      let definition := Input.required Input.text definitionField path json
      let parameters :=
        Input.withDefault Parameters.empty Input.parameters parametersField path json
      let parent := Input.withDefault none (Input.orNull Input.text) parentField path json
      let slot := Input.withDefault none (Input.orNull checkSlot) slotField path json
      let block := id.map Block.mk
        |> (Checked.app · definition)
        |> (Checked.app · parameters)
        |> (Checked.app · parent)
        |> (Checked.app · slot)
      (block, if given.isNone then next + 1 else next)
  | _ => (.issue (.notModel "BlockInstance") path, next)

def ofText (next : Nat) (text : String) : Checked Block × Nat :=
  ofDocument next (ofInput next []) text

def listOfInput (path : List Step) : Nat → Nat → List Json → Checked (List Block) × Nat
  | next, _, [] => (.ok [], next)
  | next, index, item :: rest =>
      let head := ofInput next (path ++ [.index index]) item
      let tail := listOfInput path head.2 (index + 1) rest
      (Checked.app (head.1.map List.cons) tail.1, tail.2)

def eachOfInput : Nat → List Json → Checked (List Block × Nat)
  | next, [] => .ok ([], next)
  | next, item :: rest =>
      match ofInput next [] item with
      | (.error issues, _) => .error issues
      | (.ok block, next) => (eachOfInput next rest).map fun found => (block :: found.1, found.2)

def assignId : Checked Unit :=
  .issue .frozenField [.key "id"]

/-- A new block from unchecked parts. Defaults come before given parameters,
so issues are listed in that order. -/
def ofParts (next : Nat) (definition : Json) (given : List (String × Json))
    (placement : List (String × Json)) : Checked Block × Nat :=
  let kind := match definition with
    | .text name => Kind.ofName? name
    | _ => none
  let defaults := (kind.map Kind.defaults).getD []
  let merged := Keyed.putAll given (defaults.map fun entry => (entry.1, entry.2.toJson))
  ofInput next []
    (.object ([("definition_id", definition), ("parameters", .object merged)] ++ placement))

end Block

namespace Program

def toJson (program : Program) : Json :=
  .object [("blocks", Json.ofList Block.toJson program.blocks)]

def blocksField : FieldName := ⟨"blocks", "blocks"⟩

def ofInput (next : Nat) (path : List Step) (json : Json) : Checked Program × Nat :=
  match json with
  | .object _ =>
      match blocksField.find? json with
      | none => (.ok empty, next)
      | some (name, .list items) =>
          let found := Block.listOfInput (path ++ [.key name]) next 0 items
          (found.1.map Program.mk, found.2)
      | some (name, _) => (.issue .notList (path ++ [.key name]), next)
  | _ => (.issue (.notModel "Program") path, next)

def ofText (next : Nat) (text : String) : Checked Program × Nat :=
  ofDocument next (ofInput next []) text

def toText (program : Program) : String :=
  program.toJson.write

end Program

end ArmProgram
