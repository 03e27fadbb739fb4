import ArmProgram.Json.Basic

/-!
What is wrong with an input. An issue is a defect and the path to where it
was found; its wording depends on the form in which the input came.
-/

namespace ArmProgram.Input

inductive Form where
  | decoded
  | text
  | body
  deriving DecidableEq, Repr

inductive Step where
  | key (name : String)
  | index (i : Nat)
  deriving DecidableEq, Repr

inductive Defect where
  | missing
  | notText
  | notObject
  | notList
  | notBool
  | notInt
  | notDouble
  | notSlot
  | unreadableBool
  | unreadableInt
  | unreadableDouble
  | fractionalInt
  | oversizedInt
  | notFinite
  /-- The value has to be above the bound. -/
  | notAbove (bound : Nat)
  /-- The value has to be the bound or above it. -/
  | notAtLeast (bound : Nat)
  /-- The input as a whole has to be an object of a kind. -/
  | notModel (kind : String)
  | frozenField
  | frozenInstance
  | notJson
  deriving DecidableEq, Repr

structure Issue where
  defect : Defect
  path : List Step
  deriving DecidableEq, Repr

namespace Defect

def name (form : Form) : Defect → String
  | missing => "missing"
  | notText => "string_type"
  | notObject => "dict_type"
  | notList => "list_type"
  | notBool => "bool_type"
  | notInt => "int_type"
  | notDouble => "float_type"
  | notSlot => "literal_error"
  | unreadableBool => "bool_parsing"
  | unreadableInt => "int_parsing"
  | unreadableDouble => "float_parsing"
  | fractionalInt => "int_from_float"
  | oversizedInt => "int_parsing_size"
  | notFinite => "finite_number"
  | notAbove _ => "greater_than"
  | notAtLeast _ => "greater_than_equal"
  | notModel _ => if form = .body then "model_attributes_type" else "model_type"
  | frozenField => "frozen_field"
  | frozenInstance => "frozen_instance"
  | notJson => "json_invalid"

def message (form : Form) : Defect → String
  | missing => "Field required"
  | notText => "Input should be a valid string"
  | notObject =>
      if form = .text then "Input should be an object" else "Input should be a valid dictionary"
  | notList =>
      if form = .text then "Input should be a valid array" else "Input should be a valid list"
  | notBool => "Input should be a valid boolean"
  | notInt => "Input should be a valid integer"
  | notDouble => "Input should be a valid number"
  | notSlot => "Input should be 'then' or 'else'"
  | unreadableBool => "Input should be a valid boolean, unable to interpret input"
  | unreadableInt => "Input should be a valid integer, unable to parse string as an integer"
  | unreadableDouble => "Input should be a valid number, unable to parse string as a number"
  | fractionalInt => "Input should be a valid integer, got a number with a fractional part"
  | oversizedInt => "Unable to parse input string as an integer, exceeded maximum size"
  | notFinite => "Input should be a finite number"
  | notAbove bound => "Input should be greater than " ++ toString bound
  | notAtLeast bound => "Input should be greater than or equal to " ++ toString bound
  | notModel kind =>
      match form with
      | .decoded => "Input should be a valid dictionary or instance of " ++ kind
      | .text => "Input should be an object"
      | .body => "Input should be a valid dictionary or object to extract fields from"
  | frozenField => "Field is frozen"
  | frozenInstance => "Instance is frozen"
  | notJson => "Invalid JSON"

end Defect

def Step.toJson : Step → Json
  | .key name => .text name
  | .index i => .int i

/-- An issue as a client sees it. Where text is no JSON at all there is no
path to tell. -/
def Issue.toJson (form : Form) (issue : Issue) : Json :=
  match issue.defect with
  | .notJson => .object [("type", .text (issue.defect.name form))]
  | defect =>
      .object
        [("type", .text (defect.name form)),
         ("loc", Json.ofList Step.toJson issue.path),
         ("msg", .text (defect.message form))]

abbrev Checked (α : Type) := Except (List Issue) α

namespace Checked

def issue (defect : Defect) (path : List Step) : Checked α :=
  .error [⟨defect, path⟩]

def app (f : Checked (α → β)) (x : Checked α) : Checked β :=
  match f, x with
  | .ok f, .ok a => .ok (f a)
  | .ok _, .error issues => .error issues
  | .error issues, .ok _ => .error issues
  | .error left, .error right => .error (left ++ right)

def pair (x : Checked α) (y : Checked β) : Checked (α × β) :=
  app (x.map Prod.mk) y

def all (check : α → Checked β) : List α → Checked (List β)
  | [] => .ok []
  | item :: rest => app ((check item).map List.cons) (all check rest)

end Checked

end ArmProgram.Input
