import ArmProgram.Keyed
import ArmProgram.Number

/-!
JSON values. Integers and doubles stay apart, and an object keeps its fields
in the order in which they were given. A name may come again; the last field
of a name is the one that counts.
-/

namespace ArmProgram

inductive Json where
  | null
  | flag (b : Bool)
  | number (n : Number)
  | text (s : String)
  | list (items : List Json)
  | object (fields : List (String × Json))
  deriving Inhabited

namespace Json

def int (n : Int) : Json := .number (.int n)

def double (x : Float) : Json := .number (.double x)

def ofOption (write : α → Json) : Option α → Json
  | none => .null
  | some a => write a

def ofList (write : α → Json) (items : List α) : Json :=
  .list (items.map write)

def field? (json : Json) (name : String) : Option Json :=
  match json with
  | .object fields => (fields.reverse.find? (·.1 = name)).map (·.2)
  | _ => none

mutual

/-- The value with one field for each name of an object: the last value, in
the place of the first. -/
def merged : Json → Json
  | .list items => .list (mergedItems items)
  | .object fields => .object (Keyed.putAll (mergedFields fields) [])
  | json => json

def mergedItems : List Json → List Json
  | [] => []
  | item :: rest => merged item :: mergedItems rest

def mergedFields : List (String × Json) → List (String × Json)
  | [] => []
  | (name, value) :: rest => (name, merged value) :: mergedFields rest

end

mutual

def nullNonFinite : Json → Json
  | .number (.double x) => if Decimal.isFinite x then .double x else .null
  | .list items => .list (nullNonFiniteItems items)
  | .object fields => .object (nullNonFiniteFields fields)
  | json => json

def nullNonFiniteItems : List Json → List Json
  | [] => []
  | item :: rest => nullNonFinite item :: nullNonFiniteItems rest

def nullNonFiniteFields : List (String × Json) → List (String × Json)
  | [] => []
  | (name, value) :: rest => (name, nullNonFinite value) :: nullNonFiniteFields rest

end

end Json

end ArmProgram
