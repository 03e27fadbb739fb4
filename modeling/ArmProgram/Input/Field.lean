import ArmProgram.Input.NumberText
import ArmProgram.Value.Basic

/-!
Reading fields of an input object. A field has a written name and a second
name that is looked for when the first is absent; paths show the name that
was found. Settings read lenient values: numbers and truth values may also be
given as text.
-/

namespace ArmProgram.Input

structure FieldName where
  main : String
  other : String

def FieldName.find? (field : FieldName) (object : Json) : Option (String × Json) :=
  match object.field? field.main with
  | some value => some (field.main, value)
  | none => (object.field? field.other).map (field.other, ·)

abbrev Check (α : Type) := List Step → Json → Checked α

def required (check : Check α) (field : FieldName) (path : List Step) (object : Json) :
    Checked α :=
  match field.find? object with
  | some (name, value) => check (path ++ [.key name]) value
  | none => .issue .missing (path ++ [.key field.main])

def withDefault (default : α) (check : Check α) (field : FieldName) (path : List Step)
    (object : Json) : Checked α :=
  match field.find? object with
  | some (name, value) => check (path ++ [.key name]) value
  | none => .ok default

def text : Check String
  | _, .text s => .ok s
  | path, _ => .issue .notText path

def orNull (check : Check α) : Check (Option α)
  | _, .null => .ok none
  | path, value => (check path value).map some

def parameterValue : Check Value
  | _, .flag b => .ok (.flag b)
  | _, .number n => .ok (.number n)
  | _, .text s => .ok (.text s)
  | path, _ =>
      .error
        [⟨.notBool, path ++ [.key "bool"]⟩, ⟨.notInt, path ++ [.key "int"]⟩,
         ⟨.notDouble, path ++ [.key "float"]⟩, ⟨.notText, path ++ [.key "str"]⟩]

def parameters : Check Parameters
  | path, .object fields =>
      (Checked.all (fun (field : String × Json) =>
        (parameterValue (path ++ [.key field.1]) field.2).map (field.1, ·)) fields).map
          Parameters.ofList
  | path, _ => .issue .notObject path

def list (check : Check α) : Check (List α)
  | path, .list items =>
      Checked.all (fun (item : Json × Nat) => check (path ++ [.index item.2]) item.1)
        items.zipIdx
  | path, _ => .issue .notList path

/-! Lenient numbers. -/

def lenientDouble : Check Float
  | _, .flag b => .ok (if b then 1 else 0)
  | _, .number (.double x) => .ok x
  | path, .number (.int n) =>
      match (Number.int n).toDouble? with
      | some x => .ok x
      | none => .issue .notDouble path
  | path, .text s =>
      match doubleOfText? s with
      | some x => .ok x
      | none => .issue .unreadableDouble path
  | path, _ => .issue .notDouble path

def wordLimit : Int := 0x8000000000000000

/-- Whole doubles strictly within a signed word convert to integers. -/
def intOfDouble (x : Float) : Except Defect Int :=
  if !Decimal.isFinite x then .error .notFinite
  else
    match Decimal.toInt? x with
    | none => .error .fractionalInt
    | some n => if -wordLimit < n ∧ n < wordLimit then .ok n else .error .oversizedInt

def ofDefect (path : List Step) : Except Defect α → Checked α
  | .ok a => .ok a
  | .error defect => .issue defect path

def lenientInt : Check Int
  | _, .flag b => .ok (if b then 1 else 0)
  | _, .number (.int n) => .ok n
  | path, .number (.double x) => ofDefect path (intOfDouble x)
  | path, .text s => ofDefect path (intOfText s)
  | path, _ => .issue .notInt path

def boolOfInt (n : Int) : Except Defect Bool :=
  if n = 0 then .ok false else if n = 1 then .ok true else .error .unreadableBool

def falseWords : List String := ["0", "off", "f", "false", "n", "no"]

def trueWords : List String := ["1", "on", "t", "true", "y", "yes"]

def lenientBool : Check Bool
  | _, .flag b => .ok b
  | path, .number (.int n) =>
      if -wordLimit ≤ n ∧ n < wordLimit then ofDefect path (boolOfInt n)
      else .issue .notBool path
  | path, .number (.double x) =>
      match intOfDouble x with
      | .ok n => ofDefect path (boolOfInt n)
      | .error _ => .issue .notBool path
  | path, .text s =>
      if falseWords.any (Text.eqIgnoringCase s.toList) then .ok false
      else if trueWords.any (Text.eqIgnoringCase s.toList) then .ok true
      else .issue .unreadableBool path
  | path, _ => .issue .notBool path

def atLeast (bound : Nat) (check : Check Float) : Check Float := fun path value => do
  let x ← check path value
  if bound.toFloat ≤ x then .ok x else .issue (.notAtLeast bound) path

def above (bound : Nat) (check : Check Float) : Check Float := fun path value => do
  let x ← check path value
  if bound.toFloat < x then .ok x else .issue (.notAbove bound) path

def intAtLeast (bound : Nat) (check : Check Int) : Check Int := fun path value => do
  let n ← check path value
  if bound ≤ n then .ok n else .issue (.notAtLeast bound) path

end ArmProgram.Input
