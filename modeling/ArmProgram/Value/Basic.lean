import ArmProgram.Keyed
import ArmProgram.Number

/-!
Parameter values and the parameters of a block. Parameters keep the order in
which their names were first set; setting a name again changes its value in
place.
-/

namespace ArmProgram

/-- A parameter value keeps the kind it was written with: true, 1, 1.0 and
the text 1 are four different values. -/
inductive Value where
  | flag (b : Bool)
  | number (n : Number)
  | text (s : String)
  deriving Repr, Inhabited

def Value.same : Value → Value → Bool
  | .flag a, .flag b => a = b
  | .number a, .number b => a.same b
  | .text a, .text b => a = b
  | _, _ => false

structure Parameters where
  entries : List (String × Value)
  deriving Repr, Inhabited

namespace Parameters

def empty : Parameters := ⟨[]⟩

def get? (parameters : Parameters) (name : String) : Option Value :=
  parameters.entries.lookup name

def set (parameters : Parameters) (name : String) (value : Value) : Parameters :=
  ⟨Keyed.put name value parameters.entries⟩

def setAll (parameters : Parameters) (entries : List (String × Value)) : Parameters :=
  ⟨Keyed.putAll entries parameters.entries⟩

def ofList (entries : List (String × Value)) : Parameters :=
  empty.setAll entries

def same (left right : Parameters) : Bool :=
  left.entries.length = right.entries.length &&
    left.entries.all fun entry =>
      match right.get? entry.1 with
      | some value => entry.2.same value
      | none => false

theorem get?_set (parameters : Parameters) (name other : String) (value : Value) :
    (parameters.set name value).get? other =
      if other = name then some value else parameters.get? other :=
  Keyed.lookup_put _ _ _ _

end Parameters

end ArmProgram
