import ArmProgram.Input.Field

/-!
Pacing and budgets of a run, read from settings by name or from environment
variables.
-/

namespace ArmProgram

open Input (FieldName Step Checked)

/-- Delays are in milliseconds, the duration of a run in seconds. -/
structure Config where
  interBlockDelay : Float
  postHomeDelay : Float
  defaultWait : Float
  maxSteps : Int
  maxDuration : Float
  deriving Repr, Inhabited

namespace Config

def default : Config := ⟨500, 1000, 1000, 10000, 300⟩

def interBlockField : FieldName := ⟨"interBlockDelayMs", "inter_block_delay_ms"⟩
def postHomeField : FieldName := ⟨"postHomeDelayMs", "post_home_delay_ms"⟩
def defaultWaitField : FieldName := ⟨"defaultWaitMs", "default_wait_ms"⟩
def maxStepsField : FieldName := ⟨"maxSteps", "max_steps"⟩
def maxDurationField : FieldName := ⟨"maxDurationS", "max_duration_s"⟩

def fields : List FieldName :=
  [interBlockField, postHomeField, defaultWaitField, maxStepsField, maxDurationField]

def ofInput (json : Json) : Checked Config :=
  match json with
  | .object _ =>
      let delay (fallback : Float) (field : FieldName) :=
        Input.withDefault fallback (Input.atLeast 0 Input.lenientDouble) field [] json
      (delay default.interBlockDelay interBlockField).map Config.mk
        |> (Checked.app · (delay default.postHomeDelay postHomeField))
        |> (Checked.app · (delay default.defaultWait defaultWaitField))
        |> (Checked.app · (Input.withDefault default.maxSteps
            (Input.intAtLeast 1 Input.lenientInt) maxStepsField [] json))
        |> (Checked.app · (Input.withDefault default.maxDuration
            (Input.above 0 Input.lenientDouble) maxDurationField [] json))
  | _ => .issue (.notModel "ExecutionConfig") []

def variableStart : String := "ARMBLOCKS_"

def variableOf (start : String) (field : FieldName) : String :=
  start ++ field.other.toUpper

def overrides (environment : List (String × String)) (start : String) : List (String × String) :=
  fields.filterMap fun field =>
    (environment.lookup (variableOf start field)).map (field.other, ·)

def ofOverrides (texts : List (String × String)) : Checked Config :=
  ofInput (.object (texts.map fun entry => (entry.1, .text entry.2)))

inductive AssignFault where
  | frozen (name : String)
  /-- The name stands for the kind of thing that settings are. -/
  | kind
  /-- The name stands for all that settings hold, which takes an object. -/
  | contents
  | readOnly (name : String)
  deriving Repr, DecidableEq

/-- Settings never change after they are made. A name that begins with an
underscore names no setting, and what is put there is passed over unless the
name has a meaning of its own. -/
def assign (name : String) (value : Json) : Except AssignFault Unit :=
  match name, value with
  | "__class__", _ => .error .kind
  | "__dict__", .object _ => .ok ()
  | "__dict__", _ => .error .contents
  | "__fields_set__", _ | "__weakref__", _ => .error (.readOnly name)
  | _, _ => if name.startsWith "_" then .ok () else .error (.frozen name)

def toJson (config : Config) : Json :=
  .object
    [(interBlockField.main, .double config.interBlockDelay),
     (postHomeField.main, .double config.postHomeDelay),
     (defaultWaitField.main, .double config.defaultWait),
     (maxStepsField.main, .int config.maxSteps),
     (maxDurationField.main, .double config.maxDuration)]

def withoutPacing (config : Config) : Config :=
  { config with interBlockDelay := 0, postHomeDelay := 0 }

end Config

end ArmProgram
