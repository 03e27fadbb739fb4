import ArmProgram.Config
import ArmProgram.Run.Journal

/-!
Settings from the environment. The journal names the variables that were
found before their texts are checked.
-/

namespace ArmProgram.Config

variable {Time : Type}

def overrideNote (texts : List (String × String)) : List (Entry Time) :=
  if texts.isEmpty then [] else [.overridden texts]

def ofEnvironment (environment : List (String × String)) (start : String) :
    List (Entry Time) × Input.Checked Config :=
  let texts := overrides environment start
  (overrideNote texts, ofOverrides texts)

end ArmProgram.Config
