import ArmProgram.Text.Classes

/-!
The options of the demonstration. Long options may be shortened as long as one
option is meant, and the value of an option follows it or an equals sign. A
shortened option that could be several is refused before anything else is
read. Then arguments are read in order: a malformed option ends the reading,
while arguments that mean nothing are only counted against the line at its
end.
-/

namespace ArmProgram.Demo

structure Options where
  file : Option String
  /-- Without pacing. -/
  fast : Bool
  verbose : Bool
  deriving Repr, DecidableEq, Inhabited

def Options.none : Options := ⟨.none, false, false⟩

inductive Switch where
  | file
  | fast
  | verbose
  | help
  deriving Repr, DecidableEq

/-- What an argument is on its own. Letters after a short option are more
short options, also behind an equals sign. -/
inductive Argument where
  | plain
  | switch (switch : Switch)
  | switchWith (switch : Switch) (value : String)
  | letters (letters : List Char)
  | unknown
  | ambiguous
  deriving Repr, DecidableEq

def longNames : List (String × Switch) :=
  [("--file", .file), ("--fast", .fast), ("--verbose", .verbose), ("--help", .help)]

def shortSwitch? : Char → Option Switch
  | 'v' => some .verbose
  | 'h' => some .help
  | _ => none

def isNegativeNumber (body : List Char) : Bool :=
  let digits := if body.getLast? = some '\n' then body.dropLast else body
  let whole := Text.spanDigits Text.digit? digits
  match whole.2 with
  | [] => !whole.1.isEmpty
  | '.' :: rest =>
      let fraction := Text.spanDigits Text.digit? rest
      !fraction.1.isEmpty && fraction.2.isEmpty
  | _ => false

def leftover (text : String) (body : List Char) : Argument :=
  if isNegativeNumber body || text.contains ' ' then .plain else .unknown

def longMatches (name : String) : List Switch :=
  match longNames.lookup name with
  | some switch => [switch]
  | none => (longNames.filter fun entry => name.toList.isPrefixOf entry.1.toList).map (·.2)

def longArgument (text : String) (body : List Char) : Argument :=
  let name := String.ofList (text.toList.takeWhile (· ≠ '='))
  let value := (text.toList.dropWhile (· ≠ '=')).drop 1
  match longMatches name with
  | [] => leftover text body
  | [switch] =>
      if name = text then .switch switch else .switchWith switch (String.ofList value)
  | _ => .ambiguous

def shortArgument (letter : Char) : List Char → Argument
  | ['='] => .switchWith .verbose ""
  | '=' :: more => .letters (letter :: more)
  | more => .letters (letter :: more)

def Argument.ofText (text : String) : Argument :=
  match text.toList with
  | '-' :: '-' :: rest => longArgument text ('-' :: rest)
  | '-' :: c :: rest =>
      if (shortSwitch? c).isSome then shortArgument c rest else leftover text (c :: rest)
  | _ => .plain

inductive CommandLine where
  | run (options : Options)
  | help
  | misuse
  deriving Repr, DecidableEq

/-- The file that a value behind an equals sign names. Two dashes are no value:
they take back a file that was named before. -/
def fileNamed? (value : String) : Option String :=
  if value = "--" then none else some value

def readArguments (options : Options) (clean : Bool) : List String → CommandLine
  | [] => if clean then .run options else .misuse
  | "--" :: _ => .misuse
  | text :: rest =>
      match Argument.ofText text with
      | .plain | .unknown => readArguments options false rest
      | .ambiguous => .misuse
      | .letters letters =>
          match letters.mapM shortSwitch? with
          | none => .misuse
          | some switches =>
              if .help ∈ switches then .help
              else readArguments { options with verbose := true } clean rest
      | .switchWith .file path =>
          readArguments { options with file := fileNamed? path } clean rest
      | .switchWith _ _ => .misuse
      | .switch .fast => readArguments { options with fast := true } clean rest
      | .switch .verbose => readArguments { options with verbose := true } clean rest
      | .switch .help => .help
      | .switch .file =>
          match rest with
          | path :: rest =>
              if Argument.ofText path = .plain then
                readArguments { options with file := path } clean rest
              else .misuse
          | [] => .misuse

def CommandLine.ofArguments (arguments : List String) : CommandLine :=
  let named := arguments.takeWhile (· ≠ "--")
  if named.any (Argument.ofText · = .ambiguous) then .misuse
  else readArguments .none true arguments

end ArmProgram.Demo
