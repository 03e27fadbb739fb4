import ArmProgram.Text.Percent

/-!
What the service can be asked for, and under which method and path. A path is
percent-decoded before it is split, so an encoded slash separates as well, and
a block id is any segment that is not empty.
-/

namespace ArmProgram

inductive Method where
  | get
  | put
  | post
  | patch
  | delete
  deriving DecidableEq, Repr

def Method.ofName? : String → Option Method
  | "GET" => some get
  | "PUT" => some put
  | "POST" => some post
  | "PATCH" => some patch
  | "DELETE" => some delete
  | _ => none

inductive Endpoint where
  | health
  | showProgram
  | importProgram
  | clearProgram
  | addBlock
  | setParameter (id : String)
  | removeBlock (id : String)
  | startRun
  | stopRun
  | showStatus
  | showResult
  | showRobot
  deriving DecidableEq, Repr

namespace Endpoint

def atSegments : List String → List (Method × Endpoint)
  | ["health"] => [(.get, health)]
  | ["program"] => [(.get, showProgram), (.put, importProgram), (.delete, clearProgram)]
  | ["program", "blocks"] => [(.post, addBlock)]
  | ["program", "blocks", id] => if id.isEmpty then [] else [(.delete, removeBlock id)]
  | ["program", "blocks", id, "parameters"] =>
      if id.isEmpty then [] else [(.patch, setParameter id)]
  | ["execution", "run"] => [(.post, startRun)]
  | ["execution", "stop"] => [(.post, stopRun)]
  | ["execution", "state"] => [(.get, showStatus)]
  | ["execution", "result"] => [(.get, showResult)]
  | ["execution", "robot"] => [(.get, showRobot)]
  | _ => []

/-- The path of a request target, without query. A number sign has no meaning
of its own. -/
def pathOf (target : String) : String :=
  String.ofList (target.toList.takeWhile (· ≠ '?'))

def segments? (path : String) : Option (List String) :=
  match (Text.percentDecoded path).toList.splitOn '/' with
  | [] :: rest => some (rest.map String.ofList)
  | _ => none

def withoutBreak (text : String) : String :=
  match text.toList.reverse with
  | '\n' :: rest => String.ofList rest.reverse
  | _ => text

/-- The endpoints that a request target names. A line break at the end of the
path is passed over unless it belongs to an id. -/
def atTarget (target : String) : List (Method × Endpoint) :=
  match segments? (pathOf target) with
  | none => []
  | some segments =>
      let found := atSegments segments
      if found.isEmpty then
        atSegments (segments.dropLast ++ (segments.getLast?.map withoutBreak).toList)
      else found

end Endpoint

end ArmProgram
