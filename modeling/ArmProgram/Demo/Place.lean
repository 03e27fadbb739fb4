/-!
What stands at the path of a file. A path is followed part by part. Of the
system only the folders of the usual hierarchy are known and a few files that
are always there. Every other folder is taken to be empty, also the one that
a path without a slash at its start begins in.
-/

namespace ArmProgram.Demo

inductive PathFault where
  | missing
  | folder
  /-- The path goes on behind a file. -/
  | behindFile
  | tooLong
  | nullCharacter
  deriving Repr, DecidableEq

def nameLimit : Nat := 255

def pathLimit : Nat := 4095

def knownFolders : List (List String) :=
  [["bin"], ["boot"], ["dev"], ["etc"], ["home"], ["lib"], ["media"], ["mnt"], ["opt"], ["proc"],
   ["root"], ["run"], ["sbin"], ["srv"], ["sys"], ["tmp"], ["usr"], ["usr", "bin"], ["usr", "lib"],
   ["usr", "local"], ["usr", "sbin"], ["usr", "share"], ["var"], ["var", "cache"], ["var", "lib"],
   ["var", "log"], ["var", "tmp"]]

def knownFiles : List (List String × String) :=
  [(["dev", "null"], ""), (["etc", "group"], "root:"), (["etc", "passwd"], "root:")]

def pathParts (path : String) : List String :=
  (path.splitOn "/").filter fun part => part ≠ "" && part ≠ "."

/-- A path in its parts alone. Two slashes at its start are not the same as
one. -/
def pathShown (path : String) : String :=
  let root :=
    if path.startsWith "//" && !path.startsWith "///" then "//"
    else if path.startsWith "/" then "/"
    else ""
  let shown := root ++ "/".intercalate (pathParts path)
  if shown.isEmpty then "." else shown

def textBelow (folder : Option (List String)) : List String → Except PathFault String
  | [] => .error .folder
  | part :: rest =>
      if part = ".." then textBelow (folder.map List.dropLast) rest
      else if nameLimit < part.utf8ByteSize then .error .tooLong
      else
        match folder.map (· ++ [part]) with
        | none => .error .missing
        | some place =>
            if place ∈ knownFolders then textBelow (some place) rest
            else
              match knownFiles.lookup place with
              | none => .error .missing
              | some text => if rest.isEmpty then .ok text else .error .behindFile

def textAt (path : String) : Except PathFault String :=
  if path.contains '\x00' then .error .nullCharacter
  else if pathLimit < (pathShown path).utf8ByteSize then .error .tooLong
  else textBelow (if path.startsWith "/" then some [] else none) (pathParts path)

end ArmProgram.Demo
