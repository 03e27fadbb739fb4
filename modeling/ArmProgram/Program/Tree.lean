import ArmProgram.Program.Basic

/-!
Whether the parents of a program form a tree: ids occur once, every parent is
a block of the program, and following parents from any block ends at the top
within a number of steps. The first defect in list order is reported.
-/

namespace ArmProgram.Program

def depthLimit : Int := 32

def duplicateId? (known : List String) : List Block → Option String
  | [] => none
  | block :: rest =>
      if known.contains block.id then some block.id else duplicateId? (block.id :: known) rest

/-- Follows parents up from a block. Every step reaches a block that was not
seen before, so the blocks not yet seen bound the way up. -/
def climb (program : Program) (limit : Int) (start : String) (seen : List String)
    (depth : Int) (parent : Option String) : Except ProgramFault Unit :=
  match parent with
  | none => .ok ()
  | some id =>
      match found : program.find? id with
      | none => .error (.missingParent start id)
      | some block =>
          if visited : block.id ∈ seen then .error (.cycle start)
          else if limit < depth + 1 then .error (.tooDeep start limit)
          else climb program limit start (block.id :: seen) (depth + 1) block.parent
termination_by spared seen program.blocks
decreasing_by
  exact spared_lt _ _ _ block (fun _ => List.mem_cons_of_mem _) (List.mem_of_find?_eq_some found)
    visited List.mem_cons_self

def climbAll (program : Program) (limit : Int) : List Block → Except ProgramFault Unit
  | [] => .ok ()
  | block :: rest =>
      match climb program limit block.id [block.id] 0 block.parent with
      | .error fault => .error fault
      | .ok _ => climbAll program limit rest

def validateTree (program : Program) (limit : Int) : Except ProgramFault Unit :=
  match duplicateId? [] program.blocks with
  | some id => .error (.duplicateId id)
  | none => climbAll program limit program.blocks

end ArmProgram.Program
