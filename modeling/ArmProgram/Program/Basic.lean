import ArmProgram.Block.Index

/-!
The editable program: a flat list of blocks, its queries and its edits. An
edit either gives the new program or the cause of its refusal.
-/

namespace ArmProgram

inductive ProgramFault where
  | unknownBlock (id : String)
  | duplicateId (id : String)
  | missingParent (id parent : String)
  | cycle (id : String)
  | tooDeep (id : String) (limit : Int)
  deriving DecidableEq, Repr

def ProgramFault.message : ProgramFault → String
  | unknownBlock id => "Unknown block: " ++ id
  | duplicateId id => "Duplicate block id: " ++ id
  | missingParent id parent => "Block " ++ id ++ " references missing parent " ++ parent
  | cycle id => "Cycle detected at block " ++ id
  | tooDeep id limit =>
      "Block " ++ id ++ " is nested deeper than " ++ toString limit ++ " levels"

structure Program where
  blocks : List Block
  deriving Repr, Inhabited

namespace Program

def empty : Program := ⟨[]⟩

def size (program : Program) : Nat :=
  program.blocks.length

def ids (program : Program) : List String :=
  program.blocks.map (·.id)

def find? (program : Program) (id : String) : Option Block :=
  program.blocks.find? (·.id = id)

def get (program : Program) (id : String) : Except ProgramFault Block :=
  match program.find? id with
  | some block => .ok block
  | none => .error (.unknownBlock id)

def topLevel (program : Program) : List Block :=
  program.blocks.filter (·.parent = none)

def children (program : Program) (parent : String) (slot : Option Slot) : List Block :=
  ((ChildIndex.ofBlocks program.blocks).children parent slot).map (·.block)

def same (left right : Program) : Bool :=
  left.size = right.size &&
    (left.blocks.zip right.blocks).all fun pair => pair.1.same pair.2

def append (program : Program) (block : Block) : Program :=
  ⟨program.blocks ++ [block]⟩

def addBlock (program : Program) (id definition : String) (given : List (String × Value)) :
    Program × Block :=
  let block : Block := ⟨id, definition, Block.withDefaults definition given, none, none⟩
  (program.append block, block)

def addChild (program : Program) (id parent definition : String)
    (given : List (String × Value)) (slot : Option Slot) :
    Except ProgramFault (Program × Block) :=
  match program.get parent with
  | .error fault => .error fault
  | .ok _ =>
      let block : Block :=
        ⟨id, definition, Block.withDefaults definition given, some parent, slot⟩
      .ok (program.append block, block)

def modifyFirst (id : String) (change : Block → Block) : List Block → List Block
  | [] => []
  | block :: rest =>
      if block.id = id then change block :: rest else block :: modifyFirst id change rest

def updateParameter (program : Program) (id name : String) (value : Value) :
    Except ProgramFault Program :=
  match program.get id with
  | .error fault => .error fault
  | .ok _ => .ok ⟨modifyFirst id (·.setParameter name value) program.blocks⟩

def underDoomed (doomed : List String) (block : Block) : Bool :=
  match block.parent with
  | some parent => doomed.contains parent
  | none => false

def doom (doomed : List String) (block : Block) : List String :=
  if underDoomed doomed block && !doomed.contains block.id then block.id :: doomed else doomed

def doomPass (doomed : List String) (blocks : List Block) : List String :=
  blocks.foldl doom doomed

def spared (doomed : List String) (blocks : List Block) : Nat :=
  (blocks.filter fun block => !doomed.contains block.id).length

theorem doom_keeps (doomed : List String) (block : Block) (id : String)
    (member : id ∈ doomed) : id ∈ doom doomed block := by
  unfold doom
  split
  · exact List.mem_cons_of_mem _ member
  · exact member

theorem doomPass_keeps (blocks : List Block) (doomed : List String) (id : String)
    (member : id ∈ doomed) : id ∈ doomPass doomed blocks := by
  induction blocks generalizing doomed with
  | nil => exact member
  | cons block rest ih => exact ih _ (doom_keeps doomed block id member)

theorem doomPass_grows (blocks : List Block) (doomed : List String)
    (grown : (doomPass doomed blocks).length ≠ doomed.length) :
    ∃ block ∈ blocks, block.id ∉ doomed ∧ block.id ∈ doomPass doomed blocks := by
  induction blocks generalizing doomed with
  | nil => exact absurd rfl grown
  | cons block rest ih =>
      by_cases hit : (underDoomed doomed block && !doomed.contains block.id) = true
      · have added : doom doomed block = block.id :: doomed := by simp only [doom, hit, ↓reduceIte]
        have fresh : block.id ∉ doomed := by
          simp only [Bool.and_eq_true, Bool.not_eq_true', List.contains_eq_mem,
            decide_eq_false_iff_not] at hit
          exact hit.2
        refine ⟨block, List.mem_cons_self, fresh, doomPass_keeps rest _ _ ?_⟩
        rw [added]
        exact List.mem_cons_self
      · have same : doom doomed block = doomed := by simp only [doom, hit]; rfl
        have step : doomPass doomed (block :: rest) = doomPass doomed rest := by
          simp only [doomPass, List.foldl_cons, same]
        rw [step] at grown ⊢
        obtain ⟨found, member, fresh, added⟩ := ih doomed grown
        exact ⟨found, List.mem_cons_of_mem _ member, fresh, added⟩

/-- Adding the id of a spared block to a list of ids leaves fewer spared. -/
theorem spared_lt (blocks : List Block) (doomed wider : List String) (block : Block)
    (keeps : ∀ id ∈ doomed, id ∈ wider) (member : block ∈ blocks)
    (fresh : block.id ∉ doomed) (added : block.id ∈ wider) :
    spared wider blocks < spared doomed blocks := by
  unfold spared
  induction blocks with
  | nil => cases member
  | cons head rest ih =>
      have rest_le : (rest.filter fun b => !wider.contains b.id).length ≤
          (rest.filter fun b => !doomed.contains b.id).length := by
        rw [← List.countP_eq_length_filter, ← List.countP_eq_length_filter]
        apply List.countP_mono_left
        intro b _ out
        simp only [List.contains_eq_mem, Bool.not_eq_true', decide_eq_false_iff_not] at out ⊢
        exact fun known => out (keeps _ known)
      by_cases here : block = head
      · subst here
        simp only [List.filter_cons, List.contains_eq_mem, added, decide_true, Bool.not_true,
          fresh, decide_false, Bool.not_false, ↓reduceIte, List.length_cons] at *
        exact Nat.lt_succ_of_le (by simpa using rest_le)
      · have inRest : block ∈ rest := (List.mem_cons.mp member).resolve_left here
        have smaller := ih inRest
        by_cases out : head.id ∈ doomed
        · simpa [List.filter_cons, out, keeps _ out] using smaller
        · by_cases later : head.id ∈ wider
          · simp only [List.filter_cons, List.contains_eq_mem, later, decide_true, Bool.not_true,
              out, decide_false, Bool.not_false, ↓reduceIte, List.length_cons] at smaller ⊢
            exact Nat.lt_succ_of_lt (by simpa using smaller)
          · simpa [List.filter_cons, out, later] using smaller

theorem doomPass_lt (blocks : List Block) (doomed : List String)
    (grown : (doomPass doomed blocks).length ≠ doomed.length) :
    spared (doomPass doomed blocks) blocks < spared doomed blocks := by
  obtain ⟨block, member, fresh, added⟩ := doomPass_grows blocks doomed grown
  exact spared_lt blocks doomed _ block (doomPass_keeps blocks doomed) member fresh added

def doomClosure (blocks : List Block) (doomed : List String) : List String :=
  let wider := doomPass doomed blocks
  if wider.length = doomed.length then doomed else doomClosure blocks wider
termination_by spared doomed blocks
decreasing_by exact doomPass_lt blocks doomed (by assumption)

/-- Removes a block and everything nested under it, and gives the ids of the
removed blocks in list order. -/
def removeBlock (program : Program) (id : String) :
    Except ProgramFault (Program × List String) :=
  match program.get id with
  | .error fault => .error fault
  | .ok _ =>
      let doomed := doomClosure program.blocks [id]
      let removed := program.blocks.filter fun block => doomed.contains block.id
      let kept := program.blocks.filter fun block => !doomed.contains block.id
      .ok (⟨kept⟩, removed.map (·.id))

end Program

end ArmProgram
