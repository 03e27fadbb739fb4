import ArmProgram.Block.Basic

/-!
Children of every parent, grouped once from a flat list. A placed block
remembers its place in the list, where its parameters are found. Grouping
keeps the order of the list, so looking up a parent gives the same blocks as
filtering the whole list by parent.
-/

namespace ArmProgram

structure Placed where
  place : Nat
  block : Block
  deriving Repr, Inhabited

def placed (blocks : List Block) : List Placed :=
  blocks.zipIdx.map fun entry => ⟨entry.2, entry.1⟩

theorem placed_blocks (blocks : List Block) : (placed blocks).map (·.block) = blocks := by
  simp [placed, List.zipIdx_map_fst, Function.comp_def]

abbrev Bucket := Option String × List Placed

structure ChildIndex where
  buckets : List Bucket
  deriving Inhabited

namespace ChildIndex

def insert (entry : Placed) : List Bucket → List Bucket
  | [] => [(entry.block.parent, [entry])]
  | (parent, members) :: rest =>
      if entry.block.parent = parent then (parent, members ++ [entry]) :: rest
      else (parent, members) :: insert entry rest

def ofPlaced (entries : List Placed) : ChildIndex :=
  ⟨entries.foldl (fun buckets entry => insert entry buckets) []⟩

def ofBlocks (blocks : List Block) : ChildIndex :=
  ofPlaced (placed blocks)

def members (index : ChildIndex) (parent : Option String) : List Placed :=
  (index.buckets.lookup parent).getD []

def topLevel (index : ChildIndex) : List Placed :=
  index.members none

def children (index : ChildIndex) (parent : String) (slot : Option Slot) : List Placed :=
  (index.members (some parent)).filter (·.block.inSlot slot)

theorem lookup_insert (entry : Placed) (buckets : List Bucket) (parent : Option String) :
    ((insert entry buckets).lookup parent).getD [] =
      (buckets.lookup parent).getD [] ++ [entry].filter (·.block.parent = parent) := by
  induction buckets with
  | nil =>
      by_cases hit : parent = entry.block.parent
      · subst hit; simp [insert]
      · have miss : (parent == entry.block.parent) = false := by simpa using hit
        have other : ¬ entry.block.parent = parent := fun same => hit same.symm
        simp [insert, List.lookup_cons, miss, other]
  | cons bucket rest ih =>
      obtain ⟨key, known⟩ := bucket
      by_cases mine : entry.block.parent = key
      · by_cases hit : parent = key
        · subst hit; simp [insert, mine]
        · have miss : (parent == key) = false := by simpa using hit
          have other : ¬ key = parent := fun same => hit same.symm
          simp [insert, mine, List.lookup_cons, miss, other]
      · by_cases hit : parent = key
        · subst hit; simp [insert, mine]
        · have miss : (parent == key) = false := by simpa using hit
          simp only [insert, mine, ↓reduceIte, List.lookup_cons, miss]
          exact ih

theorem members_foldl (entries : List Placed) (buckets : List Bucket) (parent : Option String) :
    ((entries.foldl (fun known entry => insert entry known) buckets).lookup parent).getD [] =
      (buckets.lookup parent).getD [] ++ entries.filter (·.block.parent = parent) := by
  induction entries generalizing buckets with
  | nil => simp
  | cons entry rest ih =>
      rw [List.foldl_cons, ih, lookup_insert, List.append_assoc, ← List.filter_append]
      rfl

theorem members_ofPlaced (entries : List Placed) (parent : Option String) :
    (ofPlaced entries).members parent = entries.filter (·.block.parent = parent) := by
  simpa [members, ofPlaced] using members_foldl entries [] parent

end ChildIndex

end ArmProgram
