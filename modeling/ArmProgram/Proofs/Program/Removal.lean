import ArmProgram.Proofs.Program.Edits
import Mathlib.Logic.Function.Iterate
import Mathlib.Order.Bounds.Defs

/-!
What removing a block takes along. The passes end with the least set of ids that
has the block and, with every id, the blocks under it, whatever the order of the
list, and also if ids repeat or parents form a cycle. A chain of parents that
leads to a block avoids another one unless its lower end is under that one too,
so two removals leave the same blocks in either order.
-/

namespace ArmProgram.Program

def Closures (program : Program) (root : String) : Set (Set String) :=
  {ids | root ∈ ids ∧
    ∀ block ∈ program.blocks, ∀ parent, block.parent = some parent → parent ∈ ids → block.id ∈ ids}

/-- What is left of a program by removing a block. Nothing happens if there is no
such block. -/
def without (program : Program) (id : String) : Program :=
  match program.removeBlock id with
  | .ok (kept, _) => kept
  | .error _ => program

/-- A removal takes the doomed blocks out of the list and tells their ids, where
the doomed ids are those that so many passes find. -/
structure Removes (program : Program) (root : String) (doomed : List String) : Prop where
  result : program.removeBlock root =
    .ok (⟨program.blocks.filter fun block => block.id ∉ doomed⟩,
      (program.blocks.filter fun block => block.id ∈ doomed).map (·.id))
  least : IsLeast (program.Closures root) {id | id ∈ doomed}
  passes : ∃ passes ≤ program.size,
    (fun ids => doomPass ids program.blocks)^[passes] [root] = doomed
  settled : doomPass doomed program.blocks = doomed
  partition : ((program.blocks.filter fun block => block.id ∉ doomed) ++
    program.blocks.filter fun block => block.id ∈ doomed).Perm program.blocks
  orphanless : ∀ block ∈ program.blocks, block.id ∉ doomed →
    ∀ parent, block.parent = some parent → parent ∉ doomed

/-! The passes. -/

theorem doomClosure_settled (blocks : List Block) (doomed : List String) :
    doomPass (doomClosure blocks doomed) blocks = doomClosure blocks doomed := by
  fun_induction doomClosure blocks doomed with
  | case1 doomed wider same => exact (doomPass_settled same).1
  | case2 doomed wider grown ih => exact ih

theorem doomClosure_passes (blocks : List Block) (doomed : List String) :
    ∃ passes ≤ spared doomed blocks,
      (fun ids => doomPass ids blocks)^[passes] doomed = doomClosure blocks doomed := by
  fun_induction doomClosure blocks doomed with
  | case1 doomed wider same => exact ⟨0, Nat.zero_le _, rfl⟩
  | case2 doomed wider grown ih =>
      obtain ⟨passes, few, reached⟩ := ih
      have fewer : spared wider blocks < spared doomed blocks := doomPass_lt blocks doomed grown
      refine ⟨passes + 1, by omega, ?_⟩
      rw [Function.iterate_succ_apply]
      exact reached

theorem doomClosure_keeps (blocks : List Block) (doomed : List String) {id : String}
    (member : id ∈ doomed) : id ∈ doomClosure blocks doomed := by
  fun_induction doomClosure blocks doomed with
  | case1 => exact member
  | case2 doomed wider grown ih => exact ih (doomPass_keeps blocks doomed id member)

/-! Nothing is doomed that need not be. -/

theorem mem_doom {doomed : List String} {block : Block} {id : String}
    (member : id ∈ doom doomed block) :
    id ∈ doomed ∨ id = block.id ∧ ∃ parent, block.parent = some parent ∧ parent ∈ doomed := by
  unfold doom at member
  split at member
  · rename_i hit
    rcases List.mem_cons.mp member with new | old
    · right
      refine ⟨new, ?_⟩
      cases named : block.parent with
      | none => simp [underDoomed, named] at hit
      | some parent => exact ⟨parent, rfl, by simp_all [underDoomed]⟩
    · exact Or.inl old
  · exact Or.inl member

section Within

variable {program : Program} {root : String} {ids : Set String}
  (closure : ids ∈ program.Closures root)

include closure

theorem doomPass_within {blocks : List Block} {doomed : List String}
    (listed : ∀ block ∈ blocks, block ∈ program.blocks) (within : ∀ id ∈ doomed, id ∈ ids) :
    ∀ id ∈ doomPass doomed blocks, id ∈ ids := by
  induction blocks generalizing doomed with
  | nil => exact within
  | cons block rest ih =>
      refine ih (fun other member => listed other (List.mem_cons_of_mem block member)) ?_
      intro id member
      rcases mem_doom member with old | ⟨rfl, parent, named, above⟩
      · exact within id old
      · exact closure.2 block (listed block List.mem_cons_self) parent named (within parent above)

theorem doomClosure_within {doomed : List String} (within : ∀ id ∈ doomed, id ∈ ids) :
    ∀ id ∈ doomClosure program.blocks doomed, id ∈ ids := by
  fun_induction doomClosure program.blocks doomed with
  | case1 => exact within
  | case2 doomed wider grown ih => exact ih (doomPass_within closure (fun _ => id) within)

end Within

variable (program : Program) (root : String)

theorem doomClosure_least :
    IsLeast (program.Closures root) {id | id ∈ doomClosure program.blocks [root]} := by
  refine ⟨⟨doomClosure_keeps _ _ List.mem_cons_self, doomClosure_closed _ _⟩, ?_⟩
  intro ids closure id doomed
  refine doomClosure_within closure (fun other member => ?_) id doomed
  cases List.mem_singleton.mp member
  exact closure.1

theorem removeBlock_removes (known : root ∈ program.ids) :
    program.Removes root (doomClosure program.blocks [root]) := by
  obtain ⟨block, got⟩ : ∃ block, program.get root = .ok block := by
    cases got : program.get root with
    | ok block => exact ⟨block, rfl⟩
    | error fault => exact absurd known ((get_refused_iff program root fault).mp got).1
  refine ⟨?_, doomClosure_least program root, ?_, doomClosure_settled _ _, ?_, ?_⟩
  · simp [removeBlock, got]
  · obtain ⟨passes, few, reached⟩ := doomClosure_passes program.blocks [root]
    exact ⟨passes, Nat.le_trans few (List.length_filter_le _ _), reached⟩
  · have split := List.filter_append_perm
      (fun block : Block => decide (block.id ∉ doomClosure program.blocks [root])) program.blocks
    simpa using split
  · intro block member spared parent named above
    exact spared (doomClosure_closed _ _ block member parent named above)

theorem removeBlock_unknown (unknown : root ∉ program.ids) :
    program.removeBlock root = .error (.unknownBlock root) := by
  have got := (get_refused_iff program root _).mpr ⟨unknown, rfl⟩
  simp [removeBlock, got]

/-! Two removals. -/

def Fells (program : Program) (root id : String) : Prop :=
  root ∈ program.ids ∧ Relation.ReflTransGen program.Under id root

theorem mem_doomClosure_iff (id : String) : id ∈ doomClosure program.blocks [root] ↔
    Relation.ReflTransGen program.Under id root := by
  obtain ⟨⟨start, closed⟩, least⟩ := doomClosure_least program root
  constructor
  · -- What is tied to the root is a closure, and the doomed ids are the least one.
    intro doomed
    have closure : {id | Relation.ReflTransGen program.Under id root} ∈ program.Closures root :=
      ⟨.refl, fun block member parent named above => .head ⟨block, member, rfl, named⟩ above⟩
    exact least closure doomed
  · intro tied
    induction tied using Relation.ReflTransGen.head_induction_on with
    | refl => exact start
    | head under _ ih =>
        obtain ⟨block, member, rfl, named⟩ := under
        exact closed block member _ named ih

open Classical in
theorem without_blocks : (program.without root).blocks =
    program.blocks.filter fun block => ¬ program.Fells root block.id := by
  unfold without
  by_cases known : root ∈ program.ids
  · rw [(removeBlock_removes program root known).result]
    refine List.filter_congr fun block _ => ?_
    simp only [mem_doomClosure_iff, Fells, known, true_and]
  · rw [removeBlock_unknown program root known]
    refine (List.filter_eq_self.mpr fun block _ => ?_).symm
    simp [Fells, known]

variable {program root}

theorem mem_without_blocks {block : Block} : block ∈ (program.without root).blocks ↔
    block ∈ program.blocks ∧ ¬ program.Fells root block.id := by
  classical
  rw [without_blocks, List.mem_filter, decide_eq_true_iff]

/-- A chain of parents from a block that is kept is kept whole. -/
theorem tied_without {id other : String} (tied : Relation.ReflTransGen program.Under id other)
    (kept : ¬ program.Fells root id) :
    Relation.ReflTransGen (program.without root).Under id other ∧ ¬ program.Fells root other := by
  induction tied using Relation.ReflTransGen.head_induction_on with
  | refl => exact ⟨.refl, kept⟩
  | @head child parent under _ ih =>
      have above : ¬ program.Fells root parent :=
        fun fells => kept ⟨fells.1, .head under fells.2⟩
      obtain ⟨chain, last⟩ := ih above
      obtain ⟨block, member, rfl, named⟩ := under
      exact ⟨.head ⟨block, mem_without_blocks.mpr ⟨member, kept⟩, rfl, named⟩ chain, last⟩

theorem fells_without {id : String} (kept : ¬ program.Fells root id) (other : String) :
    (program.without root).Fells other id ↔ program.Fells other id := by
  constructor
  · rintro ⟨known, tied⟩
    obtain ⟨block, member, rfl⟩ := List.mem_map.mp known
    refine ⟨List.mem_map_of_mem (mem_without_blocks.mp member).1, ?_⟩
    -- A chain in what is left is one of the program too; the other way needs its end kept.
    refine Relation.ReflTransGen.mono ?_ _ _ tied
    rintro child parent ⟨under, listed, same, named⟩
    exact ⟨under, (mem_without_blocks.mp listed).1, same, named⟩
  · rintro ⟨known, tied⟩
    obtain ⟨chain, last⟩ := tied_without tied kept
    obtain ⟨block, member, rfl⟩ := List.mem_map.mp known
    exact ⟨List.mem_map_of_mem (mem_without_blocks.mpr ⟨member, last⟩), chain⟩

open Classical in
theorem without_without (program : Program) (root other : String) :
    ((program.without root).without other).blocks =
      program.blocks.filter fun block =>
        ¬ program.Fells root block.id ∧ ¬ program.Fells other block.id := by
  rw [without_blocks, without_blocks, List.filter_filter]
  refine List.filter_congr fun block _ => ?_
  by_cases kept : program.Fells root block.id
  · simp [kept]
  · simp [kept, fells_without kept]

/-- Removing a block removes it with everything nested under it and nothing else,
or is refused if there is no such block. What two removals leave does not depend on
their order. -/
theorem removal_takes_subtree (program : Program) (id : String) :
    (id ∉ program.ids ∧ program.removeBlock id = .error (.unknownBlock id) ∧
        program.without id = program ∨
      id ∈ program.ids ∧ ∃ doomed, program.Removes id doomed) ∧
    ∀ other, (program.without id).without other = (program.without other).without id := by
  constructor
  · by_cases known : id ∈ program.ids
    · exact Or.inr ⟨known, _, removeBlock_removes program id known⟩
    · have refused := removeBlock_unknown program id known
      exact Or.inl ⟨known, refused, by simp only [without, refused]⟩
  · intro other
    have same : ((program.without id).without other).blocks =
        ((program.without other).without id).blocks := by
      rw [without_without, without_without]
      exact List.filter_congr fun block _ => decide_eq_decide.mpr and_comm
    exact congrArg Program.mk same

end ArmProgram.Program
