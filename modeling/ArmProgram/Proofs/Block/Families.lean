import ArmProgram.Program.Basic
import Mathlib.Data.List.Dedup
import Mathlib.Data.List.Perm.Basic

/-!
The groups that the index keeps are scans of the whole list. A family is the top
level or one side of a parent; it holds the blocks of the list that name it, in
the order of the list. The families of the parents that occur in a list split it:
a block is in one family, and in no other.
-/

namespace ArmProgram

inductive Family where
  | top
  | under (parent : String) (side : Slot)
  deriving DecidableEq, Repr

def Block.family (block : Block) : Family :=
  match block.parent with
  | none => .top
  | some parent => .under parent (block.slot.getD .thenSide)

def Family.ofParent (parent : String) : List Family :=
  [.under parent .thenSide, .under parent .elseSide]

/-- The families of a list: the top level, and both sides of each parent that occurs. -/
def families (blocks : List Block) : List Family :=
  .top :: (blocks.filterMap (·.parent)).dedup.flatMap Family.ofParent

def ChildIndex.family (index : ChildIndex) : Family → List Placed
  | .top => index.topLevel
  | .under parent side => index.children parent (some side)

/-! Splitting a list by a key. -/

/-- Distinct keys that cover a list enumerate each of its entries once. -/
theorem flatMap_filter_perm {α κ : Type} [DecidableEq κ] (key : α → κ) {keys : List κ}
    (distinct : keys.Nodup) {entries : List α} (covered : ∀ entry ∈ entries, key entry ∈ keys) :
    (keys.flatMap fun named => entries.filter (key · = named)).Perm entries := by
  induction keys generalizing entries with
  | nil =>
      have empty : entries = [] :=
        List.eq_nil_iff_forall_not_mem.mpr fun entry member => List.not_mem_nil (covered entry member)
      rw [empty]
      exact .refl _
  | cons first rest ih =>
      obtain ⟨fresh, distinct⟩ := List.nodup_cons.mp distinct
      -- The keys after the first do not see the entries that name it.
      have others : (rest.flatMap fun named => entries.filter (key · = named)) =
          rest.flatMap fun named => (entries.filter (key · ≠ first)).filter (key · = named) := by
        apply List.flatMap_congr
        intro named member
        have apart : named ≠ first := fun same => fresh (same ▸ member)
        rw [List.filter_filter]
        apply List.filter_congr
        intro entry _
        by_cases same : key entry = named <;> simp [same, apart]
      have kept : ∀ entry ∈ entries.filter (key · ≠ first), key entry ∈ rest := by
        intro entry member
        obtain ⟨member, apart⟩ := List.mem_filter.mp member
        exact (List.mem_cons.mp (covered entry member)).resolve_left (by simpa using apart)
      rw [List.flatMap_cons, others]
      refine ((ih distinct kept).append_left _).trans ?_
      simpa using List.filter_append_perm (fun entry => decide (key entry = first)) entries

/-! Families of a list. -/

theorem Block.family_top_iff (block : Block) : block.family = .top ↔ block.parent = none := by
  unfold family
  cases block.parent <;> simp

theorem Block.family_under_iff (block : Block) (parent : String) (side : Slot) :
    block.family = .under parent side ↔
      block.parent = some parent ∧ block.inSlot (some side) = true := by
  unfold family inSlot
  cases block.parent with
  | none => simp
  | some named =>
      cases side <;> rcases block.slot with _ | _ | _ <;> simp

theorem families_nodup (blocks : List Block) : (families blocks).Nodup := by
  apply List.nodup_cons.mpr
  constructor
  · simp [Family.ofParent]
  · apply List.nodup_flatMap.mpr
    constructor
    · simp [Family.ofParent]
    · refine (List.nodup_dedup _).imp ?_
      intro left right apart
      simp [Function.onFun, Family.ofParent, Ne.symm apart]

theorem family_mem_families {blocks : List Block} {block : Block} (member : block ∈ blocks) :
    block.family ∈ families blocks := by
  unfold Block.family
  cases named : block.parent with
  | none => exact List.mem_cons_self
  | some parent =>
      apply List.mem_cons_of_mem
      apply List.mem_flatMap.mpr
      refine ⟨parent, List.mem_dedup.mpr (List.mem_filterMap.mpr ⟨block, member, named⟩), ?_⟩
      rcases block.slot with _ | _ | _ <;> simp [Family.ofParent]

namespace ChildIndex

theorem family_ofBlocks (blocks : List Block) (family : Family) :
    (ofBlocks blocks).family family = (placed blocks).filter (·.block.family = family) := by
  cases family with
  | top =>
      simp only [ChildIndex.family, topLevel, ofBlocks, members_ofPlaced, Block.family_top_iff]
  | under parent side =>
      simp only [ChildIndex.family, children, ofBlocks, members_ofPlaced, List.filter_filter,
        Block.family_under_iff, Bool.decide_and, Bool.decide_eq_true]
      apply List.filter_congr
      intro entry _
      exact Bool.and_comm _ _

theorem family_blocks (blocks : List Block) (family : Family) :
    ((ofBlocks blocks).family family).map (·.block) = blocks.filter (·.family = family) := by
  rw [family_ofBlocks]
  conv => right; rw [← placed_blocks blocks, List.filter_map]
  rfl

theorem children_none (index : ChildIndex) (parent : String) :
    index.children parent none = index.children parent (some .thenSide) := by
  simp [children, Block.inSlot]

theorem families_perm (blocks : List Block) :
    ((families blocks).flatMap (ofBlocks blocks).family).Perm (placed blocks) := by
  simp only [List.flatMap_congr fun family _ => family_ofBlocks blocks family]
  apply flatMap_filter_perm (fun entry : Placed => entry.block.family) (families_nodup blocks)
  intro entry member
  have listed : entry.block ∈ (placed blocks).map (·.block) := List.mem_map_of_mem member
  rw [placed_blocks] at listed
  exact family_mem_families listed

end ChildIndex

/-- A block of the list is in the family it names, and in no other. -/
theorem exists_unique_family {blocks : List Block} {block : Block} (member : block ∈ blocks) :
    ∃! family, family ∈ families blocks ∧
      block ∈ ((ChildIndex.ofBlocks blocks).family family).map (·.block) := by
  refine ⟨block.family, ⟨family_mem_families member, ?_⟩, ?_⟩
  · rw [ChildIndex.family_blocks]
    exact List.mem_filter.mpr ⟨member, decide_eq_true rfl⟩
  · rintro family ⟨_, holds⟩
    rw [ChildIndex.family_blocks] at holds
    exact (of_decide_eq_true (List.mem_filter.mp holds).2).symm

/-- The index is a scan of the list: what it gives for the top level and for each
side of a parent are the blocks that name it, in the order of the list, and the
families of the parents that occur share the blocks out among them. -/
theorem index_scans_list (blocks : List Block) :
    let index := ChildIndex.ofBlocks blocks
    (index.topLevel.map (·.block) = blocks.filter (·.parent = none) ∧
      index.topLevel.map (·.block) = (Program.mk blocks).topLevel) ∧
    (∀ parent : String,
      index.children parent none = index.children parent (some .thenSide) ∧
      (index.children parent (some .thenSide)).map (·.block) =
        blocks.filter (fun block => block.parent = some parent ∧ block.slot ≠ some .elseSide) ∧
      (index.children parent (some .elseSide)).map (·.block) =
        blocks.filter (fun block => block.parent = some parent ∧ block.slot = some .elseSide)) ∧
    (families blocks).Nodup ∧
    ((families blocks).flatMap fun family => (index.family family).map (·.block)).Perm blocks ∧
    ∀ block ∈ blocks, ∃! family, family ∈ families blocks ∧
      block ∈ (index.family family).map (·.block) := by
  intro index
  have top : index.topLevel.map (·.block) = blocks.filter (·.parent = none) := by
    have named := ChildIndex.family_blocks blocks .top
    simp only [Block.family_top_iff] at named
    exact named
  have sides : ∀ parent side, (index.children parent (some side)).map (·.block) =
      blocks.filter (fun block => block.parent = some parent ∧ block.inSlot (some side) = true) := by
    intro parent side
    have named := ChildIndex.family_blocks blocks (.under parent side)
    simp only [Block.family_under_iff] at named
    exact named
  have shared : ((families blocks).flatMap fun family =>
      (index.family family).map (·.block)).Perm blocks := by
    have split := (ChildIndex.families_perm blocks).map (·.block)
    rwa [List.map_flatMap, placed_blocks] at split
  refine ⟨⟨top, top⟩, fun parent => ⟨index.children_none parent, ?_, ?_⟩, families_nodup blocks,
    shared, fun block member => exists_unique_family member⟩
  · simpa [Block.inSlot] using sides parent .thenSide
  · simpa [Block.inSlot] using sides parent .elseSide

-- Two blocks of one id share their children, and an empty id is one like any other.
example :
    let block (id : String) (parent : Option String) (slot : Option Slot) : Block :=
      ⟨id, "repeat", ⟨[]⟩, parent, slot⟩
    let index := ChildIndex.ofBlocks
      [block "a" none none, block "b" (some "") none, block "a" (some "a") (some .elseSide),
        block "" none none, block "b" (some "") (some .thenSide)]
    index.topLevel.map (·.place) = [0, 3] ∧ (index.children "" none).map (·.place) = [1, 4] ∧
      (index.children "a" (some .elseSide)).map (·.place) = [2] := by decide

end ArmProgram
