import ArmProgram.Block.Index
import ArmProgram.Proofs.Program.Forest
import Mathlib.Data.List.Induction
import Mathlib.Data.Set.Finite.Basic

/-!
Live blocks: those at the top, and those in a slot that a live block runs. They
are found by waking blocks under those that are awake until no more wake. With
unique ids a block is live unless its ties are at fault somewhere on the way up.
A list of live blocks has the same children in the same order under every block
that runs any, at places that count only the live blocks before.
-/

namespace ArmProgram

namespace Block

def opens (above : Block) (slot : Option Slot) : Bool :=
  match above.kind? with
  | some .ifElse => true
  | some .repeatTimes | some .ifCondition | some .whileLoop => slot ≠ some .elseSide
  | _ => false

/-- A block of the list that is at the top, or under a live block that runs it. -/
inductive IsLive (blocks : List Block) : Block → Prop where
  | top {block : Block} (listed : block ∈ blocks) (parentless : block.parent = none) :
      IsLive blocks block
  | under {block above : Block} (listed : block ∈ blocks) (live : IsLive blocks above)
      (named : block.parent = some above.id) (opened : above.opens block.slot = true) :
      IsLive blocks block

theorem IsLive.listed {blocks : List Block} {block : Block} (live : IsLive blocks block) :
    block ∈ blocks := by
  cases live <;> assumption

/-- A control block runs its children, but the else side only if it has two branches. -/
theorem opens_iff (above : Block) (slot : Option Slot) :
    above.opens slot = true ↔
      above.isControl = true ∧ (slot = some .elseSide → above.kind? = some .ifElse) := by
  unfold opens isControl
  cases above.kind? with
  | none => simp
  | some kind => cases kind <;> simp [Kind.isControl]

theorem opens_of_inSlot {above : Block} {kind : Kind} (known : above.kind? = some kind)
    (control : kind.isControl = true) (block : Block) (main : block.inSlot none = true) :
    above.opens block.slot = true := by
  have side : block.slot ≠ some .elseSide := by simpa [inSlot] using main
  refine (opens_iff above block.slot).mpr ⟨?_, fun same => absurd same side⟩
  rw [isControl, known]
  exact control

theorem opens_of_ifElse {above : Block} (kind : above.kind? = some .ifElse) (slot : Option Slot) :
    above.opens slot = true := by
  rw [opens, kind]

/-! Stray blocks. -/

/-- Ties that are at fault, of a block or on the way up from it. -/
inductive IsStray (blocks : List Block) : Block → Prop where
  | cyclic {block : Block} (cycle : Relation.TransGen (Program.mk blocks).Under block.id block.id) :
      IsStray blocks block
  | orphaned {block : Block} {parent : String} (named : block.parent = some parent)
      (missing : parent ∉ blocks.map (·.id)) : IsStray blocks block
  /-- Under a block that runs no children, of whatever type. -/
  | unrun {block above : Block} (listed : above ∈ blocks) (named : block.parent = some above.id)
      (plain : above.isControl = false) : IsStray blocks block
  | ignored {block above : Block} (listed : above ∈ blocks)
      (named : block.parent = some above.id) (single : above.kind? ≠ some .ifElse)
      (side : block.slot = some .elseSide) : IsStray blocks block
  | beneath {block above : Block} (listed : above ∈ blocks) (named : block.parent = some above.id)
      (stray : IsStray blocks above) : IsStray blocks block

section Unique

variable {blocks : List Block} (unique : (blocks.map (·.id)).Nodup)

include unique

/-- A live block that names a parent is live through the block with that id. -/
theorem IsLive.above {block above : Block} (live : block.IsLive blocks) (listed : above ∈ blocks)
    (named : block.parent = some above.id) :
    above.IsLive blocks ∧ above.opens block.slot = true := by
  cases live with
  | top _ parentless => cases parentless.symm.trans named
  | @under _ other _ live named' opened =>
      have same : other.id = above.id := Option.some.inj (named'.symm.trans named)
      have one := List.inj_on_of_nodup_map unique live.listed listed same
      exact one ▸ ⟨live, opened⟩

theorem IsLive.acyclic {block : Block} (live : block.IsLive blocks) :
    ¬ Relation.TransGen (Program.mk blocks).Under block.id block.id := by
  have parent {block : Block} {id : String} (listed : block ∈ blocks)
      (under : (Program.mk blocks).Under block.id id) : block.parent = some id := by
    obtain ⟨other, there, same, named⟩ := under
    have one := List.inj_on_of_nodup_map unique there listed same
    rwa [one] at named
  -- The parent of a block on a cycle is on it too.
  induction live with
  | top listed parentless =>
      intro cycle
      obtain ⟨id, under, -⟩ := Relation.TransGen.head'_iff.mp cycle
      cases parentless.symm.trans (parent listed under)
  | @under block above listed live named opened ih =>
      intro cycle
      obtain ⟨id, under, back⟩ := Relation.TransGen.head'_iff.mp cycle
      have same : above.id = id := Option.some.inj (named.symm.trans (parent listed under))
      subst same
      exact ih (Relation.TransGen.tail' back under)

theorem IsStray.not_live {block : Block} (stray : block.IsStray blocks) :
    ¬ block.IsLive blocks := by
  induction stray with
  | cyclic cycle => exact fun live => live.acyclic unique cycle
  | orphaned named missing =>
      intro live
      cases live with
      | top _ parentless => cases parentless.symm.trans named
      | @under _ above _ live named' _ =>
          cases named'.symm.trans named
          exact missing (List.mem_map_of_mem live.listed)
  | unrun listed named plain =>
      intro live
      obtain ⟨control, -⟩ := (opens_iff _ _).mp (live.above unique listed named).2
      exact Bool.false_ne_true (plain.symm.trans control)
  | ignored listed named single side =>
      intro live
      obtain ⟨-, branches⟩ := (opens_iff _ _).mp (live.above unique listed named).2
      exact single (branches side)
  | beneath listed named _ ih => exact fun live => ih (live.above unique listed named).1

end Unique

def Sound (blocks : List Block) : Type :=
  { block : Block // block ∈ blocks ∧ ¬ block.IsStray blocks }

namespace Sound

variable {blocks : List Block}

def Over (above block : Sound blocks) : Prop :=
  Relation.TransGen (Program.mk blocks).Under block.1.id above.1.id

/-- Without a cycle every way up comes to an end. -/
theorem over_wellFounded (blocks : List Block) : WellFounded (@Over blocks) := by
  have : Finite (Sound blocks) := (List.finite_toSet blocks).subset fun _ known => known.1
  have : IsTrans (Sound blocks) Over := ⟨fun _ _ _ upper lower => lower.trans upper⟩
  have : Std.Irrefl (@Over blocks) := ⟨fun block cycle => block.2.2 (.cyclic cycle)⟩
  exact Finite.wellFounded_of_trans_of_irrefl Over

theorem above_opens (block : Sound blocks) {id : String} (parent : block.1.parent = some id) :
    ∃ above : Sound blocks, above.1.id = id ∧ above.Over block ∧
      above.1.opens block.1.slot = true := by
  obtain ⟨block, listed, sound⟩ := block
  by_cases missing : id ∉ blocks.map (·.id)
  · exact absurd (.orphaned parent missing) sound
  · obtain ⟨above, known, rfl⟩ := List.mem_map.mp (not_not.mp missing)
    have sane : ¬ above.IsStray blocks := fun stray => sound (.beneath known parent stray)
    refine ⟨⟨above, known, sane⟩, rfl, .single ⟨block, listed, rfl, parent⟩, ?_⟩
    refine (opens_iff above block.slot).mpr ⟨?_, ?_⟩
    · by_contra plain
      exact sound (.unrun known parent (by simpa using plain))
    · intro side
      by_contra single
      exact sound (.ignored known parent single side)

theorem isLive (block : Sound blocks) : block.1.IsLive blocks := by
  induction block using (over_wellFounded blocks).induction with
  | h block ih =>
      cases parent : block.1.parent with
      | none => exact .top block.2.1 parent
      | some id =>
          obtain ⟨above, rfl, further, opened⟩ := block.above_opens parent
          exact .under block.2.1 (ih above further) parent opened

end Sound

/-- With unique ids the live blocks are those that are not stray. -/
theorem isLive_iff_not_isStray {blocks : List Block} (unique : (blocks.map (·.id)).Nodup)
    {block : Block} (listed : block ∈ blocks) :
    block.IsLive blocks ↔ ¬ block.IsStray blocks := by
  constructor
  · exact fun live stray => stray.not_live unique live
  · exact fun sound => Sound.isLive ⟨block, listed, sound⟩

/-! Waking. -/

def isWoken (awake : List Block) (block : Block) : Bool :=
  block.parent.isNone || awake.any fun above =>
    decide (block.parent = some above.id) && above.opens block.slot

theorem isWoken_iff (awake : List Block) (block : Block) :
    block.isWoken awake = true ↔ block.parent = none ∨
      ∃ above ∈ awake, block.parent = some above.id ∧ above.opens block.slot = true := by
  simp only [isWoken, Bool.or_eq_true, Option.isNone_iff_eq_none, List.any_eq_true,
    Bool.and_eq_true, decide_eq_true_eq]

end Block

def stirred (awake asleep : List Block) : List Block :=
  asleep.filter (·.isWoken awake)

def unstirred (awake asleep : List Block) : List Block :=
  asleep.filter (!·.isWoken awake)

theorem unstirred_length {awake asleep : List Block} (stirs : stirred awake asleep ≠ []) :
    (unstirred awake asleep).length < asleep.length := by
  obtain ⟨block, member⟩ := List.exists_mem_of_ne_nil _ stirs
  obtain ⟨listed, woken⟩ := List.mem_filter.mp member
  refine List.length_filter_lt_length_iff_exists.mpr ⟨block, listed, ?_⟩
  simp [woken]

def wake (awake asleep : List Block) : List Block :=
  if stirred awake asleep = [] then awake
  else wake (stirred awake asleep ++ awake) (unstirred awake asleep)
termination_by asleep.length
decreasing_by exact unstirred_length ‹_›

theorem wake_live {blocks : List Block} (awake asleep : List Block)
    (live : ∀ block ∈ awake, block.IsLive blocks) (listed : ∀ block ∈ asleep, block ∈ blocks) :
    ∀ block ∈ wake awake asleep, block.IsLive blocks := by
  fun_induction wake awake asleep with
  | case1 => exact live
  | case2 awake asleep stirs ih =>
      refine ih ?_ fun block member => listed block (List.mem_filter.mp member).1
      intro block member
      rcases List.mem_append.mp member with new | old
      · obtain ⟨inside, woken⟩ := List.mem_filter.mp new
        rcases (block.isWoken_iff awake).mp woken with parentless | ⟨above, known, named, opened⟩
        · exact .top (listed block inside) parentless
        · exact .under (listed block inside) (live above known) named opened
      · exact live block old

/-- When no more wake, whoever would be woken is awake. -/
theorem wake_closed (awake asleep : List Block) (block : Block)
    (there : block ∈ awake ∨ block ∈ asleep) (woken : block.isWoken (wake awake asleep) = true) :
    block ∈ wake awake asleep := by
  fun_induction wake awake asleep with
  | case1 awake asleep rests =>
      rcases there with old | inside
      · exact old
      · exact absurd rests (List.ne_nil_of_mem (List.mem_filter.mpr ⟨inside, woken⟩))
  | case2 awake asleep stirs ih =>
      refine ih ?_ woken
      by_cases early : block.isWoken awake = true
      · rcases there with old | inside
        · exact Or.inl (List.mem_append_right _ old)
        · exact Or.inl (List.mem_append_left _ (List.mem_filter.mpr ⟨inside, early⟩))
      · rcases there with old | inside
        · exact Or.inl (List.mem_append_right _ old)
        · exact Or.inr (List.mem_filter.mpr ⟨inside, by simpa using early⟩)

def Block.isLive (blocks : List Block) (block : Block) : Bool :=
  block.isWoken (wake [] blocks)

theorem Block.isLive_iff {blocks : List Block} {block : Block} (listed : block ∈ blocks) :
    block.isLive blocks = true ↔ block.IsLive blocks := by
  have sound : ∀ block ∈ wake [] blocks, block.IsLive blocks :=
    wake_live [] blocks nofun fun _ member => member
  have closed := wake_closed [] blocks
  constructor
  · intro woken
    exact sound block (closed block (Or.inr listed) woken)
  · intro live
    rw [isLive]
    induction live with
    | top _ parentless => exact (isWoken_iff _ _).mpr (Or.inl parentless)
    | @under block above _ live named opened ih =>
        have known := closed above (Or.inr live.listed) (ih live.listed)
        exact (isWoken_iff _ _).mpr (Or.inr ⟨above, known, named, opened⟩)

def liveBlocks (blocks : List Block) : List Block :=
  blocks.filter (·.isLive blocks)

theorem mem_liveBlocks_iff (blocks : List Block) (block : Block) :
    block ∈ liveBlocks blocks ↔ block.IsLive blocks := by
  rw [liveBlocks, List.mem_filter]
  constructor
  · rintro ⟨listed, live⟩
    exact (Block.isLive_iff listed).mp live
  · intro live
    exact ⟨live.listed, (Block.isLive_iff live.listed).mpr live⟩

/-- Two parents may share an id. A block in the else side is live only through
the one that runs this side, and what names no id of the list is not live. -/
example : (liveBlocks
    [⟨"a", "repeat", .empty, none, none⟩, ⟨"b", "open_gripper", .empty, some "a", some .elseSide⟩,
      ⟨"c", "close_gripper", .empty, some "z", none⟩, ⟨"a", "if_else", .empty, some "a", none⟩,
      ⟨"d", "repeat", .empty, some "d", none⟩]).map (·.definition) =
    ["repeat", "open_gripper", "if_else"] := by
  decide +kernel

/-! Places among the live blocks. -/

def Placed.renumber (places : Nat → Nat) (node : Placed) : Placed :=
  { node with place := places node.place }

def countBefore (keep : Block → Bool) (blocks : List Block) (place : Nat) : Nat :=
  (blocks.take place).countP keep

def rank (blocks : List Block) : Nat → Nat :=
  countBefore (·.isLive blocks) blocks

theorem mem_placed_iff (blocks : List Block) (node : Placed) :
    node ∈ placed blocks ↔ blocks[node.place]? = some node.block := by
  rw [← List.mk_mem_zipIdx_iff_getElem?, placed, List.mem_map]
  constructor
  · rintro ⟨entry, member, rfl⟩
    exact member
  · intro member
    exact ⟨_, member, rfl⟩

theorem placed_concat (blocks : List Block) (block : Block) :
    placed (blocks ++ [block]) = placed blocks ++ [⟨blocks.length, block⟩] := by
  simp [placed, List.zipIdx_append]

theorem countBefore_concat (keep : Block → Bool) (blocks : List Block) (block : Block)
    {place : Nat} (inside : place ≤ blocks.length) :
    countBefore keep (blocks ++ [block]) place = countBefore keep blocks place := by
  rw [countBefore, List.take_append_of_le_length inside, countBefore]

theorem placed_filter (keep : Block → Bool) (blocks : List Block) :
    placed (blocks.filter keep) =
      ((placed blocks).filter (keep ·.block)).map (.renumber (countBefore keep blocks)) := by
  induction blocks using List.reverseRecOn with
  | nil => rfl
  | append_singleton blocks block ih =>
      have before : ∀ node ∈ (placed blocks).filter (keep ·.block),
          node.renumber (countBefore keep (blocks ++ [block])) =
            node.renumber (countBefore keep blocks) := by
        intro node member
        have there := (mem_placed_iff blocks node).mp (List.mem_filter.mp member).1
        obtain ⟨inside, -⟩ := List.getElem?_eq_some_iff.mp there
        rw [Placed.renumber, countBefore_concat keep blocks block (Nat.le_of_lt inside),
          Placed.renumber]
      have last : countBefore keep (blocks ++ [block]) blocks.length =
          (blocks.filter keep).length := by
        rw [countBefore_concat keep blocks block (Nat.le_refl _), countBefore, List.take_length,
          List.countP_eq_length_filter]
      rw [List.filter_append, placed_concat, List.filter_append, List.map_append,
        List.map_congr_left before, ← ih]
      cases kept : keep block with
      | false => simp [kept]
      | true => simp [kept, placed_concat, Placed.renumber, last]

theorem rank_succ {blocks : List Block} {place : Nat} {block : Block}
    (there : blocks[place]? = some block) (live : block.IsLive blocks) :
    rank blocks (place + 1) = rank blocks place + 1 := by
  obtain ⟨inside, same⟩ := List.getElem?_eq_some_iff.mp there
  have kept := (Block.isLive_iff live.listed).mpr live
  rw [rank, countBefore, List.take_succ_eq_append_getElem inside, List.countP_append, same]
  simp [countBefore, kept]

theorem rank_mono (blocks : List Block) {place later : Nat} (before : place ≤ later) :
    rank blocks place ≤ rank blocks later :=
  (List.take_sublist_take_left before).countP_le

/-- Different live blocks have different places among the live blocks. -/
theorem rank_injective {blocks : List Block} {place later : Nat} {block other : Block}
    (there : blocks[place]? = some block) (live : block.IsLive blocks)
    (also : blocks[later]? = some other) (alive : other.IsLive blocks)
    (same : rank blocks place = rank blocks later) : place = later := by
  rcases Nat.lt_trichotomy place later with before | equal | after
  · have further := rank_mono blocks (Nat.succ_le_of_lt before)
    rw [rank_succ there live] at further
    omega
  · exact equal
  · have further := rank_mono blocks (Nat.succ_le_of_lt after)
    rw [rank_succ also alive] at further
    omega

theorem getElem?_rank {blocks : List Block} {place : Nat} {block : Block}
    (there : blocks[place]? = some block) (live : block.IsLive blocks) :
    (liveBlocks blocks)[rank blocks place]? = some block := by
  have known := (Block.isLive_iff live.listed).mpr live
  have member : (⟨place, block⟩ : Placed) ∈ (placed blocks).filter (·.block.isLive blocks) :=
    List.mem_filter.mpr ⟨(mem_placed_iff _ _).mpr there, known⟩
  have kept := List.mem_map_of_mem (f := Placed.renumber (rank blocks)) member
  rw [rank, ← placed_filter] at kept
  exact (mem_placed_iff _ _).mp kept

theorem exists_rank {blocks : List Block} {place : Nat} {block : Block}
    (there : (liveBlocks blocks)[place]? = some block) :
    ∃ first, blocks[first]? = some block ∧ block.IsLive blocks ∧ rank blocks first = place := by
  have live := (mem_liveBlocks_iff blocks block).mp (List.mem_of_getElem? there)
  have member : (⟨place, block⟩ : Placed) ∈ placed (liveBlocks blocks) :=
    (mem_placed_iff _ _).mpr there
  rw [liveBlocks, placed_filter] at member
  obtain ⟨node, kept, same⟩ := List.mem_map.mp member
  cases same
  exact ⟨node.place, (mem_placed_iff _ _).mp (List.mem_filter.mp kept).1, live, rfl⟩

/-! Children among the live blocks. -/

namespace ChildIndex

theorem members_filter (keep : Block → Bool) (blocks : List Block) (parent : Option String) :
    (ofBlocks (blocks.filter keep)).members parent =
      (((ofBlocks blocks).members parent).filter (keep ·.block)).map
        (.renumber (countBefore keep blocks)) := by
  rw [ofBlocks, members_ofPlaced, placed_filter, List.filter_map, ofBlocks, members_ofPlaced,
    List.filter_filter, List.filter_filter]
  congr 2
  funext node
  exact Bool.and_comm _ _

theorem block_of_members {blocks : List Block} {parent : Option String} {node : Placed}
    (member : node ∈ (ofBlocks blocks).members parent) :
    blocks[node.place]? = some node.block ∧ node.block.parent = parent := by
  rw [ofBlocks, members_ofPlaced, List.mem_filter, mem_placed_iff] at member
  simpa using member

theorem topLevel_live (blocks : List Block) :
    ∀ node ∈ (ofBlocks blocks).topLevel, node.block.IsLive blocks := by
  intro node member
  obtain ⟨there, parentless⟩ := block_of_members member
  exact .top (List.mem_of_getElem? there) parentless

theorem children_live {blocks : List Block} {above : Block} (live : above.IsLive blocks)
    {slot : Option Slot} (runs : ∀ block : Block, block.inSlot slot = true →
      above.opens block.slot = true) :
    ∀ node ∈ (ofBlocks blocks).children above.id slot, node.block.IsLive blocks := by
  intro node member
  obtain ⟨inside, placed⟩ := List.mem_filter.mp member
  obtain ⟨there, named⟩ := block_of_members inside
  exact .under (List.mem_of_getElem? there) live named (runs node.block placed)

theorem topLevel_liveBlocks (blocks : List Block) :
    (ofBlocks (liveBlocks blocks)).topLevel =
      (ofBlocks blocks).topLevel.map (.renumber (rank blocks)) := by
  have all : (ofBlocks blocks).topLevel.filter (·.block.isLive blocks) =
      (ofBlocks blocks).topLevel := by
    rw [List.filter_eq_self]
    intro node member
    have live := topLevel_live blocks node member
    exact (Block.isLive_iff live.listed).mpr live
  rw [topLevel, liveBlocks, members_filter]
  exact congrArg _ all

theorem children_liveBlocks {blocks : List Block} {above : Block} (live : above.IsLive blocks)
    {slot : Option Slot} (runs : ∀ block : Block, block.inSlot slot = true →
      above.opens block.slot = true) :
    (ofBlocks (liveBlocks blocks)).children above.id slot =
      ((ofBlocks blocks).children above.id slot).map (.renumber (rank blocks)) := by
  let known := (ofBlocks blocks).members (some above.id)
  have all : (known.filter (·.block.isLive blocks)).filter (·.block.inSlot slot) =
      (ofBlocks blocks).children above.id slot := by
    rw [List.filter_comm]
    apply List.filter_eq_self.mpr
    intro node member
    have live := children_live live runs node member
    exact (Block.isLive_iff live.listed).mpr live
  rw [children, liveBlocks, members_filter, List.filter_map]
  exact congrArg _ all

end ChildIndex

end ArmProgram
