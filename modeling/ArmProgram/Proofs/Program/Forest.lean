import ArmProgram.Program.Tree
import Mathlib.Data.List.Nodup
import Mathlib.Logic.Relation

/-!
Programs as forests. How deep a block lies is a relation on the parent that it
names, and a program is accepted as a tree exactly when its ids are unique and
every block lies at some depth within the limit. Following parents then leads
to blocks that lie ever less deep, so the parents form no cycle.
-/

namespace ArmProgram

namespace Program

def Under (program : Program) (child parent : String) : Prop :=
  ∃ block ∈ program.blocks, block.id = child ∧ block.parent = some parent

structure IsForest (program : Program) : Prop where
  unique : program.ids.Nodup
  present : ∀ block ∈ program.blocks, ∀ parent, block.parent = some parent → parent ∈ program.ids
  acyclic : ∀ id, ¬ Relation.TransGen program.Under id id

/-- How deep a block lies that names this parent. -/
inductive Nests (program : Program) : Option String → Nat → Prop where
  | top : Nests program none 0
  | under {id : String} {block : Block} {depth : Nat} (found : program.find? id = some block)
      (above : Nests program block.parent depth) : Nests program (some id) (depth + 1)

theorem Nests.unique {program : Program} {parent : Option String} {depth other : Nat}
    (nests : program.Nests parent depth) (again : program.Nests parent other) : depth = other := by
  induction nests generalizing other with
  | top => cases again; rfl
  | under found _ ih =>
      cases again with
      | under found' above =>
          rw [found] at found'
          cases found'
          rw [ih above]

structure IsNested (program : Program) : Prop where
  unique : program.ids.Nodup
  nested : ∀ block ∈ program.blocks, ∃ depth, program.Nests block.parent depth

/-- No block lies deeper than the limit. One at the top may lie there whatever
the limit is. -/
def IsWithin (program : Program) (limit : Int) : Prop :=
  ∀ block ∈ program.blocks, ∀ depth, program.Nests block.parent depth →
    depth = 0 ∨ (depth : Int) ≤ limit

/-! Looking up. -/

theorem find?_id {program : Program} {id : String} {block : Block}
    (found : program.find? id = some block) : block.id = id := by
  simpa using List.find?_some found

theorem find?_mem {program : Program} {id : String} {block : Block}
    (found : program.find? id = some block) : block ∈ program.blocks :=
  List.mem_of_find?_eq_some found

theorem mem_ids_of_find? {program : Program} {id : String} {block : Block}
    (found : program.find? id = some block) : id ∈ program.ids := by
  have member := List.mem_map_of_mem (f := fun block : Block => block.id) (find?_mem found)
  rwa [find?_id found] at member

theorem find?_of_mem {program : Program} (unique : program.ids.Nodup) {block : Block}
    (member : block ∈ program.blocks) : program.find? block.id = some block := by
  cases found : program.find? block.id with
  | none => simpa using List.find?_eq_none.mp found block member
  | some other =>
      have same := List.inj_on_of_nodup_map unique (find?_mem found) member (find?_id found)
      rw [same]

theorem get_ok_iff (program : Program) (id : String) (block : Block) :
    program.get id = .ok block ↔ program.find? id = some block := by
  unfold get
  cases program.find? id <;> simp

theorem get_error_iff (program : Program) (id : String) (fault : ProgramFault) :
    program.get id = .error fault ↔ program.find? id = none ∧ fault = .unknownBlock id := by
  unfold get
  cases program.find? id with
  | none => simp [eq_comm]
  | some block => simp

/-! A program is nested exactly when it is accepted as a tree. -/

theorem duplicateId?_none_iff (known : List String) (blocks : List Block) :
    duplicateId? known blocks = none ↔
      (blocks.map (·.id)).Nodup ∧ ∀ block ∈ blocks, block.id ∉ known := by
  induction blocks generalizing known with
  | nil => simp [duplicateId?]
  | cons block rest ih =>
      by_cases seen : block.id ∈ known
      · simp [duplicateId?, seen]
      · have passed :
            duplicateId? known (block :: rest) = duplicateId? (block.id :: known) rest := by
          simp [duplicateId?, seen]
        rw [passed, ih, List.map_cons, List.nodup_cons, List.forall_mem_cons]
        constructor
        · rintro ⟨unique, fresh⟩
          have first : block.id ∉ rest.map (·.id) := by
            intro again
            obtain ⟨other, member, same⟩ := List.mem_map.mp again
            exact fresh other member (by simp [same])
          refine ⟨⟨first, unique⟩, seen, fun other member old => ?_⟩
          exact fresh other member (List.mem_cons_of_mem _ old)
        · rintro ⟨⟨first, unique⟩, -, fresh⟩
          refine ⟨unique, fun other member old => ?_⟩
          rcases List.mem_cons.mp old with same | older
          · exact first (List.mem_map.mpr ⟨other, member, same⟩)
          · exact fresh other member older

theorem climb_nests (program : Program) (limit : Int) (start : String) (seen : List String)
    (depth : Int) (parent : Option String)
    (climbed : program.climb limit start seen depth parent = .ok ()) :
    ∃ above, program.Nests parent above ∧ (above = 0 ∨ depth + above ≤ limit) := by
  fun_induction climb program limit start seen depth parent with
  | case1 => exact ⟨0, .top, Or.inl rfl⟩
  | case2 | case3 | case4 => cases climbed
  | case5 seen depth id block found fresh within ih =>
      obtain ⟨above, nests, bound⟩ := ih climbed
      refine ⟨above + 1, .under found nests, Or.inr ?_⟩
      omega

/-- The blocks on the way up lie ever less deep, so none of them was seen before
and only the limit can end the climb early. -/
theorem climb_of_nests (program : Program) (limit : Int) (start : String) (seen : List String)
    (depth : Int) (parent : Option String) (above : Nat) (nests : program.Nests parent above)
    (deeper : ∀ id ∈ seen, ∃ beyond, program.Nests (some id) beyond ∧ above < beyond) :
    program.climb limit start seen depth parent =
      if above = 0 ∨ depth + above ≤ limit then .ok () else .error (.tooDeep start limit) := by
  induction nests generalizing seen depth with
  | top => simp [climb]
  | @under id block above found rises ih =>
      have fresh : block.id ∉ seen := by
        intro member
        obtain ⟨beyond, again, less⟩ := deeper block.id member
        rw [find?_id found] at again
        have same := again.unique (.under found rises)
        omega
      rw [climb]
      split
      · rename_i missing
        rw [found] at missing
        cases missing
      · rename_i other found'
        rw [found] at found'
        cases found'
        rw [dif_neg fresh]
        by_cases far : limit < depth + 1
        · rw [if_pos far, if_neg (by omega)]
        · have further : ∀ id ∈ block.id :: seen, ∃ beyond,
              program.Nests (some id) beyond ∧ above < beyond := by
            intro other member
            rcases List.mem_cons.mp member with rfl | later
            · rw [find?_id found]
              exact ⟨above + 1, .under found rises, Nat.lt_succ_self above⟩
            · obtain ⟨beyond, again, less⟩ := deeper other later
              exact ⟨beyond, again, by omega⟩
          rw [if_neg far, ih (block.id :: seen) (depth + 1) further]
          exact if_congr (by omega) rfl rfl

theorem IsNested.climb_eq {program : Program} (nested : program.IsNested) (limit : Int)
    {block : Block} (member : block ∈ program.blocks) {depth : Nat}
    (nests : program.Nests block.parent depth) :
    program.climb limit block.id [block.id] 0 block.parent =
      if depth = 0 ∨ (depth : Int) ≤ limit then .ok () else .error (.tooDeep block.id limit) := by
  -- The block itself lies one deeper than its parent.
  have deeper : ∀ id ∈ [block.id], ∃ beyond, program.Nests (some id) beyond ∧ depth < beyond := by
    intro id seen
    cases List.mem_singleton.mp seen
    exact ⟨depth + 1, .under (find?_of_mem nested.unique member) nests, Nat.lt_succ_self depth⟩
  rw [climb_of_nests program limit _ _ _ _ depth nests deeper, Int.zero_add]

theorem climbAll_ok_iff (program : Program) (limit : Int) (blocks : List Block) :
    program.climbAll limit blocks = .ok () ↔
      ∀ block ∈ blocks, program.climb limit block.id [block.id] 0 block.parent = .ok () := by
  induction blocks with
  | nil => simp [climbAll]
  | cons block rest ih =>
      simp only [climbAll, List.forall_mem_cons]
      cases climbed : program.climb limit block.id [block.id] 0 block.parent with
      | error fault => simp
      | ok _ => simp [ih]

theorem validateTree_ok_iff (program : Program) (limit : Int) :
    program.validateTree limit = .ok () ↔ program.IsNested ∧ program.IsWithin limit := by
  have unique := duplicateId?_none_iff [] program.blocks
  unfold validateTree
  cases duplicate : duplicateId? [] program.blocks with
  | some id =>
      rw [duplicate] at unique
      have twice : ¬ program.ids.Nodup := fun once =>
        Option.some_ne_none id (unique.mpr ⟨once, fun _ _ => List.not_mem_nil⟩)
      constructor
      · nofun
      · intro valid
        exact absurd valid.1.unique twice
  | none =>
      have once : program.ids.Nodup := (unique.mp duplicate).1
      simp only [climbAll_ok_iff]
      constructor
      · intro climbs
        constructor
        · refine ⟨once, fun block member => ?_⟩
          obtain ⟨depth, nests, -⟩ := climb_nests _ _ _ _ _ _ (climbs block member)
          exact ⟨depth, nests⟩
        · intro block member depth nests
          obtain ⟨again, same, bound⟩ := climb_nests _ _ _ _ _ _ (climbs block member)
          rw [nests.unique same]
          simpa using bound
      · rintro ⟨valid, within⟩ block member
        obtain ⟨depth, nests⟩ := valid.nested block member
        rw [valid.climb_eq limit member nests, if_pos (within block member depth nests)]

theorem climbAll_error {program : Program} {limit : Int} {blocks : List Block}
    {fault : ProgramFault} (refused : program.climbAll limit blocks = .error fault) :
    ∃ block ∈ blocks, program.climb limit block.id [block.id] 0 block.parent = .error fault := by
  induction blocks with
  | nil => cases refused
  | cons block rest ih =>
      unfold climbAll at refused
      split at refused
      · rename_i first climbed
        cases refused
        exact ⟨block, List.mem_cons_self, climbed⟩
      · obtain ⟨later, member, climbed⟩ := ih refused
        exact ⟨later, List.mem_cons_of_mem _ member, climbed⟩

/-- All that can be wrong with nested blocks is that one lies too deep. -/
theorem validateTree_tooDeep {program : Program} {limit : Int} (nested : program.IsNested)
    (deep : ¬ program.IsWithin limit) :
    ∃ block ∈ program.blocks, program.validateTree limit = .error (.tooDeep block.id limit) := by
  have unique := (duplicateId?_none_iff [] program.blocks).mpr
    ⟨nested.unique, fun _ _ => List.not_mem_nil⟩
  have climbs : program.validateTree limit = program.climbAll limit program.blocks := by
    simp only [validateTree, unique]
  cases refused : program.climbAll limit program.blocks with
  | ok _ =>
      have valid := (validateTree_ok_iff program limit).mp (climbs.trans refused)
      exact absurd valid.2 deep
  | error fault =>
      obtain ⟨block, member, climbed⟩ := climbAll_error refused
      obtain ⟨depth, nests⟩ := nested.nested block member
      rw [nested.climb_eq limit member nests] at climbed
      split at climbed
      · cases climbed
      · cases climbed
        exact ⟨block, member, climbs.trans refused⟩

/-! A nested program is a forest. -/

theorem nests_of_under {program : Program} (nested : program.IsNested) {child parent : String}
    (under : program.Under child parent) :
    ∃ depth, program.Nests (some parent) depth ∧ program.Nests (some child) (depth + 1) := by
  obtain ⟨block, member, rfl, named⟩ := under
  obtain ⟨depth, nests⟩ := nested.nested block member
  have found := find?_of_mem nested.unique member
  refine ⟨depth, ?_, .under found nests⟩
  rwa [named] at nests

theorem nests_of_transGen {program : Program} (nested : program.IsNested) {child parent : String}
    (path : Relation.TransGen program.Under child parent) :
    ∃ lower upper, program.Nests (some child) lower ∧ program.Nests (some parent) upper ∧
      upper < lower := by
  induction path with
  | single under =>
      obtain ⟨depth, above, below⟩ := nests_of_under nested under
      exact ⟨depth + 1, depth, below, above, Nat.lt_succ_self depth⟩
  | tail _ under ih =>
      obtain ⟨lower, upper, below, middle, less⟩ := ih
      obtain ⟨depth, above, middle'⟩ := nests_of_under nested under
      have same := middle.unique middle'
      exact ⟨lower, depth, below, above, by omega⟩

theorem IsNested.isForest {program : Program} (nested : program.IsNested) : program.IsForest := by
  constructor
  · exact nested.unique
  · intro block member parent named
    obtain ⟨depth, nests⟩ := nested.nested block member
    rw [named] at nests
    cases nests with
    | under found _ => exact mem_ids_of_find? found
  · intro id path
    obtain ⟨lower, upper, below, above, less⟩ := nests_of_transGen nested path
    have same := below.unique above
    omega

end Program

end ArmProgram
