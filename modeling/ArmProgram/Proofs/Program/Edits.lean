import ArmProgram.Proofs.Program.Forest
import ArmProgram.Service.Handling

/-!
Editing keeps the blocks of a program a forest. No edit moves a block that it
keeps, a new block lies one below its parent, and what is removed is closed
under children, so no block that is kept loses its parent. An edit is refused
only where the block that it looks for is not there, and before it has changed
anything.
-/

namespace ArmProgram

/-- An edit of a program. The id of a new block comes from outside. -/
inductive Change where
  | addBlock (id definition : String) (given : List (String × Value))
  | addChild (id parent definition : String) (given : List (String × Value)) (slot : Option Slot)
  | setParameter (id name : String) (value : Value)
  | removeBlock (id : String)
  | clear

namespace Change

def newId? : Change → Option String
  | addBlock id _ _ | addChild id _ _ _ _ => some id
  | _ => none

def target? : Change → Option String
  | addChild _ parent _ _ _ => some parent
  | setParameter id _ _ | removeBlock id => some id
  | _ => none

def deepens : Change → Int
  | addChild .. => 1
  | _ => 0

def IsNew (change : Change) (program : Program) : Prop :=
  ∀ id, change.newId? = some id → id ∉ program.ids

end Change

namespace Program

def changed? (program : Program) : Change → Except ProgramFault Program
  | .addBlock id definition given => .ok (program.addBlock id definition given).1
  | .addChild id parent definition given slot =>
      (program.addChild id parent definition given slot).map Prod.fst
  | .setParameter id name value => program.updateParameter id name value
  | .removeBlock id => (program.removeBlock id).map Prod.fst
  | .clear => .ok .empty

/-- Any number of edits one after another. One that is refused is passed over. -/
inductive Edits : Program → Program → Prop where
  | refl (program : Program) : Edits program program
  | made {before middle after : Program} (change : Change) (fresh : change.IsNew before)
      (made : before.changed? change = .ok middle) (rest : Edits middle after) : Edits before after
  | refused {before after : Program} (change : Change) (fault : ProgramFault)
      (refused : before.changed? change = .error fault) (rest : Edits before after) :
      Edits before after

/-! What an edit leaves in its place stays as deep as it was. -/

structure Stay (Stays : String → Prop) (program edited : Program) : Prop where
  found : ∀ id block, Stays id → program.find? id = some block →
    ∃ later, edited.find? id = some later ∧ later.parent = block.parent
  above : ∀ id block parent, Stays id → program.find? id = some block →
    block.parent = some parent → Stays parent

theorem Stay.nests {Stays : String → Prop} {program edited : Program}
    (stay : Stay Stays program edited) {parent : Option String} {depth : Nat}
    (nests : program.Nests parent depth) (stays : ∀ id, parent = some id → Stays id) :
    edited.Nests parent depth := by
  induction nests with
  | top => exact .top
  | @under id block depth found _ ih =>
      have mine := stays id rfl
      obtain ⟨later, there, same⟩ := stay.found id block mine found
      refine .under there ?_
      rw [same]
      exact ih fun parent named => stay.above id block parent mine found named

/-- Blocks that name a parent which stays lie as deep as they would have before. -/
theorem Stay.keeps {Stays : String → Prop} {program edited : Program}
    (stay : Stay Stays program edited) (unique : edited.ids.Nodup) (Bound : Nat → Prop)
    (placed : ∀ block ∈ edited.blocks, (∀ id, block.parent = some id → Stays id) ∧
      ∃ depth, program.Nests block.parent depth ∧ Bound depth) :
    edited.IsNested ∧ ∀ block ∈ edited.blocks, ∀ depth, edited.Nests block.parent depth →
      Bound depth := by
  constructor
  · refine ⟨unique, fun block member => ?_⟩
    obtain ⟨stays, depth, nests, -⟩ := placed block member
    exact ⟨depth, stay.nests nests stays⟩
  · intro block member depth nests
    obtain ⟨stays, before, known, bound⟩ := placed block member
    rw [nests.unique (stay.nests known stays)]
    exact bound

/-! Appending a block. -/

theorem ids_append (program : Program) (block : Block) :
    (program.append block).ids = program.ids ++ [block.id] := by
  simp [ids, append]

theorem append_stay (program : Program) (block : Block) :
    Stay (fun _ => True) program (program.append block) := by
  constructor
  · intro id old _ found
    refine ⟨old, ?_, rfl⟩
    unfold find? at found ⊢
    rw [append, List.find?_append, found]
    rfl
  · intro _ _ _ _ _ _
    trivial

theorem append_keeps {program : Program} (nested : program.IsNested) (block : Block)
    (fresh : block.id ∉ program.ids) (Bound : Nat → Prop)
    (placed : ∃ depth, program.Nests block.parent depth ∧ Bound depth)
    (known : ∀ old ∈ program.blocks, ∀ depth, program.Nests old.parent depth → Bound depth) :
    (program.append block).IsNested ∧ ∀ old ∈ (program.append block).blocks, ∀ depth,
      (program.append block).Nests old.parent depth → Bound depth := by
  refine (append_stay program block).keeps ?_ Bound ?_
  · rw [ids_append, List.nodup_append]
    refine ⟨nested.unique, List.nodup_singleton _, ?_⟩
    intro id old other mine
    rw [List.mem_singleton.mp mine]
    rintro rfl
    exact fresh old
  · intro old member
    refine ⟨fun _ _ => trivial, ?_⟩
    rcases List.mem_append.mp member with before | mine
    · obtain ⟨depth, nests⟩ := nested.nested old before
      exact ⟨depth, nests, known old before depth nests⟩
    · rw [List.mem_singleton.mp mine]
      exact placed

/-! Changing a block in place. -/

section Modify

variable {change : Block → Block} (sameId : ∀ block, (change block).id = block.id)
  (sameParent : ∀ block, (change block).parent = block.parent)

include sameParent in
theorem modifyFirst_member (id : String) (blocks : List Block) (later : Block)
    (member : later ∈ modifyFirst id change blocks) :
    ∃ block ∈ blocks, later.parent = block.parent := by
  induction blocks with
  | nil => cases member
  | cons block rest ih =>
      by_cases mine : block.id = id
      · rw [modifyFirst, if_pos mine] at member
        rcases List.mem_cons.mp member with rfl | other
        · exact ⟨block, List.mem_cons_self, sameParent block⟩
        · exact ⟨later, List.mem_cons_of_mem _ other, rfl⟩
      · rw [modifyFirst, if_neg mine] at member
        rcases List.mem_cons.mp member with rfl | other
        · exact ⟨later, List.mem_cons_self, rfl⟩
        · obtain ⟨before, inside, same⟩ := ih other
          exact ⟨before, List.mem_cons_of_mem _ inside, same⟩

include sameId

theorem modifyFirst_ids (id : String) (blocks : List Block) :
    (modifyFirst id change blocks).map (·.id) = blocks.map (·.id) := by
  induction blocks with
  | nil => rfl
  | cons block rest ih =>
      by_cases mine : block.id = id
      · simp [modifyFirst, mine, sameId]
      · simp [modifyFirst, mine, ih]

include sameParent

theorem modifyFirst_find? (id other : String) (blocks : List Block) :
    ((modifyFirst id change blocks).find? (·.id = other)).map (·.parent) =
      (blocks.find? (·.id = other)).map (·.parent) := by
  induction blocks with
  | nil => rfl
  | cons block rest ih =>
      by_cases mine : block.id = id
      · subst mine
        by_cases hit : block.id = other
        · simp [modifyFirst, sameId, sameParent, hit]
        · simp [modifyFirst, sameId, hit]
      · by_cases hit : block.id = other
        · subst hit
          simp [modifyFirst, mine]
        · simp [modifyFirst, mine, hit, ih]

theorem modify_stay (program : Program) (id : String) :
    Stay (fun _ => True) program ⟨modifyFirst id change program.blocks⟩ := by
  constructor
  · intro other block _ found
    have same := modifyFirst_find? sameId sameParent id other program.blocks
    unfold find? at found ⊢
    rw [found] at same
    simpa using same
  · intro _ _ _ _ _ _
    trivial

end Modify

/-! Removing what is nested under a block. -/

theorem doom_length (doomed : List String) (block : Block) :
    doomed.length ≤ (doom doomed block).length := by
  unfold doom
  split <;> simp

theorem doomPass_length (blocks : List Block) (doomed : List String) :
    doomed.length ≤ (doomPass doomed blocks).length := by
  induction blocks generalizing doomed with
  | nil => exact Nat.le_refl _
  | cons block rest ih =>
      calc
        doomed.length ≤ (doom doomed block).length := doom_length doomed block
        _ ≤ (doomPass doomed (block :: rest)).length := ih (doom doomed block)

def Closed (doomed : List String) (blocks : List Block) : Prop :=
  ∀ block ∈ blocks, ∀ parent, block.parent = some parent → parent ∈ doomed → block.id ∈ doomed

theorem doom_settled {doomed : List String} {block : Block}
    (same : (doom doomed block).length = doomed.length) :
    doom doomed block = doomed ∧
      ∀ parent, block.parent = some parent → parent ∈ doomed → block.id ∈ doomed := by
  unfold doom at same ⊢
  by_cases hit : (underDoomed doomed block && !doomed.contains block.id) = true
  · rw [if_pos hit] at same
    simp at same
  · rw [if_neg hit]
    refine ⟨rfl, fun parent named above => ?_⟩
    by_contra spared
    exact hit (by simp [underDoomed, named, above, spared])

theorem doomPass_settled {blocks : List Block} {doomed : List String}
    (same : (doomPass doomed blocks).length = doomed.length) :
    doomPass doomed blocks = doomed ∧ Closed doomed blocks := by
  induction blocks generalizing doomed with
  | nil => exact ⟨rfl, nofun⟩
  | cons block rest ih =>
      have first := doom_length doomed block
      have others : (doom doomed block).length ≤ (doomPass doomed (block :: rest)).length :=
        doomPass_length rest (doom doomed block)
      have stays : (doom doomed block).length = doomed.length := by omega
      obtain ⟨kept, settled⟩ := doom_settled stays
      have remains : doomPass doomed (block :: rest) = doomPass doomed rest := by
        simp only [doomPass, List.foldl_cons, kept]
      rw [remains] at same ⊢
      obtain ⟨pass, closed⟩ := ih same
      exact ⟨pass, List.forall_mem_cons.mpr ⟨settled, closed⟩⟩

theorem doomClosure_closed (blocks : List Block) (doomed : List String) :
    Closed (doomClosure blocks doomed) blocks := by
  fun_induction doomClosure blocks doomed with
  | case1 doomed wider same => exact (doomPass_settled same).2
  | case2 doomed wider grown ih => exact ih

theorem keep_ids (program : Program) (keep : Block → Bool) (unique : program.ids.Nodup) :
    (Program.mk (program.blocks.filter keep)).ids.Nodup :=
  unique.sublist (List.filter_sublist.map _)

theorem keep_stay {program : Program} (unique : program.ids.Nodup) {doomed : List String}
    (closed : Closed doomed program.blocks) :
    Stay (· ∉ doomed) program ⟨program.blocks.filter fun block => !doomed.contains block.id⟩ := by
  constructor
  · intro id block spared found
    refine ⟨block, ?_, rfl⟩
    rw [← find?_id found] at spared ⊢
    exact find?_of_mem (keep_ids program _ unique) (by simp [find?_mem found, spared])
  · intro id block parent spared found named above
    rw [← find?_id found] at spared
    exact spared (closed block (find?_mem found) parent named above)

/-! Each edit in turn. -/

inductive Makes (program : Program) : Change → Program → Prop where
  | addBlock (id definition : String) (given : List (String × Value)) :
      Makes program (.addBlock id definition given)
        (program.append ⟨id, definition, Block.withDefaults definition given, none, none⟩)
  | addChild (id definition : String) (given : List (String × Value)) (slot : Option Slot)
      {parent : String} {above : Block} (found : program.find? parent = some above) :
      Makes program (.addChild id parent definition given slot)
        (program.append ⟨id, definition, Block.withDefaults definition given, some parent, slot⟩)
  | setParameter (name : String) (value : Value) {id : String} {block : Block}
      (found : program.find? id = some block) :
      Makes program (.setParameter id name value)
        ⟨modifyFirst id (·.setParameter name value) program.blocks⟩
  | removeBlock {id : String} {block : Block} (found : program.find? id = some block) :
      Makes program (.removeBlock id)
        ⟨program.blocks.filter fun block =>
          !(doomClosure program.blocks [id]).contains block.id⟩
  | clear : Makes program .clear .empty

theorem makes_of_changed {program edited : Program} {change : Change}
    (made : program.changed? change = .ok edited) : program.Makes change edited := by
  cases change with
  | addBlock id definition given => cases made; exact .addBlock id definition given
  | addChild id parent definition given slot =>
      simp only [changed?, addChild] at made
      cases got : program.get parent with
      | error fault => rw [got] at made; cases made
      | ok above =>
          rw [got] at made
          cases made
          exact .addChild id definition given slot ((get_ok_iff program parent above).mp got)
  | setParameter id name value =>
      simp only [changed?, updateParameter] at made
      cases got : program.get id with
      | error fault => rw [got] at made; cases made
      | ok block =>
          rw [got] at made
          cases made
          exact .setParameter name value ((get_ok_iff program id block).mp got)
  | removeBlock id =>
      simp only [changed?, removeBlock] at made
      cases got : program.get id with
      | error fault => rw [got] at made; cases made
      | ok block =>
          rw [got] at made
          cases made
          exact .removeBlock ((get_ok_iff program id block).mp got)
  | clear => cases made; exact .clear

theorem updateParameter_ids {program edited : Program} {id name : String} {value : Value}
    (made : program.updateParameter id name value = .ok edited) : edited.ids = program.ids := by
  have makes : program.Makes (.setParameter id name value) edited := makes_of_changed made
  cases makes
  exact @modifyFirst_ids (·.setParameter name value) (fun _ => rfl) id program.blocks

/-- What an edit leaves is nested, and lies no deeper than the edit may nest it. -/
theorem changed_keeps {program edited : Program} (nested : program.IsNested) {change : Change}
    (fresh : change.IsNew program) (made : program.changed? change = .ok edited) :
    edited.IsNested ∧ ∀ limit, 0 ≤ limit → program.IsWithin limit →
      edited.IsWithin (limit + change.deepens) := by
  -- The depths that are fine at every limit at which the program was.
  let Bound (depth : Nat) : Prop := ∀ limit, 0 ≤ limit → program.IsWithin limit →
    depth = 0 ∨ (depth : Int) ≤ limit + change.deepens
  suffices kept : edited.IsNested ∧ ∀ block ∈ edited.blocks, ∀ depth,
      edited.Nests block.parent depth → Bound depth from
    ⟨kept.1, fun limit least within block member depth nests =>
      kept.2 block member depth nests limit least within⟩
  have deepens : 0 ≤ change.deepens := by
    cases change <;> simp [Change.deepens]
  have known : ∀ block ∈ program.blocks, ∀ depth, program.Nests block.parent depth →
      Bound depth := by
    intro block member depth nests limit least within
    have bound := within block member depth nests
    omega
  have placed : ∀ block ∈ program.blocks, ∃ depth, program.Nests block.parent depth ∧
      Bound depth := by
    intro block member
    obtain ⟨depth, nests⟩ := nested.nested block member
    exact ⟨depth, nests, known block member depth nests⟩
  cases makes_of_changed made with
  | addBlock id definition given =>
      refine append_keeps nested _ (fresh id rfl) Bound ⟨0, .top, ?_⟩ known
      intro limit _ _
      exact Or.inl rfl
  | @addChild id definition given slot parent above found =>
      refine append_keeps nested _ (fresh id rfl) Bound ?_ known
      -- The parent has its own depth, and the new block lies one deeper.
      obtain ⟨depth, nests⟩ := nested.nested above (find?_mem found)
      refine ⟨depth + 1, .under found nests, ?_⟩
      intro limit least within
      have bound := within above (find?_mem found) depth nests
      simp only [Change.deepens]
      omega
  | @setParameter name value id block found =>
      have sameId (block : Block) : (block.setParameter name value).id = block.id := rfl
      have sameParent (block : Block) : (block.setParameter name value).parent = block.parent :=
        rfl
      refine (modify_stay sameId sameParent program id).keeps ?_ Bound ?_
      · rw [updateParameter_ids made]
        exact nested.unique
      · intro later member
        obtain ⟨block, inside, same⟩ :=
          modifyFirst_member sameParent id program.blocks later member
        rw [same]
        exact ⟨fun _ _ => trivial, placed block inside⟩
  | @removeBlock id block found =>
      have closed := doomClosure_closed program.blocks [id]
      refine (keep_stay nested.unique closed).keeps (keep_ids program _ nested.unique) Bound ?_
      intro block member
      rw [List.mem_filter] at member
      obtain ⟨inside, spared⟩ := member
      refine ⟨fun parent named above => ?_, placed block inside⟩
      have lost := closed block inside parent named above
      simp [lost] at spared
  | clear => exact ⟨⟨List.nodup_nil, nofun⟩, nofun⟩

theorem empty_nested : Program.empty.IsNested :=
  ⟨List.nodup_nil, nofun⟩

theorem Edits.keeps_nested {program edited : Program} (edits : program.Edits edited)
    (nested : program.IsNested) : edited.IsNested := by
  induction edits with
  | refl => exact nested
  | made change fresh made _ ih => exact ih (changed_keeps nested fresh made).1
  | refused _ _ _ _ ih => exact ih nested

theorem get_refused_iff (program : Program) (id : String) (fault : ProgramFault) :
    program.get id = .error fault ↔ id ∉ program.ids ∧ fault = .unknownBlock id := by
  have missing : program.find? id = none ↔ id ∉ program.ids := by
    simp only [find?, ids, List.find?_eq_none, List.mem_map, decide_eq_true_eq, not_exists, not_and]
  rw [get_error_iff, missing]

/-- An edit is refused exactly where the block that it looks for is not there. -/
theorem changed_refused_iff (program : Program) (change : Change) (fault : ProgramFault) :
    program.changed? change = .error fault ↔
      ∃ id, change.target? = some id ∧ id ∉ program.ids ∧ fault = .unknownBlock id := by
  cases change with
  | addBlock | clear => simp [changed?, Change.target?]
  | addChild id parent definition given slot =>
      simp only [changed?, Change.target?, Option.some.injEq, exists_eq_left', ← get_refused_iff]
      unfold addChild
      cases program.get parent <;> simp [Except.map]
  | setParameter id name value =>
      simp only [changed?, Change.target?, Option.some.injEq, exists_eq_left', ← get_refused_iff]
      unfold updateParameter
      cases program.get id <;> simp
  | removeBlock id =>
      simp only [changed?, Change.target?, Option.some.injEq, exists_eq_left', ← get_refused_iff]
      unfold removeBlock
      cases program.get id <;> simp [Except.map]

end Program

/-! Edits as the service makes them. -/

def Order.change? (next : Nat) : Order → Option Change
  | .clearProgram => some .clear
  | .addBlock definition given => some (.addBlock (newBlockId next) definition given.entries)
  | .addChild parent definition given slot =>
      some (.addChild (newBlockId next) parent definition given.entries (some slot))
  | .setParameter id name value => some (.setParameter id name value)
  | .removeBlock id => some (.removeBlock id)
  | _ => none

namespace Draft

variable {Time : Type} (draft : Draft)

def outcome {α : Type} (edit : Edit Time α) : Except EditFault Program :=
  edit.result.map (·.1.program)

theorem addBlock_outcome (definition : String) (given : List (String × Value)) :
    outcome (draft.addBlock definition given : Edit Time Block) = (draft.program.changed?
      (.addBlock (newBlockId draft.nextId) definition given)).mapError .program :=
  rfl

theorem addChild_outcome (parent definition : String) (given : List (String × Value))
    (slot : Option Slot) :
    outcome (draft.addChild parent definition given slot : Edit Time Block) =
      (draft.program.changed?
        (.addChild (newBlockId draft.nextId) parent definition given slot)).mapError .program := by
  simp only [addChild, Program.changed?, Program.addChild]
  cases draft.program.get parent <;> rfl

theorem remove_outcome (id : String) :
    outcome (draft.remove id : Edit Time (List String)) =
      (draft.program.changed? (.removeBlock id)).mapError .program := by
  simp only [remove, Program.changed?]
  cases draft.program.removeBlock id <;> rfl

end Draft

namespace Controller

def Carries (change : Change) (controller : Controller Float)
    (outcome : Controller Float × Response) : Prop :=
  match controller.cell.program.changed? change with
  | .error fault => outcome = (controller, .unknownTarget fault)
  | .ok edited => outcome.1.cell.program = edited ∧ outcome.2.status < 400

theorem clearProgram_carries (controller : Controller Float) :
    controller.Carries .clear controller.clearProgram :=
  ⟨rfl, by simp [clearProgram, Response.done, Response.ok]⟩

theorem settleEdit_carries {α : Type} (change : Change) (controller : Controller Float)
    (edit : Edit Float α) (respond : α → Response) (fine : ∀ value, (respond value).status < 400)
    (same : Draft.outcome edit = (controller.cell.program.changed? change).mapError .program) :
    controller.Carries change (controller.settleEdit edit respond) := by
  unfold Carries settleEdit
  unfold Draft.outcome at same
  cases made : controller.cell.program.changed? change with
  | error fault =>
      rw [made] at same
      cases result : edit.result with
      | error refusal =>
          rw [result] at same
          cases same
          rfl
      | ok done =>
          rw [result] at same
          cases same
  | ok edited =>
      rw [made] at same
      cases result : edit.result with
      | error refusal =>
          rw [result] at same
          cases same
      | ok done =>
          rw [result] at same
          cases same
          exact ⟨rfl, fine done.2⟩

theorem setParameter_carries (controller : Controller Float) (id name : String) (value : Value) :
    controller.Carries (.setParameter id name value) (controller.setParameter id name value) := by
  unfold Carries setParameter updateParameter Cell.updateParameter
  simp only [Program.changed?]
  cases made : controller.cell.program.updateParameter id name value with
  | error fault => rfl
  | ok edited =>
      simp only [Except.map]
      cases got : edited.get id with
      | ok block => exact ⟨rfl, by simp [Response.ok]⟩
      | error fault =>
          -- The block was found before, and setting a parameter takes none away.
          exfalso
          have missing := ((Program.get_refused_iff edited id fault).mp got).1
          rw [Program.updateParameter_ids made] at missing
          have refused := (Program.changed_refused_iff controller.cell.program
            (.setParameter id name value) (.unknownBlock id)).mpr ⟨id, rfl, missing, rfl⟩
          rw [Program.changed?, made] at refused
          cases refused

theorem handle_edit (order : Order) (controller : Controller Float) (change : Change)
    (asks : order.change? controller.nextId = some change) :
    ∃ outcome, controller.handle order = (outcome.1, .answered outcome.2) ∧
      if controller.isRunning then outcome = (controller, .running)
      else controller.Carries change outcome := by
  -- Every edit is the same gate before its own operation.
  have gate (operation : Controller Float → Controller Float × Response)
      (carries : controller.Carries change (operation controller)) :
      if controller.isRunning then controller.whenIdle operation = (controller, .running)
      else controller.Carries change (controller.whenIdle operation) := by
    unfold whenIdle
    split
    · rfl
    · exact carries
  cases order with
  | clearProgram =>
      cases asks
      exact ⟨_, rfl, gate _ controller.clearProgram_carries⟩
  | addBlock definition given =>
      cases asks
      exact ⟨_, rfl, gate _ (settleEdit_carries _ controller _ _
        (fun _ => by simp [Response.created])
        (controller.draft.addBlock_outcome definition given.entries))⟩
  | addChild parent definition given slot =>
      cases asks
      exact ⟨_, rfl, gate _ (settleEdit_carries _ controller _ _
        (fun _ => by simp [Response.created])
        (controller.draft.addChild_outcome parent definition given.entries (some slot)))⟩
  | setParameter id name value =>
      cases asks
      exact ⟨_, rfl, gate _ (controller.setParameter_carries id name value)⟩
  | removeBlock id =>
      cases asks
      exact ⟨_, rfl, gate _ (settleEdit_carries _ controller _ _ (fun _ => by simp [Response.ok])
        (controller.draft.remove_outcome id))⟩
  | health | showProgram | importProgram | start | stop | showStatus | showResult | showRobot =>
      cases asks

theorem refused_unchanged (order : Order) (controller : Controller Float) (change : Change)
    (fault : ProgramFault) (asks : order.change? controller.nextId = some change)
    (refused : controller.cell.program.changed? change = .error fault) :
    controller.handle order = (controller, .answered
      (if controller.isRunning then .running else .unknownTarget fault)) := by
  obtain ⟨outcome, handled, comes⟩ := controller.handle_edit order change asks
  rw [handled]
  by_cases running : controller.isRunning = true
  · rw [if_pos running] at comes ⊢
    rw [comes]
  · rw [if_neg running, Carries, refused] at comes
    rw [if_neg running, comes]

/-- The program that an order may leave: the one that was there, what an edit
makes of it, or one from outside, which has to be a tree. -/
inductive Gives (order : Order) (controller : Controller Float) : Program → Prop where
  | kept : Gives order controller controller.cell.program
  | edited {change : Change} {program : Program}
      (asks : order.change? controller.nextId = some change)
      (made : controller.cell.program.changed? change = .ok program) :
      Gives order controller program
  | imported {program : Program} {nextId : Nat} (asks : order = .importProgram program nextId)
      (valid : program.validateTree Program.depthLimit = .ok ()) : Gives order controller program

theorem handle_gives (order : Order) (controller : Controller Float) :
    Gives order controller (controller.handle order).1.cell.program := by
  cases asks : order.change? controller.nextId with
  | some change =>
      obtain ⟨outcome, handled, comes⟩ := controller.handle_edit order change asks
      rw [handled]
      by_cases running : controller.isRunning = true
      · rw [if_pos running] at comes
        rw [comes]
        exact .kept
      · rw [if_neg running, Carries] at comes
        cases made : controller.cell.program.changed? change with
        | error fault =>
            rw [made] at comes
            rw [comes]
            exact .kept
        | ok edited =>
            rw [made] at comes
            rw [comes.1]
            exact .edited asks made
  | none =>
      cases order with
      | importProgram program nextId =>
          simp only [handle, whenIdle, importProgram]
          split
          · exact .kept
          · split
            · exact .kept
            · exact .imported rfl ‹_›
      | clearProgram | addBlock | addChild | setParameter | removeBlock => cases asks
      | health | showProgram | start | stop | showStatus | showResult | showRobot => exact .kept

/-- Programs from outside are taken in only as trees, so whatever is asked of
the service its program stays one. -/
theorem Gives.keeps_nested {order : Order} {controller : Controller Float} {program : Program}
    (gives : Gives order controller program)
    (fresh : ∀ change, order.change? controller.nextId = some change →
      change.IsNew controller.cell.program)
    (nested : controller.cell.program.IsNested) : program.IsNested := by
  cases gives with
  | kept => exact nested
  | edited asks made => exact (Program.changed_keeps nested (fresh _ asks) made).1
  | imported asks valid => exact ((Program.validateTree_ok_iff program _).mp valid).1

end Controller

/-- Whatever edits a tree goes through, refused ones included, it stays a
forest. A refused edit changes nothing, neither the program nor anything else
of the controller, and the others keep the limit on nesting, apart from a
child, which may lie one level deeper. -/
theorem edits_keep_forest :
    (∀ start program : Program, (start = .empty ∨ ∃ limit, start.validateTree limit = .ok ()) →
      start.Edits program → program.IsForest) ∧
    (∀ (program : Program) (change : Change) (fault : ProgramFault),
      program.changed? change = .error fault ↔
        ∃ id, change.target? = some id ∧ id ∉ program.ids ∧ fault = .unknownBlock id) ∧
    (∀ (order : Order) (controller : Controller Float) (change : Change) (fault : ProgramFault),
      order.change? controller.nextId = some change →
      controller.cell.program.changed? change = .error fault →
      (controller.handle order).1 = controller) ∧
    (∀ (program edited : Program) (change : Change) (limit : Int), 0 ≤ limit →
      change.IsNew program → program.validateTree limit = .ok () →
      program.changed? change = .ok edited →
      edited.validateTree (limit + change.deepens) = .ok ()) := by
  refine ⟨?_, Program.changed_refused_iff, ?_, ?_⟩
  · rintro start program (rfl | ⟨limit, valid⟩) edits
    · exact (edits.keeps_nested Program.empty_nested).isForest
    · exact (edits.keeps_nested ((start.validateTree_ok_iff limit).mp valid).1).isForest
  · intro order controller change fault asks refused
    rw [controller.refused_unchanged order change fault asks refused]
  · intro program edited change limit least fresh valid made
    obtain ⟨nested, within⟩ := (program.validateTree_ok_iff limit).mp valid
    obtain ⟨still, keeps⟩ := Program.changed_keeps nested fresh made
    exact (edited.validateTree_ok_iff _).mpr ⟨still, keeps limit least within⟩

def loopProgram : Program :=
  ⟨[⟨"loop", "repeat", .empty, none, none⟩]⟩

theorem child_of_loop_is_added :
    ∃ edited, loopProgram.changed? (.addChild "grip" "loop" "open_gripper" [] none) = .ok edited ∧
      edited.IsForest ∧ edited.validateTree 1 = .ok () ∧
      ((Controller.idle (.idle (.resting 0 true none) [] loopProgram) .default .arm 1 :
          Controller Float).handle (.removeBlock "grip")).1 =
        .idle (.idle (.resting 0 true none) [] loopProgram) .default .arm 1 := by
  have valid : loopProgram.validateTree 0 = .ok () := by decide +kernel
  have fresh : (Change.addChild "grip" "loop" "open_gripper" [] none).IsNew loopProgram := by
    rintro id ⟨⟩
    decide
  obtain ⟨forest, -, refused, limited⟩ := edits_keep_forest
  refine ⟨_, rfl, ?_, ?_, ?_⟩
  · exact forest loopProgram _ (Or.inr ⟨0, valid⟩) (.made _ fresh rfl (.refl _))
  · exact limited loopProgram _ _ 0 (Int.le_refl 0) fresh valid rfl
  · exact refused (.removeBlock "grip") _ _ (.unknownBlock "grip") rfl rfl

end ArmProgram
