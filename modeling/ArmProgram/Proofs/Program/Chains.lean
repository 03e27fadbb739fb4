import ArmProgram.Proofs.Program.Forest

/-!
Chains of parents. Following the parents of a block can fail in three ways: one
is not there, the chain comes back to a block, or it is too long. A program is
accepted exactly when its ids are unique and no chain fails, and what is reported
otherwise is a defect of the first chain that does.
-/

namespace ArmProgram.Program

inductive Rises (program : Program) : Block → Nat → Block → Prop where
  | here (block : Block) : Rises program block 0 block
  | up {block parent above : Block} {steps : Nat} (member : parent ∈ program.blocks)
      (named : block.parent = some parent.id) (rest : Rises program parent steps above) :
      Rises program block (steps + 1) above

def Tops (program : Program) (block : Block) (steps : Nat) : Prop :=
  ∃ top, program.Rises block steps top ∧ top.parent = none

/-- A defect of the chain of a block, as it is reported. -/
inductive Spoils (program : Program) (limit : Nat) (block : Block) : ProgramFault → Prop where
  | missing {above : Block} {steps : Nat} {id : String} (rises : program.Rises block steps above)
      (named : above.parent = some id) (absent : id ∉ program.ids) :
      Spoils program limit block (.missingParent block.id id)
  | cycle {above : Block} {steps more : Nat} (rises : program.Rises block steps above)
      (again : program.Rises above (more + 1) above) : Spoils program limit block (.cycle block.id)
  | deep {above : Block} (rises : program.Rises block (limit + 1) above) :
      Spoils program limit block (.tooDeep block.id limit)

variable {program : Program} {block above : Block} {steps : Nat}

theorem Rises.snoc {parent : Block} (rises : program.Rises block steps above)
    (member : parent ∈ program.blocks) (named : above.parent = some parent.id) :
    program.Rises block (steps + 1) parent := by
  induction rises with
  | here => exact .up member named (.here parent)
  | up first called _ ih => exact .up first called (ih named)

/-- With unique ids there is one way up, so whatever is reached lies on the way to
the top. -/
theorem Tops.rest (unique : program.ids.Nodup) {total : Nat} (tops : program.Tops block total)
    (rises : program.Rises block steps above) :
    ∃ rest, total = steps + rest ∧ program.Tops above rest := by
  induction rises generalizing total with
  | here => exact ⟨total, (Nat.zero_add total).symm, tops⟩
  | @up block parent above steps member named _ ih =>
      obtain ⟨top, way, ends⟩ := tops
      cases way with
      | here => rw [named] at ends; cases ends
      | @up _ other _ left listed called way =>
          -- Both ways go on to the one block that bears this id.
          have same : other.id = parent.id := Option.some.inj (called.symm.trans named)
          rw [List.inj_on_of_nodup_map unique listed member same] at way
          obtain ⟨rest, split, tops⟩ := ih ⟨top, way, ends⟩
          exact ⟨rest, by omega, tops⟩

theorem Tops.unique (unique : program.ids.Nodup) {total other : Nat}
    (tops : program.Tops block total) (again : program.Tops block other) : total = other := by
  obtain ⟨top, way, ends⟩ := again
  obtain ⟨rest, split, more⟩ := tops.rest unique way
  obtain ⟨_, further, _⟩ := more
  cases further with
  | here => exact split
  | up _ named _ => rw [ends] at named; cases named

/-- A chain that ends at the top within the limit has no defect. -/
theorem Tops.unspoiled (unique : program.ids.Nodup) {limit total : Nat}
    (tops : program.Tops block total) (within : total ≤ limit) (fault : ProgramFault) :
    ¬ program.Spoils limit block fault := by
  intro spoils
  cases spoils with
  | missing rises named absent =>
      obtain ⟨rest, -, top, way, ends⟩ := tops.rest unique rises
      cases way with
      | here => rw [named] at ends; cases ends
      | up member called _ =>
          rw [named] at called
          cases called
          exact absent (List.mem_map_of_mem member)
  | cycle rises again =>
      obtain ⟨rest, -, ends⟩ := tops.rest unique rises
      obtain ⟨less, split, later⟩ := ends.rest unique again
      have same := ends.unique unique later
      omega
  | deep rises =>
      obtain ⟨rest, split, -⟩ := tops.rest unique rises
      omega

/-! The chains and how deep a block lies. -/

theorem tops_of_nests {parent : Option String} {depth : Nat} (nests : program.Nests parent depth)
    (named : block.parent = parent) : program.Tops block depth := by
  induction nests generalizing block with
  | top => exact ⟨block, .here block, named⟩
  | @under id above depth found _ ih =>
      obtain ⟨top, way, ends⟩ := ih rfl
      refine ⟨top, .up (find?_mem found) ?_ way, ends⟩
      rw [named, find?_id found]

theorem nests_of_rises (unique : program.ids.Nodup) (rises : program.Rises block steps above)
    (ends : above.parent = none) : program.Nests block.parent steps := by
  induction rises with
  | here => rw [ends]; exact .top
  | up member named _ ih =>
      rw [named]
      exact .under (find?_of_mem unique member) (ih ends)

theorem valid_iff_tops (limit : Nat) :
    program.validateTree limit = .ok () ↔
      program.ids.Nodup ∧ ∀ block ∈ program.blocks, ∃ steps ≤ limit, program.Tops block steps := by
  rw [validateTree_ok_iff]
  constructor
  · rintro ⟨nested, within⟩
    refine ⟨nested.unique, fun block member => ?_⟩
    obtain ⟨depth, nests⟩ := nested.nested block member
    have bound := within block member depth nests
    exact ⟨depth, by omega, tops_of_nests nests rfl⟩
  · rintro ⟨unique, reached⟩
    refine ⟨⟨unique, fun block member => ?_⟩, fun block member depth nests => ?_⟩
    · obtain ⟨steps, -, top, way, ends⟩ := reached block member
      exact ⟨steps, nests_of_rises unique way ends⟩
    · obtain ⟨steps, bound, tops⟩ := reached block member
      have same := (tops_of_nests nests rfl).unique unique tops
      exact Or.inr (by omega)

/-! What a climb reports. -/

/-- The ids that a climb has seen are those of the blocks below, each of them with
a way to the block that it has come to. -/
def Seen (program : Program) (start here : Block) (seen : List String) : Prop :=
  ∀ id ∈ seen, ∃ below before after, below ∈ program.blocks ∧ below.id = id ∧
    program.Rises start before below ∧ program.Rises below after here

theorem Seen.next {start here parent : Block} {seen : List String}
    (known : program.Seen start here seen) (rises : program.Rises start steps here)
    (member : parent ∈ program.blocks) (named : here.parent = some parent.id) :
    program.Seen start parent (parent.id :: seen) := by
  intro id listed
  rcases List.mem_cons.mp listed with rfl | old
  · exact ⟨parent, steps + 1, 0, member, rfl, rises.snoc member named, .here parent⟩
  · obtain ⟨below, before, after, inside, called, reached, leads⟩ := known id old
    exact ⟨below, before, after + 1, inside, called, reached, leads.snoc member named⟩

theorem climb_spoils (unique : program.ids.Nodup) {limit : Nat} {start here : Block}
    {seen : List String} {depth : Int} {parent : Option String} {fault : ProgramFault}
    (rises : program.Rises start steps here) (above : here.parent = parent)
    (count : depth = steps) (within : depth ≤ limit) (known : program.Seen start here seen)
    (refused : program.climb limit start.id seen depth parent = .error fault) :
    program.Spoils limit start fault := by
  fun_induction climb program limit start.id seen depth parent generalizing steps here with
  | case1 => cases refused
  | case2 seen depth id missing =>
      cases refused
      refine .missing rises above fun listed => ?_
      obtain ⟨block, member, named⟩ := List.mem_map.mp listed
      simpa [named] using List.find?_eq_none.mp missing block member
  | case3 seen depth id block found visited =>
      cases refused
      obtain ⟨below, before, after, inside, called, reached, leads⟩ := known block.id visited
      -- The climb has passed this block before, and the way since then closes here.
      have same : below = block := List.inj_on_of_nodup_map unique inside (find?_mem found) called
      refine .cycle reached (leads.snoc inside ?_)
      rw [above, same, find?_id found]
  | case4 seen depth id block found fresh far =>
      cases refused
      have last : steps = limit := by omega
      subst last
      refine .deep (rises.snoc (find?_mem found) ?_)
      rw [above, find?_id found]
  | case5 seen depth id block found fresh near ih =>
      have named : here.parent = some block.id := by rw [above, find?_id found]
      exact ih (rises.snoc (find?_mem found) named) rfl (by omega) (by omega)
        (known.next rises (find?_mem found) named) refused

theorem climb_ok_tops {limit : Nat}
    (climbed : program.climb limit block.id [block.id] 0 block.parent = .ok ()) :
    ∃ steps ≤ limit, program.Tops block steps := by
  obtain ⟨depth, nests, bound⟩ := climb_nests _ _ _ _ _ _ climbed
  exact ⟨depth, by omega, tops_of_nests nests rfl⟩

/-- What is reported was found at the first block whose chain does not end well. -/
theorem climbAll_first {limit : Int} {blocks : List Block} {fault : ProgramFault}
    (refused : program.climbAll limit blocks = .error fault) :
    ∃ before block after, blocks = before ++ block :: after ∧
      (∀ earlier ∈ before,
        program.climb limit earlier.id [earlier.id] 0 earlier.parent = .ok ()) ∧
      program.climb limit block.id [block.id] 0 block.parent = .error fault := by
  induction blocks with
  | nil => cases refused
  | cons block rest ih =>
      unfold climbAll at refused
      split at refused
      · rename_i first climbed
        cases refused
        exact ⟨[], block, rest, rfl, nofun, climbed⟩
      · rename_i passed
        obtain ⟨before, found, after, split, fine, climbed⟩ := ih refused
        refine ⟨block :: before, found, after, by rw [split]; rfl, ?_, climbed⟩
        exact List.forall_mem_cons.mpr ⟨passed, fine⟩

theorem duplicateId?_first {known : List String} {blocks : List Block} {id : String}
    (found : duplicateId? known blocks = some id) :
    ∃ before block after, blocks = before ++ block :: after ∧ block.id = id ∧
      (before.map (·.id)).Nodup ∧ (∀ earlier ∈ before, earlier.id ∉ known) ∧
      (id ∈ known ∨ id ∈ before.map (·.id)) := by
  induction blocks generalizing known with
  | nil => cases found
  | cons block rest ih =>
      unfold duplicateId? at found
      split at found
      · rename_i seen
        cases found
        exact ⟨[], block, rest, rfl, rfl, List.nodup_nil, fun _ listed => (List.not_mem_nil listed).elim,
          Or.inl (by simpa using seen)⟩
      · rename_i fresh
        obtain ⟨before, again, after, split, named, distinct, new, old⟩ := ih found
        refine ⟨block :: before, again, after, by rw [split]; rfl, named, ?_, ?_, ?_⟩
        · refine List.nodup_cons.mpr ⟨fun listed => ?_, distinct⟩
          obtain ⟨earlier, member, same⟩ := List.mem_map.mp listed
          exact new earlier member (by simp [same])
        · refine List.forall_mem_cons.mpr ⟨by simpa using fresh, fun earlier member listed => ?_⟩
          exact new earlier member (List.mem_cons_of_mem _ listed)
        · rw [List.map_cons]
          rcases old with seen | later
          · rcases List.mem_cons.mp seen with rfl | older
            · exact Or.inr List.mem_cons_self
            · exact Or.inl older
          · exact Or.inr (List.mem_cons_of_mem _ later)

/-! What a program is accepted for, and what is reported of one that is not. -/

theorem validateTree_ok_iff_tops (program : Program) (limit : Nat) :
    program.validateTree limit = .ok () ↔
      program.ids.Nodup ∧
      (∀ block ∈ program.blocks, ∀ parent, block.parent = some parent → parent ∈ program.ids) ∧
      ∀ block ∈ program.blocks, ∃ steps ≤ limit, program.Tops block steps := by
  rw [valid_iff_tops]
  constructor
  · rintro ⟨distinct, reached⟩
    refine ⟨distinct, fun block member parent named => ?_, reached⟩
    obtain ⟨steps, -, top, way, ends⟩ := reached block member
    cases way with
    | here => rw [named] at ends; cases ends
    | up above called _ =>
        rw [named] at called
        cases called
        exact List.mem_map_of_mem above
  · rintro ⟨distinct, -, reached⟩
    exact ⟨distinct, reached⟩

theorem validateTree_first_spoiled {program : Program} {limit : Nat} (distinct : program.ids.Nodup)
    {fault : ProgramFault} (refused : program.validateTree limit = .error fault) :
    ∃ before block after, program.blocks = before ++ block :: after ∧
      (∀ earlier ∈ before, ∀ other, ¬ program.Spoils limit earlier other) ∧
      program.Spoils limit block fault := by
  have none : duplicateId? [] program.blocks = none :=
    (duplicateId?_none_iff [] program.blocks).mpr ⟨distinct, fun _ _ => List.not_mem_nil⟩
  simp only [validateTree, none] at refused
  obtain ⟨before, block, after, split, fine, climbed⟩ := climbAll_first refused
  refine ⟨before, block, after, split, fun earlier member other => ?_, ?_⟩
  · obtain ⟨steps, within, tops⟩ := climb_ok_tops (fine earlier member)
    exact tops.unspoiled distinct within other
  · have member : block ∈ program.blocks := by simp [split]
    refine climb_spoils distinct (.here block) rfl rfl (Int.natCast_nonneg limit) ?_ climbed
    -- The walk has so far seen only the block that it starts from.
    intro id listed
    cases List.mem_singleton.mp listed
    exact ⟨block, 0, 0, member, rfl, .here block, .here block⟩

theorem validateTree_first_twice {program : Program} (limit : Nat) (twice : ¬ program.ids.Nodup) :
    ∃ before block after, program.blocks = before ++ block :: after ∧
      (before.map (·.id)).Nodup ∧ block.id ∈ before.map (·.id) ∧
      program.validateTree limit = .error (.duplicateId block.id) := by
  cases found : duplicateId? [] program.blocks with
  | none => exact absurd ((duplicateId?_none_iff [] program.blocks).mp found).1 twice
  | some id =>
      obtain ⟨before, block, after, split, named, distinct, -, old⟩ := duplicateId?_first found
      refine ⟨before, block, after, split, distinct, ?_, ?_⟩
      · rw [named]
        exact old.resolve_left List.not_mem_nil
      · simp only [validateTree, found, named]

/-- A program is accepted exactly when its ids are unique, every parent is there
and every chain of parents comes to the top within the limit; its parents then form
no cycle. If only the chains are at fault, what is reported is a defect of the first
block in order that has one. -/
theorem validateTree_exact (program : Program) (limit : Nat) :
    (program.validateTree limit = .ok () ↔
      program.ids.Nodup ∧
      (∀ block ∈ program.blocks, ∀ parent, block.parent = some parent → parent ∈ program.ids) ∧
      ∀ block ∈ program.blocks, ∃ steps ≤ limit, program.Tops block steps) ∧
    (program.validateTree limit = .ok () → ∀ id, ¬ Relation.TransGen program.Under id id) ∧
    (program.ids.Nodup → ∀ fault, program.validateTree limit = .error fault →
      ∃ before block after, program.blocks = before ++ block :: after ∧
        (∀ earlier ∈ before, ∀ other, ¬ program.Spoils limit earlier other) ∧
        program.Spoils limit block fault) ∧
    (¬ program.ids.Nodup → ∃ before block after, program.blocks = before ++ block :: after ∧
      (before.map (·.id)).Nodup ∧ block.id ∈ before.map (·.id) ∧
      program.validateTree limit = .error (.duplicateId block.id)) := by
  refine ⟨validateTree_ok_iff_tops program limit, fun valid => ?_,
    fun distinct fault refused => validateTree_first_spoiled distinct refused,
    validateTree_first_twice limit⟩
  exact ((validateTree_ok_iff program limit).mp valid).1.isForest.acyclic

end ArmProgram.Program
