import ArmProgram.Proofs.Program.Documents
import ArmProgram.Proofs.Program.Edits
import ArmProgram.Proofs.Json.Readings

/-!
What programs are stored with. Whatever is read from a body has integers of at
most 4300 digits and no name twice, the parameters that a new block starts with
have neither, and edits bring in nothing else. So a program that was edited by
requests can always be written.
-/

namespace ArmProgram

open Input (Checked FieldName)

def Value.IsShort : Value → Prop
  | .number (.int n) => n.natAbs < 10 ^ 4300
  | _ => True

namespace Parameters

structure IsWritable (parameters : Parameters) : Prop where
  named : (parameters.entries.map Prod.fst).Nodup
  short : ∀ entry ∈ parameters.entries, entry.2.IsShort

theorem empty_isWritable : empty.IsWritable :=
  ⟨List.nodup_nil, nofun⟩

theorem setAll_isWritable {parameters : Parameters} (writable : parameters.IsWritable)
    {entries : List (String × Value)} (short : ∀ entry ∈ entries, entry.2.IsShort) :
    (parameters.setAll entries).IsWritable := by
  constructor
  · exact Keyed.nodup_putAll entries parameters.entries writable.named
  · intro entry member
    rcases Keyed.mem_putAll member with given | known
    · exact short entry given
    · exact writable.short entry known

theorem ofList_isWritable {entries : List (String × Value)}
    (short : ∀ entry ∈ entries, entry.2.IsShort) : (ofList entries).IsWritable :=
  setAll_isWritable empty_isWritable short

end Parameters

theorem Kind.defaults_short (kind : Kind) : ∀ entry ∈ kind.defaults, entry.2.IsShort := by
  have digit (n : Int) (one : n.natAbs < 10) : (Value.number (.int n)).IsShort :=
    one.trans_le (le_self_pow₀ (by decide) (by decide))
  cases kind with
  | moveTo =>
      refine List.forall_mem_cons.mpr ⟨True.intro, ?_⟩
      exact List.forall_mem_singleton.mpr (digit 0 (by decide))
  | waitSeconds => exact List.forall_mem_singleton.mpr (digit 1 (by decide))
  | repeatTimes => exact List.forall_mem_singleton.mpr (digit 3 (by decide))
  | ifCondition | ifElse | whileLoop => exact List.forall_mem_singleton.mpr True.intro
  | openGripper | closeGripper | homeRobot => nofun

theorem Block.withDefaults_isWritable (definition : String) {given : List (String × Value)}
    (short : ∀ entry ∈ given, entry.2.IsShort) :
    (Block.withDefaults definition given).IsWritable := by
  unfold withDefaults
  refine Parameters.setAll_isWritable (Parameters.ofList_isWritable ?_) short
  cases Kind.ofName? definition with
  | none => nofun
  | some kind => exact kind.defaults_short

/-! Edits. -/

namespace Program

theorem isWritable_iff (program : Program) :
    program.IsWritable ↔ ∀ block ∈ program.blocks, block.parameters.IsWritable := by
  constructor
  · intro writable block member
    refine ⟨writable.named block member, fun entry stored => ?_⟩
    obtain ⟨name, value⟩ := entry
    rcases value with b | (n | x) | s
    · exact True.intro
    · exact writable.short n ⟨block, member, name, stored⟩
    · exact True.intro
    · exact True.intro
  · intro each
    constructor
    · intro block member
      exact (each block member).named
    · rintro n ⟨block, member, name, stored⟩
      exact (each block member).short _ stored

theorem append_isWritable {program : Program} (writable : program.IsWritable) {block : Block}
    (mine : block.parameters.IsWritable) : (program.append block).IsWritable := by
  rw [isWritable_iff] at writable ⊢
  intro other member
  rcases List.mem_append.mp member with old | new
  · exact writable other old
  · rw [List.mem_singleton.mp new]
    exact mine

theorem mem_modifyFirst {id : String} {change : Block → Block} {blocks : List Block}
    {later : Block} (member : later ∈ modifyFirst id change blocks) :
    later ∈ blocks ∨ ∃ block ∈ blocks, later = change block := by
  induction blocks with
  | nil => cases member
  | cons block rest ih =>
      unfold modifyFirst at member
      split at member
      · rcases List.mem_cons.mp member with changed | other
        · exact Or.inr ⟨block, List.mem_cons_self, changed⟩
        · exact Or.inl (List.mem_cons_of_mem _ other)
      · rcases List.mem_cons.mp member with same | other
        · exact Or.inl (same ▸ List.mem_cons_self)
        · rcases ih other with old | ⟨before, inside, changed⟩
          · exact Or.inl (List.mem_cons_of_mem _ old)
          · exact Or.inr ⟨before, List.mem_cons_of_mem _ inside, changed⟩

end Program

def Change.IsWritable : Change → Prop
  | addBlock _ _ given | addChild _ _ _ given _ => ∀ entry ∈ given, entry.2.IsShort
  | setParameter _ _ value => value.IsShort
  | removeBlock _ | clear => True

theorem Program.changed_isWritable {program edited : Program} (writable : program.IsWritable)
    {change : Change} (mine : change.IsWritable) (made : program.changed? change = .ok edited) :
    edited.IsWritable := by
  cases makes_of_changed made with
  | addBlock id definition | addChild id definition =>
      exact append_isWritable writable (Block.withDefaults_isWritable definition mine)
  | setParameter name value found =>
      rw [isWritable_iff] at writable ⊢
      intro later member
      rcases mem_modifyFirst member with old | ⟨block, inside, rfl⟩
      · exact writable later old
      · -- Setting one parameter is to set all entries of a list of one.
        have single : ∀ entry ∈ [(name, value)], entry.2.IsShort := by
          intro entry listed
          rw [List.mem_singleton.mp listed]
          exact mine
        exact Parameters.setAll_isWritable (writable block inside) single
  | removeBlock found =>
      rw [isWritable_iff] at writable ⊢
      intro block member
      exact writable block (List.mem_filter.mp member).1
  | clear =>
      rw [isWritable_iff]
      intro block member
      cases member

/-! Reading. -/

namespace Input.Checked

theorem app_ok {f : Checked (α → β)} {x : Checked α} {b : β} (made : app f x = .ok b) :
    ∃ g a, f = .ok g ∧ x = .ok a ∧ b = g a := by
  cases f with
  | error issues => cases x <;> cases made
  | ok g =>
      cases x with
      | error issues => cases made
      | ok a =>
          cases made
          exact ⟨g, a, rfl, rfl, rfl⟩

theorem map_ok {f : α → β} {x : Checked α} {b : β} (made : x.map f = .ok b) :
    ∃ a, x = .ok a ∧ b = f a := by
  cases x with
  | error issues => cases made
  | ok a =>
      cases made
      exact ⟨a, rfl, rfl⟩

theorem all_ok {check : α → Checked β} {items : List α} {values : List β}
    (made : all check items = .ok values) :
    ∀ value ∈ values, ∃ item ∈ items, check item = .ok value := by
  induction items generalizing values with
  | nil =>
      cases made
      nofun
  | cons item items ih =>
      obtain ⟨cons, rest, first, later, rfl⟩ := app_ok made
      obtain ⟨value, checked, rfl⟩ := map_ok first
      intro other member
      rcases List.mem_cons.mp member with same | further
      · exact ⟨item, List.mem_cons_self, same ▸ checked⟩
      · obtain ⟨found, listed, known⟩ := ih later other further
        exact ⟨found, List.mem_cons_of_mem _ listed, known⟩

end Input.Checked

namespace Input

variable {check : Check α} {field : FieldName} {path : List Step} {object : Json} {a : α}

theorem required_ok (read : required check field path object = .ok a) :
    ∃ name value, field.find? object = some (name, value) ∧
      check (path ++ [.key name]) value = .ok a := by
  unfold required at read
  split at read
  · exact ⟨_, _, ‹_›, read⟩
  · cases read

theorem withDefault_ok {default : α} (read : withDefault default check field path object = .ok a) :
    a = default ∨ ∃ name value, field.find? object = some (name, value) ∧
      check (path ++ [.key name]) value = .ok a := by
  unfold withDefault at read
  split at read
  · exact Or.inr ⟨_, _, ‹_›, read⟩
  · exact Or.inl (Except.ok.inj read).symm

end Input

section Taken

open Input.Checked (app_ok map_ok all_ok)

variable {dialect : Json.Dialect} (longest : dialect.longest = some 4300) {depth : Nat}
  {json : Json}

theorem Json.find?_takes {field : FieldName} (takes : Json.Takes dialect depth json)
    {name : String} {value : Json} (found : field.find? json = some (name, value)) :
    ∃ deeper, Json.Takes dialect deeper value := by
  have each {key : String} {inner : Json} (there : json.field? key = some inner) :
      ∃ deeper, Json.Takes dialect deeper inner := by
    cases json with
    | object fields =>
        obtain ⟨entry, first, rfl⟩ := Option.map_eq_some_iff.mp there
        have member := List.mem_reverse.mp (List.mem_of_find?_eq_some first)
        exact ⟨depth + 1, Json.takesFields_iff.mp takes.2 entry member⟩
    | null | flag b | number n | text s | list items => cases there
  unfold FieldName.find? at found
  split at found
  · rename_i inner there
    cases found
    exact each there
  · obtain ⟨inner, there, same⟩ := Option.map_eq_some_iff.mp found
    cases same
    exact each there

include longest

theorem parameterValue_short (takes : Json.Takes dialect depth json) {path : List Input.Step}
    {value : Value} (read : Input.parameterValue path json = .ok value) : value.IsShort := by
  cases json with
  | number n =>
      cases read
      cases n with
      | double x => exact True.intro
      | int n =>
          simp only [Json.Takes, Json.exceeds, longest, Option.any_some, decide_eq_false_iff_not,
            Nat.not_lt] at takes
          exact (Text.toDigits_length_iff (by decide)).mp takes
  | flag b | text s =>
      cases read
      exact True.intro
  | null | list items | object fields => cases read

theorem parameters_writable (takes : Json.Takes dialect depth json) {path : List Input.Step}
    {parameters : Parameters} (read : Input.parameters path json = .ok parameters) :
    parameters.IsWritable := by
  cases json with
  | object fields =>
      obtain ⟨entries, checked, rfl⟩ := map_ok read
      refine Parameters.ofList_isWritable fun entry member => ?_
      obtain ⟨field, listed, stored⟩ := all_ok checked entry member
      obtain ⟨value, short, rfl⟩ := map_ok stored
      exact parameterValue_short longest (Json.takesFields_iff.mp takes.2 field listed) short
  | null | flag b | number n | text s | list items => cases read

theorem block_writable (takes : Json.Takes dialect depth json) {next : Nat} {path : List Input.Step}
    {block : Block} (read : (Block.ofInput next path json).1 = .ok block) :
    block.parameters.IsWritable := by
  cases json with
  | object fields =>
      simp only [Block.ofInput] at read
      obtain ⟨_, slot, toParent, -, rfl⟩ := app_ok read
      obtain ⟨_, parent, toParameters, -, rfl⟩ := app_ok toParent
      obtain ⟨_, parameters, toDefinition, given, rfl⟩ := app_ok toParameters
      obtain ⟨_, definition, toId, -, rfl⟩ := app_ok toDefinition
      obtain ⟨id, -, rfl⟩ := map_ok toId
      rcases Input.withDefault_ok given with rfl | ⟨name, value, found, checked⟩
      · exact Parameters.empty_isWritable
      · obtain ⟨deeper, inner⟩ := Json.find?_takes takes found
        exact parameters_writable longest inner checked
  | null | flag b | number n | text s | list items => cases read

theorem blocks_writable {items : List Json} (takes : Json.TakesItems dialect depth items)
    {path : List Input.Step} {next index : Nat} {blocks : List Block}
    (read : (Block.listOfInput path next index items).1 = .ok blocks) :
    ∀ block ∈ blocks, block.parameters.IsWritable := by
  induction items generalizing next index blocks with
  | nil =>
      cases read
      nofun
  | cons item rest ih =>
      simp only [Block.listOfInput] at read
      obtain ⟨_, others, first, later, rfl⟩ := app_ok read
      obtain ⟨block, mine, rfl⟩ := map_ok first
      exact List.forall_mem_cons.mpr ⟨block_writable longest takes.1 mine, ih takes.2 later⟩

theorem program_writable (takes : Json.Takes dialect depth json) {next : Nat}
    {path : List Input.Step} {program : Program}
    (read : (Program.ofInput next path json).1 = .ok program) :
    program.IsWritable := by
  rw [Program.isWritable_iff]
  cases json with
  | object fields =>
      simp only [Program.ofInput] at read
      split at read
      · cases read
        intro block member
        cases member
      · rename_i name items found
        obtain ⟨deeper, inner⟩ := Json.find?_takes takes found
        obtain ⟨blocks, given, rfl⟩ := map_ok read
        exact blocks_writable longest inner.2 given
      · cases read
  | null | flag b | number n | text s | list items => cases read

end Taken

end ArmProgram
