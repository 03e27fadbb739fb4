import ArmProgram.Proofs.Json.RoundTrip
import ArmProgram.Program.Document

/-!
Programs as documents. A program reads back from what was written of it, block
by block and parameter by parameter, as long as its doubles are finite; where
one is not, null is written and reading reports it.
-/

namespace ArmProgram

open Input (Checked Issue Step)

namespace Input.Checked

def barring (issues : List Issue) (a : α) : Checked α :=
  match issues with
  | [] => .ok a
  | first :: others => .error (first :: others)

theorem map_barring (issues : List Issue) (a : α) (f : α → β) :
    Except.map f (barring issues a) = barring issues (f a) := by
  cases issues <;> rfl

theorem app_barring (issues others : List Issue) (f : α → β) (a : α) :
    app (barring issues f) (barring others a) = barring (issues ++ others) (f a) := by
  cases issues with
  | nil => cases others <;> rfl
  | cons first issues =>
      cases others with
      | nil => rw [List.append_nil]; rfl
      | cons second others => rfl

theorem all_barring (check : α → Checked β) (given : γ → α) (issues : γ → List Issue)
    (value : γ → β) (items : List γ)
    (checks : ∀ item, check (given item) = barring (issues item) (value item)) :
    all check (items.map given) = barring (items.flatMap issues) (items.map value) := by
  induction items with
  | nil => rfl
  | cons item items ih =>
      rw [List.map_cons, all, checks item, ih, map_barring, app_barring]
      rfl

end Input.Checked

open Input.Checked (barring)

/-! Values. -/

def Value.isFinite : Value → Bool
  | .number (.double x) => Decimal.isFinite x
  | _ => true

def Value.losses (path : List Step) (value : Value) : List Issue :=
  if value.isFinite then []
  else
    [⟨.notBool, path ++ [.key "bool"]⟩, ⟨.notInt, path ++ [.key "int"]⟩,
     ⟨.notDouble, path ++ [.key "float"]⟩, ⟨.notText, path ++ [.key "str"]⟩]

theorem Value.losses_nil_iff (path : List Step) (value : Value) :
    value.losses path = [] ↔ value.isFinite = true := by
  unfold losses
  split
  · rename_i finite
    exact ⟨fun _ => finite, fun _ => rfl⟩
  · rename_i lost
    exact ⟨fun none => (List.cons_ne_nil _ _ none).elim, fun finite => absurd finite lost⟩

theorem parameterValue_stored (path : List Step) (value : Value) :
    Input.parameterValue path value.toJson.nullNonFinite = barring (value.losses path) value := by
  cases value with
  | flag b => rfl
  | text s => rfl
  | number n =>
      cases n with
      | int n => rfl
      | double x =>
          by_cases finite : Decimal.isFinite x = true
          · simp only [Value.toJson, Json.nullNonFinite, Value.losses, Value.isFinite, finite,
              ↓reduceIte]
            rfl
          · simp only [Value.toJson, Json.nullNonFinite, Value.losses, Value.isFinite, finite,
              Bool.false_eq_true, ↓reduceIte]
            rfl

theorem Json.nullNonFiniteItems_eq (items : List Json) :
    nullNonFiniteItems items = items.map nullNonFinite := by
  induction items with
  | nil => rfl
  | cons item items ih => rw [nullNonFiniteItems, ih, List.map_cons]

theorem Json.nullNonFiniteFields_eq (fields : List (String × Json)) :
    nullNonFiniteFields fields = fields.map fun field => (field.1, nullNonFinite field.2) := by
  induction fields with
  | nil => rfl
  | cons field fields ih =>
      obtain ⟨name, value⟩ := field
      rw [nullNonFiniteFields, ih, List.map_cons]

def Parameters.losses (path : List Step) (parameters : Parameters) : List Issue :=
  parameters.entries.flatMap fun entry => entry.2.losses (path ++ [.key entry.1])

theorem Parameters.ofList_distinct {entries : List (String × Value)}
    (distinct : (entries.map Prod.fst).Nodup) : ofList entries = ⟨entries⟩ :=
  congrArg Parameters.mk (Keyed.putAll_distinct entries [] distinct)

theorem Parameters.toJson_stored (parameters : Parameters) :
    parameters.toJson.nullNonFinite = .object (parameters.entries.map fun entry =>
      (entry.1, entry.2.toJson.nullNonFinite)) := by
  rw [Parameters.toJson, Json.nullNonFinite, Json.nullNonFiniteFields_eq, List.map_map]
  rfl

theorem parameters_stored (path : List Step) (parameters : Parameters)
    (distinct : (parameters.entries.map Prod.fst).Nodup) :
    Input.parameters path parameters.toJson.nullNonFinite =
      barring (parameters.losses path) parameters := by
  rw [parameters.toJson_stored, Input.parameters, Input.Checked.all_barring _ _
    (fun entry => entry.2.losses (path ++ [.key entry.1])) id, Input.Checked.map_barring,
    List.map_id, Parameters.ofList_distinct distinct]
  · rfl
  · intro entry
    rw [parameterValue_stored, Input.Checked.map_barring]
    rfl

/-! Blocks. -/

def Block.losses (path : List Step) (block : Block) : List Issue :=
  block.parameters.losses (path ++ [.key "parameters"])

theorem Block.toJson_stored (block : Block) :
    block.toJson.nullNonFinite =
      .object [("id", .text block.id), ("definitionId", .text block.definition),
        ("parameters", block.parameters.toJson.nullNonFinite),
        ("parentId", Json.ofOption .text block.parent),
        ("childSlot", Json.ofOption (fun slot => .text slot.name) block.slot)] := by
  obtain ⟨id, definition, parameters, parent, slot⟩ := block
  cases parent <;> cases slot <;> rfl

theorem Block.ofInput_stored (next : Nat) (path : List Step) (block : Block)
    (distinct : (block.parameters.entries.map Prod.fst).Nodup) :
    ofInput next path block.toJson.nullNonFinite = (barring (block.losses path) block, next) := by
  rw [block.toJson_stored]
  obtain ⟨id, definition, parameters, parent, slot⟩ := block
  have stored := parameters_stored (path ++ [.key "parameters"]) parameters distinct
  simp only
  generalize parameters.toJson.nullNonFinite = given at stored
  -- The fields go by a name of their own, so that each is looked up once and then stays as found.
  obtain ⟨entries, known⟩ : ∃ entries : List (String × Json), [("id", .text id),
      ("definitionId", .text definition), ("parameters", given),
      ("parentId", Json.ofOption .text parent),
      ("childSlot", Json.ofOption (fun slot => .text slot.name) slot)] = entries := ⟨_, rfl⟩
  have ids : idField.find? (.object entries) = some ("id", .text id) := by
    subst known
    rfl
  have definitions : Input.required Input.text definitionField path (.object entries) =
      .ok definition := by
    subst known
    rfl
  have found : Input.withDefault Parameters.empty Input.parameters parametersField path
      (.object entries) = barring (parameters.losses (path ++ [.key "parameters"])) parameters := by
    rw [← stored]
    subst known
    rfl
  have parents : Input.withDefault none (Input.orNull Input.text) parentField path
      (.object entries) = .ok parent := by
    subst known
    cases parent <;> rfl
  have slots : Input.withDefault none (Input.orNull checkSlot) slotField path (.object entries) =
      .ok slot := by
    subst known
    rcases slot with _ | (_ | _) <;> rfl
  rw [known]
  simp only [ofInput, ids, definitions, found, parents, slots]
  cases issues : parameters.losses (path ++ [.key "parameters"]) with
  | nil =>
      simp only [Block.losses, issues]
      rfl
  | cons first others =>
      simp only [Block.losses, issues]
      rfl

def Block.IsNamed (block : Block) : Prop :=
  (block.parameters.entries.map Prod.fst).Nodup

theorem Block.listOfInput_stored (path : List Step) (next index : Nat) (blocks : List Block)
    (named : ∀ block ∈ blocks, block.IsNamed) :
    listOfInput path next index (blocks.map fun block => block.toJson.nullNonFinite) =
      (barring ((blocks.zipIdx index).flatMap fun entry =>
        entry.1.losses (path ++ [.index entry.2])) blocks, next) := by
  induction blocks generalizing index with
  | nil => rfl
  | cons block blocks ih =>
      have others : ∀ other ∈ blocks, other.IsNamed := fun other member =>
        named other (List.mem_cons_of_mem block member)
      rw [List.map_cons, listOfInput, ofInput_stored _ _ _ (named block List.mem_cons_self),
        ih (index + 1) others]
      simp only [Input.Checked.map_barring, Input.Checked.app_barring, List.zipIdx_cons,
        List.flatMap_cons]

/-! Programs. -/

namespace Program

/-- What reading reports of a program that was written and lies at a path: four issues for each
double that is not finite. -/
def lossesUnder (path : List Step) (program : Program) : List Issue :=
  program.blocks.zipIdx.flatMap fun entry =>
    entry.1.losses (path ++ [.key "blocks"] ++ [.index entry.2])

def losses (program : Program) : List Issue :=
  program.lossesUnder []

theorem toJson_stored (program : Program) :
    program.toJson.nullNonFinite =
      .object [("blocks", .list (program.blocks.map fun block => block.toJson.nullNonFinite))] := by
  rw [toJson, Json.nullNonFinite, Json.nullNonFiniteFields_eq]
  simp only [List.map_cons, List.map_nil, Json.ofList, Json.nullNonFinite,
    Json.nullNonFiniteItems_eq, List.map_map]
  rfl

theorem ofInput_stored (next : Nat) (path : List Step) (program : Program)
    (named : ∀ block ∈ program.blocks, block.IsNamed) :
    ofInput next path program.toJson.nullNonFinite =
      (barring (program.lossesUnder path) program, next) := by
  have list := Block.listOfInput_stored (path ++ [.key "blocks"]) next 0 program.blocks named
  rw [program.toJson_stored]
  generalize (program.blocks.map fun block => block.toJson.nullNonFinite) = items at list
  have found : blocksField.find? (.object [("blocks", .list items)]) =
      some ("blocks", .list items) := rfl
  simp only [ofInput, found, list, Input.Checked.map_barring]
  rfl

def Has (program : Program) (value : Value) : Prop :=
  ∃ block ∈ program.blocks, ∃ name, (name, value) ∈ block.parameters.entries

/-- What can be written: the parameters of a block have different names, and integers have at most
4300 digits. -/
structure IsWritable (program : Program) : Prop where
  named : ∀ block ∈ program.blocks, block.IsNamed
  short : ∀ n, program.Has (.number (.int n)) → n.natAbs < 10 ^ 4300

section Dialects

variable {dialect : Json.Dialect} (longest : dialect.longest = some 4300)

include longest

theorem takes_value (depth : Nat) (value : Value)
    (short : ∀ n, value = .number (.int n) → n.natAbs < 10 ^ 4300) :
    Json.Takes dialect depth value.toJson := by
  cases value with
  | flag b => exact True.intro
  | text s => exact True.intro
  | number n =>
      cases n with
      | double x => exact True.intro
      | int n =>
          have length : (Nat.toDigits 10 n.natAbs).length ≤ 4300 :=
            (Text.toDigits_length_iff (by decide)).mpr (short n rfl)
          simp only [Value.toJson, Json.Takes, Json.exceeds, longest, Option.any_some,
            decide_eq_false_iff_not]
          omega

variable (deep : Json.exceeds dialect.deepest 4 = false)

include deep

theorem takes_block (block : Block)
    (short : ∀ name n, (name, .number (.int n)) ∈ block.parameters.entries →
      n.natAbs < 10 ^ 4300) :
    Json.Takes dialect 2 block.toJson := by
  have entries : Json.Takes dialect 3 block.parameters.toJson := by
    refine ⟨deep, Json.takesFields_of_forall fun field member => ?_⟩
    obtain ⟨⟨name, value⟩, stored, rfl⟩ := List.mem_map.mp member
    apply takes_value longest 4 value
    rintro n rfl
    exact short name n stored
  have parents : Json.Takes dialect 3 (Json.ofOption .text block.parent) := by
    cases block.parent <;> exact True.intro
  have slots : Json.Takes dialect 3
      (Json.ofOption (fun slot => .text slot.name) block.slot) := by
    cases block.slot <;> exact True.intro
  exact ⟨Json.exceeds_mono (by decide) deep, True.intro, True.intro, entries, parents, slots,
    True.intro⟩

theorem takes_toJson (program : Program) (writable : program.IsWritable) :
    Json.Takes dialect 0 program.toJson := by
  have items : Json.TakesItems dialect 2 (program.blocks.map Block.toJson) := by
    apply Json.takesItems_of_forall
    intro item member
    obtain ⟨block, stored, rfl⟩ := List.mem_map.mp member
    exact takes_block longest deep block fun name n entry =>
      writable.short n ⟨block, stored, name, entry⟩
  exact ⟨Json.exceeds_mono (by decide) deep, ⟨Json.exceeds_mono (by decide) deep, items⟩,
    True.intro⟩

end Dialects

/-- Text reads as the program it was written from, barring what was lost. -/
theorem ofText_toText (next : Nat) (program : Program) (writable : program.IsWritable) :
    ofText next program.toText = (barring program.losses program, next) := by
  have roomy : documentDialect.IsRoomy := rfl
  have read := Json.read_write roomy program.toJson (takes_toJson rfl rfl program writable)
  simp only [ofText, ofDocument, toText, read]
  exact ofInput_stored next [] program writable.named

theorem lossesUnder_nil_iff (path : List Step) (program : Program) :
    program.lossesUnder path = [] ↔
      ∀ x, program.Has (.number (.double x)) → Decimal.isFinite x = true := by
  unfold lossesUnder
  rw [List.flatMap_eq_nil_iff]
  constructor
  · rintro none x ⟨block, stored, name, entry⟩
    rw [← List.zipIdx_map_fst 0 program.blocks] at stored
    obtain ⟨⟨block, index⟩, placed, rfl⟩ := List.mem_map.mp stored
    have lost := List.flatMap_eq_nil_iff.mp (none _ placed) _ entry
    exact (Value.losses_nil_iff _ _).mp lost
  · intro finite entry placed
    have stored : entry.1 ∈ program.blocks := by
      rw [← List.zipIdx_map_fst 0 program.blocks]
      exact List.mem_map_of_mem placed
    refine List.flatMap_eq_nil_iff.mpr fun parameter member => ?_
    obtain ⟨name, value⟩ := parameter
    rw [Value.losses_nil_iff]
    rcases value with b | (n | x) | s
    · rfl
    · rfl
    · exact finite x ⟨entry.1, stored, name, member⟩
    · rfl

theorem losses_nil_iff (program : Program) :
    program.losses = [] ↔
      ∀ x, program.Has (.number (.double x)) → Decimal.isFinite x = true :=
  program.lossesUnder_nil_iff []

end Program

def documentOf (word : String) : String :=
  "\x7b\"blocks\":[\x7b\"id\":\"a\",\"definitionId\":\"b\",\"parameters\":\x7b\"c\":" ++ word ++
    "\x7d\x7d]\x7d"

section Words

open Json

def blockUpTo (given : List Char) : List Char :=
  '{' :: ((writeText "id").toList ++ ':' :: ((writeText "a").toList ++
    ',' :: ((writeText "definitionId").toList ++ ':' :: ((writeText "b").toList ++
      ',' :: ((writeText "parameters").toList ++ ':' ::
        '{' :: ((writeText "c").toList ++ ':' :: given))))))

theorem documentOf_toList (word : String) :
    (documentOf word).toList = '{' :: ((writeText "blocks").toList ++
      ':' :: '[' :: blockUpTo (word.toList ++ ['}', '}', ']', '}'])) := by
  have before : String.toList
      "\x7b\"blocks\":[\x7b\"id\":\"a\",\"definitionId\":\"b\",\"parameters\":\x7b\"c\":" =
        '{' :: ((writeText "blocks").toList ++ ':' :: '[' :: blockUpTo []) := by decide +kernel
  have behind : "\x7d\x7d]\x7d".toList = ['}', '}', ']', '}'] := by decide +kernel
  unfold documentOf
  rw [String.toList_append, String.toList_append]
  apply (congrArg₂ (fun first last => first ++ word.toList ++ last) before behind).trans
  simp only [blockUpTo, List.append_assoc, List.cons_append, List.nil_append]

variable {word : String} {value : Json}
  (reads : ∀ fuel depth rest, readValue documentDialect (fuel + 1) depth
    (word.toList ++ '}' :: rest) = .ok (value, '}' :: rest))

include reads

theorem readValue_blockUpTo (fuel : Nat) (rest : List Char) :
    readValue documentDialect (fuel + 7) 2 (blockUpTo (word.toList ++ '}' :: '}' :: rest)) =
      .ok (.object [("id", .text "a"), ("definitionId", .text "b"),
        ("parameters", .object [("c", value)])], rest) := by
  have parameters : readValue documentDialect (fuel + 3) 3
      ('{' :: ((writeText "c").toList ++ ':' :: (word.toList ++ '}' :: '}' :: rest))) =
        .ok (.object [("c", value)], '}' :: rest) := by
    rw [readValue_named rfl, readFields_last "c" (reads fuel 4 ('}' :: rest))]
    rfl
  rw [blockUpTo, readValue_named rfl, readFields_next_text, readFields_next_text,
    readFields_last "parameters" parameters]
  rfl

/-- The text reads as an object with the value that the word stands for. -/
theorem read_documentOf :
    Json.read documentDialect (documentOf word) =
      .ok (.object [("blocks", .list [.object [("id", .text "a"), ("definitionId", .text "b"),
        ("parameters", .object [("c", value)])]])]) := by
  have list : ∀ fuel, readValue documentDialect (fuel + 9) 1
      ('[' :: blockUpTo (word.toList ++ ['}', '}', ']', '}'])) =
        .ok (.list [.object [("id", .text "a"), ("definitionId", .text "b"),
          ("parameters", .object [("c", value)])]], ['}']) := by
    intro fuel
    have item := readItems_last (readValue_blockUpTo reads fuel [']', '}'])
    rw [blockUpTo] at item ⊢
    rw [readValue_items rfl _ rfl (by decide), item]
    rfl
  obtain ⟨fuel, enough⟩ : ∃ fuel, (documentOf word).toList.length + 1 = fuel + 11 := by
    have long : 10 ≤ (documentOf word).toList.length := by
      rw [documentOf_toList, blockUpTo]
      simp only [List.length_cons, List.length_append]
      omega
    exact ⟨_, (Nat.sub_add_cancel (Nat.succ_le_succ long)).symm⟩
  unfold Json.read readChars
  rw [enough, documentOf_toList, readValue_named rfl, readFields_last "blocks" (list fuel)]
  rfl

omit reads

def programOf (x : Float) : Program :=
  ⟨[⟨"a", "b", ⟨[("c", .number (.double x))]⟩, none, none⟩]⟩

theorem ofText_documentOf (next : Nat) (word : String) (x : Float)
    (reads : ∀ fuel depth rest, Json.readValue documentDialect (fuel + 1) depth
      (word.toList ++ '}' :: rest) = .ok (.number (.double x), '}' :: rest)) :
    Program.ofText next (documentOf word) = (.ok (programOf x), next) := by
  simp only [Program.ofText, ofDocument, read_documentOf reads]
  rfl

theorem documentOf_infinite {word : String} (member : word ∈ ["1e400", "NaN", "Infinity"]) :
    ∃ x : Float, Decimal.isFinite x = false ∧
      ∀ next, Program.ofText next (documentOf word) = (.ok (programOf x), next) := by
  simp only [List.mem_cons, List.not_mem_nil, or_false] at member
  rcases member with rfl | rfl | rfl
  · refine ⟨Decimal.ofDecimal false 1 400, by decide +kernel, fun next => ?_⟩
    apply ofText_documentOf
    exact fun fuel depth rest => Json.readValue_scalar fuel depth _ rfl (by decide) (by decide)
  · refine ⟨0 / 0, by decide +kernel, fun next => ?_⟩
    apply ofText_documentOf
    exact fun fuel depth rest => Json.readValue_scalar fuel depth _ rfl (by decide) (by decide)
  · refine ⟨1 / 0, by decide +kernel, fun next => ?_⟩
    apply ofText_documentOf
    exact fun fuel depth rest => Json.readValue_scalar fuel depth _ rfl (by decide) (by decide)

end Words

/-- A program whose doubles are all finite reads back from its text as it was. With another double
the text is refused, although there are words that such doubles are read from. -/
theorem programs_survive_documents (program : Program) (writable : program.IsWritable)
    (next : Nat) :
    ((∀ x, program.Has (.number (.double x)) → Decimal.isFinite x = true) →
      Program.ofText next program.toText = (.ok program, next)) ∧
    ((∃ x, program.Has (.number (.double x)) ∧ Decimal.isFinite x = false) →
      ∃ first others, Program.ofText next program.toText = (.error (first :: others), next)) ∧
    (∀ word ∈ ["1e400", "NaN", "Infinity"], ∃ found x,
      Program.ofText next (documentOf word) = (.ok found, next) ∧
        found.Has (.number (.double x)) ∧ Decimal.isFinite x = false) := by
  have read := program.ofText_toText next writable
  refine ⟨fun finite => ?_, ?_, ?_⟩
  · rw [read, program.losses_nil_iff.mpr finite]
    rfl
  · rintro ⟨x, stored, infinite⟩
    have lost : program.losses ≠ [] := by
      intro none
      have finite := program.losses_nil_iff.mp none x stored
      rw [infinite] at finite
      cases finite
    obtain ⟨first, others, losses⟩ := List.exists_cons_of_ne_nil lost
    refine ⟨first, others, ?_⟩
    rw [read, losses]
    rfl
  · intro word member
    obtain ⟨x, infinite, found⟩ := documentOf_infinite member
    exact ⟨programOf x, x, found next,
      ⟨_, List.mem_cons_self, "c", List.mem_cons_self⟩, infinite⟩

/-- Two blocks with values that are easily taken for one another, a long integer, and text that has
to be escaped; the second block lies within the first. -/
def mixedProgram (x : Float) : Program :=
  ⟨[⟨"if \"é\"", "condition", ⟨[("flag", .flag true), ("count", .number (.int 1)),
      ("time", .number (.double x)), ("word", .text "1"), ("a\\b", .text "\n\x01\"😀\u2028")]⟩,
      none, none⟩,
    ⟨"", "move", ⟨[("far", .number (.int (-123456789012345678901234567890)))]⟩,
      some "if \"é\"", some .thenSide⟩]⟩

theorem mixed_program_survives :
    Program.ofText 7 (mixedProgram 1).toText = (.ok (mixedProgram 1), 7) ∧
      ∃ first others, Program.ofText 7 (mixedProgram (1 / 0)).toText =
        (.error (first :: others), 7) := by
  have entries : ∀ x : Float, ∀ value, (mixedProgram x).Has value →
      value ∈ [.flag true, .number (.int 1), .number (.double x), .text "1",
        .text "\n\x01\"😀\u2028", .number (.int (-123456789012345678901234567890))] := by
    rintro x value ⟨block, stored, name, entry⟩
    simp only [mixedProgram, List.mem_cons, List.not_mem_nil, or_false] at stored
    rcases stored with rfl | rfl
    all_goals
      simp only [List.mem_cons, Prod.mk.injEq, List.not_mem_nil, or_false] at entry ⊢
      tauto
  have writable : ∀ x : Float, (mixedProgram x).IsWritable := by
    intro x
    constructor
    · intro block stored
      simp only [mixedProgram, List.mem_cons, List.not_mem_nil, or_false] at stored
      rcases stored with rfl | rfl
      all_goals
        simp only [Block.IsNamed, List.map_cons, List.map_nil]
        decide
    · intro n stored
      have found := entries x _ stored
      simp only [List.mem_cons, Value.number.injEq, Number.int.injEq, reduceCtorEq, false_or,
        List.not_mem_nil, or_false] at found
      have small : n.natAbs < 10 ^ 30 := by
        rcases found with rfl | rfl <;> decide
      exact small.trans_le (pow_le_pow_right₀ (by decide) (by decide))
  have has : ∀ x : Float, (mixedProgram x).Has (.number (.double x)) := by
    intro x
    exact ⟨_, List.mem_cons_self, "time", by simp⟩
  obtain ⟨survives, -, -⟩ := programs_survive_documents (mixedProgram 1) (writable 1) 7
  obtain ⟨-, refused, -⟩ := programs_survive_documents (mixedProgram (1 / 0)) (writable _) 7
  constructor
  · apply survives
    intro x stored
    have found := entries 1 _ stored
    simp only [List.mem_cons, Value.number.injEq, Number.double.injEq, reduceCtorEq, false_or,
        List.not_mem_nil, or_false] at found
    subst found
    decide +kernel
  · exact refused ⟨1 / 0, has _, by decide +kernel⟩

end ArmProgram
