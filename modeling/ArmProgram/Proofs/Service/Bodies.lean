import ArmProgram.Proofs.Program.Writable
import ArmProgram.Proofs.Service.Requests

/-!
Bodies. A program that was sent out comes in again as the JSON that it was sent
as, and what comes in with any body can be sent out: its integers are no longer
than those of a body, and the names of parameters differ.
-/

namespace ArmProgram

open Input.Checked (app_ok map_ok)

/-! Sending a program. -/

/-- The zero bytes that would tell another encoding are missing after a brace and a quote. -/
theorem Text.decoded?_object (loneSurrogates : Bool) {text : String} {rest : List Char}
    (begins : text.toList = '{' :: '"' :: rest) :
    decoded? loneSurrogates text = some text.toList := by
  have encoding (bytes : List Nat) : Encoding.ofBytes (0x7b :: 0x22 :: bytes) = .utf8 := by
    rcases bytes with _ | ⟨third, _ | ⟨fourth, bytes⟩⟩ <;> rfl
  have bytes : text.toList.flatMap utf8Bytes = 0x7b :: 0x22 :: rest.flatMap utf8Bytes := by
    rw [begins]
    rfl
  simp only [decoded?, bytes, encoding]
  rw [begins]
  rfl

namespace Json

theorem write_object_begins (name : String) (value : Json) (fields : List (String × Json)) :
    ∃ rest, (write (.object ((name, value) :: fields))).toList = '{' :: '"' :: rest := by
  obtain ⟨cs, begins⟩ := writeFields_begins name value fields
  refine ⟨cs ++ ['}'], ?_⟩
  rw [write, String.toList_append, String.toList_append, begins]
  rfl

end Json

theorem Value.toJson_merged (value : Value) :
    value.toJson.nullNonFinite.merged = value.toJson.nullNonFinite := by
  rcases value with b | (n | x) | s
  · rfl
  · rfl
  · simp only [toJson, Json.nullNonFinite]
    split <;> rfl
  · rfl

theorem Block.toJson_merged (block : Block) (named : block.IsNamed) :
    block.toJson.nullNonFinite.merged = block.toJson.nullNonFinite := by
  have parameters : block.parameters.toJson.nullNonFinite.merged =
      block.parameters.toJson.nullNonFinite := by
    rw [block.parameters.toJson_stored]
    refine Json.merged_object ?_ fun field member => ?_
    · rw [List.map_map]
      exact named
    · obtain ⟨entry, -, rfl⟩ := List.mem_map.mp member
      exact entry.2.toJson_merged
  rw [block.toJson_stored]
  have distinct : ["id", "definitionId", "parameters", "parentId", "childSlot"].Nodup := by decide
  refine Json.merged_object distinct ?_
  simp only [List.forall_mem_cons, List.not_mem_nil, false_implies, implies_true, and_true]
  refine ⟨rfl, rfl, parameters, ?_, ?_⟩
  · cases block.parent <;> rfl
  · cases block.slot <;> rfl

theorem Program.toJson_merged (program : Program)
    (named : ∀ block ∈ program.blocks, block.IsNamed) :
    program.toJson.nullNonFinite.merged = program.toJson.nullNonFinite := by
  have blocks : (Json.list (program.blocks.map fun block => block.toJson.nullNonFinite)).merged =
      .list (program.blocks.map fun block => block.toJson.nullNonFinite) := by
    refine Json.merged_list fun item member => ?_
    obtain ⟨block, stored, rfl⟩ := List.mem_map.mp member
    exact block.toJson_merged (named block stored)
  rw [program.toJson_stored]
  refine Json.merged_object (List.nodup_singleton _) ?_
  rw [List.forall_mem_singleton]
  exact blocks

namespace Body

section Write

variable {dialect : Json.Dialect} (roomy : dialect.IsRoomy)

include roomy

theorem ofTextIn_write {fields : List (String × Json)} (some : fields ≠ [])
    (takes : Json.Takes dialect 0 (.object fields)) :
    ofTextIn dialect (Json.object fields).write =
      .given (Json.object fields).nullNonFinite.merged := by
  have chars : Json.readChars dialect (Json.object fields).write.toList =
      .ok (Json.object fields).nullNonFinite := Json.read_write roomy _ takes
  obtain ⟨⟨name, value⟩, others, rfl⟩ := List.exists_cons_of_ne_nil some
  obtain ⟨rest, text⟩ := Json.write_object_begins name value others
  have shown : (Json.object ((name, value) :: others)).write.isEmpty = false := by
    rw [Bool.eq_false_iff]
    intro empty
    rw [String.isEmpty_iff.mp empty] at text
    cases text
  rw [ofTextIn, shown, Text.decoded?_object dialect.loneSurrogates text]
  simp only [Bool.false_eq_true, ↓reduceIte, Option.map_some, chars]

/-- The text of a program that was sent out is a body with that program. -/
theorem ofTextIn_program (program : Program) (writable : program.IsWritable)
    (takes : Json.Takes dialect 0 program.toJson) :
    ofTextIn dialect program.toJson.nullNonFinite.write = .given program.toJson.nullNonFinite := by
  have fields := ofTextIn_write roomy (List.cons_ne_nil _ _) takes
  rw [Json.write_nullNonFinite, Program.toJson, fields, ← Program.toJson,
    program.toJson_merged writable.named]

end Write

theorem dialect_roomy : dialect.IsRoomy := rfl

theorem unicode_roomy : unicode.IsRoomy := rfl

theorem ofText_program (program : Program) (writable : program.IsWritable) :
    ofText program.toJson.nullNonFinite.write = .given program.toJson.nullNonFinite :=
  ofTextIn_program dialect_roomy program writable
    (Program.takes_toJson rfl rfl program writable)

theorem isUnicode_of_given {text : String} {json : Json} (given : ofText text = .given json)
    (strict : ofTextIn unicode text = .given json) : IsUnicode text := by
  intro other read
  rw [given] at read
  cases read
  exact strict

theorem program_isUnicode (program : Program) (writable : program.IsWritable) :
    IsUnicode program.toJson.nullNonFinite.write :=
  isUnicode_of_given (ofText_program program writable)
    (ofTextIn_program unicode_roomy program writable
      (Program.takes_toJson rfl rfl program writable))

/-- What comes with a body is within the bounds of a body. -/
theorem ofText_takes {text : String} {json : Json} (given : ofText text = .given json) :
    Json.Takes dialect 0 json := by
  unfold ofText ofTextIn at given
  split at given
  · cases given
  · split at given
    · rename_i read decoded
      obtain ⟨chars, -, found⟩ := Option.map_eq_some_iff.mp decoded
      cases given
      exact Json.merged_takes _ 0 (Json.readChars_takes rfl found)
    all_goals cases given

end Body

/-! Orders. -/

def Order.IsWritable : Order → Prop
  | importProgram program _ => program.IsWritable
  | addBlock _ given | addChild _ _ given _ => given.IsWritable
  | setParameter _ _ value => value.IsShort
  | health | showProgram | clearProgram | removeBlock _ | start .. | stop | showStatus
  | showResult | showRobot => True

theorem Order.IsWritable.change {order : Order} (writable : order.IsWritable) {next : Nat}
    {change : Change} (asks : order.change? next = some change) : change.IsWritable := by
  cases order <;> cases asks
  case addBlock given => exact Parameters.IsWritable.short writable
  case addChild given slot => exact Parameters.IsWritable.short writable
  case setParameter value => exact writable
  all_goals exact True.intro

theorem Controller.Gives.keeps_writable {order : Order} {controller : Controller Float}
    {program : Program} (gives : controller.Gives order program) (writable : order.IsWritable)
    (known : controller.cell.program.IsWritable) : program.IsWritable := by
  cases gives with
  | kept => exact known
  | edited asks made => exact Program.changed_isWritable known (writable.change asks) made
  | imported asks valid =>
      cases asks
      exact writable

theorem Order.ofObject_ok {read : Json → Input.Checked Order} {body : Body} {order : Order}
    (made : Order.ofObject read body = .ok order) :
    ∃ json, body = .given json ∧ read json = .ok order := by
  cases body with
  | given json =>
      cases json with
      | object fields =>
          refine ⟨.object fields, rfl, ?_⟩
          simp only [Order.ofObject] at made
          cases found : read (.object fields) with
          | error issues => rw [found] at made; cases made
          | ok order => rw [found] at made; cases made; rfl
      | null | flag b | number n | text s | list items => cases made
  | absent | malformed | unparsable => cases made

def Request.endpoint? (request : Request) : Option Endpoint :=
  (Method.ofName? request.method).bind ((Endpoint.atTarget request.target).lookup ·)

def Order.endpoint : Order → Endpoint
  | health => .health
  | showProgram => .showProgram
  | importProgram .. => .importProgram
  | clearProgram => .clearProgram
  | addBlock .. | addChild .. => .addBlock
  | setParameter id .. => .setParameter id
  | removeBlock id => .removeBlock id
  | start .. => .startRun
  | stop => .stopRun
  | showStatus => .showStatus
  | showResult => .showResult
  | showRobot => .showRobot

theorem Order.ofRequest_endpoint {next : Nat} {body : Body} {endpoint : Endpoint} {order : Order}
    (made : Order.ofRequest next body endpoint = .ok order) : order.endpoint = endpoint := by
  cases endpoint with
  | importProgram =>
      obtain ⟨json, -, found⟩ := Order.ofObject_ok made
      obtain ⟨program, -, rfl⟩ := map_ok found
      rfl
  | addBlock =>
      obtain ⟨json, -, found⟩ := Order.ofObject_ok made
      obtain ⟨_, slot, toParent, -, rfl⟩ := app_ok found
      obtain ⟨_, parent, toGiven, -, rfl⟩ := app_ok toParent
      obtain ⟨_, given, toDefinition, -, rfl⟩ := app_ok toGiven
      obtain ⟨definition, -, rfl⟩ := map_ok toDefinition
      cases parent <;> rfl
  | setParameter id =>
      obtain ⟨json, -, found⟩ := Order.ofObject_ok made
      obtain ⟨_, value, named, -, rfl⟩ := app_ok found
      obtain ⟨name, -, rfl⟩ := map_ok named
      rfl
  | startRun =>
      obtain ⟨json, -, found⟩ := Order.ofObject_ok made
      obtain ⟨_, confirm, toSimulate, -, rfl⟩ := app_ok found
      obtain ⟨simulate, -, rfl⟩ := map_ok toSimulate
      rfl
  | health | showProgram | clearProgram | removeBlock | stopRun | showStatus | showResult
  | showRobot => cases made; rfl

theorem Request.order_ok {next : Nat} {request : Request} {order : Order}
    (given : request.order next = .ok order) : request.endpoint? = some order.endpoint ∧
      Order.ofRequest next request.body order.endpoint = .ok order := by
  unfold Request.order at given
  split at given
  · cases given
  · split at given
    · cases given
    · rename_i endpoint found
      cases made : Order.ofRequest next request.body endpoint with
      | error misread => rw [made] at given; cases given
      | ok known =>
          rw [made] at given
          cases given
          rw [Order.ofRequest_endpoint made]
          exact ⟨found, made⟩

section Read

variable {dialect : Json.Dialect} (longest : dialect.longest = some 4300) {depth : Nat}
  {json : Json} (takes : Json.Takes dialect depth json) {order : Order}

include longest takes

theorem addBlockOf_writable (read : Order.addBlockOf json = .ok order) : order.IsWritable := by
  unfold Order.addBlockOf at read
  obtain ⟨_, slot, toParent, -, rfl⟩ := app_ok read
  obtain ⟨_, parent, toGiven, -, rfl⟩ := app_ok toParent
  obtain ⟨_, given, toDefinition, found, rfl⟩ := app_ok toGiven
  obtain ⟨definition, -, rfl⟩ := map_ok toDefinition
  have writable : (given.getD .empty).IsWritable := by
    rcases Input.withDefault_ok found with rfl | ⟨name, value, there, checked⟩
    · exact Parameters.empty_isWritable
    · obtain ⟨deeper, inner⟩ := Json.find?_takes takes there
      unfold Input.orNull at checked
      split at checked
      · cases checked
        exact Parameters.empty_isWritable
      · obtain ⟨parameters, known, rfl⟩ := map_ok checked
        exact parameters_writable longest inner known
  unfold Order.adding
  cases parent <;> exact writable

theorem setParameterOf_writable {id : String} (read : Order.setParameterOf id json = .ok order) :
    order.IsWritable := by
  unfold Order.setParameterOf at read
  obtain ⟨_, value, named, found, rfl⟩ := app_ok read
  obtain ⟨name, -, rfl⟩ := map_ok named
  obtain ⟨key, given, there, checked⟩ := Input.required_ok found
  obtain ⟨deeper, inner⟩ := Json.find?_takes takes there
  exact parameterValue_short longest inner checked

theorem importOf_writable {next : Nat} (read : Order.importOf next json = .ok order) :
    order.IsWritable := by
  obtain ⟨program, found, rfl⟩ := map_ok read
  exact program_writable longest takes found

end Read

theorem Order.ofRequest_writable {next : Nat} {text : String} {endpoint : Endpoint} {order : Order}
    (made : Order.ofRequest next (.ofText text) endpoint = .ok order) : order.IsWritable := by
  -- The object that a body holds is within the bounds of a body.
  have taken {read : Json → Input.Checked Order}
      (made : Order.ofObject read (.ofText text) = .ok order) :
      ∃ json, Json.Takes Body.dialect 0 json ∧ read json = .ok order := by
    obtain ⟨json, given, found⟩ := Order.ofObject_ok made
    exact ⟨json, Body.ofText_takes given, found⟩
  cases endpoint with
  | importProgram =>
      obtain ⟨json, takes, found⟩ := taken made
      exact importOf_writable rfl takes found
  | addBlock =>
      obtain ⟨json, takes, found⟩ := taken made
      exact addBlockOf_writable rfl takes found
  | setParameter id =>
      obtain ⟨json, takes, found⟩ := taken made
      exact setParameterOf_writable rfl takes found
  | startRun =>
      obtain ⟨json, -, found⟩ := taken made
      obtain ⟨_, confirm, toSimulate, -, rfl⟩ := app_ok found
      obtain ⟨simulate, -, rfl⟩ := map_ok toSimulate
      exact True.intro
  | health | showProgram | clearProgram | removeBlock | stopRun | showStatus | showResult
  | showRobot => cases made; exact True.intro

/-- The order that a request with text in its body gives brings in nothing that
cannot be written. -/
theorem Request.order_writable {next : Nat} {request : Request} {order : Order}
    (text : ∃ text, request.body = .ofText text) (given : request.order next = .ok order) :
    order.IsWritable := by
  obtain ⟨text, body⟩ := text
  exact Order.ofRequest_writable (body ▸ (Request.order_ok given).2)

end ArmProgram
