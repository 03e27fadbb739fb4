import ArmProgram.Proofs.Service.Sessions

/-!
Sending a program out and taking it in again. What a session has come to reads
back from what is sent out, and it is taken in again unless its tree has grown
past the limit that holds for programs from outside.
-/

namespace ArmProgram

namespace Controller

variable (controller : Controller Float) {program : Program} (next : Nat)

theorem importProgram_valid (valid : program.validateTree Program.depthLimit = .ok ()) :
    ∃ after : Controller Float, controller.importProgram program next =
        (after, ⟨200, .object [("status", .text "ok"), ("blockCount", .int program.size)]⟩) ∧
      after.cell.program = program ∧ after.isRunning = controller.isRunning := by
  unfold importProgram
  rw [valid]
  exact ⟨_, rfl, rfl, rfl⟩

theorem importProgram_refused {fault : ProgramFault}
    (refused : program.validateTree Program.depthLimit = .error fault) :
    controller.importProgram program next = (controller, .invalidTree fault) := by
  unfold importProgram
  rw [refused]

end Controller

namespace Service

theorem respond_export {service : Service} {controller : Controller Float}
    (usable : service.ensureOpen.2 = .ok controller) :
    service.respond ⟨"GET", "/program", .absent⟩ =
      (.opened controller, .ok ⟨200, controller.cell.program.toJson.nullNonFinite⟩) := by
  have given : Request.order service.nextId ⟨"GET", "/program", .absent⟩ = .ok .showProgram := rfl
  rw [respond_eq, given]
  simp only [obey, (ensureOpen_ok usable).1]
  rfl

def sending (method target : String) (json : Json) : Request :=
  ⟨method, target, .ofText json.write⟩

theorem sending_body (method target : String) (json : Json) :
    (sending method target json).body = .ofText json.write :=
  rfl

def takeIn (exported : Json) : Request :=
  sending "PUT" "/program" exported

theorem put_program : (Method.ofName? "PUT").bind
    ((Endpoint.atTarget "/program").lookup ·) = some .importProgram :=
  rfl

theorem order_takeIn (next : Nat) (program : Program) (writable : program.IsWritable) :
    (takeIn program.toJson.nullNonFinite).order next =
      (Input.Checked.barring (program.lossesUnder Order.bodyPath)
        (Order.importProgram program next)).mapError Response.invalid := by
  have stored := Program.ofInput_stored next Order.bodyPath program writable.named
  rw [takeIn, sending, Request.order_of_endpoint next _ put_program, Body.ofText_program program writable]
  rw [program.toJson_stored] at stored ⊢
  simp only [Order.ofRequest, Order.ofObject, Order.importOf, stored]
  cases program.lossesUnder Order.bodyPath <;> rfl

theorem respond_takeIn {service : Service} {controller : Controller Float}
    (usable : service.ensureOpen.2 = .ok controller) (idle : controller.isRunning = false)
    (program : Program) (writable : program.IsWritable) :
    service.respond (takeIn program.toJson.nullNonFinite) =
      match program.lossesUnder Order.bodyPath with
      | [] =>
          (.opened (controller.importProgram program service.nextId).1,
            .ok (controller.importProgram program service.nextId).2)
      | first :: others => (service, .ok (.invalid (first :: others))) := by
  rw [respond_eq, order_takeIn service.nextId program writable]
  cases program.lossesUnder Order.bodyPath with
  | cons first others => rfl
  | nil =>
      simp only [Input.Checked.barring, Except.mapError, obey, (ensureOpen_ok usable).1, complete,
        Controller.handle, Controller.whenIdle, idle, Bool.false_eq_true, ↓reduceIte]

section TakeIn

variable {controller : Controller Float} (idle : controller.isRunning = false) {program : Program}
  (nested : program.IsNested) (writable : program.IsWritable)

include idle writable

theorem respond_takeIn_lossy {x : Float} (stored : program.Has (.number (.double x)))
    (infinite : Decimal.isFinite x = false) :
    ∃ first others, (Service.opened controller).respond (takeIn program.toJson.nullNonFinite) =
      (.opened controller, .ok (.invalid (first :: others))) := by
  have lost : program.lossesUnder Order.bodyPath ≠ [] := by
    intro none
    have finite := (program.lossesUnder_nil_iff _).mp none x stored
    rw [infinite] at finite
    cases finite
  obtain ⟨first, others, losses⟩ := List.exists_cons_of_ne_nil lost
  have opened : (Service.opened controller).ensureOpen.2 = .ok controller := rfl
  have outcome := respond_takeIn opened idle program writable
  rw [losses] at outcome
  exact ⟨first, others, outcome⟩

variable (finite : ∀ x, program.Has (.number (.double x)) → Decimal.isFinite x = true)

include nested finite

theorem respond_takeIn_within (within : program.IsWithin Program.depthLimit) :
    ∃ after : Controller Float, after.cell.program = program ∧
      (Service.opened controller).respond (takeIn program.toJson.nullNonFinite) =
        (.opened after, .ok ⟨200, .object [("status", .text "ok"),
          ("blockCount", .int program.size)]⟩) := by
  have valid := (program.validateTree_ok_iff _).mpr ⟨nested, within⟩
  obtain ⟨after, taken, same, -⟩ := controller.importProgram_valid controller.nextId valid
  have opened : (Service.opened controller).ensureOpen.2 = .ok controller := rfl
  have outcome := respond_takeIn opened idle program writable
  rw [(program.lossesUnder_nil_iff _).mpr finite, nextId, taken] at outcome
  exact ⟨after, same, outcome⟩

theorem respond_takeIn_deep (deep : ¬ program.IsWithin Program.depthLimit) :
    ∃ block ∈ program.blocks,
      (Service.opened controller).respond (takeIn program.toJson.nullNonFinite) =
        (.opened controller, .ok (.invalidTree (.tooDeep block.id Program.depthLimit))) := by
  obtain ⟨block, member, refused⟩ := Program.validateTree_tooDeep nested deep
  have taken := controller.importProgram_refused controller.nextId refused
  have opened : (Service.opened controller).ensureOpen.2 = .ok controller := rfl
  have outcome := respond_takeIn opened idle program writable
  rw [(program.lossesUnder_nil_iff _).mpr finite, nextId, taken] at outcome
  exact ⟨block, member, outcome⟩

end TakeIn

end Service

/-- Whatever a service with an empty program has gone through by requests in valid Unicode, unless a
run is active its program is sent out and taken in again as it is if its numbers are finite and no
block lies deeper than the limit. A block that lies deeper was added under its parent one by one; the
program is then refused as a whole, as it is for a number that cannot be sent, and stays. -/
theorem exported_program_imports {service : Service} (session : service.Session)
    {controller : Controller Float} (usable : service.ensureOpen.2 = .ok controller)
    (idle : controller.isRunning = false) :
    ∃ exported,
      service.respond ⟨"GET", "/program", .absent⟩ = (.opened controller, .ok ⟨200, exported⟩) ∧
      ((∀ x, controller.cell.program.Has (.number (.double x)) → Decimal.isFinite x = true) →
        (controller.cell.program.IsWithin Program.depthLimit →
          ∃ after : Controller Float, after.cell.program = controller.cell.program ∧
            (Service.opened controller).respond (Service.takeIn exported) =
              (.opened after, .ok ⟨200, .object [("status", .text "ok"),
                ("blockCount", .int controller.cell.program.size)]⟩)) ∧
        (¬ controller.cell.program.IsWithin Program.depthLimit →
          ∃ block ∈ controller.cell.program.blocks,
            (Service.opened controller).respond (Service.takeIn exported) =
              (.opened controller, .ok (.invalidTree (.tooDeep block.id Program.depthLimit))))) ∧
      (∀ x, controller.cell.program.Has (.number (.double x)) → Decimal.isFinite x = false →
        ∃ first others, (Service.opened controller).respond (Service.takeIn exported) =
          (.opened controller, .ok (.invalid (first :: others)))) := by
  obtain ⟨nested, writable, -⟩ := session.opened usable
  refine ⟨_, Service.respond_export usable, fun finite => ⟨?_, ?_⟩, ?_⟩
  · exact Service.respond_takeIn_within idle nested writable finite
  · exact Service.respond_takeIn_deep idle nested writable finite
  · intro x stored infinite
    exact Service.respond_takeIn_lossy idle writable stored infinite

/-! Blocks each of which lies under the one before, at the limit and past it. -/

def levelName (level : Nat) : String :=
  String.ofList (List.replicate (level + 1) 'a')

def levelParent : Nat → Option String
  | 0 => none
  | level + 1 => some (levelName level)

def chain (levels : Nat) : Program :=
  ⟨(List.range levels).map fun level =>
    ⟨levelName level, "repeat", .empty, levelParent level, none⟩⟩

theorem levelName_injective : Function.Injective levelName := by
  intro first second same
  have lists := String.ofList_injective same
  have lengths := congrArg List.length lists
  simpa using lengths

namespace Program

variable (levels : Nat)

theorem chain_ids : (chain levels).ids = (List.range levels).map levelName := by
  rw [ids, chain, List.map_map]
  rfl

theorem chain_size : (chain levels).size = levels := by
  simp [chain, size]

theorem chain_unique : (chain levels).ids.Nodup := by
  rw [chain_ids]
  exact List.nodup_range.map levelName_injective

variable {levels}

theorem chain_find? {level : Nat} (inside : level < levels) :
    (chain levels).find? (levelName level) =
      some ⟨levelName level, "repeat", .empty, levelParent level, none⟩ := by
  have member : (⟨levelName level, "repeat", .empty, levelParent level, none⟩ : Block) ∈
      (chain levels).blocks := List.mem_map.mpr ⟨level, List.mem_range.mpr inside, rfl⟩
  exact find?_of_mem (chain_unique levels) member

theorem chain_nests {level : Nat} (inside : level < levels) :
    (chain levels).Nests (levelParent level) level := by
  induction level with
  | zero => exact .top
  | succ level ih =>
      have above := Nat.lt_of_succ_lt inside
      exact .under (chain_find? above) (ih above)

theorem chain_append_nests {level : Nat} (inside : level < levels) {block : Block}
    (under : block.parent = some (levelName level)) :
    ((chain levels).append block).Nests block.parent (level + 1) := by
  rw [under]
  have above := Nests.under (chain_find? inside) (chain_nests inside)
  exact (append_stay (chain levels) block).nests above fun _ _ => trivial

theorem chain_nested : (chain levels).IsNested := by
  refine ⟨chain_unique levels, fun block member => ?_⟩
  obtain ⟨level, inside, rfl⟩ := List.mem_map.mp member
  exact ⟨level, chain_nests (List.mem_range.mp inside)⟩

theorem chain_within (few : levels ≤ 33) : (chain levels).IsWithin depthLimit := by
  intro block member depth nests
  obtain ⟨level, inside, rfl⟩ := List.mem_map.mp member
  have here := List.mem_range.mp inside
  rw [nests.unique (chain_nests here), depthLimit]
  omega

theorem chain_writable : (chain levels).IsWritable := by
  rw [isWritable_iff]
  intro block member
  obtain ⟨level, -, rfl⟩ := List.mem_map.mp member
  exact Parameters.empty_isWritable

theorem chain_finite (x : Float) (has : (chain levels).Has (.number (.double x))) :
    Decimal.isFinite x = true := by
  obtain ⟨block, member, name, stored⟩ := has
  obtain ⟨level, -, rfl⟩ := List.mem_map.mp member
  cases stored

end Program

namespace Service

theorem fresh_takeIn (program : Program) (writable : program.IsWritable)
    (finite : ∀ x, program.Has (.number (.double x)) → Decimal.isFinite x = true)
    (nested : program.IsNested) (within : program.IsWithin Program.depthLimit) :
    ∃ controller : Controller Float,
      (fresh []).respond (takeIn program.toJson.nullNonFinite) =
        (.opened controller, .ok ⟨200, .object [("status", .text "ok"),
          ("blockCount", .int program.size)]⟩) ∧
      (Service.opened controller).Session ∧ controller.isRunning = false ∧
      controller.cell.program = program := by
  have usable : (fresh []).ensureOpen.2 = .ok (newController .default 0 #[]) := rfl
  have valid := (program.validateTree_ok_iff _).mpr ⟨nested, within⟩
  obtain ⟨after, taken, same, running⟩ :=
    (newController .default 0 #[]).importProgram_valid (fresh []).nextId valid
  have outcome := respond_takeIn usable rfl program writable
  rw [(program.lossesUnder_nil_iff _).mpr finite, taken] at outcome
  have fits : (fresh []).Fits (takeIn program.toJson.nullNonFinite) := by
    refine ⟨⟨_, Body.program_isUnicode program writable, sending_body ..⟩,
      fun order change given asks id new => ?_⟩
    exact List.not_mem_nil
  have session := (Session.new (.fresh []) rfl rfl).request fits
  rw [outcome] at session ⊢
  exact ⟨after, rfl, session, running, same⟩

end Service

/-- The deepest chain that is taken in goes out and comes in again. -/
theorem deepest_chain_imports :
    ∃ controller taken after exported,
      (Service.fresh []).respond (Service.takeIn (chain 33).toJson.nullNonFinite) =
        (.opened controller, .ok taken) ∧
      (Service.opened controller).respond ⟨"GET", "/program", .absent⟩ =
        (.opened controller, .ok ⟨200, exported⟩) ∧
      (Service.opened controller).respond (Service.takeIn exported) =
        (.opened after, .ok ⟨200, .object [("status", .text "ok"), ("blockCount", .int 33)]⟩) ∧
      after.cell.program = chain 33 := by
  obtain ⟨controller, there, session, idle, program⟩ :=
    Service.fresh_takeIn (chain 33) Program.chain_writable Program.chain_finite
      Program.chain_nested (Program.chain_within (by decide))
  obtain ⟨exported, shown, finite, -⟩ := exported_program_imports session rfl idle
  rw [program] at finite
  obtain ⟨after, same, taken⟩ :=
    (finite Program.chain_finite).1 (Program.chain_within (by decide))
  rw [Program.chain_size] at taken
  exact ⟨controller, _, after, exported, there, shown, taken, same⟩

namespace Service

def childFields (parent : String) : List (String × Json) :=
  [("definitionId", .text "open_gripper"), ("parentId", .text parent)]

def addUnder (parent : String) : Request :=
  sending "POST" "/program/blocks" (.object (childFields parent))

theorem ofTextIn_childFields {dialect : Json.Dialect} (roomy : dialect.IsRoomy)
    (deep : Json.exceeds dialect.deepest 1 = false) (parent : String) :
    Body.ofTextIn dialect (Json.object (childFields parent)).write =
      .given (.object (childFields parent)) :=
  Body.ofTextIn_write roomy (List.cons_ne_nil _ _) ⟨deep, True.intro, True.intro, True.intro⟩

theorem ofText_childFields (parent : String) :
    Body.ofText (Json.object (childFields parent)).write =
      .given (.object (childFields parent)) :=
  ofTextIn_childFields Body.dialect_roomy rfl parent

theorem addUnder_unicode (parent : String) :
    ∃ text, Body.IsUnicode text ∧ (addUnder parent).body = .ofText text := by
  have strict := ofTextIn_childFields Body.unicode_roomy rfl parent
  exact ⟨_, Body.isUnicode_of_given (ofText_childFields parent) strict, sending_body ..⟩

theorem post_blocks : (Method.ofName? "POST").bind
    ((Endpoint.atTarget "/program/blocks").lookup ·) = some .addBlock :=
  rfl

theorem order_addUnder (next : Nat) (parent : String) :
    (addUnder parent).order next = .ok (.addChild parent "open_gripper" .empty .thenSide) := by
  rw [addUnder, sending, Request.order_of_endpoint next _ post_blocks, ofText_childFields]
  rfl

theorem respond_addUnder {controller : Controller Float} (idle : controller.isRunning = false)
    {parent : String} {above : Block}
    (found : controller.cell.program.find? parent = some above) :
    ∃ (after : Controller Float) (response : Response),
      (Service.opened controller).respond (addUnder parent) = (.opened after, .ok response) ∧
      response.status < 400 ∧ after.isRunning = false ∧
      after.cell.program = controller.cell.program.append
        ⟨newBlockId controller.nextId, "open_gripper", Block.withDefaults "open_gripper" [],
          some parent, some .thenSide⟩ := by
  have edits := controller.handle_edits (.addChild parent "open_gripper" .empty .thenSide)
  obtain ⟨outcome, handled, comes⟩ :=
    controller.handle_edit (.addChild parent "open_gripper" .empty .thenSide) _ rfl
  have got := (Program.get_ok_iff controller.cell.program parent above).mpr found
  rw [idle, if_neg Bool.false_ne_true, Controller.Carries] at comes
  simp only [Program.changed?, Program.addChild, got, Except.map] at comes
  rw [handled] at edits
  rw [respond_eq, order_addUnder]
  simp only [obey, ensureOpen, complete, handled]
  refine ⟨outcome.1, outcome.2, rfl, comes.2, ?_, comes.1⟩
  cases running : outcome.1.isRunning with
  | false => rfl
  | true => exact (idle.symm.trans (edits.goes.running running).1).symm

end Service

theorem newBlockId_ne_levelName (next level : Nat) : newBlockId next ≠ levelName level := by
  intro same
  have lists := congrArg String.toList same
  simp [newBlockId, levelName, String.toList_append, List.replicate_succ] at lists

/-- A child of the deepest block is added, and the program is not taken in any more. -/
theorem child_past_limit_keeps_program_out :
    ∃ first taken controller added exported, ∃ block ∈ controller.cell.program.blocks,
      (Service.fresh []).respond (Service.takeIn (chain 33).toJson.nullNonFinite) =
        (.opened first, .ok taken) ∧ taken.status = 200 ∧
      (Service.opened first).respond (Service.addUnder (levelName 32)) =
        (.opened controller, .ok added) ∧ added.status < 400 ∧
      (Service.opened controller).Session ∧ controller.isRunning = false ∧
      (Service.opened controller).respond ⟨"GET", "/program", .absent⟩ =
        (.opened controller, .ok ⟨200, exported⟩) ∧
      (Service.opened controller).respond (Service.takeIn exported) =
        (.opened controller, .ok (.invalidTree (.tooDeep block.id 32))) := by
  obtain ⟨first, there, session, idle, program⟩ :=
    Service.fresh_takeIn (chain 33) Program.chain_writable Program.chain_finite
      Program.chain_nested (Program.chain_within (by decide))
  have inside : 32 < 33 := by decide
  have found := Program.chain_find? inside
  rw [← program] at found
  obtain ⟨later, response, added, fine, still, grown⟩ := Service.respond_addUnder idle found
  rw [program] at grown
  have session : (Service.opened later).Session := by
    have fits : (Service.opened first).Fits (Service.addUnder (levelName 32)) := by
      refine ⟨Service.addUnder_unicode _, fun order change given asks id new => ?_⟩
      rw [Service.order_addUnder] at given
      cases given
      cases asks
      cases new
      rw [Service.standing, program, Program.chain_ids, List.mem_map]
      rintro ⟨level, -, same⟩
      exact newBlockId_ne_levelName _ _ same.symm
    have grown := session.request fits
    rwa [added] at grown
  have finite : ∀ x, later.cell.program.Has (.number (.double x)) →
      Decimal.isFinite x = true := by
    rintro x ⟨block, member, name, stored⟩
    rw [grown] at member
    rcases List.mem_append.mp member with old | new
    · exact Program.chain_finite x ⟨block, old, name, stored⟩
    · rw [List.mem_singleton.mp new] at stored
      cases stored
  have deep : ¬ later.cell.program.IsWithin Program.depthLimit := by
    intro within
    rw [grown] at within
    have bound := within _ (List.mem_append_right _ (List.mem_singleton_self _)) 33
      (Program.chain_append_nests inside rfl)
    exact absurd bound (by decide)
  obtain ⟨nested, writable, -⟩ := session.opened rfl
  obtain ⟨block, member, refused⟩ :=
    Service.respond_takeIn_deep still nested writable finite deep
  exact ⟨first, _, later, response, _, block, member, there, rfl, added, fine, session, still,
    Service.respond_export rfl, refused⟩

end ArmProgram
