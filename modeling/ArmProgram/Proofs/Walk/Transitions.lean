import ArmProgram.Run.Walk

/-!
What one step of a walk can be, a constructor for each stage. Laws about
walks are case analyses on `Takes`, so the step function is opened only once.
-/

namespace ArmProgram

namespace Position

inductive Takes (plan : Plan) (view : View) : Position → Step → Prop where
  | entry :
      Takes plan view .entry
        (.act .checkpoint (if plan.abilities.home then .homing
          else .walking [.fresh plan.index.topLevel]))
  | homing : Takes plan view .homing ⟨[.homing], some (.call .home), .settling⟩
  | settling : Takes plan view .settling (.act (.delay plan.postHomeDelay) .settled)
  | settled :
      Takes plan view .settled (.silent (.walking [.fresh plan.index.topLevel]))
  | pop (stage : Stage) (below : List Frame) :
      Takes plan view (.walking (⟨[], stage⟩ :: below)) (.silent (.walking below))
  | arrive (node : Placed) (rest : List Placed) (below : List Frame) :
      Takes plan view (.walking (⟨node :: rest, .arrive⟩ :: below))
        (.act .checkpoint (.walking (⟨node :: rest, .charge⟩ :: below)))
  | charge (node : Placed) (rest : List Placed) (below : List Frame) :
      Takes plan view (.walking (⟨node :: rest, .charge⟩ :: below))
        (.act .charge (.walking (⟨node :: rest, .enter⟩ :: below)))
  | enterRepeat (node : Placed) (rest : List Placed) (below : List Frame) (count : Nat)
      (kind : node.block.kind? = some .repeatTimes)
      (counted : repeatCount ((view node.place).get? "times") = .ok count) :
      Takes plan view (.walking (⟨node :: rest, .enter⟩ :: below))
        (.silent (.walking (⟨node :: rest, .iterate count⟩ :: below)))
  | enterIf (node : Placed) (rest : List Placed) (below : List Frame)
      (kind : node.block.kind? = some .ifCondition)
      (holds : conditionHolds ((view node.place).get? "condition") = true) :
      Takes plan view (.walking (⟨node :: rest, .enter⟩ :: below))
        (.silent (.walking (.fresh (plan.index.children node.block.id none) ::
          ⟨node :: rest, .leave⟩ :: below)))
  | passIf (node : Placed) (rest : List Placed) (below : List Frame)
      (kind : node.block.kind? = some .ifCondition)
      (fails : conditionHolds ((view node.place).get? "condition") = false) :
      Takes plan view (.walking (⟨node :: rest, .enter⟩ :: below))
        (.silent (.walking (⟨node :: rest, .leave⟩ :: below)))
  | enterBranch (node : Placed) (rest : List Placed) (below : List Frame)
      (kind : node.block.kind? = some .ifElse) :
      Takes plan view (.walking (⟨node :: rest, .enter⟩ :: below))
        (.silent (.walking (.fresh (plan.index.children node.block.id
          (some (Walk.branch (conditionHolds ((view node.place).get? "condition"))))) ::
          ⟨node :: rest, .leave⟩ :: below)))
  | enterWhile (node : Placed) (rest : List Placed) (below : List Frame)
      (kind : node.block.kind? = some .whileLoop) :
      Takes plan view (.walking (⟨node :: rest, .enter⟩ :: below))
        (.silent (.walking (⟨node :: rest, .loop⟩ :: below)))
  | leaf (node : Placed) (rest : List Placed) (below : List Frame)
      (notes : List Note) (action : Option Action) (plain : node.block.isControl = false)
      (found : Walk.leaf plan node (view node.place) node.block.kind? = .ok (notes, action)) :
      Takes plan view (.walking (⟨node :: rest, .enter⟩ :: below))
        ⟨notes, action, .walking (⟨node :: rest, .leave⟩ :: below)⟩
  | iterateEnd (node : Placed) (rest : List Placed) (below : List Frame) :
      Takes plan view (.walking (⟨node :: rest, .iterate 0⟩ :: below))
        (.silent (.walking (⟨node :: rest, .leave⟩ :: below)))
  | iterate (node : Placed) (rest : List Placed) (below : List Frame) (left : Nat) :
      Takes plan view (.walking (⟨node :: rest, .iterate (left + 1)⟩ :: below))
        (.act .checkpoint (.walking (⟨node :: rest, .chargeIteration left⟩ :: below)))
  | chargeIteration (node : Placed) (rest : List Placed) (below : List Frame) (left : Nat) :
      Takes plan view (.walking (⟨node :: rest, .chargeIteration left⟩ :: below))
        (.act .charge (.walking (⟨node :: rest, .openIteration left⟩ :: below)))
  | openIteration (node : Placed) (rest : List Placed) (below : List Frame) (left : Nat) :
      Takes plan view (.walking (⟨node :: rest, .openIteration left⟩ :: below))
        (.silent (.walking (.fresh (plan.index.children node.block.id none) ::
          ⟨node :: rest, .iterate left⟩ :: below)))
  | loop (node : Placed) (rest : List Placed) (below : List Frame)
      (holds : loopHolds ((view node.place).get? "condition") = true) :
      Takes plan view (.walking (⟨node :: rest, .loop⟩ :: below))
        (.act .checkpoint (.walking (⟨node :: rest, .chargeLoop⟩ :: below)))
  | loopEnd (node : Placed) (rest : List Placed) (below : List Frame)
      (fails : loopHolds ((view node.place).get? "condition") = false) :
      Takes plan view (.walking (⟨node :: rest, .loop⟩ :: below))
        (.silent (.walking (⟨node :: rest, .leave⟩ :: below)))
  | chargeLoop (node : Placed) (rest : List Placed) (below : List Frame) :
      Takes plan view (.walking (⟨node :: rest, .chargeLoop⟩ :: below))
        (.act .charge (.walking (⟨node :: rest, .openLoop⟩ :: below)))
  | openLoop (node : Placed) (rest : List Placed) (below : List Frame) :
      Takes plan view (.walking (⟨node :: rest, .openLoop⟩ :: below))
        (.silent (.walking (.fresh (plan.index.children node.block.id none) ::
          ⟨node :: rest, .paceLoop⟩ :: below)))
  | paceLoop (node : Placed) (rest : List Placed) (below : List Frame) :
      Takes plan view (.walking (⟨node :: rest, .paceLoop⟩ :: below))
        (.act (.delay plan.interBlockDelay) (.walking (⟨node :: rest, .loop⟩ :: below)))
  | leave (node : Placed) (rest : List Placed) (below : List Frame) :
      Takes plan view (.walking (⟨node :: rest, .leave⟩ :: below))
        (.act (.delay plan.interBlockDelay) (.walking (.fresh rest :: below)))

theorem plain_of_other (block : Block) (notRepeat : block.kind? ≠ some .repeatTimes)
    (notIf : block.kind? ≠ some .ifCondition) (notBranch : block.kind? ≠ some .ifElse)
    (notWhile : block.kind? ≠ some .whileLoop) : block.isControl = false := by
  unfold Block.isControl
  cases known : block.kind? with
  | none => rfl
  | some kind => cases kind <;> simp_all [Kind.isControl]

theorem enter_takes (plan : Plan) (view : View) (node : Placed) (rest : List Placed)
    (below : List Frame) (step : Step)
    (entered : Walk.enter plan view node rest below = .ok step) :
    Takes plan view (.walking (⟨node :: rest, .enter⟩ :: below)) step := by
  unfold Walk.enter at entered
  simp only at entered
  -- Four kinds of control block, and every other kind as a leaf.
  split at entered
  case h_1 kind =>
    cases counted : repeatCount ((view node.place).get? "times") with
    | error fault => rw [counted] at entered; cases entered
    | ok count =>
        rw [counted] at entered
        cases entered
        exact .enterRepeat node rest below count kind counted
  case h_2 kind =>
    split at entered
    · rename_i holds
      cases entered
      exact .enterIf node rest below kind holds
    · rename_i fails
      cases entered
      exact .passIf node rest below kind (by simpa using fails)
  case h_3 kind =>
    cases entered
    exact .enterBranch node rest below kind
  case h_4 kind =>
    cases entered
    exact .enterWhile node rest below kind
  case h_5 =>
    rename_i notRepeat notIf notBranch notWhile
    have plain := plain_of_other node.block notRepeat notIf notBranch notWhile
    cases found : Walk.leaf plan node (view node.place) node.block.kind? with
    | error fault => rw [found] at entered; cases entered
    | ok pair =>
        rw [found] at entered
        cases entered
        exact .leaf node rest below pair.1 pair.2 plain found

/-- Every step that a walk can take is one of the transitions. -/
theorem step?_takes (plan : Plan) (view : View) (position : Position) (step : Step)
    (stepped : position.step? plan view = some (.ok step)) :
    Takes plan view position step := by
  match position with
  | .entry => cases stepped; exact .entry
  | .homing => cases stepped; exact .homing
  | .settling => cases stepped; exact .settling
  | .settled => cases stepped; exact .settled
  | .walking [] => cases stepped
  | .walking (⟨[], stage⟩ :: below) => cases stepped; exact .pop stage below
  | .walking (⟨node :: rest, stage⟩ :: below) =>
      have advanced : Walk.advance plan view node rest stage below = .ok step :=
        Option.some.inj stepped
      cases stage with
      | arrive => cases advanced; exact .arrive node rest below
      | charge => cases advanced; exact .charge node rest below
      | enter => exact enter_takes plan view node rest below step advanced
      | iterate left =>
          cases left with
          | zero => cases advanced; exact .iterateEnd node rest below
          | succ left => cases advanced; exact .iterate node rest below left
      | chargeIteration left => cases advanced; exact .chargeIteration node rest below left
      | openIteration left => cases advanced; exact .openIteration node rest below left
      | loop =>
          simp only [Walk.advance] at advanced
          split at advanced
          · rename_i holds
            cases advanced
            exact .loop node rest below holds
          · rename_i fails
            cases advanced
            exact .loopEnd node rest below (by simpa using fails)
      | chargeLoop => cases advanced; exact .chargeLoop node rest below
      | openLoop => cases advanced; exact .openLoop node rest below
      | paceLoop => cases advanced; exact .paceLoop node rest below
      | leave => cases advanced; exact .leave node rest below

theorem enter_fault (plan : Plan) (view : View) (node : Placed) (rest : List Placed)
    (below : List Frame) (fault : CoercionFault)
    (entered : Walk.enter plan view node rest below = .error fault) :
    (node.block.kind? = some .repeatTimes ∧
        repeatCount ((view node.place).get? "times") = .error fault) ∨
      (node.block.isControl = false ∧
        Walk.leaf plan node (view node.place) node.block.kind? = .error fault) := by
  unfold Walk.enter at entered
  simp only at entered
  split at entered
  case h_1 kind =>
    cases counted : repeatCount ((view node.place).get? "times") with
    | error found => rw [counted] at entered; cases entered; exact Or.inl ⟨kind, rfl⟩
    | ok count => rw [counted] at entered; cases entered
  case h_2 => split at entered <;> cases entered
  case h_3 => cases entered
  case h_4 => cases entered
  case h_5 =>
    rename_i notRepeat notIf notBranch notWhile
    have plain := plain_of_other node.block notRepeat notIf notBranch notWhile
    cases found : Walk.leaf plan node (view node.place) node.block.kind? with
    | error found' => rw [found] at entered; cases entered; exact Or.inr ⟨plain, rfl⟩
    | ok pair => rw [found] at entered; cases entered

/-- A walk fails only where it enters a block whose count or whose own action
cannot be read. -/
theorem step?_fault (plan : Plan) (view : View) (position : Position) (fault : CoercionFault)
    (stepped : position.step? plan view = some (.error fault)) :
    ∃ node rest below, position = .walking (⟨node :: rest, .enter⟩ :: below) ∧
      ((node.block.kind? = some .repeatTimes ∧
          repeatCount ((view node.place).get? "times") = .error fault) ∨
        (node.block.isControl = false ∧
          Walk.leaf plan node (view node.place) node.block.kind? = .error fault)) := by
  match position with
  | .entry | .homing | .settling | .settled | .walking [] | .walking (⟨[], _⟩ :: _) =>
      cases stepped
  | .walking (⟨node :: rest, stage⟩ :: below) =>
      have advanced : Walk.advance plan view node rest stage below = .error fault :=
        Option.some.inj stepped
      cases stage with
      | enter => exact ⟨node, rest, below, rfl, enter_fault plan view node rest below fault advanced⟩
      | iterate left => cases left <;> cases advanced
      | loop => simp only [Walk.advance] at advanced; split at advanced <;> cases advanced
      | _ => cases advanced

theorem step?_end (plan : Plan) (view : View) (position : Position)
    (stepped : position.step? plan view = none) : position = .walking [] := by
  match position with
  | .walking [] => rfl
  | .entry | .homing | .settling | .settled | .walking (⟨[], _⟩ :: _)
  | .walking (⟨_ :: _, _⟩ :: _) => cases stepped

end Position

/-! What a block without children does. -/

namespace Walk

inductive Does (plan : Plan) (node : Placed) (parameters : Parameters) (kind : Option Kind) :
    List Note → Option Action → Prop where
  | moves (command : Option Command) (remarks : List Remark) (mine : kind = some .moveTo)
      (made : commandOfMove node.block.id parameters = .ok (command, remarks)) :
      Does plan node parameters kind (remarks.map .move)
        (command.map fun command => .call (.moveJoints [command]))
  | waits (ms : Number) (mine : kind = some .waitSeconds)
      (waited : waitDuration (parameters.get? "seconds") plan.defaultWait = .ok ms) :
      Does plan node parameters kind [] (some (.delay ms))
  | calls (call : Call) (simple : ∀ commands, call ≠ .moveJoints commands) :
      Does plan node parameters kind [] (some (.call call))
  | unable : Does plan node parameters kind [] none
  | skips : Does plan node parameters kind [.skipped node.block.definition node.block.id] none

theorem leaf_does {plan : Plan} {node : Placed} {parameters : Parameters} {kind : Option Kind}
    {notes : List Note} {action : Option Action}
    (found : leaf plan node parameters kind = .ok (notes, action)) :
    Does plan node parameters kind notes action := by
  have optional (able : Bool) (call : Call) (simple : ∀ commands, call ≠ .moveJoints commands) :
      Does plan node parameters kind [] (callIf able call) := by
    cases able with
    | true => exact .calls call simple
    | false => exact .unable
  unfold leaf at found
  split at found
  · cases made : commandOfMove node.block.id parameters with
    | error fault => rw [made] at found; cases found
    | ok pair =>
        rw [made] at found
        cases found
        exact .moves pair.1 pair.2 rfl made
  · cases waited : waitDuration (parameters.get? "seconds") plan.defaultWait with
    | error fault => rw [waited] at found; cases found
    | ok ms =>
        rw [waited] at found
        cases found
        exact .waits ms rfl waited
  · cases found; exact optional _ _ nofun
  · cases found; exact optional _ _ nofun
  · cases found; exact optional _ _ nofun
  · cases found; exact .skips

end Walk

end ArmProgram
