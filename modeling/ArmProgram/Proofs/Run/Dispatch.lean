import ArmProgram.Proofs.Run.Pruned

/-!
A run and the translation of a list send the same commands. A run takes up one
block after another and asks for its move by itself; the translation goes
through a list in one pass. Whatever loops, branches and ends a run comes to,
what it has sent is the translation of the blocks it has taken up.
-/

namespace ArmProgram

/-! The translation of a list, from its parts. -/

theorem commandsOf_append (front rest : List Block) :
    (commandsOf (front ++ rest)).2 = do
      let first ← (commandsOf front).2
      let later ← (commandsOf rest).2
      return first ++ later := by
  induction front with
  | nil => cases later : (commandsOf rest).2 <;> exact later
  | cons block front ih =>
      rw [List.cons_append, commandsOf, commandsOf]
      split
      · cases commandOfMove block.id block.parameters with
        | error fault => rfl
        | ok pair =>
            simp only [ih]
            cases (commandsOf front).2 with
            | error fault => rfl
            | ok first =>
                cases (commandsOf rest).2 with
                | error fault => rfl
                | ok later => exact congrArg Except.ok (List.append_assoc _ _ _).symm
      · exact ih

theorem commandsOf_move {block : Block} (mine : block.kind? = some .moveTo)
    {command : Option Command} {remarks : List Remark}
    (made : commandOfMove block.id block.parameters = .ok (command, remarks)) :
    (commandsOf [block]).2 = .ok command.toList := by
  simp only [commandsOf, mine, made, ↓reduceIte]
  exact congrArg Except.ok (List.append_nil _)

theorem commandsOf_other {block : Block} (other : block.kind? ≠ some .moveTo) :
    (commandsOf [block]).2 = .ok [] := by
  simp [commandsOf, other]

/-! One step of a walk. -/

def Step.sent (step : Step) : List Command :=
  step.call?.toList.flatMap Call.commands

/-- A block without children sends what the translation makes of it. -/
theorem Walk.leaf_sends {plan : Plan} {node : Placed} {notes : List Note} {action : Option Action}
    (found : leaf plan node node.block.parameters node.block.kind? = .ok (notes, action))
    (next : Position) : (commandsOf [node.block]).2 = .ok (Step.sent ⟨notes, action, next⟩) := by
  by_cases mine : node.block.kind? = some .moveTo
  · cases made : commandOfMove node.block.id node.block.parameters with
    | error fault =>
        rw [mine, leaf, made] at found
        cases found
    | ok pair =>
        rw [mine, leaf, made] at found
        cases found
        rw [commandsOf_move mine made]
        cases pair.1 <;> rfl
  · have unsent : Step.sent ⟨notes, action, next⟩ = [] := by
      match action with
      | none | some .checkpoint | some .charge | some (.delay _) => rfl
      | some (.call (.moveJoints commands)) => exact absurd (leaf_moves found).1 mine
      | some (.call .home) | some (.call .openGripper) | some (.call .closeGripper) => rfl
    rw [commandsOf_other mine, unsent]

namespace Position

def entered? : Position → Option Placed
  | walking (⟨node :: _, .enter⟩ :: _) => some node
  | _ => none

def entered (position : Position) : List Block :=
  (position.entered?.map (·.block)).toList

theorem takes_sends {plan : Plan} {view : View} {position : Position} {step : Step}
    (taken : Takes plan view position step)
    (seen : ∀ node, position.entered? = some node → view node.place = node.block.parameters) :
    (commandsOf position.entered).2 = .ok step.sent := by
  cases taken with
  | enterRepeat node rest below count kind | enterIf node rest below kind
  | passIf node rest below kind | enterBranch node rest below kind
  | enterWhile node rest below kind =>
      exact commandsOf_other (by simp [kind])
  | leaf node rest below notes action plain found =>
      rw [seen node rfl] at found
      exact Walk.leaf_sends found _
  | _ => rfl

end Position

/-! One step of a run. -/

def Block.IsTranslatable (block : Block) : Prop :=
  block.kind? = some .moveTo → ∃ made, commandOfMove block.id block.parameters = .ok made

variable {Time : Type} [TimeScale Time]

namespace Run

def entered (run : Run Time) : List Block :=
  match run.activity with
  | .moving position => position.entered
  | _ => []

omit [TimeScale Time] in
theorem entered_of_moving {run : Run Time} {position : Position}
    (activity : run.activity = .moving position) : run.entered = position.entered := by
  rw [entered, activity]

omit [TimeScale Time] in
theorem exists_of_entered {run : Run Time} {block : Block} (entered : block ∈ run.entered) :
    ∃ position, run.activity = .moving position ∧
      ∃ node, position.entered? = some node ∧ node.block = block := by
  cases activity : run.activity with
  | moving position =>
      rw [entered_of_moving activity, Position.entered, Option.mem_toList,
        Option.map_eq_some_iff] at entered
      exact ⟨position, rfl, entered⟩
  | _ => simp [Run.entered, activity] at entered

omit [TimeScale Time] in
theorem misread_sends {run : Run Time} {position : Position} {fault : CoercionFault}
    (stepped : position.step? run.plan run.view = some (.error fault))
    (seen : ∀ node, position.entered? = some node → run.view node.place = node.block.parameters)
    (readable : ∀ block ∈ position.entered, block.IsTranslatable) :
    (commandsOf position.entered).2 = .ok [] := by
  obtain ⟨node, rest, below, rfl, ⟨counts, -⟩ | ⟨-, unread⟩⟩ :=
    Position.step?_fault _ _ _ _ stepped
  · exact commandsOf_other (by simp [counts])
  · refine commandsOf_other fun mine => ?_
    obtain ⟨made, found⟩ := readable node.block List.mem_cons_self mine
    rw [seen node rfl, mine, Walk.leaf, found] at unread
    cases unread

/-- A step asks for the commands that the translation makes of the block it takes
up. -/
theorem steps_sends {now : Time} {connected : Bool} {run after : Run Time} {asked : Option Call}
    (steps : Steps now connected run after asked)
    (seen : ∀ position, run.activity = .moving position →
      ∀ node, position.entered? = some node → run.view node.place = node.block.parameters)
    (readable : ∀ block ∈ run.entered, block.IsTranslatable) :
    (commandsOf run.entered).2 = .ok (asked.toList.flatMap Call.commands) := by
  have taken {position : Position} {step : Step} (activity : run.activity = .moving position)
      (stepped : position.step? run.plan run.view = some (.ok step)) :
      (commandsOf run.entered).2 = .ok step.sent := by
    rw [entered_of_moving activity]
    exact Position.takes_sends (Position.step?_takes _ _ _ _ stepped) (seen position activity)
  have idle (unmoved : run.entered = []) : (commandsOf run.entered).2 = .ok [] := by
    rw [unmoved]
    rfl
  cases steps with
  | silent activity stepped | cleared activity stepped | halted activity stepped
  | lost activity stepped | charged activity stepped | limited activity stepped
  | delayed activity stepped | refused activity stepped | called activity stepped =>
      exact taken activity stepped
  | misread activity stepped =>
      rw [entered_of_moving activity] at readable ⊢
      exact misread_sends stepped (seen _ activity) readable
  | @complete position activity stepped =>
      refine idle ?_
      rw [entered_of_moving activity, Position.step?_end _ _ _ stepped]
      rfl
  | begin activity | stirred activity | startled turns activity | woken activity
  | overslept activity | rousing activity | roused activity =>
      exact idle (by rw [entered, activity])

end Run

/-! Along a course. -/

namespace Moment

def dispatches (moment : Moment Time) : Event Time → List Block
  | .step => moment.run.entered
  | _ => []

def sends (moment : Moment Time) (event : Event Time) : List Command :=
  (moment.asks event).toList.flatMap Call.commands

structure Keeps (blocks : List Block) (moment : Moment Time) : Prop where
  same : moment.run.blocks = blocks.toArray
  index : moment.run.plan.index = .ofBlocks blocks
  draws : moment.run.Stands (Position.Draws blocks)

theorem next_keeps {blocks : List Block} {before after : Moment Time} {event : Event Time}
    (happens : before.Next event after)
    (unedited : ∀ place parameters, event ≠ .edit place parameters)
    (keeps : before.Keeps blocks) : after.Keeps blocks where
  same := by
    rw [next_blocks happens, Event.revise_of_unedited unedited]
    exact keeps.same
  index := by
    rw [(next_terms happens).plan]
    exact keeps.index
  draws := next_stands True.intro
    (fun position step => Position.takes_draws _ _ position step keeps.index) happens keeps.draws

omit [TimeScale Time] in
/-- The block that a run takes up is one of its list, with the parameters it has
there. -/
theorem Keeps.seen {blocks : List Block} {moment : Moment Time} (keeps : moment.Keeps blocks)
    (position : Position) (activity : moment.run.activity = .moving position) (node : Placed)
    (entered : position.entered? = some node) :
    node.block ∈ blocks ∧ moment.run.view node.place = node.block.parameters := by
  match position with
  | .walking (⟨first :: rest, .enter⟩ :: below) =>
      cases entered
      have draws := keeps.draws (.walking (⟨node :: rest, .enter⟩ :: below))
        (by simp only [Run.position?, activity])
      have there := draws _ List.mem_cons_self node List.mem_cons_self
      refine ⟨List.mem_of_getElem? there, ?_⟩
      simp [Run.view, keeps.same, there]

theorem next_sends {blocks : List Block} {before after : Moment Time} {event : Event Time}
    (happens : before.Next event after) (keeps : before.Keeps blocks)
    (readable : ∀ block ∈ before.dispatches event, block.IsTranslatable) :
    (∀ block ∈ before.dispatches event, block ∈ blocks) ∧
      (commandsOf (before.dispatches event)).2 = .ok (before.sends event) := by
  cases happens with
  | @step now connected run ready =>
      constructor
      · intro block entered
        obtain ⟨position, activity, node, there, rfl⟩ := Run.exists_of_entered entered
        exact (keeps.seen position activity node there).1
      · simp only [sends, asks, asked?, ready, ↓reduceIte]
        exact Run.steps_sends (Run.step_steps _ _ _ ready)
          (fun position activity node entered => (keeps.seen position activity node entered).2)
          readable
  | _ => exact ⟨List.forall_mem_nil _, rfl⟩

end Moment

namespace Course

def dispatched {first last : Moment Time} : Course first last → List Block
  | .here _ => []
  | @next _ _ before _ _ event _ rest => before.dispatches event ++ rest.dispatched

def sent {first last : Moment Time} : Course first last → List Command
  | .here _ => []
  | @next _ _ before _ _ event _ rest => before.sends event ++ rest.sent

def IsUnedited {first last : Moment Time} (course : Course first last) : Prop :=
  ∀ event ∈ course.events, ∀ place parameters, event ≠ .edit place parameters

theorem sends_translation {blocks : List Block} {first last : Moment Time}
    (course : Course first last) (keeps : first.Keeps blocks) (unedited : course.IsUnedited)
    (readable : ∀ block ∈ course.dispatched, block.IsTranslatable) :
    (∀ block ∈ course.dispatched, block ∈ blocks) ∧
      (commandsOf course.dispatched).2 = .ok course.sent := by
  induction course with
  | here => exact ⟨List.forall_mem_nil _, rfl⟩
  | next event happens rest ih =>
      obtain ⟨mine, others⟩ := List.forall_mem_cons.mp unedited
      obtain ⟨now, later⟩ := List.forall_mem_append.mp readable
      obtain ⟨listed, translated⟩ := ih (Moment.next_keeps happens mine keeps) others later
      obtain ⟨taken, sends⟩ := Moment.next_sends happens keeps now
      refine ⟨List.forall_mem_append.mpr ⟨taken, listed⟩, ?_⟩
      rw [dispatched, commandsOf_append, sends, translated]
      rfl

end Course

/-! Lists of blocks at the top that run no children. -/

def IsFlat (blocks : List Block) : Prop :=
  ∀ block ∈ blocks, block.parent = none ∧ block.isControl = false

instance (blocks : List Block) : Decidable (IsFlat blocks) :=
  inferInstanceAs (Decidable (∀ block ∈ blocks, block.parent = none ∧ block.isControl = false))

theorem IsFlat.topLevel {blocks : List Block} (flat : IsFlat blocks) :
    (ChildIndex.ofBlocks blocks).topLevel = placed blocks := by
  rw [ChildIndex.topLevel, ChildIndex.ofBlocks, ChildIndex.members_ofPlaced]
  refine List.filter_eq_self.mpr fun node member => decide_eq_true ?_
  have there := (mem_placed_iff blocks node).mp member
  exact (flat node.block (List.mem_of_getElem? there)).1

namespace Position

inductive Flows (plan : Plan) : Position → List Placed → Prop where
  | entry : Flows plan .entry plan.index.topLevel
  | homing : Flows plan .homing plan.index.topLevel
  | settling : Flows plan .settling plan.index.topLevel
  | settled : Flows plan .settled plan.index.topLevel
  | arriving (pending : List Placed) : Flows plan (.walking [⟨pending, .arrive⟩]) pending
  | charging (node : Placed) (rest : List Placed) :
      Flows plan (.walking [⟨node :: rest, .charge⟩]) (node :: rest)
  | entering (node : Placed) (rest : List Placed) :
      Flows plan (.walking [⟨node :: rest, .enter⟩]) (node :: rest)
  | leaving (node : Placed) (rest : List Placed) :
      Flows plan (.walking [⟨node :: rest, .leave⟩]) rest
  | done : Flows plan (.walking []) []

theorem Flows.next {plan : Plan} {position : Position} {ahead : List Placed}
    (flows : position.Flows plan ahead) (plain : ∀ node ∈ ahead, node.block.isControl = false) :
    ∃ later, ahead = position.entered?.toList ++ later ∧
      ∀ view step, Takes plan view position step → step.next.Flows plan later := by
  cases flows with
  | entry =>
      refine ⟨_, rfl, fun view step taken => ?_⟩
      cases taken
      simp only [Step.act]
      split
      · exact .homing
      · exact .arriving _
  | homing =>
      refine ⟨_, rfl, fun view step taken => ?_⟩
      cases taken
      exact .settling
  | settling =>
      refine ⟨_, rfl, fun view step taken => ?_⟩
      cases taken
      exact .settled
  | settled =>
      refine ⟨_, rfl, fun view step taken => ?_⟩
      cases taken
      exact .arriving _
  | arriving =>
      cases ahead with
      | nil =>
          refine ⟨_, rfl, fun view step taken => ?_⟩
          cases taken
          exact .done
      | cons node rest =>
          refine ⟨_, rfl, fun view step taken => ?_⟩
          cases taken
          exact .charging node rest
  | charging node rest =>
      refine ⟨_, rfl, fun view step taken => ?_⟩
      cases taken
      exact .entering node rest
  | entering node rest =>
      -- A control block would go on to its children.
      have leaf := plain node List.mem_cons_self
      refine ⟨rest, rfl, fun view step taken => ?_⟩
      cases taken with
      | leaf => exact .leaving node rest
      | enterRepeat _ _ _ _ kind | enterIf _ _ _ kind | passIf _ _ _ kind
      | enterBranch _ _ _ kind | enterWhile _ _ _ kind =>
          simp [Block.isControl, kind, Kind.isControl] at leaf
  | leaving =>
      refine ⟨_, rfl, fun view step taken => ?_⟩
      cases taken
      exact .arriving ahead
  | done =>
      refine ⟨_, rfl, fun view step taken => ?_⟩
      cases taken

end Position

namespace Run

/-- How far a run has come through a list: what it has taken up and what is still
ahead make up the list, and a run that completes has taken up all. -/
structure Covers (blocks done : List Block) (run : Run Time) : Prop where
  ahead : ∀ position, run.stand? = some position →
    ∃ ahead, position.Flows run.plan ahead ∧ blocks = done ++ ahead.map (·.block)
  sofar : done <+: blocks
  whole : run.activity = .ended .completed → done = blocks

omit [TimeScale Time] in
theorem Covers.of_stand {blocks done : List Block} {run : Run Time} {position : Position}
    {ahead : List Placed} (there : run.stand? = some position)
    (flows : position.Flows run.plan ahead) (split : blocks = done ++ ahead.map (·.block)) :
    run.Covers blocks done where
  ahead := by
    rw [there]
    rintro _ ⟨⟩
    exact ⟨ahead, flows, split⟩
  sofar := ⟨_, split.symm⟩
  whole := fun completed => by simp [stand?, position?, completed] at there

omit [TimeScale Time] in
theorem Covers.of_end {blocks done : List Block} {run : Run Time} {ending : Ending Time}
    (activity : run.activity = .ended ending) (sofar : done <+: blocks)
    (whole : ending = .completed → done = blocks) : run.Covers blocks done where
  ahead := by simp [stand?, position?, activity]
  sofar := sofar
  whole := fun completed => whole (Activity.ended.inj (activity.symm.trans completed))

omit [TimeScale Time] in
theorem Covers.of_same {blocks done : List Block} {before after : Run Time}
    (covers : before.Covers blocks done) (active : before.isEnded = false)
    (plan : after.plan = before.plan) (same : after.stand? = before.stand?) :
    after.Covers blocks done := by
  obtain ⟨position, there⟩ : ∃ position, before.stand? = some position := by
    cases activity : before.activity <;> simp_all [stand?, position?, isEnded]
  obtain ⟨ahead, flows, split⟩ := covers.ahead position there
  refine .of_stand (same.trans there) ?_ split
  rw [plan]
  exact flows

variable {blocks done : List Block} {run : Run Time} (covers : run.Covers blocks done)
  (plain : ∀ block ∈ blocks, block.isControl = false) {position : Position}
  (activity : run.activity = .moving position)

include covers plain activity

omit [TimeScale Time] in
/-- What a step takes up is what comes next in the list. -/
theorem Covers.next : ∃ later, blocks = (done ++ run.entered) ++ later.map (·.block) ∧
    ∀ step, Position.Takes run.plan run.view position step → step.next.Flows run.plan later := by
  obtain ⟨ahead, flows, split⟩ := covers.ahead position (stand?_of_moving _ _ activity)
  have leaves : ∀ node ∈ ahead, node.block.isControl = false := by
    intro node member
    refine plain node.block ?_
    rw [split]
    exact List.mem_append_right _ (List.mem_map_of_mem member)
  obtain ⟨later, rfl, goesOn⟩ := flows.next leaves
  refine ⟨later, ?_, goesOn run.view⟩
  rw [split, entered_of_moving activity, Position.entered, List.map_append, List.append_assoc]
  cases position.entered? <;> rfl

end Run

namespace Run

variable {blocks done : List Block}

theorem steps_covers {now : Time} {connected : Bool} {run after : Run Time} {asked : Option Call}
    (steps : Steps now connected run after asked)
    (plain : ∀ block ∈ blocks, block.isControl = false) (covers : run.Covers blocks done) :
    after.Covers blocks (done ++ run.entered) := by
  have moved {position : Position} {step : Step} (activity : run.activity = .moving position)
      (stepped : position.step? run.plan run.view = some (.ok step))
      (plan : after.plan = run.plan) (there : after.stand? = some step.next) :
      after.Covers blocks (done ++ run.entered) := by
    obtain ⟨later, split, goesOn⟩ := covers.next plain activity
    refine .of_stand there ?_ split
    rw [plan]
    exact goesOn step (Position.step?_takes _ _ _ _ stepped)
  -- A run that a step ends has taken up the block of that step all the same.
  have stopped {position : Position} {ending : Ending Time}
      (activity : run.activity = .moving position) (ended : after.activity = .ended ending)
      (failed : ending ≠ .completed) : after.Covers blocks (done ++ run.entered) := by
    obtain ⟨later, split, -⟩ := covers.next plain activity
    exact .of_end ended ⟨_, split.symm⟩ fun completed => absurd completed failed
  have still (active : run.isEnded = false) (idle : run.entered = [])
      (plan : after.plan = run.plan) (same : after.stand? = run.stand?) :
      after.Covers blocks (done ++ run.entered) := by
    rw [idle, List.append_nil]
    exact covers.of_same active plan same
  cases steps with
  | silent activity stepped | cleared activity stepped | charged activity stepped
  | delayed activity stepped | called activity stepped => exact moved activity stepped rfl rfl
  | misread activity | halted activity | lost activity | limited activity | refused activity =>
      exact stopped activity rfl (by simp)
  | complete activity stepped =>
      cases Position.step?_end _ _ _ stepped
      obtain ⟨ahead, flows, split⟩ := covers.ahead _ (stand?_of_moving _ _ activity)
      cases flows
      have all : done ++ run.entered = blocks := by
        rw [split, entered_of_moving activity]
        rfl
      exact .of_end rfl ⟨[], by rw [List.append_nil, all]⟩ fun _ => all
  | begin activity | stirred activity | startled turns activity | woken activity
  | rousing activity =>
      exact still (by simp [isEnded, activity]) (by simp [entered, activity]) rfl
        (by simp [stand?, position?, activity])
  | overslept activity | roused activity =>
      rw [entered, activity, List.append_nil]
      exact .of_end rfl covers.sofar (by simp)

omit [TimeScale Time] in
theorem Covers.cancel {run : Run Time} (covers : run.Covers blocks done) :
    run.cancel.Covers blocks done := by
  cases ended : run.isEnded with
  | true =>
      obtain ⟨ending, activity⟩ := run.isEnded_iff.mp ended
      rw [cancel_of_ended activity]
      exact covers
  | false =>
      rcases cancel_of_going ended with activity | activity <;>
        exact .of_end activity covers.sofar (by simp)

end Run

theorem Moment.next_covers {blocks done : List Block} {before after : Moment Time}
    {event : Event Time} (happens : before.Next event after)
    (plain : ∀ block ∈ blocks, block.isControl = false) (covers : before.run.Covers blocks done) :
    after.run.Covers blocks (done ++ before.dispatches event) := by
  cases happens with
  | step ready => exact Run.steps_covers (Run.step_steps _ _ _ ready) plain covers
  | lasts later activity | returns activity =>
      simp only [dispatches, List.append_nil]
      exact covers.of_same (by simp [Run.isEnded, activity]) rfl
        (by simp [Run.stand?, Run.position?, Run.resume, activity])
  | raises fault activity =>
      simp only [dispatches, List.append_nil]
      exact .of_end rfl covers.sofar (by simp)
  | cancel =>
      simp only [dispatches, List.append_nil]
      exact covers.cancel
  | abort | connection | edit | pass | expire =>
      simp only [dispatches, List.append_nil]
      exact ⟨covers.ahead, covers.sofar, covers.whole⟩

namespace Course

theorem covers {blocks done : List Block} {first last : Moment Time}
    (course : Course first last) (plain : ∀ block ∈ blocks, block.isControl = false)
    (covers : first.run.Covers blocks done) :
    last.run.Covers blocks (done ++ course.dispatched) := by
  induction course generalizing done with
  | here =>
      rw [dispatched, List.append_nil]
      exact covers
  | next event happens rest ih =>
      rw [dispatched, ← List.append_assoc]
      exact ih (Moment.next_covers happens plain covers)

end Course

/-- What a run sends of a list that it takes up in order: all of it if it
completes, and otherwise what comes first. -/
structure Course.SendsInOrder (blocks : List Block) {first last : Moment Time}
    (course : Course first last) : Prop where
  dispatched : course.dispatched <+: blocks
  completed : last.run.activity = .ended .completed →
    course.dispatched = blocks ∧ (commandsOf blocks).2 = .ok course.sent
  sent : ∀ commands, (commandsOf blocks).2 = .ok commands → course.sent <+: commands

theorem commandsOf_prefix {front blocks : List Block} {first commands : List Command}
    (sofar : front <+: blocks) (sent : (commandsOf front).2 = .ok first)
    (all : (commandsOf blocks).2 = .ok commands) : first <+: commands := by
  obtain ⟨rest, rfl⟩ := sofar
  rw [commandsOf_append, sent] at all
  cases later : (commandsOf rest).2 with
  | error fault =>
      rw [later] at all
      cases all
  | ok others =>
      rw [later] at all
      cases all
      exact ⟨others, rfl⟩

/-- The commands that a run sends are the translation of the blocks it takes up, in
that order and each as often as it does, as long as parameters stay as they are and
no angle fails to convert. Of a list without control blocks or nesting it sends the
translation, or what comes first of it if it does not complete. -/
theorem run_sends_translation {now : Time} {connected : Bool} {blocks : List Block}
    {abilities : Abilities} {config : Config} {token : Token Time} {last : Moment Time}
    (course : Course (.initial now connected blocks abilities config token) last)
    (unedited : course.IsUnedited)
    (readable : ∀ block ∈ course.dispatched, block.IsTranslatable) :
    (∀ block ∈ course.dispatched, block ∈ blocks) ∧
      (commandsOf course.dispatched).2 = .ok course.sent ∧
      (IsFlat blocks → course.SendsInOrder blocks) := by
  have keeps : (Moment.initial now connected blocks abilities config token).Keeps blocks :=
    { same := rfl
      index := rfl
      draws := fun position there => by cases there }
  obtain ⟨listed, translated⟩ := course.sends_translation keeps unedited readable
  refine ⟨listed, translated, fun flat => ?_⟩
  have begins : (Moment.initial now connected blocks abilities config token).run.Covers
      blocks [] := by
    refine .of_stand rfl .entry ?_
    have top : (ChildIndex.ofBlocks blocks).topLevel.map (·.block) = blocks := by
      rw [flat.topLevel, placed_blocks]
    exact top.symm
  have covers : last.run.Covers blocks course.dispatched :=
    course.covers (fun block member => (flat block member).2) begins
  refine ⟨covers.sofar, fun completed => ?_, fun commands all => ?_⟩
  · have whole := covers.whole completed
    refine ⟨whole, ?_⟩
    rw [← translated, whole]
  · exact commandsOf_prefix covers.sofar translated all

def turnAndPose : List Block :=
  [⟨"turn", "move_to", .ofList [("joint", .text "base"), ("angle", .number (.int 400))], none,
     none⟩,
   ⟨"pose", "strike_a_pose", .empty, none, none⟩]

def turning : Moment Float :=
  .initial 0 true turnAndPose ⟨false, false, false, .off⟩ Config.default.withoutPacing
    (.fresh 10 300)

theorem turn_is_sent :
    ∃ last, ∃ course : Course turning last,
      course.IsUnedited ∧ (∀ block ∈ course.dispatched, block.IsTranslatable) ∧
      last.run.activity = .ended .completed ∧ IsFlat turnAndPose ∧
      course.dispatched = turnAndPose ∧ (commandsOf turnAndPose).2 = .ok course.sent ∧
      course.sent = [⟨1, .double (Joint.base.range.clamp (Decimal.ofInt 400))⟩] := by
  let course : Course turning _ :=
    .next .step (.step rfl) <| .next .step (.step rfl) <| .next .step (.step rfl) <|
    .next .step (.step rfl) <| .next .step (.step rfl) <| .next .returns (.returns rfl) <|
    .next .step (.step rfl) <| .next .step (.step rfl) <| .next .step (.step rfl) <|
    .next .step (.step rfl) <| .next .step (.step rfl) <| .next .step (.step rfl) <|
    .next .step (.step rfl) <| .next .step (.step rfl) <| .next .step (.step rfl) <| .here _
  have unedited : course.IsUnedited := by
    intro event member place parameters edited
    subst edited
    simp [course, Course.events] at member
  have readable : ∀ block ∈ course.dispatched, block.IsTranslatable := by
    refine List.forall_mem_cons.mpr ⟨fun _ => ⟨_, rfl⟩, List.forall_mem_singleton.mpr ?_⟩
    exact fun turning => absurd turning (by decide)
  have flat : IsFlat turnAndPose := by decide
  obtain ⟨-, -, inOrder⟩ := run_sends_translation course unedited readable
  obtain ⟨dispatched, sent⟩ := (inOrder flat).completed rfl
  exact ⟨_, course, unedited, readable, rfl, flat, dispatched, sent, rfl⟩

end ArmProgram
