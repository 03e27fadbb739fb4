import ArmProgram.Run.Basic

/-!
What a program means as a nested recursion, without a stack: a list runs block
by block, and a control block runs its children in its place. The recursion
does one action at a time. How the world lets each action end, with which
parameters it goes on or how it raises, is given beforehand on a tape, and
every action is written there.

Blocks may name each other as parents in circles, so the blocks give the
recursion no measure. The tape does: a list begins with an action, which uses
up an upshot. So the recursion is cut off at a depth that the tape cannot
reach, and the equations of the recursion hold without any bound.
-/

namespace ArmProgram

variable {Time : Type}

inductive Upshot (Time : Type) where
  | goesOn (view : View)
  | raises (ending : Ending Time)

inductive Halt (Time : Type) where
  | ended (ending : Ending Time)
  /-- The upshot of its last action is not known yet. -/
  | awaiting
  deriving Repr

structure Tape (Time : Type) where
  view : View
  upshots : List (Upshot Time)
  actions : List Action

abbrev Script (Time : Type) := ExceptT (Halt Time) (StateM (Tape Time))

namespace Script

variable {Result : Type}

def on (script : Script Time Result) (tape : Tape Time) :
    Except (Halt Time) Result × Tape Time :=
  script tape

def note (action : Action) : Script Time Unit := fun tape =>
  (.ok (), { tape with actions := tape.actions ++ [action] })

def reply : Script Time Unit := fun tape =>
  match tape.upshots with
  | [] => (.error .awaiting, tape)
  | .goesOn view :: upshots => (.ok (), { tape with view, upshots })
  | .raises ending :: upshots => (.error (.ended ending), { tape with upshots })

def act (action : Action) : Script Time Unit := do
  note action
  reply

def parameters (node : Placed) : Script Time Parameters := fun tape =>
  (.ok (tape.view node.place), tape)

def reading : Except CoercionFault Result → Script Time Result
  | .ok result => pure result
  | .error fault => throw (.ended (.fault (.failed (.coercion fault))))

/-- What is seen of a script that is played on a tape: how it comes out, the
upshots left over, and all actions. -/
def played (script : Script Time Unit) (view : View) (upshots : List (Upshot Time))
    (actions : List Action) : Except (Halt Time) Unit × List (Upshot Time) × List Action :=
  let found := script.on ⟨view, upshots, actions⟩
  (found.1, found.2.upshots, found.2.actions)

end Script

structure Job where
  blocks : List Block
  abilities : Abilities
  config : Config

namespace Job

open Script

def topLevel (job : Job) : List Placed :=
  (placed job.blocks).filter fun entry => entry.block.parent = none

def elseSide (job : Job) (node : Placed) : List Placed :=
  (placed job.blocks).filter fun entry =>
    entry.block.parent = some node.block.id && entry.block.slot = some .elseSide

def mainSide (job : Job) (node : Placed) : List Placed :=
  (placed job.blocks).filter fun entry =>
    entry.block.parent = some node.block.id && entry.block.slot ≠ some .elseSide

def callIf (able : Bool) (call : Call) : Script Time Unit :=
  if able then act (.call call) else pure ()

def pace (job : Job) : Script Time Unit :=
  act (.delay (.double job.config.interBlockDelay))

def leaf (job : Job) (node : Placed) : Option Kind → Script Time Unit
  | some .moveTo => do
      let found ← parameters node
      let made ← reading (commandOfMove node.block.id found)
      match made.1 with
      | some command => act (.call (.moveJoints [command]))
      | none => pure ()
  | some .waitSeconds => do
      let found ← parameters node
      let ms ← reading (waitDuration (found.get? "seconds") (.double job.config.defaultWait))
      act (.delay ms)
  | some .openGripper => callIf job.abilities.openGripper .openGripper
  | some .closeGripper => callIf job.abilities.closeGripper .closeGripper
  | some .homeRobot => callIf job.abilities.home .home
  | _ => pure ()

def inOrder (job : Job) (body : Placed → Script Time Unit) : List Placed → Script Time Unit
  | [] => pure ()
  | node :: rest => do
      act .checkpoint
      act .charge
      body node
      job.pace
      job.inOrder body rest

def repeated (round : Script Time Unit) : Nat → Script Time Unit
  | 0 => pure ()
  | times + 1 => do
      act .checkpoint
      act .charge
      round
      repeated round times

/-- A loop that looks at its condition before each round, cut off at a bound. -/
def loopedWithin (job : Job) (node : Placed) (round : Script Time Unit) : Nat → Script Time Unit
  | 0 => throw .awaiting
  | bound + 1 => do
      let found ← parameters node
      if loopHolds (found.get? "condition") then do
        act .checkpoint
        act .charge
        round
        job.pace
        job.loopedWithin node round bound
      else pure ()

/-- What a block does between its charge and its pause, where `inner` runs the
children and `looped` all rounds of a loop. -/
def bodyBy (job : Job) (inner : List Placed → Script Time Unit)
    (looped : Placed → Script Time Unit) (node : Placed) : Script Time Unit :=
  match node.block.kind? with
  | some .repeatTimes => do
      let found ← parameters node
      let times ← reading (repeatCount (found.get? "times"))
      repeated (inner (job.mainSide node)) times
  | some .ifCondition => do
      let found ← parameters node
      if conditionHolds (found.get? "condition") then inner (job.mainSide node) else pure ()
  | some .ifElse => do
      let found ← parameters node
      if conditionHolds (found.get? "condition") then inner (job.mainSide node)
      else inner (job.elseSide node)
  | some .whileLoop => looped node
  | kind => job.leaf node kind

def bodyWithin (job : Job) : Nat → Placed → Script Time Unit
  | 0, _ => throw .awaiting
  | bound + 1, node =>
      let inner := job.inOrder (job.bodyWithin bound)
      job.bodyBy inner (fun node => job.loopedWithin node (inner (job.mainSide node)) (bound + 1))
        node

def body (job : Job) (node : Placed) : Script Time Unit := fun tape =>
  job.bodyWithin (tape.upshots.length + 1) node tape

def exec (job : Job) (list : List Placed) : Script Time Unit :=
  job.inOrder job.body list

def looped (job : Job) (node : Placed) : Script Time Unit := fun tape =>
  job.loopedWithin node (job.exec (job.mainSide node)) (tape.upshots.length + 1) tape

def program (job : Job) : Script Time Unit := do
  act .checkpoint
  if job.abilities.home then do
    act (.call .home)
    act (.delay (.double job.config.postHomeDelay))
    job.exec job.topLevel
  else job.exec job.topLevel

end Job

/-! The calculus of playing a script: one equation for each thing it does. -/

namespace Script

variable (after : Script Time Unit) (view : View) (upshots : List (Upshot Time))
  (actions : List Action)

theorem played_act (action : Action) :
    ((do act action; after) : Script Time Unit).played view upshots actions =
      ((do reply; after) : Script Time Unit).played view upshots (actions ++ [action]) := rfl

theorem played_awaiting :
    ((do reply; after) : Script Time Unit).played view [] actions =
      (.error .awaiting, [], actions) := rfl

theorem played_goesOn (seen : View) :
    ((do reply; after) : Script Time Unit).played view (.goesOn seen :: upshots) actions =
      after.played seen upshots actions := rfl

theorem played_raises (ending : Ending Time) :
    ((do reply; after) : Script Time Unit).played view (.raises ending :: upshots) actions =
      (.error (.ended ending), upshots, actions) := rfl

theorem played_parameters (node : Placed) (use : Parameters → Script Time Unit) :
    ((do let found ← parameters node; use found) : Script Time Unit).played view upshots actions =
      (use (view node.place)).played view upshots actions := rfl

theorem reading_ok {Result : Type} (result : Result) (use : Result → Script Time Unit) :
    (do let found ← reading (.ok result); use found) = use result := rfl

theorem played_misread {Result : Type} (fault : CoercionFault) (use : Result → Script Time Unit) :
    ((do let found ← reading (.error fault); use found) : Script Time Unit).played view upshots
      actions = (.error (.ended (.fault (.failed (.coercion fault)))), upshots, actions) :=
  rfl

/-- Before an upshot is known, nothing depends on the parameters. -/
theorem played_reply_view (other : View) :
    ((do reply; after) : Script Time Unit).played view upshots actions =
      ((do reply; after) : Script Time Unit).played other upshots actions := by
  cases upshots with
  | nil => rfl
  | cons upshot upshots => cases upshot <;> rfl

end Script

/-! The bounds do not matter. Scripts never put upshots back on the tape, and two
of them that agree on all shorter tapes agree behind one more action. -/

namespace Script

variable {Result Other : Type}

def Shrinks (script : Script Time Result) : Prop :=
  ∀ tape, (script.on tape).2.upshots.length ≤ tape.upshots.length

def Agree (bound : Nat) (left right : Script Time Result) : Prop :=
  ∀ tape, tape.upshots.length < bound → left.on tape = right.on tape

theorem shrinks_act (action : Action) : Shrinks (act action : Script Time Unit) := by
  intro tape
  obtain ⟨view, upshots, actions⟩ := tape
  cases upshots with
  | nil => exact Nat.le_refl _
  | cons upshot upshots => cases upshot <;> exact Nat.le_succ _

theorem shrinks_pure (result : Result) : Shrinks (pure result : Script Time Result) :=
  fun _ => Nat.le_refl _

theorem shrinks_throw (halt : Halt Time) : Shrinks (throw halt : Script Time Result) :=
  fun _ => Nat.le_refl _

theorem shrinks_parameters (node : Placed) : Shrinks (parameters node : Script Time Parameters) :=
  fun _ => Nat.le_refl _

theorem shrinks_reading (found : Except CoercionFault Result) :
    Shrinks (reading found : Script Time Result) := by
  cases found with
  | ok result => exact shrinks_pure result
  | error fault => exact shrinks_throw _

theorem on_bind (first : Script Time Result) (next : Result → Script Time Other)
    (tape : Tape Time) :
    (first >>= next).on tape =
      match first.on tape with
      | (.ok result, later) => (next result).on later
      | (.error halt, later) => (.error halt, later) := by
  simp only [on, bind, ExceptT.bind, ExceptT.mk, StateT.bind]
  cases first tape with
  | mk outcome later => cases outcome <;> rfl

theorem Shrinks.bind {first : Script Time Result} {next : Result → Script Time Other}
    (shrinks : Shrinks first) (after : ∀ result, Shrinks (next result)) :
    Shrinks (first >>= next) := by
  intro tape
  have less := shrinks tape
  rw [on_bind]
  cases outcome : first.on tape with
  | mk result later =>
      rw [outcome] at less
      cases result with
      | ok result => exact Nat.le_trans (after result later) less
      | error halt => exact less

theorem Agree.refl (bound : Nat) (script : Script Time Result) : Agree bound script script :=
  fun _ _ => rfl

theorem Agree.mono {bound less : Nat} {left right : Script Time Result}
    (agree : Agree bound left right) (within : less ≤ bound) : Agree less left right :=
  fun tape short => agree tape (Nat.lt_of_lt_of_le short within)

theorem Agree.bind {bound : Nat} {left right : Script Time Result}
    {after later : Result → Script Time Other} (first : Agree bound left right)
    (shrinks : Shrinks left) (next : ∀ result, Agree bound (after result) (later result)) :
    Agree bound (left >>= after) (right >>= later) := by
  intro tape short
  have less := shrinks tape
  rw [on_bind, on_bind, ← first tape short]
  cases outcome : left.on tape with
  | mk result rest =>
      rw [outcome] at less
      cases result with
      | ok result => exact next result rest (Nat.lt_of_le_of_lt less short)
      | error halt => rfl

theorem Agree.act {bound : Nat} {left right : Script Time Unit} (agree : Agree bound left right)
    (action : Action) :
    Agree (bound + 1) (do Script.act action; left) (do Script.act action; right) := by
  intro tape short
  obtain ⟨view, upshots, actions⟩ := tape
  cases upshots with
  | nil => rfl
  | cons upshot upshots =>
      cases upshot with
      | goesOn seen => exact agree ⟨seen, upshots, _⟩ (Nat.lt_of_succ_lt_succ short)
      | raises ending => rfl

end Script

namespace Job

open Script

variable (job : Job)

theorem shrinks_inOrder {body : Placed → Script Time Unit} (shrinks : ∀ node, Shrinks (body node))
    (list : List Placed) : Shrinks (job.inOrder body list) := by
  induction list with
  | nil => exact shrinks_pure ()
  | cons node rest ih =>
      exact (shrinks_act _).bind fun _ => (shrinks_act _).bind fun _ =>
        (shrinks node).bind fun _ => (shrinks_act _).bind fun _ => ih

theorem shrinks_repeated {round : Script Time Unit} (shrinks : Shrinks round) (times : Nat) :
    Shrinks (repeated round times) := by
  induction times with
  | zero => exact shrinks_pure ()
  | succ times ih =>
      exact (shrinks_act _).bind fun _ => (shrinks_act _).bind fun _ => shrinks.bind fun _ => ih

theorem shrinks_loopedWithin (node : Placed) {round : Script Time Unit} (shrinks : Shrinks round)
    (bound : Nat) : Shrinks (job.loopedWithin node round bound) := by
  induction bound with
  | zero => exact shrinks_throw _
  | succ bound ih =>
      apply (shrinks_parameters node).bind
      intro found
      split
      · exact (shrinks_act _).bind fun _ => (shrinks_act _).bind fun _ =>
          shrinks.bind fun _ => (shrinks_act _).bind fun _ => ih
      · exact shrinks_pure ()

theorem shrinks_leaf (node : Placed) (kind : Option Kind) :
    Shrinks (job.leaf node kind : Script Time Unit) := by
  have called (able : Bool) (call : Call) : Shrinks (callIf able call : Script Time Unit) := by
    cases able with
    | true => exact shrinks_act _
    | false => exact shrinks_pure ()
  unfold leaf
  split
  · apply (shrinks_parameters node).bind
    intro found
    apply (shrinks_reading _).bind
    intro made
    split
    · exact shrinks_act _
    · exact shrinks_pure ()
  · exact (shrinks_parameters node).bind fun _ => (shrinks_reading _).bind fun _ => shrinks_act _
  · exact called _ _
  · exact called _ _
  · exact called _ _
  · exact shrinks_pure ()

theorem shrinks_bodyBy {inner : List Placed → Script Time Unit}
    {looped : Placed → Script Time Unit} (children : ∀ list, Shrinks (inner list))
    (loops : ∀ node, Shrinks (looped node)) (node : Placed) :
    Shrinks (job.bodyBy inner looped node) := by
  unfold bodyBy
  split
  · exact (shrinks_parameters node).bind fun _ => (shrinks_reading _).bind fun times =>
      shrinks_repeated (children _) times
  · apply (shrinks_parameters node).bind
    intro found
    split
    · exact children _
    · exact shrinks_pure ()
  · apply (shrinks_parameters node).bind
    intro found
    split <;> exact children _
  · exact loops node
  · exact shrinks_leaf job node _

theorem shrinks_bodyWithin (bound : Nat) (node : Placed) :
    Shrinks (job.bodyWithin bound node : Script Time Unit) := by
  induction bound generalizing node with
  | zero => exact shrinks_throw _
  | succ bound ih =>
      have children := shrinks_inOrder job ih
      exact shrinks_bodyBy job children
        (fun node => shrinks_loopedWithin job node (children _) (bound + 1)) node

theorem on_body (node : Placed) (tape : Tape Time) :
    (job.body node).on tape = (job.bodyWithin (tape.upshots.length + 1) node).on tape := by
  simp only [on, body]

theorem on_looped (node : Placed) (tape : Tape Time) :
    (job.looped node).on tape =
      (job.loopedWithin node (job.exec (job.mainSide node)) (tape.upshots.length + 1)).on tape := by
  simp only [on, looped]

theorem shrinks_body (node : Placed) : Shrinks (job.body node : Script Time Unit) := by
  intro tape
  rw [on_body]
  exact shrinks_bodyWithin job (tape.upshots.length + 1) node tape

theorem agree_inOrder {bound : Nat} {left right : Placed → Script Time Unit}
    (agree : ∀ node, Agree bound (left node) (right node)) (shrinks : ∀ node, Shrinks (left node))
    (list : List Placed) :
    Agree (bound + 1) (job.inOrder left list) (job.inOrder right list) := by
  induction list with
  | nil => exact .refl _ _
  | cons node rest ih =>
      have tail : Agree bound (job.inOrder left rest) (job.inOrder right rest) :=
        ih.mono (Nat.le_succ bound)
      apply Agree.act
      exact (Agree.refl _ _).bind (shrinks_act _) fun _ =>
        (agree node).bind (shrinks node) fun _ =>
          (Agree.refl _ _).bind (shrinks_act _) fun _ => tail

theorem agree_repeated {bound : Nat} {left right : Script Time Unit}
    (agree : Agree bound left right) (shrinks : Shrinks left) (times : Nat) :
    Agree bound (repeated left times) (repeated right times) := by
  induction times with
  | zero => exact .refl _ _
  | succ times ih =>
      exact (Agree.refl _ _).bind (shrinks_act _) fun _ =>
        (Agree.refl _ _).bind (shrinks_act _) fun _ => agree.bind shrinks fun _ => ih

theorem agree_loopedWithin (node : Placed) {bound : Nat} {left right : Script Time Unit}
    (agree : Agree bound left right) (shrinks : Shrinks left) (less more : Nat)
    (within : bound ≤ less) (within' : bound ≤ more) :
    Agree bound (job.loopedWithin node left less) (job.loopedWithin node right more) := by
  -- On the bound of the tapes: before the loop comes round an upshot is used up.
  induction bound generalizing less more with
  | zero =>
      intro tape short
      exact absurd short (Nat.not_lt_zero _)
  | succ bound ih =>
      obtain ⟨less, rfl⟩ : ∃ fewer, less = fewer + 1 := ⟨less - 1, by omega⟩
      obtain ⟨more, rfl⟩ : ∃ fewer, more = fewer + 1 := ⟨more - 1, by omega⟩
      have round : Agree bound left right := agree.mono (Nat.le_succ bound)
      have later := ih round less more (by omega) (by omega)
      apply (Agree.refl _ _).bind (shrinks_parameters node)
      intro found
      split
      · apply Agree.act
        exact (Agree.refl _ _).bind (shrinks_act _) fun _ =>
          round.bind shrinks fun _ => (Agree.refl _ _).bind (shrinks_act _) fun _ => later
      · exact .refl _ _

theorem agree_bodyBy {bound : Nat} {inner outer : List Placed → Script Time Unit}
    {looped other : Placed → Script Time Unit} (shrinks : ∀ list, Shrinks (inner list))
    (children : ∀ list, Agree bound (inner list) (outer list))
    (loops : ∀ node, Agree bound (looped node) (other node)) (node : Placed) :
    Agree bound (job.bodyBy inner looped node) (job.bodyBy outer other node) := by
  unfold bodyBy
  split
  · exact (Agree.refl _ _).bind (shrinks_parameters node) fun _ =>
      (Agree.refl _ _).bind (shrinks_reading _) fun times =>
        agree_repeated (children _) (shrinks _) times
  · apply (Agree.refl _ _).bind (shrinks_parameters node)
    intro found
    split
    · exact children _
    · exact .refl _ _
  · apply (Agree.refl _ _).bind (shrinks_parameters node)
    intro found
    split <;> exact children _
  · exact loops node
  · exact .refl _ _

theorem agree_bodyWithin {bound : Nat} (less more : Nat) (within : bound ≤ less)
    (within' : bound ≤ more) (node : Placed) :
    Agree bound (job.bodyWithin less node : Script Time Unit) (job.bodyWithin more node) := by
  -- Children begin with an action, so they see a shorter tape than their parent.
  induction bound generalizing less more node with
  | zero =>
      intro tape short
      exact absurd short (Nat.not_lt_zero _)
  | succ bound ih =>
      obtain ⟨less, rfl⟩ : ∃ fewer, less = fewer + 1 := ⟨less - 1, by omega⟩
      obtain ⟨more, rfl⟩ : ∃ fewer, more = fewer + 1 := ⟨more - 1, by omega⟩
      have bodies : ∀ node, Shrinks (job.bodyWithin less node : Script Time Unit) :=
        shrinks_bodyWithin job less
      have shrinks := shrinks_inOrder job bodies
      have children := agree_inOrder job
        (fun node => ih less more (by omega) (by omega) node) bodies
      exact agree_bodyBy job shrinks children
        (fun node => agree_loopedWithin job node (children _) (shrinks _) _ _ within within') node

/-! The equations of the recursion. -/

theorem body_agrees (bound : Nat) (node : Placed) :
    Agree bound (job.bodyWithin bound node : Script Time Unit) (job.body node) := by
  intro tape short
  rw [on_body]
  exact agree_bodyWithin job bound (tape.upshots.length + 1) short (Nat.le_refl _) node tape
    (Nat.lt_succ_self _)

theorem exec_nil : (job.exec [] : Script Time Unit) = pure () := rfl

theorem exec_cons (node : Placed) (rest : List Placed) :
    (job.exec (node :: rest) : Script Time Unit) =
      (do
        act .checkpoint
        act .charge
        job.body node
        job.pace
        job.exec rest) := rfl

theorem body_eq (node : Placed) :
    (job.body node : Script Time Unit) = job.bodyBy job.exec job.looped node := by
  funext tape
  have bodies : ∀ node, Shrinks (job.bodyWithin tape.upshots.length node : Script Time Unit) :=
    shrinks_bodyWithin job tape.upshots.length
  have shrinks := shrinks_inOrder job bodies
  have children := agree_inOrder job (body_agrees job tape.upshots.length) bodies
  have loops (node : Placed) : Agree (tape.upshots.length + 1)
      (job.loopedWithin node
        (job.inOrder (job.bodyWithin tape.upshots.length) (job.mainSide node))
        (tape.upshots.length + 1))
      (job.looped node : Script Time Unit) := by
    intro rest short
    rw [on_looped]
    exact agree_loopedWithin job node ((children _).mono short) (shrinks _) _ _ short
      (Nat.le_refl _) rest (Nat.lt_succ_self _)
  have opened := on_body job node tape
  rw [bodyWithin] at opened
  exact opened.trans (agree_bodyBy job shrinks children loops node tape (Nat.lt_succ_self _))

theorem looped_eq (node : Placed) :
    (job.looped node : Script Time Unit) =
      (do
        let found ← parameters node
        if loopHolds (found.get? "condition") then do
          act .checkpoint
          act .charge
          job.exec (job.mainSide node)
          job.pace
          job.looped node
        else pure ()) := by
  funext tape
  have bodies : ∀ node, Shrinks (job.body node : Script Time Unit) := shrinks_body job
  have shrinks := shrinks_inOrder job bodies (job.mainSide node)
  have later : Agree tape.upshots.length
      (job.loopedWithin node (job.exec (job.mainSide node)) tape.upshots.length)
      (job.looped node : Script Time Unit) := by
    intro rest short
    rw [on_looped]
    exact agree_loopedWithin job node (.refl _ _) shrinks _ (rest.upshots.length + 1) short
      (Nat.le_refl _) rest (Nat.lt_succ_self _)
  have opened := on_looped job node tape
  rw [loopedWithin] at opened
  refine opened.trans (Agree.bind (.refl (tape.upshots.length + 1) _) (shrinks_parameters node)
    (fun found => ?_) tape (Nat.lt_succ_self _))
  split
  · apply Agree.act
    exact (Agree.refl _ _).bind (shrinks_act _) fun _ =>
      (Agree.refl _ _).bind shrinks fun _ =>
        (Agree.refl _ _).bind (shrinks_act _) fun _ => later
  · exact .refl _ _

end Job

end ArmProgram
