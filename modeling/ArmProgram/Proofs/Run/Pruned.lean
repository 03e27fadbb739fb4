import ArmProgram.Proofs.Run.Awake
import ArmProgram.Proofs.Run.Endings
import ArmProgram.Proofs.Run.Ledger
import ArmProgram.Proofs.Run.Reach

/-!
The run of the live blocks alone beside the run of the whole list. The one goes
through the same activities as the other, at places that count only the live
blocks, so every event has the same effect on both. An edit of a block that is
not live has none.
-/

namespace ArmProgram

variable {Time : Type}

/-! The run of the live blocks. -/

def Activity.renumber (places : Nat → Nat) : Activity Time → Activity Time
  | unstarted => unstarted
  | moving position => moving (position.renumber places)
  | pausing pause next => pausing pause (next.renumber places)
  | rousing turns next => rousing turns (next.renumber places)
  | calling call due next => calling call due (next.renumber places)
  | ended ending => ended ending

namespace Run

def prune (blocks : List Block) (kept : Array Block) (run : Run Time) : Run Time :=
  { run with
    plan := run.plan.over (liveBlocks blocks)
    blocks := kept
    activity := run.activity.renumber (rank blocks) }

def Outcome.prune (blocks : List Block) (kept : Array Block) (outcome : Outcome Time) :
    Outcome Time :=
  { outcome with run := outcome.run.prune blocks kept }

structure IsPruned (blocks : List Block) (kept : Array Block) (run : Run Time) : Prop where
  index : run.plan.index = .ofBlocks blocks
  size : run.blocks.size = blocks.length
  keptSize : kept.size = (liveBlocks blocks).length
  same : ∀ place block, blocks[place]? = some block → block.IsLive blocks →
    (run.prune blocks kept).view (rank blocks place) = run.view place
  draws : run.Stands (Position.Draws blocks)
  awake : run.Stands (Position.IsAwake blocks)

end Run

variable {blocks : List Block} {kept : Array Block}

namespace Run

theorem prune_token (run : Run Time) : (run.prune blocks kept).token = run.token := rfl

theorem prune_activity (run : Run Time) :
    (run.prune blocks kept).activity = run.activity.renumber (rank blocks) := rfl

theorem prune_busy {run : Run Time} {activity : Activity Time} (busy : run.activity = activity) :
    (run.prune blocks kept).activity = activity.renumber (rank blocks) := by
  rw [prune_activity, busy]

theorem isOpen_prune (run : Run Time) : (run.prune blocks kept).isOpen = run.isOpen := by
  rw [isOpen, isOpen, prune_activity]
  cases run.activity <;> rfl

theorem cancel_prune (run : Run Time) :
    (run.prune blocks kept).cancel = run.cancel.prune blocks kept := by
  rw [cancel, cancel, prune_activity]
  cases run.activity <;> rfl

theorem calling_of_prune {run : Run Time} {call : Call} {due : Option Time} {next : Position}
    (calling : (run.prune blocks kept).activity = .calling call due next) :
    ∃ position, run.activity = .calling call due position ∧
      next = position.renumber (rank blocks) := by
  rw [prune_activity] at calling
  cases activity : run.activity <;> rw [activity] at calling <;> cases calling
  exact ⟨_, rfl, rfl⟩

theorem pausing_of_prune {run : Run Time} {pause : Pause Time} {next : Position}
    (pausing : (run.prune blocks kept).activity = .pausing pause next) :
    ∃ position, run.activity = .pausing pause position := by
  rw [prune_activity] at pausing
  cases activity : run.activity <;> rw [activity] at pausing <;> cases pausing
  exact ⟨_, rfl⟩

/-! Edits. -/

theorem view_congr {run other : Run Time} (same : other.blocks = run.blocks) :
    other.view = run.view := by
  unfold view
  rw [same]

theorem view_rewrite (run : Run Time) (place : Nat) (parameters : Parameters) {there : Nat}
    (inside : there < run.blocks.size) :
    (run.rewrite place parameters).view there =
      if place = there then parameters else run.view there := by
  simp only [view, rewrite, Array.getElem?_modify, Array.getElem?_eq_getElem inside]
  by_cases here : place = there <;> simp [here]

end Run

/-! Events. -/

namespace Event

/-- The same event for the live blocks alone. An edit goes to the same block, which
has another place there. -/
inductive Sees (blocks : List Block) : Event Time → Event Time → Prop where
  | edit {place : Nat} {block : Block} (parameters : Parameters)
      (there : blocks[place]? = some block) (live : block.IsLive blocks) :
      Sees blocks (.edit place parameters) (.edit (rank blocks place) parameters)
  | beyond {place other : Nat} (parameters : Parameters) (outside : blocks.length ≤ place)
      (also : (liveBlocks blocks).length ≤ other) :
      Sees blocks (.edit place parameters) (.edit other parameters)
  | same {event : Event Time} (unedited : ∀ place parameters, event ≠ .edit place parameters) :
      Sees blocks event event

def revise (kept : Array Block) : Event Time → Array Block
  | edit place parameters => kept.modify place fun block => { block with parameters }
  | _ => kept

theorem revise_of_unedited {event : Event Time}
    (unedited : ∀ place parameters, event ≠ .edit place parameters) (kept : Array Block) :
    event.revise kept = kept := by
  cases event with
  | edit place parameters => exact absurd rfl (unedited place parameters)
  | _ => rfl

theorem size_revise (event : Event Time) (kept : Array Block) :
    (event.revise kept).size = kept.size := by
  cases event with
  | edit place parameters => exact Array.size_modify
  | _ => rfl

theorem exists_sees (blocks : List Block) (other : Event Time) :
    ∃ event : Event Time, event.Sees blocks other := by
  cases other with
  | edit place parameters =>
      cases there : (liveBlocks blocks)[place]? with
      | none => exact ⟨_, .beyond parameters (Nat.le_refl _) (List.getElem?_eq_none_iff.mp there)⟩
      | some block =>
          obtain ⟨first, listed, live, rfl⟩ := exists_rank there
          exact ⟨_, .edit parameters listed live⟩
  | _ => exact ⟨_, .same nofun⟩

/-- An event that nothing answers to is an edit of a block that is not live. -/
theorem sees_or_dead (blocks : List Block) (event : Event Time) :
    (∃ other, event.Sees blocks other) ∨ ∃ place parameters block,
      event = .edit place parameters ∧ blocks[place]? = some block ∧ ¬ block.IsLive blocks := by
  cases event with
  | edit place parameters =>
      cases there : blocks[place]? with
      | none => exact Or.inl ⟨_, .beyond parameters (List.getElem?_eq_none_iff.mp there)
          (Nat.le_refl _)⟩
      | some block =>
          by_cases live : block.IsLive blocks
          · exact Or.inl ⟨_, .edit parameters there live⟩
          · exact Or.inr ⟨place, parameters, block, rfl, there, live⟩
  | _ => exact Or.inl ⟨_, .same nofun⟩

end Event

namespace Run.IsPruned

variable {run : Run Time}

theorem initial (blocks : List Block) (abilities : Abilities) (config : Config)
    (token : Token Time) :
    (prepare blocks abilities config token).IsPruned blocks (liveBlocks blocks).toArray where
  index := rfl
  size := List.size_toArray
  keptSize := List.size_toArray
  same := by
    intro place block there live
    have kept := getElem?_rank there live
    simp only [view, prune, prepare, List.getElem?_toArray, kept, there]
  draws := nofun
  awake := nofun

/-- The live blocks stay alike under edits that go to the same of them, if to any. -/
theorem same_rewrite (pruned : run.IsPruned blocks kept) {place other : Nat}
    (parameters : Parameters)
    (aligned : ∀ there block, blocks[there]? = some block → block.IsLive blocks →
      (other = rank blocks there ↔ place = there)) :
    ∀ there block, blocks[there]? = some block → block.IsLive blocks →
      ((run.prune blocks kept).rewrite other parameters).view (rank blocks there) =
        (run.rewrite place parameters).view there := by
  intro there block listed live
  obtain ⟨inside, -⟩ := List.getElem?_eq_some_iff.mp listed
  obtain ⟨within, -⟩ := List.getElem?_eq_some_iff.mp (getElem?_rank listed live)
  rw [← pruned.size] at inside
  rw [← pruned.keptSize] at within
  rw [view_rewrite _ _ _ inside, view_rewrite _ _ _ within, pruned.same there block listed live]
  simp only [aligned there block listed live]

end Run.IsPruned

variable [TimeScale Time]

/-! Steps. -/

namespace Run

variable (now : Time) (connected : Bool)

theorem perform_prune (next : Position) (run : Run Time) (action : Option Action) :
    (run.prune blocks kept).perform now connected (next.renumber (rank blocks)) action =
      (run.perform now connected next action).prune blocks kept := by
  cases action with
  | none => rfl
  | some action =>
      cases action with
      | checkpoint =>
          simp only [perform, checkpoint, apply_ite (Outcome.prune blocks kept)]
          rfl
      | charge =>
          simp only [perform, chargeStep, prune_token]
          split <;> rfl
      | delay ms =>
          simp only [perform, beginDelay, prune_token]
          split <;> rfl
      | call call => rfl

theorem wake_prune (pause : Pause Time) (next : Position) (run : Run Time) :
    (run.prune blocks kept).wake now pause (next.renumber (rank blocks)) =
      (run.wake now pause next).prune blocks kept := by
  simp only [wake, prune_token]
  split <;> rfl

theorem stir_prune (pause : Pause Time) (next : Position) (run : Run Time) :
    (run.prune blocks kept).stir now pause (next.renumber (rank blocks)) =
      (run.stir now pause next).prune blocks kept := by
  unfold stir
  split
  · rw [prune_token]
    split <;> rfl
  · rw [prune_token]
    split
    · rfl
    · exact wake_prune now _ next run

theorem move_prune {position : Position} {run : Run Time} (pruned : run.IsPruned blocks kept)
    (activity : run.activity = .moving position) :
    (run.prune blocks kept).move now connected (position.renumber (rank blocks)) =
      (run.move now connected position).prune blocks kept := by
  have there : run.position? = some position := by rw [position?, activity]
  have steps := Position.step?_renumber pruned.index (pruned.draws position there)
    (pruned.awake position there) pruned.same
  have plan : (run.prune blocks kept).plan = run.plan.over (liveBlocks blocks) := rfl
  rw [move, move, plan, steps]
  cases position.step? run.plan run.view with
  | none => rfl
  | some result =>
      cases result with
      | error fault => rfl
      | ok step =>
          simp only [Option.map_some, Except.map, Step.renumber, perform_prune]
          rfl

/-- A step of the run of the live blocks is that of the whole run. -/
theorem step_prune {run : Run Time} (pruned : run.IsPruned blocks kept) :
    (run.prune blocks kept).step now connected = (run.step now connected).prune blocks kept := by
  rw [step, step, prune_activity]
  cases activity : run.activity with
  | unstarted => rfl
  | moving position => exact move_prune now connected pruned activity
  | pausing pause next => exact stir_prune now pause next run
  | rousing turns next => cases turns <;> rfl
  | calling call due next => rfl
  | ended ending =>
      simp only [Activity.renumber]
      rfl

/-! What may happen to them. -/

theorem canStep_prune (run : Run Time) :
    (run.prune blocks kept).canStep now = run.canStep now := by
  simp only [canStep, isReady, prune_activity, prune_token]
  cases run.activity <;> rfl

theorem waits_prune (later : Time) (run : Run Time) :
    (run.prune blocks kept).waits now later = run.waits now later := by
  rw [waits, waits, prune_activity]
  cases run.activity with
  | pausing pause next => cases pause <;> rfl
  | _ => rfl

end Run

namespace Moment

def prune (blocks : List Block) (kept : Array Block) (moment : Moment Time) : Moment Time :=
  { moment with run := moment.run.prune blocks kept }

theorem next_blocks {before after : Moment Time} {event : Event Time}
    (happens : before.Next event after) : after.run.blocks = event.revise before.run.blocks := by
  cases happens with
  | step ready => exact Run.steps_blocks (Run.step_steps _ _ _ ready)
  | cancel =>
      rw [Run.cancel_eq]
      rfl
  | _ => rfl

theorem next_prune {before after : Moment Time} {event other : Event Time}
    (happens : before.Next event after) (pruned : before.run.IsPruned blocks kept)
    (seen : event.Sees blocks other) :
    (before.prune blocks kept).Next other (after.prune blocks (other.revise kept)) := by
  have opened {run : Run Time} (suspended : run.isOpen = true) :
      (run.prune blocks kept).isOpen = true := (Run.isOpen_prune run).trans suspended
  cases seen with
  | edit parameters | beyond parameters =>
      cases happens with
      | edit place parameters suspended => exact .edit _ parameters (opened suspended)
  | same unedited =>
      cases happens with
      | @step now connected run ready =>
          have happens : Next ⟨now, connected, run.prune blocks kept⟩ .step
              ⟨now, connected, ((run.prune blocks kept).step now connected).run⟩ :=
            .step ((Run.canStep_prune now run).trans ready)
          rwa [Run.step_prune now connected pruned] at happens
      | lasts later activity => exact .lasts later (Run.prune_busy activity)
      | returns activity => exact .returns (Run.prune_busy activity)
      | raises fault activity => exact .raises fault (Run.prune_busy activity)
      | abort suspended => exact .abort (opened suspended)
      | @cancel now connected run suspended =>
          have happens : Next ⟨now, connected, run.prune blocks kept⟩ .cancel
              ⟨now, connected, (run.prune blocks kept).cancel⟩ :=
            .cancel (opened suspended)
          rwa [Run.cancel_prune] at happens
      | connection reported suspended => exact .connection reported (opened suspended)
      | edit place parameters => exact absurd rfl (unedited place parameters)
      | pass later waiting => exact .pass later ((Run.waits_prune _ later _).trans waiting)
      | expire activity unaborted ahead => exact .expire (Run.prune_busy activity) unaborted ahead

theorem next_of_prune {before live : Moment Time} {event other : Event Time}
    (happens : (before.prune blocks kept).Next other live)
    (pruned : before.run.IsPruned blocks kept) (seen : event.Sees blocks other) :
    ∃ after, before.Next event after ∧ live = after.prune blocks (other.revise kept) := by
  obtain ⟨now, connected, run⟩ := before
  have opened (suspended : (run.prune blocks kept).isOpen = true) : run.isOpen = true :=
    (Run.isOpen_prune run).symm.trans suspended
  cases seen with
  | edit parameters | beyond parameters =>
      cases happens with
      | edit place parameters suspended => exact ⟨_, .edit _ parameters (opened suspended), rfl⟩
  | same unedited =>
      cases happens with
      | step ready =>
          refine ⟨_, .step ((Run.canStep_prune now run).symm.trans ready), ?_⟩
          rw [Run.step_prune now connected pruned]
          rfl
      | lasts later calling =>
          obtain ⟨position, activity, rfl⟩ := Run.calling_of_prune calling
          exact ⟨_, .lasts later activity, rfl⟩
      | returns calling =>
          obtain ⟨position, activity, rfl⟩ := Run.calling_of_prune calling
          exact ⟨_, .returns activity, rfl⟩
      | raises fault calling =>
          obtain ⟨position, activity, rfl⟩ := Run.calling_of_prune calling
          exact ⟨_, .raises fault activity, rfl⟩
      | abort suspended => exact ⟨_, .abort (opened suspended), rfl⟩
      | cancel suspended =>
          refine ⟨_, .cancel (opened suspended), ?_⟩
          rw [Run.cancel_prune]
          rfl
      | connection reported suspended =>
          exact ⟨_, .connection reported (opened suspended), rfl⟩
      | edit place parameters => exact absurd rfl (unedited place parameters)
      | pass later waiting =>
          exact ⟨_, .pass later ((Run.waits_prune now later run).symm.trans waiting), rfl⟩
      | expire pausing unaborted ahead =>
          obtain ⟨position, activity⟩ := Run.pausing_of_prune pausing
          exact ⟨_, .expire activity unaborted ahead, rfl⟩

end Moment

/-! What stays alike. -/

namespace Run.IsPruned

theorem next {before after : Moment Time} {event : Event Time}
    (pruned : before.run.IsPruned blocks kept) (happens : before.Next event after)
    {revised : Array Block} (size : revised.size = kept.size)
    (same : ∀ place block, blocks[place]? = some block → block.IsLive blocks →
      (after.run.prune blocks revised).view (rank blocks place) = after.run.view place) :
    after.run.IsPruned blocks revised where
  index := (Moment.next_terms happens).plan ▸ pruned.index
  size := by rw [Moment.next_blocks happens, Event.size_revise, pruned.size]
  keptSize := size.trans pruned.keptSize
  same := same
  draws := Moment.next_stands True.intro
    (fun position step => Position.takes_draws _ _ position step pruned.index) happens pruned.draws
  awake := Moment.next_stands True.intro
    (fun position step => Position.takes_isAwake _ _ position step pruned.index) happens
    pruned.awake

theorem next_seen {before after : Moment Time} {event other : Event Time}
    (pruned : before.run.IsPruned blocks kept) (happens : before.Next event after)
    (seen : event.Sees blocks other) : after.run.IsPruned blocks (other.revise kept) := by
  refine pruned.next happens (other.size_revise kept) ?_
  cases seen with
  | @edit place block parameters there live =>
      cases happens with
      | edit =>
          refine pruned.same_rewrite parameters fun later other also alive => ?_
          exact ⟨rank_injective there live also alive, congrArg (rank blocks)⟩
  | @beyond place other parameters outside also =>
      cases happens with
      | edit =>
          refine pruned.same_rewrite parameters fun later block there live => ?_
          obtain ⟨inside, -⟩ := List.getElem?_eq_some_iff.mp there
          obtain ⟨within, -⟩ := List.getElem?_eq_some_iff.mp (getElem?_rank there live)
          constructor <;> intro same <;> omega
  | same unedited =>
      have blocks' : after.run.blocks = before.run.blocks := by
        rw [Moment.next_blocks happens, Event.revise_of_unedited unedited]
      rw [Event.revise_of_unedited unedited, view_congr blocks']
      exact pruned.same

theorem next_dead {before after : Moment Time} {place : Nat} {parameters : Parameters}
    {block : Block} (pruned : before.run.IsPruned blocks kept)
    (happens : before.Next (.edit place parameters) after) (there : blocks[place]? = some block)
    (dead : ¬ block.IsLive blocks) : after.run.IsPruned blocks kept := by
  refine pruned.next happens rfl ?_
  cases happens with
  | edit =>
      intro later other also live
      obtain ⟨inside, -⟩ := List.getElem?_eq_some_iff.mp also
      rw [← pruned.size] at inside
      have elsewhere : place ≠ later := by
        rintro rfl
        cases there.symm.trans also
        exact dead live
      rw [view_rewrite _ _ _ inside, if_neg elsewhere]
      exact pruned.same later other also live

end Run.IsPruned

/-! Moments alike. -/

namespace Moment

structure Agrees (whole alone : Moment Time) : Prop where
  now : alone.now = whole.now
  connected : alone.connected = whole.connected
  token : alone.run.token = whole.run.token
  phase : alone.run.phase = whole.run.phase
  ending : alone.run.ending? = whole.run.ending?
  inFlight : alone.run.inFlight? = whole.run.inFlight?
  due : alone.run.due? = whole.run.due?
  asked : alone.asked? = whole.asked?
  told : (alone.run.step alone.now alone.connected).entries =
    (whole.run.step whole.now whole.connected).entries

theorem asked?_prune {moment : Moment Time} (pruned : moment.run.IsPruned blocks kept) :
    (moment.prune blocks kept).asked? = moment.asked? := by
  obtain ⟨now, connected, run⟩ := moment
  simp only [asked?, prune, Run.canStep_prune, Run.step_prune now connected pruned]
  rfl

theorem agrees_prune {moment : Moment Time} (pruned : moment.run.IsPruned blocks kept) :
    moment.Agrees (moment.prune blocks kept) := by
  have phase (position : Position) :
      (position.renumber (rank blocks)).phase = position.phase := by
    cases position <;> rfl
  have told := congrArg Run.Outcome.entries
    (Run.step_prune moment.now moment.connected pruned)
  refine ⟨rfl, rfl, rfl, ?_, ?_, ?_, ?_, asked?_prune pruned, told⟩
  · simp only [prune, Run.phase, Run.prune_activity]
    cases moment.run.activity <;> first | rfl | exact phase _
  · simp only [prune, Run.ending?, Run.prune_activity]
    cases moment.run.activity <;> rfl
  · simp only [prune, Run.inFlight?, Run.prune_activity]
    cases moment.run.activity <;> rfl
  · simp only [prune, Run.due?, Run.prune_activity]
    cases moment.run.activity with
    | pausing pause next => cases pause <;> rfl
    | _ => rfl

end Moment

/-! Courses alike. -/

namespace Course

def calls {first last : Moment Time} : Course first last → List (CallRecord Time)
  | .here _ => []
  | @next _ _ before _ _ event _ rest =>
      ((before.asks event).map (CallRecord.mk before.now)).toList ++ rest.calls

/-- Two courses that take the same events one by one, but for edits of blocks that
are not live. At no moment can they be told apart. -/
inductive InStep (blocks : List Block) : {first last begun ended : Moment Time} →
    Course first last → Course begun ended → Prop where
  | here {whole alone : Moment Time} (agrees : whole.Agrees alone) :
      InStep blocks (.here whole) (.here alone)
  | seen {first middle last begun between ended : Moment Time} {event other : Event Time}
      {happens : first.Next event middle} {follows : begun.Next other between}
      {whole : Course middle last} {alone : Course between ended} (agrees : first.Agrees begun)
      (sees : event.Sees blocks other) (rest : InStep blocks whole alone) :
      InStep blocks (.next event happens whole) (.next other follows alone)
  | unseen {first middle last begun ended : Moment Time} {place : Nat} {parameters : Parameters}
      {block : Block} {happens : first.Next (.edit place parameters) middle}
      {whole : Course middle last} {alone : Course begun ended} (agrees : first.Agrees begun)
      (there : blocks[place]? = some block) (dead : ¬ block.IsLive blocks)
      (rest : InStep blocks whole alone) :
      InStep blocks (.next (.edit place parameters) happens whole) alone

structure Matches (blocks : List Block) {first last begun ended : Moment Time}
    (whole : Course first last) (alone : Course begun ended) : Prop where
  inStep : whole.InStep blocks alone
  calls : alone.calls = whole.calls

theorem InStep.calls {first last begun ended : Moment Time} {whole : Course first last}
    {alone : Course begun ended} (inStep : whole.InStep blocks alone) :
    alone.calls = whole.calls := by
  induction inStep with
  | here => rfl
  | @seen first _ _ begun _ _ event other _ _ _ _ agrees sees _ ih =>
      have asks : begun.asks other = first.asks event := by
        cases sees with
        | edit | beyond => rfl
        | same =>
            cases event with
            | step => exact agrees.asked
            | _ => rfl
      rw [Course.calls, Course.calls, agrees.now, asks, ih]
  | unseen _ _ _ _ ih => exact ih

/-- Every course of the whole run is one of the live blocks alone. -/
theorem prune {first last : Moment Time} (whole : Course first last)
    (pruned : first.run.IsPruned blocks kept) :
    (∃ revised, last.run.IsPruned blocks revised) ∧
      ∃ ended, ∃ alone : Course (first.prune blocks kept) ended, whole.InStep blocks alone := by
  induction whole generalizing kept with
  | here moment => exact ⟨⟨kept, pruned⟩, _, .here _, .here (Moment.agrees_prune pruned)⟩
  | @next before middle after event happens rest ih =>
      have agrees := Moment.agrees_prune pruned
      rcases event.sees_or_dead blocks with ⟨other, sees⟩ |
        ⟨place, parameters, block, rfl, there, dead⟩
      · obtain ⟨revised, ended, alone, inStep⟩ := ih (pruned.next_seen happens sees)
        have follows := Moment.next_prune happens pruned sees
        exact ⟨revised, ended, .next other follows alone, .seen agrees sees inStep⟩
      · -- The other run does not see this edit and stays where it is.
        have known := ih (pruned.next_dead happens there dead)
        have still : middle.prune blocks kept = before.prune blocks kept := by
          cases happens
          rfl
        rw [still] at known
        obtain ⟨revised, ended, alone, inStep⟩ := known
        exact ⟨revised, ended, alone, .unseen agrees there dead inStep⟩

/-- Every course of the live blocks alone is one of the whole run. -/
theorem of_prune {begun ended : Moment Time} (alone : Course begun ended) {first : Moment Time}
    (begins : begun = first.prune blocks kept) (pruned : first.run.IsPruned blocks kept) :
    ∃ last, ∃ whole : Course first last, whole.InStep blocks alone := by
  induction alone generalizing first kept with
  | here moment =>
      subst begins
      exact ⟨first, .here _, .here (Moment.agrees_prune pruned)⟩
  | next other follows rest ih =>
      subst begins
      obtain ⟨event, sees⟩ := Event.exists_sees blocks other
      obtain ⟨middle, happens, same⟩ := Moment.next_of_prune follows pruned sees
      obtain ⟨last, whole, inStep⟩ := ih same (pruned.next_seen happens sees)
      exact ⟨last, .next event happens whole, .seen (Moment.agrees_prune pruned) sees inStep⟩

end Course

/-- A run comes only to live blocks, and nothing tells it apart from a run of the
live blocks alone, whatever its effector does and whatever others do meanwhile.
With unique ids those are the blocks that are not on a cycle of parents, under a
missing one or one that runs no children, in a side that is ignored, or below
such a block. -/
theorem live_blocks_decide_runs (now : Time) (connected : Bool) (blocks : List Block)
    (abilities : Abilities) (config : Config) (token : Token Time) :
    (∀ block, block ∈ liveBlocks blocks ↔ block.IsLive blocks) ∧
    (∀ moment, Course (.initial now connected blocks abilities config token) moment →
      moment.run.Stands fun position => ∀ node, position.Pends node →
        blocks[node.place]? = some node.block ∧ node.block.IsLive blocks) ∧
    (∀ last, ∀ whole : Course (.initial now connected blocks abilities config token) last,
      ∃ ended, ∃ alone :
        Course (.initial now connected (liveBlocks blocks) abilities config token) ended,
        whole.Matches blocks alone) ∧
    (∀ ended, ∀ alone :
        Course (.initial now connected (liveBlocks blocks) abilities config token) ended,
      ∃ last, ∃ whole : Course (.initial now connected blocks abilities config token) last,
        whole.Matches blocks alone) ∧
    ((blocks.map (·.id)).Nodup → ∀ block ∈ blocks,
      (block.IsLive blocks ↔ ¬ block.IsStray blocks)) := by
  have pruned : (Moment.initial now connected blocks abilities config token).run.IsPruned blocks
      (liveBlocks blocks).toArray := .initial blocks abilities config token
  refine ⟨mem_liveBlocks_iff blocks, ?_, ?_, ?_, ?_⟩
  · intro moment whole position there node pends
    obtain ⟨⟨revised, known⟩, -⟩ := whole.prune pruned
    cases position with
    | walking stack =>
        obtain ⟨frame, listed, pending⟩ := pends
        exact ⟨known.draws _ there frame listed node pending,
          (known.awake _ there frame listed).live node pending⟩
    | _ => exact pends.elim
  · intro last whole
    obtain ⟨-, ended, alone, inStep⟩ := whole.prune pruned
    exact ⟨ended, alone, inStep, inStep.calls⟩
  · intro ended alone
    obtain ⟨last, whole, inStep⟩ := alone.of_prune rfl pruned
    exact ⟨last, whole, inStep, inStep.calls⟩
  · intro unique block listed
    exact Block.isLive_iff_not_isStray unique listed

end ArmProgram
