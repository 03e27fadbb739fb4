import ArmProgram.Proofs.Run.Steps

/-!
A run among all that can happen to it. The effector is whatever ends the calls
that the run asks for, after any time and with any fault. While the run is
suspended others abort it, cancel it, edit the parameters of its blocks, and
connect or disconnect the robot. A course is one schedule of such events, so a
law for all courses holds for every effector and every timing.
-/

namespace ArmProgram

variable {Time : Type} [TimeScale Time]

namespace Run

/-- Whether others may act: not while the run is between two of its steps. -/
def isOpen (run : Run Time) : Bool :=
  match run.activity with
  | .moving _ => false
  | _ => true

/-- Whether time may pass up to a point. A pause lasts until it is due, and not
beyond the turn in which it is aborted. -/
def waits (now later : Time) (run : Run Time) : Bool :=
  TimeScale.before now later &&
    match run.activity with
    | .pausing (.till due _) _ => !run.token.aborted && TimeScale.before later due
    | .pausing _ _ | .rousing _ _ | .moving _ => false
    | .unstarted | .calling .. | .ended _ => true

def position? (run : Run Time) : Option Position :=
  match run.activity with
  | .unstarted | .ended _ => none
  | .moving position => some position
  | .pausing _ next | .rousing _ next | .calling _ _ next => some next

def rewrite (place : Nat) (parameters : Parameters) (run : Run Time) : Run Time :=
  { run with blocks := run.blocks.modify place fun block => { block with parameters } }

/-! Small laws of being open. -/

omit [TimeScale Time] in
theorem isOpen_of_isEnded (run : Run Time) (ended : run.isEnded = true) : run.isOpen = true := by
  cases activity : run.activity <;> simp_all [isEnded, isOpen]

omit [TimeScale Time] in
theorem position?_of_isEnded (run : Run Time) (ended : run.isEnded = true) :
    run.position? = none := by
  cases activity : run.activity <;> simp_all [isEnded, position?]

omit [TimeScale Time] in
theorem cancel_isEnded (run : Run Time) : run.cancel.isEnded = true := by
  cases activity : run.activity <;> simp [cancel, isEnded, activity]

omit [TimeScale Time] in
theorem cancel_eq (run : Run Time) : run.cancel = { run with activity := run.cancel.activity } := by
  unfold cancel
  split <;> rfl

omit [TimeScale Time] in
theorem cancel_token (run : Run Time) : run.cancel.token = run.token := by
  rw [cancel_eq]

omit [TimeScale Time] in
theorem isEnded_iff (run : Run Time) :
    run.isEnded = true ↔ ∃ ending, run.activity = .ended ending := by
  cases activity : run.activity <;> simp [isEnded, activity]

omit [TimeScale Time] in
theorem cancel_of_ended {run : Run Time} {ending : Ending Time}
    (ended : run.activity = .ended ending) : run.cancel = run := by
  simp only [cancel, ended]

omit [TimeScale Time] in
theorem cancel_of_going {run : Run Time} (going : run.isEnded = false) :
    run.cancel.activity = .ended .dropped ∨ run.cancel.activity = .ended .cancelled := by
  cases activity : run.activity with
  | unstarted => exact Or.inl (by simp only [cancel, activity])
  | ended ending => simp [isEnded, activity] at going
  | _ => exact Or.inr (by simp only [cancel, activity])

theorem isOpen_of_waits (now later : Time) (run : Run Time) (waiting : run.waits now later = true) :
    run.isOpen = true := by
  cases activity : run.activity <;> simp_all [waits, isOpen]

end Run

structure Moment (Time : Type) where
  now : Time
  connected : Bool
  run : Run Time

inductive Event (Time : Type) where
  | step
  /-- The effector settles when the call in flight will end. -/
  | lasts (due : Time)
  | returns
  | raises (fault : Fault Time)
  | abort
  | cancel
  | connection (reported : Bool)
  | edit (place : Nat) (parameters : Parameters)
  | pass (later : Time)
  /-- The time comes at which a pause is due. -/
  | expire

namespace Moment

inductive Next : Moment Time → Event Time → Moment Time → Prop where
  | step {now : Time} {connected : Bool} {run : Run Time} (ready : run.canStep now = true) :
      Next ⟨now, connected, run⟩ .step ⟨now, connected, (run.step now connected).run⟩
  | lasts {now : Time} {connected : Bool} {run : Run Time} {call : Call} {due : Option Time}
      {next : Position} (later : Time) (activity : run.activity = .calling call due next) :
      Next ⟨now, connected, run⟩ (.lasts later)
        ⟨now, connected, { run with activity := .calling call (some later) next }⟩
  | returns {now : Time} {connected : Bool} {run : Run Time} {call : Call} {due : Option Time}
      {next : Position} (activity : run.activity = .calling call due next) :
      Next ⟨now, connected, run⟩ .returns ⟨now, connected, (run.resume next).run⟩
  | raises {now : Time} {connected : Bool} {run : Run Time} {call : Call} {due : Option Time}
      {next : Position} (fault : Fault Time) (activity : run.activity = .calling call due next) :
      Next ⟨now, connected, run⟩ (.raises fault) ⟨now, connected, (run.fail now fault).run⟩
  | abort {now : Time} {connected : Bool} {run : Run Time} (suspended : run.isOpen = true) :
      Next ⟨now, connected, run⟩ .abort ⟨now, connected, run.abort⟩
  | cancel {now : Time} {connected : Bool} {run : Run Time} (suspended : run.isOpen = true) :
      Next ⟨now, connected, run⟩ .cancel ⟨now, connected, run.cancel⟩
  | connection {now : Time} {connected : Bool} {run : Run Time} (reported : Bool)
      (suspended : run.isOpen = true) :
      Next ⟨now, connected, run⟩ (.connection reported) ⟨now, reported, run⟩
  | edit {now : Time} {connected : Bool} {run : Run Time} (place : Nat)
      (parameters : Parameters) (suspended : run.isOpen = true) :
      Next ⟨now, connected, run⟩ (.edit place parameters)
        ⟨now, connected, run.rewrite place parameters⟩
  | pass {now : Time} {connected : Bool} {run : Run Time} (later : Time)
      (waiting : run.waits now later = true) :
      Next ⟨now, connected, run⟩ (.pass later) ⟨later, connected, run⟩
  | expire {now due : Time} {connected capped : Bool} {run : Run Time} {next : Position}
      (activity : run.activity = .pausing (.till due capped) next)
      (unaborted : run.token.aborted = false) (ahead : TimeScale.before now due = true) :
      Next ⟨now, connected, run⟩ .expire ⟨due, connected, run⟩

def asked? (moment : Moment Time) : Option Call :=
  if moment.run.canStep moment.now then (moment.run.step moment.now moment.connected).call
  else none

end Moment

inductive Course : Moment Time → Moment Time → Type where
  | here (moment : Moment Time) : Course moment moment
  | next {before middle after : Moment Time} (event : Event Time)
      (happens : before.Next event middle) (rest : Course middle after) : Course before after

namespace Course

def events {first last : Moment Time} : Course first last → List (Event Time)
  | .here _ => []
  | .next event _ rest => event :: rest.events

theorem keeps {Inv : Moment Time → Prop}
    (kept : ∀ before event after, Moment.Next before event after → Inv before → Inv after)
    {first last : Moment Time} (course : Course first last) (start : Inv first) : Inv last := by
  induction course with
  | here => exact start
  | next event happens _ ih => exact ih (kept _ event _ happens start)

end Course

def Moment.initial (now : Time) (connected : Bool) (blocks : List Block) (abilities : Abilities)
    (config : Config) (token : Token Time) : Moment Time :=
  ⟨now, connected, .prepare blocks abilities config token⟩

/-! What no event changes: the plan of a run and its budgets. -/

namespace Run

structure SameTerms (after before : Run Time) : Prop where
  plan : after.plan = before.plan
  maxSteps : after.token.maxSteps = before.token.maxSteps
  maxDuration : after.token.maxDuration = before.token.maxDuration

omit [TimeScale Time] in
theorem SameTerms.refl (run : Run Time) : SameTerms run run :=
  ⟨rfl, rfl, rfl⟩

omit [TimeScale Time] in
theorem SameTerms.trans {first second third : Run Time} (later : SameTerms third second)
    (earlier : SameTerms second first) : SameTerms third first :=
  ⟨later.plan.trans earlier.plan, later.maxSteps.trans earlier.maxSteps,
    later.maxDuration.trans earlier.maxDuration⟩

omit [TimeScale Time] in
theorem start_maxDuration (now : Time) (token : Token Time) :
    (token.start now).maxDuration = token.maxDuration := by
  unfold Token.start
  cases token.startedAt <;> rfl

theorem charge_maxDuration (now : Time) (token : Token Time) :
    (token.charge now).1.maxDuration = token.maxDuration :=
  start_maxDuration now token

theorem steps_terms {now : Time} {connected : Bool} {run after : Run Time} {call : Option Call}
    (steps : Steps now connected run after call) : SameTerms after run := by
  cases steps with
  | begin => exact ⟨rfl, (start_keeps now run.token).1, start_maxDuration now run.token⟩
  | charged => exact ⟨rfl, Token.charge_maxSteps now run.token, charge_maxDuration now run.token⟩
  | limited => exact ⟨rfl, Token.charge_maxSteps now run.token, charge_maxDuration now run.token⟩
  | _ => exact ⟨rfl, rfl, rfl⟩

end Run

theorem Moment.next_terms {before after : Moment Time} {event : Event Time}
    (happens : before.Next event after) : after.run.SameTerms before.run := by
  cases happens with
  | step ready => exact Run.steps_terms (Run.step_steps _ _ _ ready)
  | cancel =>
      rw [Run.cancel_eq]
      exact ⟨rfl, rfl, rfl⟩
  | _ => exact ⟨rfl, rfl, rfl⟩

theorem Course.terms {first last : Moment Time} (course : Course first last) :
    last.run.SameTerms first.run :=
  course.keeps (fun _ _ _ happens known => (Moment.next_terms happens).trans known) (.refl first.run)

/-! What a walk keeps at each of its transitions holds wherever a run stands. -/

namespace Run

def Stands (Holds : Position → Prop) (run : Run Time) : Prop :=
  ∀ position, run.position? = some position → Holds position

theorem steps_position (now : Time) (connected : Bool) {run after : Run Time} {call : Option Call}
    (steps : Steps now connected run after call) (position : Position)
    (there : after.position? = some position) :
    run.activity = .unstarted ∧ position = .entry ∨ run.position? = some position ∨
      ∃ before step, run.activity = .moving before ∧ position = step.next ∧
        Position.Takes run.plan run.view before step := by
  have taken : ∀ {before : Position} {step : Step}, run.activity = .moving before →
      before.step? run.plan run.view = some (.ok step) → some step.next = some position →
      ∃ before step, run.activity = .moving before ∧ position = step.next ∧
        Position.Takes run.plan run.view before step :=
    fun activity stepped same =>
      ⟨_, _, activity, (Option.some.inj same).symm, Position.step?_takes _ _ _ _ stepped⟩
  cases steps with
  | begin activity => exact Or.inl ⟨activity, (Option.some.inj there).symm⟩
  | silent activity stepped => exact Or.inr (Or.inr (taken activity stepped there))
  | cleared activity stepped => exact Or.inr (Or.inr (taken activity stepped there))
  | charged activity stepped => exact Or.inr (Or.inr (taken activity stepped there))
  | delayed activity stepped => exact Or.inr (Or.inr (taken activity stepped there))
  | called activity stepped => exact Or.inr (Or.inr (taken activity stepped there))
  | stirred activity => exact Or.inr (Or.inl (by simpa [position?, activity] using there))
  | startled turns activity => exact Or.inr (Or.inl (by simpa [position?, activity] using there))
  | woken activity => exact Or.inr (Or.inl (by simpa [position?, activity] using there))
  | rousing activity => exact Or.inr (Or.inl (by simpa [position?, activity] using there))
  | complete | misread | halted | lost | limited | refused | overslept | roused => cases there

end Run

theorem Moment.next_stands {Holds : Position → Prop} {before after : Moment Time}
    {event : Event Time} (entry : Holds .entry)
    (taken : ∀ position step, Position.Takes before.run.plan before.run.view position step →
      Holds position → Holds step.next)
    (happens : before.Next event after) (stands : before.run.Stands Holds) :
    after.run.Stands Holds := by
  intro position there
  -- Only a step of its own can bring a run to a new position.
  cases happens with
  | step ready =>
      rcases Run.steps_position _ _ (Run.step_steps _ _ _ ready) position there with
        ⟨-, rfl⟩ | same | ⟨previous, step, activity, rfl, takes⟩
      · exact entry
      · exact stands position same
      · exact taken previous step takes (stands previous (by simp [Run.position?, activity]))
  | lasts later activity => exact stands position (by simpa [Run.position?, activity] using there)
  | returns activity =>
      exact stands position (by simpa [Run.position?, Run.resume, activity] using there)
  | raises => cases there
  | cancel =>
      rw [Run.position?_of_isEnded _ (Run.cancel_isEnded _)] at there
      cases there
  | abort | connection | edit | pass | expire => exact stands position there

end ArmProgram
