import Mathlib.Data.List.Chain
import ArmProgram.Proofs.Run.Budget

/-!
The phases of a run, and calls for it to be made once more. A run is idle only
until it has passed its entry, and it is not suspended on the way there. So a
call that comes while it is suspended, or after its end, finds it in another
phase, is refused, and leaves no trace.
-/

namespace ArmProgram

/-! Which phase may follow which. -/

namespace Phase

inductive Precedes (home : Bool) : Phase → Phase → Prop where
  | homes (able : home = true) : Precedes home .idle .homing
  | starts (unable : home = false) : Precedes home .idle .running
  | settles : Precedes home .homing .running
  | completes : Precedes home .running .completed
  | aborts {phase : Phase} (unended : phase.isTerminal = false) : Precedes home phase .aborted
  | faults {phase : Phase} (unended : phase.isTerminal = false) : Precedes home phase .faulted

theorem Precedes.unended {home : Bool} {phase later : Phase}
    (precedes : phase.Precedes home later) : phase.isTerminal = false := by
  cases precedes with
  | homes | starts | settles | completes => rfl
  | aborts unended | faults unended => exact unended

end Phase

namespace Position

theorem phase_isTerminal (position : Position) : position.phase.isTerminal = false := by
  cases position <;> rfl

theorem takes_begun {plan : Plan} {view : View} {position : Position} {step : Step}
    (taken : position.Takes plan view step) : step.next.phase ≠ .idle := by
  cases taken with
  | entry =>
      simp only [Step.act]
      split <;> (intro idle; cases idle)
  | _ => intro idle; cases idle

theorem takes_phase {plan : Plan} {view : View} {position : Position} {step : Step}
    (taken : position.Takes plan view step) :
    step.next.phase = position.phase ∨
      position.phase.Precedes plan.abilities.home step.next.phase := by
  cases taken with
  | entry =>
      refine Or.inr ?_
      simp only [Step.act]
      split
      · rename_i able
        exact .homes able
      · rename_i unable
        exact .starts (Bool.eq_false_iff.mpr unable)
  | settled => exact Or.inr .settles
  | _ => exact Or.inl rfl

theorem takes_homing {plan : Plan} {view : View} {position : Position} {step : Step}
    (taken : position.Takes plan view step) (homing : step.next.phase = .homing) :
    position.phase = .homing ∨ (position = .entry ∧ plan.abilities.home = true) := by
  cases taken with
  | entry =>
      refine Or.inr ⟨rfl, ?_⟩
      by_contra unable
      simp [Step.act, unable, phase] at homing
  | homing | settling => exact Or.inl rfl
  | _ => cases homing

end Position

variable {Time : Type} [TimeScale Time]

omit [TimeScale Time] in
theorem Ending.fault_phase {home : Bool} {phase : Phase} (unended : phase.isTerminal = false)
    (fault : Fault Time) : phase.Precedes home (Ending.fault fault).phase := by
  cases fault with
  | aborted => exact .aborts unended
  | _ => exact .faults unended

/-! One step of a run. -/

namespace Run

omit [TimeScale Time] in
theorem phase_of_position {run : Run Time} {position : Position}
    (there : run.position? = some position) : run.phase = position.phase := by
  unfold position? at there
  unfold phase
  cases activity : run.activity with
  | unstarted | ended ending => simp [activity] at there
  | _ => simpa [activity] using congrArg Position.phase (by simpa [activity] using there)

omit [TimeScale Time] in
theorem phase_of_moving {run : Run Time} {position : Position}
    (activity : run.activity = .moving position) : run.phase = position.phase :=
  phase_of_position (by rw [position?, activity])

omit [TimeScale Time] in
theorem unhoming_of_ended {run : Run Time} {ending : Ending Time}
    (activity : run.activity = .ended ending) : run.phase ≠ .homing := by
  rw [phase_of_ended activity]
  cases ending with
  | fault fault => cases fault <;> nofun
  | completed | cancelled | dropped => nofun

omit [TimeScale Time] in
theorem unended_of_position {run : Run Time} {position : Position}
    (there : run.position? = some position) : run.phase.isTerminal = false :=
  phase_of_position there ▸ position.phase_isTerminal

omit [TimeScale Time] in
theorem ended_of_isTerminal {run : Run Time} (terminal : run.phase.isTerminal = true) :
    ∃ ending, run.activity = .ended ending := by
  cases activity : run.activity with
  | ended ending => exact ⟨ending, rfl⟩
  | unstarted => simp [phase, activity, Phase.isTerminal] at terminal
  | moving position | pausing pause position | rousing turns position
  | calling call due position =>
      have there : run.position? = some position := by rw [position?, activity]
      have unended := unended_of_position there
      rw [terminal] at unended
      cases unended

theorem steps_phase {now : Time} {connected : Bool} {run after : Run Time} {asked : Option Call}
    (steps : Steps now connected run after asked) :
    after.phase = run.phase ∨ run.phase.Precedes run.plan.abilities.home after.phase := by
  have fails {position : Position} {fault : Fault Time} (there : run.position? = some position)
      (ended : after.activity = .ended (.fault fault)) :
      run.phase.Precedes run.plan.abilities.home after.phase := by
    rw [phase_of_ended ended]
    exact Ending.fault_phase (unended_of_position there) fault
  have taken {position : Position} {step : Step} (activity : run.activity = .moving position)
      (stepped : position.step? run.plan run.view = some (.ok step)) :
      step.next.phase = run.phase ∨
        run.phase.Precedes run.plan.abilities.home step.next.phase := by
    rw [phase_of_moving activity]
    exact Position.takes_phase (Position.step?_takes _ _ _ _ stepped)
  cases steps with
  | begin activity =>
      refine Or.inl ?_
      rw [phase, phase, activity]
      rfl
  | complete activity stepped =>
      refine Or.inr ?_
      rw [phase_of_moving activity, Position.step?_end _ _ _ stepped]
      exact .completes
  | misread activity | halted activity | lost activity | limited activity | refused activity
  | overslept activity | roused activity =>
      exact Or.inr (fails (by rw [position?, activity]) rfl)
  | silent activity stepped | cleared activity stepped | charged activity stepped
  | delayed activity stepped | called activity stepped =>
      exact taken activity stepped
  | stirred activity | startled turns activity | woken activity | rousing activity =>
      refine Or.inl ?_
      rw [phase, phase, activity]

def ClearsEntry (connected : Bool) (run : Run Time) : Prop :=
  run.activity = .moving .entry ∧ run.token.aborted = false ∧
    run.plan.abilities.probe.reports connected = true

theorem steps_homing {now : Time} {connected : Bool} {run after : Run Time} {asked : Option Call}
    (steps : Steps now connected run after asked) (homing : after.phase = .homing) :
    run.phase = .homing ∨ (run.plan.abilities.home = true ∧ run.ClearsEntry connected) := by
  have taken {position : Position} {step : Step} (activity : run.activity = .moving position)
      (stepped : position.step? run.plan run.view = some (.ok step))
      (cleared : step.action = some .checkpoint → run.token.aborted = false ∧
        run.plan.abilities.probe.reports connected = true)
      (there : step.next.phase = .homing) :
      run.phase = .homing ∨ (run.plan.abilities.home = true ∧ run.ClearsEntry connected) := by
    rw [phase_of_moving activity]
    have takes := Position.step?_takes _ _ _ _ stepped
    refine (Position.takes_homing takes there).imp_right fun ⟨entry, able⟩ => ?_
    subst entry
    cases takes
    exact ⟨able, activity, cleared rfl⟩
  cases steps with
  | begin activity => cases homing
  | complete | misread | halted | lost | limited | refused | overslept | roused =>
      exact absurd homing (unhoming_of_ended rfl)
  | cleared activity stepped unaborted reported =>
      exact taken activity stepped (fun _ => ⟨unaborted, reported⟩) homing
  | silent activity stepped | charged activity stepped
  | delayed activity stepped | called activity stepped =>
      exact taken activity stepped nofun homing
  | stirred activity | startled turns activity | woken activity | rousing activity =>
      refine Or.inl ?_
      rw [← homing, phase, phase, activity]

theorem ClearsEntry.homes {now : Time} {connected : Bool} {run : Run Time}
    (clears : run.ClearsEntry connected) (able : run.plan.abilities.home = true) :
    (run.step now connected).run.phase = .homing := by
  obtain ⟨activity, unaborted, reported⟩ := clears
  simp [step, activity, move, Position.step?, Step.act, perform, checkpoint, unaborted, reported,
    resume, phase, able, Position.phase]

/-! Suspended runs. -/

def PassesEntry (run : Run Time) : Prop :=
  run.isOpen = true → run.Stands fun position => position.phase ≠ .idle

theorem steps_passesEntry {now : Time} {connected : Bool} {run after : Run Time}
    {asked : Option Call} (steps : Steps now connected run after asked)
    (passes : run.PassesEntry) : after.PassesEntry := by
  intro suspended position there
  have stays {next : Position} (open' : run.isOpen = true) (here : run.position? = some next)
      (same : some next = some position) : position.phase ≠ .idle :=
    passes open' position (here.trans same)
  cases steps with
  | begin | silent | cleared | charged | woken => cases suspended
  | complete | misread | halted | lost | limited | refused | overslept | roused => cases there
  | delayed activity stepped | called activity stepped =>
      cases there
      exact Position.takes_begun (Position.step?_takes _ _ _ _ stepped)
  | stirred activity | startled turns activity | rousing activity =>
      exact stays (by rw [isOpen, activity]) (by rw [position?, activity]) there

omit [TimeScale Time] in
/-- A suspended run is idle only before it begins, or if it never will. -/
theorem PassesEntry.idle_iff {run : Run Time} (passes : run.PassesEntry)
    (suspended : run.isOpen = true) :
    run.phase = .idle ↔ run.activity = .unstarted ∨ run.activity = .ended .dropped := by
  have busy {position : Position} (there : run.position? = some position) : run.phase ≠ .idle :=
    phase_of_position there ▸ passes suspended position there
  cases activity : run.activity with
  | unstarted => simp [phase, activity]
  | moving position => simp [isOpen, activity] at suspended
  | pausing pause next | rousing turns next | calling call due next =>
      have there : run.position? = some next := by rw [position?, activity]
      simp [busy there]
  | ended ending =>
      rw [phase_of_ended activity]
      cases ending with
      | fault fault => cases fault <;> simp [Ending.phase]
      | completed | cancelled | dropped => simp [Ending.phase]

def call (now : Time) (connected : Bool) (run : Run Time) : Except Reuse (Outcome Time) :=
  run.begin?.map fun idle => { idle with activity := .unstarted }.step now connected

theorem call_of_begun (now : Time) (connected : Bool) {run : Run Time}
    (begun : run.phase ≠ .idle) : run.call now connected = .error .alreadyBegun := by
  rw [call, begin?, if_neg begun]
  rfl

theorem call_of_idle (now : Time) (connected : Bool) {run : Run Time} (idle : run.phase = .idle) :
    run.call now connected =
      .ok ⟨{ run with token := run.token.start now, activity := .moving .entry }, [], none⟩ := by
  rw [call, begin?, if_pos idle]
  rfl

def called (now : Time) (connected : Bool) (run : Run Time) : Run Time :=
  match run.call now connected with
  | .ok outcome => outcome.run
  | .error _ => run

theorem called_of_begun (now : Time) (connected : Bool) {run : Run Time}
    (begun : run.phase ≠ .idle) : run.called now connected = run := by
  rw [called, call_of_begun now connected begun]

theorem called_of_idle (now : Time) (connected : Bool) {run : Run Time}
    (idle : run.phase = .idle) :
    run.called now connected =
      { run with token := run.token.start now, activity := .moving .entry } := by
  rw [called, call_of_idle now connected idle]

end Run

/-! One event, or one more call. -/

namespace Moment

theorem next_phase {before after : Moment Time} {event : Event Time}
    (happens : before.Next event after) :
    after.run.phase = before.run.phase ∨
      before.run.phase.Precedes before.run.plan.abilities.home after.run.phase := by
  cases happens with
  | step ready => exact Run.steps_phase (Run.step_steps _ _ _ ready)
  | lasts later activity | returns activity =>
      refine Or.inl ?_
      simp only [Run.phase, Run.resume, activity]
  | raises fault activity =>
      exact Or.inr (Ending.fault_phase
        (Run.unended_of_position (by rw [Run.position?, activity])) fault)
  | @cancel now connected run suspended =>
      unfold Run.cancel
      split
      · rename_i unbegun
        refine Or.inl ?_
        rw [Run.phase, Run.phase, unbegun]
        rfl
      · exact Or.inl rfl
      · rename_i begun unended
        refine Or.inr (.aborts ?_)
        cases activity : run.activity with
        | unstarted => exact absurd activity begun
        | ended ending => exact absurd activity (unended ending)
        | _ => exact Run.unended_of_position (by rw [Run.position?, activity])
  | abort | connection | edit | pass | expire => exact Or.inl rfl

theorem next_homing {before after : Moment Time} {event : Event Time}
    (happens : before.Next event after) (homing : after.run.phase = .homing) :
    before.run.phase = .homing ∨ (before.run.plan.abilities.home = true ∧ event = .step ∧
      before.run.ClearsEntry before.connected) := by
  cases happens with
  | step ready =>
      exact (Run.steps_homing (Run.step_steps _ _ _ ready) homing).imp_right
        fun ⟨able, clears⟩ => ⟨able, rfl, clears⟩
  | lasts later activity | returns activity =>
      refine Or.inl ?_
      simpa only [Run.phase, Run.resume, activity] using homing
  | raises fault activity => exact absurd homing (Run.unhoming_of_ended rfl)
  | @cancel now connected run suspended =>
      cases ended : run.cancel.activity with
      | ended ending => exact absurd homing (Run.unhoming_of_ended ended)
      | _ => simpa [Run.isEnded, ended] using run.cancel_isEnded
  | abort | connection | edit | pass | expire => exact Or.inl homing

theorem next_passesEntry (before : Moment Time) (event : Event Time) (after : Moment Time)
    (happens : before.Next event after) (passes : before.run.PassesEntry) :
    after.run.PassesEntry := by
  cases happens with
  | step ready => exact Run.steps_passesEntry (Run.step_steps _ _ _ ready) passes
  | lasts later activity =>
      intro _ position there
      cases there
      exact passes (by rw [Run.isOpen, activity]) _ (by rw [Run.position?, activity])
  | returns => exact fun suspended => by cases suspended
  | raises => exact fun _ _ there => by cases there
  | cancel =>
      intro _ position there
      rw [Run.position?_of_isEnded _ (Run.cancel_isEnded _)] at there
      cases there
  | abort | connection | edit | pass | expire => exact passes

end Moment

/-- What is done with a run: it goes on, or somebody calls for it to be made. -/
inductive Use (Time : Type) where
  | event (event : Event Time)
  | call

namespace Moment

inductive Undergoes : Moment Time → Use Time → Moment Time → Prop where
  | event {before after : Moment Time} {event : Event Time} (happens : before.Next event after) :
      Undergoes before (.event event) after
  | call {now : Time} {connected : Bool} {run : Run Time} (suspended : run.isOpen = true) :
      Undergoes ⟨now, connected, run⟩ .call ⟨now, connected, run.called now connected⟩

def accepts (moment : Moment Time) : Use Time → Bool
  | .event _ => true
  | .call => moment.run.phase = .idle

def requests (moment : Moment Time) : Use Time → Option Call
  | .event event => moment.asks event
  | .call =>
      match moment.run.call moment.now moment.connected with
      | .ok outcome => outcome.call
      | .error _ => none

theorem Undergoes.phase {before after : Moment Time} {use : Use Time}
    (undergoes : before.Undergoes use after) :
    after.run.phase = before.run.phase ∨
      before.run.phase.Precedes before.run.plan.abilities.home after.run.phase := by
  cases undergoes with
  | event happens => exact next_phase happens
  | @call now connected run suspended =>
      refine Or.inl ?_
      by_cases idle : run.phase = .idle
      · simp only [Run.called_of_idle now connected idle, idle]
        rfl
      · simp only [Run.called_of_begun now connected idle]

theorem Undergoes.homing {before after : Moment Time} {use : Use Time}
    (undergoes : before.Undergoes use after) (homing : after.run.phase = .homing) :
    before.run.phase = .homing ∨ (before.run.plan.abilities.home = true ∧
      use = .event .step ∧ before.run.ClearsEntry before.connected) := by
  cases undergoes with
  | event happens =>
      refine (next_homing happens homing).imp_right fun ⟨able, step, clears⟩ => ?_
      exact ⟨able, by rw [step], clears⟩
  | @call now connected run suspended =>
      by_cases idle : run.phase = .idle
      · simp only [Run.called_of_idle now connected idle] at homing
        cases homing
      · simp only [Run.called_of_begun now connected idle] at homing
        exact Or.inl homing

theorem Undergoes.plan {before after : Moment Time} {use : Use Time}
    (undergoes : before.Undergoes use after) : after.run.plan = before.run.plan := by
  cases undergoes with
  | event happens => exact (next_terms happens).plan
  | @call now connected run suspended =>
      by_cases idle : run.phase = .idle
      · simp only [Run.called_of_idle now connected idle]
      · simp only [Run.called_of_begun now connected idle]

theorem Undergoes.passesEntry {before after : Moment Time} {use : Use Time}
    (undergoes : before.Undergoes use after) (passes : before.run.PassesEntry) :
    after.run.PassesEntry := by
  cases undergoes with
  | event happens => exact next_passesEntry _ _ _ happens passes
  | @call now connected run suspended =>
      by_cases idle : run.phase = .idle
      · simp only [Run.called_of_idle now connected idle]
        exact nofun
      · simpa only [Run.called_of_begun now connected idle] using passes

/-- A call for a run that has begun changes nothing. -/
theorem Undergoes.refused {before after : Moment Time} (undergoes : before.Undergoes .call after)
    (begun : before.run.phase ≠ .idle) : after = before := by
  cases undergoes
  rw [Run.called_of_begun _ _ begun]

/-- A run that has ended in the phase of an end stays as it is. -/
theorem Undergoes.kept {before after : Moment Time} {use : Use Time}
    (undergoes : before.Undergoes use after) (terminal : before.run.phase.isTerminal = true) :
    after.run.activity = before.run.activity ∧ after.run.token.steps = before.run.token.steps := by
  obtain ⟨ending, ended⟩ := Run.ended_of_isTerminal terminal
  cases undergoes with
  | event happens => exact next_of_ended happens ended
  | @call now connected run suspended =>
      have begun : run.phase ≠ .idle := fun idle => by simp [idle, Phase.isTerminal] at terminal
      rw [Run.called_of_begun now connected begun]
      exact ⟨rfl, rfl⟩

end Moment

/-! All that is done with a run. -/

inductive Usage : Moment Time → Moment Time → Type where
  | here (moment : Moment Time) : Usage moment moment
  | next {before middle after : Moment Time} (use : Use Time)
      (undergoes : before.Undergoes use middle) (rest : Usage middle after) : Usage before after

namespace Usage

def uses {first last : Moment Time} : Usage first last → List (Use Time)
  | .here _ => []
  | .next use _ rest => use :: rest.uses

def accepted {first last : Moment Time} : Usage first last → List (Use Time)
  | .here _ => []
  | @next _ _ before _ _ use _ rest =>
      if before.accepts use then use :: rest.accepted else rest.accepted

def phases {first last : Moment Time} : Usage first last → List Phase
  | .here moment => [moment.run.phase]
  | @next _ _ before _ _ _ _ rest => before.run.phase :: rest.phases

def requests {first last : Moment Time} : Usage first last → List Call
  | .here _ => []
  | @next _ _ before _ _ use _ rest => (before.requests use).toList ++ rest.requests

def ClearsEntry {first last : Moment Time} : Usage first last → Prop
  | .here _ => False
  | @next _ _ before _ _ use _ rest =>
      (use = .event .step ∧ before.run.ClearsEntry before.connected) ∨ rest.ClearsEntry

theorem head_phases {first last : Moment Time} (usage : Usage first last) :
    usage.phases.head? = some first.run.phase := by
  cases usage <;> rfl

theorem path {first last : Moment Time} (usage : Usage first last) :
    usage.phases.IsChain fun phase later =>
      later = phase ∨ phase.Precedes first.run.plan.abilities.home later := by
  induction usage with
  | here => exact .singleton _
  | next use undergoes rest ih =>
      refine List.isChain_cons.mpr ⟨fun later there => ?_, undergoes.plan ▸ ih⟩
      rw [rest.head_phases] at there
      cases there
      exact undergoes.phase

theorem homing_or_clears {first last : Moment Time} (usage : Usage first last)
    (homing : .homing ∈ usage.phases) : first.run.phase = .homing ∨
      (first.run.plan.abilities.home = true ∧ usage.ClearsEntry) := by
  induction usage with
  | here => exact Or.inl (List.mem_singleton.mp homing).symm
  | next use undergoes rest ih =>
      rcases List.mem_cons.mp homing with now | later
      · exact Or.inl now.symm
      · rw [undergoes.plan] at ih
        rcases ih later with soon | ⟨able, clears⟩
        · exact (undergoes.homing soon).imp_right fun ⟨able, passed⟩ => ⟨able, Or.inl passed⟩
        · exact Or.inr ⟨able, Or.inr clears⟩

theorem homing_of_clears {first last : Moment Time} (usage : Usage first last)
    (able : first.run.plan.abilities.home = true) (clears : usage.ClearsEntry) :
    .homing ∈ usage.phases := by
  induction usage with
  | here => exact clears.elim
  | next use undergoes rest ih =>
      refine List.mem_cons_of_mem _ ?_
      rcases clears with ⟨rfl, passed⟩ | later
      · cases undergoes with
        | event happens =>
            cases happens
            exact List.mem_of_mem_head? (rest.head_phases.trans (congrArg some (passed.homes able)))
      · exact ih (undergoes.plan ▸ able) later

theorem passesEntry {first last : Moment Time} (usage : Usage first last)
    (passes : first.run.PassesEntry) : last.run.PassesEntry := by
  induction usage with
  | here => exact passes
  | next use undergoes rest ih => exact ih (undergoes.passesEntry passes)

theorem kept {first last : Moment Time} (usage : Usage first last)
    (terminal : first.run.phase.isTerminal = true) :
    (∀ phase ∈ usage.phases, phase = first.run.phase) ∧
      last.run.activity = first.run.activity ∧
      last.run.token.steps = first.run.token.steps := by
  induction usage with
  | here => exact ⟨fun _ => List.mem_singleton.mp, rfl, rfl⟩
  | @next before middle after use undergoes rest ih =>
      obtain ⟨activity, steps⟩ := undergoes.kept terminal
      have phase : middle.run.phase = before.run.phase := by rw [Run.phase, Run.phase, activity]
      obtain ⟨phases, activity', steps'⟩ := ih (phase ▸ terminal)
      refine ⟨List.forall_mem_cons.mpr ⟨rfl, fun other there => ?_⟩, activity'.trans activity,
        steps'.trans steps⟩
      exact (phases other there).trans phase

/-- Without the calls that are refused a run takes the same course. -/
theorem exists_accepted {first last : Moment Time} (usage : Usage first last) :
    ∃ other : Usage first last, other.uses = usage.accepted ∧
      other.requests = usage.requests := by
  induction usage with
  | here moment => exact ⟨.here moment, rfl, rfl⟩
  | @next before middle after use undergoes rest ih =>
      obtain ⟨other, uses, requests⟩ := ih
      cases accepted : before.accepts use with
      | true =>
          refine ⟨.next use undergoes other, ?_, ?_⟩
          · simp [Usage.uses, Usage.accepted, accepted, uses]
          · simp [Usage.requests, requests]
      | false =>
          cases use with
          | event => cases accepted
          | call =>
              have begun : before.run.phase ≠ .idle := by simpa [Moment.accepts] using accepted
              have same := undergoes.refused begun
              subst same
              refine ⟨other, ?_, ?_⟩
              · simp [Usage.accepted, accepted, uses]
              · simp [Usage.requests, Moment.requests, Run.call_of_begun _ _ begun, requests]

/-- What holds of the phases of a run, with or without a homing, whatever is done
with it. -/
structure KeepsPhases (home : Bool) {first last : Moment Time} (usage : Usage first last) :
    Prop where
  begins : usage.phases.head? = some .idle
  path : usage.phases.IsChain fun phase later => later = phase ∨ phase.Precedes home later
  homing : .homing ∈ usage.phases ↔ home = true ∧ usage.ClearsEntry
  idle : last.run.isOpen = true →
    (last.run.phase = .idle ↔ last.run.activity = .unstarted ∨ last.run.activity = .ended .dropped)
  refused : last.run.phase ≠ .idle →
    last.run.call last.now last.connected = .error .alreadyBegun ∧
      ∀ after, last.Undergoes .call after → after = last
  kept : last.run.phase.isTerminal = true → ∀ after, ∀ later : Usage last after,
    (∀ phase ∈ later.phases, phase = last.run.phase) ∧
      after.run.activity = last.run.activity ∧
      after.run.token.steps = last.run.token.steps
  spared : ∃ other : Usage first last, other.uses = usage.accepted ∧
    other.requests = usage.requests

end Usage

section

variable (now : Time) (connected : Bool) (blocks : List Block) (abilities : Abilities)
  (config : Config) (token : Token Time)

/-- The phases of every run form one path, and a run is begun only once. -/
theorem run_keeps_phases {last : Moment Time}
    (usage : Usage (.initial now connected blocks abilities config token) last) :
    usage.KeepsPhases abilities.home where
  begins := usage.head_phases
  path := usage.path
  homing := by
    constructor
    · intro homing
      exact (usage.homing_or_clears homing).resolve_left nofun
    · rintro ⟨able, clears⟩
      exact usage.homing_of_clears able clears
  idle := (usage.passesEntry fun _ _ there => by cases there).idle_iff
  refused := fun begun =>
    ⟨Run.call_of_begun _ _ begun, fun _ undergoes => undergoes.refused begun⟩
  kept := fun terminal _ later => later.kept terminal
  spared := usage.exists_accepted

end

end ArmProgram
