import Mathlib.Logic.Function.Iterate
import ArmProgram.Proofs.Run.InTime
import ArmProgram.Proofs.Run.Pruned

/-!
What a run does, apart from when it does it. Where nobody interferes, no call
fails and the time budget lasts, every course of a run takes the same trail:
where it stands, what it has charged and which calls it has made follow from
the program and the budget of steps alone, however long calls and pauses take.
-/

namespace ArmProgram

variable {Time : Type} [TimeScale Time]

/-! Endings without their times. -/

def Fault.timeless : Fault Time → Fault Unit
  | .aborted => .aborted
  | .connectionLost => .connectionLost
  | .stepLimit budget steps _ => .stepLimit budget steps ()
  | .timeLimit _ steps _ => .timeLimit () steps ()
  | .failed failure => .failed failure

def Ending.timeless : Ending Time → Ending Unit
  | .completed => .completed
  | .fault cause => .fault cause.timeless
  | .cancelled => .cancelled
  | .dropped => .dropped

omit [TimeScale Time] in
theorem Ending.phase_timeless (ending : Ending Time) : ending.timeless.phase = ending.phase := by
  cases ending with
  | fault fault => cases fault <;> rfl
  | completed | cancelled | dropped => rfl

/-! One trail. -/

structure Route where
  plan : Plan
  view : View
  maxSteps : Int

inductive Way where
  | on (position : Position)
  | ended (ending : Ending Unit)

structure Trail where
  way : Way
  steps : Nat
  calls : List Call

namespace Trail

def isEnded (trail : Trail) : Bool :=
  match trail.way with
  | .ended _ => true
  | .on _ => false

def next (route : Route) (trail : Trail) : Trail :=
  match trail.way with
  | .ended _ => trail
  | .on position =>
      match position.step? route.plan route.view with
      | none => { trail with way := .ended .completed }
      | some (.error fault) =>
          { trail with way := .ended (.fault (.failed (.coercion fault))) }
      | some (.ok step) =>
          let steps := trail.steps + step.charges.toNat
          if step.charges = true ∧ route.maxSteps < steps then
            { trail with way := .ended (.fault (.stepLimit route.maxSteps steps ())), steps }
          else ⟨.on step.next, steps, trail.calls ++ step.call?.toList⟩

theorem next_of_step {route : Route} {position : Position} {step : Step}
    (stepped : position.step? route.plan route.view = some (.ok step)) (steps : Nat)
    (calls : List Call) :
    next route ⟨.on position, steps, calls⟩ =
      if step.charges = true ∧ route.maxSteps < (steps + step.charges.toNat : Nat) then
        ⟨.ended (.fault (.stepLimit route.maxSteps (steps + step.charges.toNat) ())),
          steps + step.charges.toNat, calls⟩
      else ⟨.on step.next, steps + step.charges.toNat, calls ++ step.call?.toList⟩ := by
  simp only [next, stepped]

theorem next_of_isEnded {route : Route} {trail : Trail} (ended : trail.isEnded = true) :
    trail.next route = trail := by
  unfold isEnded at ended
  unfold next
  cases there : trail.way with
  | on position => simp [there] at ended
  | ended ending => rfl

theorem calls_prefix_next (route : Route) (trail : Trail) :
    trail.calls <+: (trail.next route).calls := by
  unfold next
  split
  · exact List.prefix_rfl
  · split
    · exact List.prefix_rfl
    · exact List.prefix_rfl
    · simp only
      split
      · exact List.prefix_rfl
      · exact List.prefix_append _ _

theorem calls_prefix_iterate (route : Route) (count : Nat) (trail : Trail) :
    trail.calls <+: ((next route)^[count] trail).calls := by
  induction count generalizing trail with
  | zero => exact List.prefix_rfl
  | succ count ih => exact (trail.calls_prefix_next route).trans (ih (trail.next route))

theorem iterate_of_isEnded {route : Route} {count more : Nat} {trail : Trail}
    (ended : ((next route)^[count] trail).isEnded = true) (later : count ≤ more) :
    (next route)^[more] trail = (next route)^[count] trail := by
  obtain ⟨rest, rfl⟩ := Nat.exists_eq_add_of_le' later
  rw [Function.iterate_add_apply]
  exact Function.iterate_fixed (next_of_isEnded ended) rest

theorem iterate_unique {route : Route} {count more : Nat} {trail : Trail}
    (ended : ((next route)^[count] trail).isEnded = true)
    (ended' : ((next route)^[more] trail).isEnded = true) :
    (next route)^[count] trail = (next route)^[more] trail := by
  rcases Nat.le_total count more with later | sooner
  · exact (iterate_of_isEnded ended later).symm
  · exact iterate_of_isEnded ended' sooner

/-- No look at a trail shows more calls than its end. -/
theorem calls_prefix_of_isEnded {route : Route} {count more : Nat} {trail : Trail}
    (ended : ((next route)^[more] trail).isEnded = true) :
    ((next route)^[count] trail).calls <+: ((next route)^[more] trail).calls := by
  rcases Nat.le_total count more with later | sooner
  · obtain ⟨rest, rfl⟩ := Nat.exists_eq_add_of_le' later
    rw [Function.iterate_add_apply]
    exact calls_prefix_iterate route rest _
  · rw [iterate_of_isEnded ended sooner]

end Trail

/-! One step of a run. -/

namespace Run

def route (run : Run Time) : Route :=
  ⟨run.plan, run.view, run.token.maxSteps⟩

def way (run : Run Time) : Way :=
  match run.activity with
  | .unstarted => .on .entry
  | .moving position => .on position
  | .pausing _ next | .rousing _ next | .calling _ _ next => .on next
  | .ended ending => .ended ending.timeless

def trail (calls : List Call) (run : Run Time) : Trail :=
  ⟨run.way, run.token.steps, calls⟩

def IsOutOfTime (run : Run Time) : Prop :=
  ∃ budget steps elapsed, run.activity = .ended (.fault (.timeLimit budget steps elapsed))

omit [TimeScale Time] in
theorem way_of_moving {run : Run Time} {position : Position}
    (activity : run.activity = .moving position) : run.way = .on position := by
  rw [way, activity]

omit [TimeScale Time] in
theorem isEnded_trail (calls : List Call) (run : Run Time) :
    (run.trail calls).isEnded = run.isEnded := by
  cases activity : run.activity <;> simp [Trail.isEnded, trail, way, isEnded, activity]

end Run

namespace Run

/-- A step by itself is one step of the trail or none. -/
theorem steps_trail {now : Time} {connected : Bool} {run after : Run Time} {asked : Option Call}
    (steps : Steps now connected run after asked) (unaborted : run.token.aborted = false)
    (roused : run.IsRousedByAbort) (reported : run.plan.abilities.probe.reports connected = true)
    (inTime : ¬ after.IsOutOfTime) (calls : List Call) :
    after.trail (calls ++ asked.toList) = run.trail calls ∨
      after.trail (calls ++ asked.toList) = (run.trail calls).next run.route := by
  -- Where the walk takes a step so does the trail, or it ends by the count of its charges.
  have taken {position : Position} {step : Step} (activity : run.activity = .moving position)
      (stepped : position.step? run.plan run.view = some (.ok step)) :
      (run.trail calls).next run.route =
        if step.charges = true ∧ run.token.maxSteps < (run.token.steps + step.charges.toNat : Nat)
        then ⟨.ended (.fault (.stepLimit run.token.maxSteps
          (run.token.steps + step.charges.toNat) ())), run.token.steps + step.charges.toNat, calls⟩
        else ⟨.on step.next, run.token.steps + step.charges.toNat, calls ++ step.call?.toList⟩ := by
    rw [trail, way_of_moving activity]
    exact Trail.next_of_step stepped run.token.steps calls
  have unheard {goal : Prop} (aborted : run.token.aborted = true) : goal :=
    absurd aborted (Bool.eq_false_iff.mp unaborted)
  -- A pause adds nothing to the trail, and what could cut it short is ruled out.
  cases steps with
  | begin activity =>
      refine Or.inl ?_
      simp [trail, way, activity, (start_keeps now run.token).2]
  | complete activity stepped | misread activity stepped =>
      refine Or.inr ?_
      simp only [Trail.next, trail, way_of_moving activity, route, stepped, Option.toList_none,
        List.append_nil]
      rfl
  | silent activity stepped | cleared activity stepped | delayed activity stepped
  | called activity stepped =>
      refine Or.inr ?_
      rw [taken activity stepped]
      rfl
  | charged activity stepped within =>
      refine Or.inr ?_
      have granted := Token.charge_within now run.token within
      rw [Token.charge_steps] at granted
      rw [taken activity stepped, if_neg fun beyond => Int.not_lt.mpr granted beyond.2]
      simp [trail, way, Token.charge_steps, Step.charges, Step.call?]
  | limited activity stepped exceeded =>
      refine Or.inr ?_
      rcases Token.charge_refused _ _ _ exceeded with
        ⟨elapsed, rfl, beyond⟩ | ⟨budget, steps, elapsed, rfl, -⟩
      · rw [taken activity stepped, if_pos ⟨rfl, beyond⟩]
        simp [trail, way, Token.charge_steps, Step.charges, Ending.timeless, Fault.timeless]
      · exact absurd ⟨_, _, _, rfl⟩ inTime
  | overslept activity passed =>
      rcases Token.afterPause_fault _ _ _ _ passed with rfl | ⟨budget, steps, elapsed, rfl⟩
      · exact unheard (Token.aborted_of_afterPause passed)
      · exact absurd ⟨_, _, _, rfl⟩ inTime
  | stirred activity | woken activity =>
      refine Or.inl ?_
      simp [trail, way, activity]
  | refused activity stepped paused => exact unheard (Token.aborted_of_refused paused)
  | halted activity stepped aborted | startled turns activity aborted => exact unheard aborted
  | rousing activity | roused activity => exact unheard (roused _ _ activity)
  | lost activity stepped free unreported => cases reported.symm.trans unreported

theorem steps_aborted {now : Time} {connected : Bool} {run after : Run Time}
    {asked : Option Call} (steps : Steps now connected run after asked) :
    after.token.aborted = run.token.aborted := by
  cases steps with
  | begin =>
      simp only [Token.start]
      cases run.token.startedAt <;> rfl
  | charged | limited => exact Token.charge_aborted now run.token
  | _ => rfl

end Run

/-! One event. -/

/-- Whether nobody interferes: the run goes on, calls return and time passes. -/
def Event.isCalm : Event Time → Bool
  | .step | .lasts _ | .returns | .pass _ | .expire => true
  | .raises _ | .abort | .cancel | .connection _ | .edit _ _ => false

namespace Moment

structure IsCalm (moment : Moment Time) : Prop where
  unaborted : moment.run.token.aborted = false
  roused : moment.run.IsRousedByAbort
  reported : moment.run.plan.abilities.probe.reports moment.connected = true

theorem next_isCalm {before after : Moment Time} {event : Event Time}
    (happens : before.Next event after) (calm : event.isCalm = true) (known : before.IsCalm) :
    after.IsCalm := by
  have roused := next_roused happens known.roused
  have terms := next_terms happens
  cases happens with
  | step ready =>
      refine ⟨?_, roused, ?_⟩
      · rw [← known.unaborted]
        exact Run.steps_aborted (Run.step_steps _ _ _ ready)
      · rw [terms.plan]
        exact known.reported
  | lasts | returns | pass | expire => exact ⟨known.unaborted, roused, known.reported⟩
  | raises | abort | cancel | connection | edit => cases calm

theorem next_route {before after : Moment Time} {event : Event Time}
    (happens : before.Next event after) (calm : event.isCalm = true) :
    after.run.route = before.run.route := by
  have terms := next_terms happens
  have unedited (place : Nat) (parameters : Parameters) : event ≠ .edit place parameters := by
    rintro rfl
    cases calm
  have blocks := next_blocks happens
  rw [Event.revise_of_unedited unedited] at blocks
  rw [Run.route, Run.route, terms.plan, terms.maxSteps, Run.view_congr blocks]

theorem next_trail {before after : Moment Time} {event : Event Time}
    (happens : before.Next event after) (calm : event.isCalm = true) (known : before.IsCalm)
    (inTime : ¬ after.run.IsOutOfTime) (calls : List Call) :
    after.run.trail (calls ++ (before.asks event).toList) = before.run.trail calls ∨
      after.run.trail (calls ++ (before.asks event).toList) =
        (before.run.trail calls).next before.run.route := by
  cases happens with
  | step ready =>
      simp only [asks, asked?, ready, ↓reduceIte]
      exact Run.steps_trail (Run.step_steps _ _ _ ready) known.unaborted known.roused
        known.reported inTime calls
  | lasts later activity | returns activity =>
      refine Or.inl ?_
      simp [Run.trail, Run.way, Run.resume, activity, asks]
  | pass | expire => exact Or.inl (by simp [Run.trail, Run.way, asks])
  | raises | abort | cancel | connection | edit => cases calm

theorem goes_on_calm (moment : Moment Time) (active : moment.run.isEnded = false) :
    ∃ event after, moment.Next event after ∧ event.isCalm = true ∧
      (event.isMove = true ∨ event = .expire) := by
  obtain ⟨event, after, happens, rfl | rfl | rfl⟩ := moment.goes_on_alone active
  · exact ⟨_, _, happens, rfl, Or.inl rfl⟩
  · exact ⟨_, _, happens, rfl, Or.inl rfl⟩
  · exact ⟨_, _, happens, rfl, Or.inr rfl⟩

end Moment

/-! Along a course. -/

namespace Course

def IsCalm {first last : Moment Time} (course : Course first last) : Prop :=
  ∀ event ∈ course.events, event.isCalm = true

def callSequence {first last : Moment Time} (course : Course first last) : List Call :=
  course.calls.map (·.call)

theorem callSequence_next {before middle after : Moment Time} {event : Event Time}
    (happens : before.Next event middle) (rest : Course middle after) :
    (Course.next event happens rest).callSequence =
      (before.asks event).toList ++ rest.callSequence := by
  rw [callSequence, calls, List.map_append]
  cases before.asks event <;> rfl

theorem outOfTime {first last : Moment Time} (course : Course first last)
    (late : first.run.IsOutOfTime) : last.run.IsOutOfTime := by
  have kept (before : Moment Time) (event : Event Time) (after : Moment Time)
      (happens : before.Next event after) (late : before.run.IsOutOfTime) :
      after.run.IsOutOfTime := by
    obtain ⟨budget, steps, elapsed, ended⟩ := late
    exact ⟨budget, steps, elapsed, (Moment.next_of_ended happens ended).1.trans ended⟩
  exact course.keeps kept late

/-- A calm course follows the trail of its run. -/
theorem follows_trail {first last : Moment Time} (course : Course first last)
    (calm : course.IsCalm) (known : first.IsCalm) (inTime : ¬ last.run.IsOutOfTime)
    (calls : List Call) :
    ∃ count, last.run.trail (calls ++ course.callSequence) =
      (Trail.next first.run.route)^[count] (first.run.trail calls) := by
  induction course generalizing calls with
  | here moment => exact ⟨0, by rw [callSequence, Course.calls, List.map_nil, List.append_nil]; rfl⟩
  | @next before middle after event happens rest ih =>
      obtain ⟨mine, others⟩ := List.forall_mem_cons.mp calm
      have soon : ¬ middle.run.IsOutOfTime := fun late => inTime (rest.outOfTime late)
      obtain ⟨count, later⟩ := ih others (Moment.next_isCalm happens mine known) inTime
        (calls ++ (before.asks event).toList)
      rw [callSequence_next, ← List.append_assoc, later, Moment.next_route happens mine]
      rcases Moment.next_trail happens mine known soon calls with stays | goes
      · exact ⟨count, by rw [stays]⟩
      · exact ⟨count + 1, by rw [goes, Function.iterate_succ_apply]⟩

end Course

end ArmProgram
