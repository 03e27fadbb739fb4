import ArmProgram.Proofs.Run.Ledger

/-!
What a run may come to under its budget of steps. Neither the program nor a
loop gets smaller on the way: a block may be its own child, and a loop may
never end. Termination rests on the budget alone, and the accounts say how
much each step of it is worth.
-/

namespace ArmProgram

variable {Time : Type} [TimeScale Time]

/-! The step limit is reached where the count passes the budget, and nowhere
else. -/

namespace Token

theorem charge_refused (now : Time) (token : Token Time) (fault : Fault Time)
    (refused : (token.charge now).2 = some fault) :
    (∃ elapsed, fault = .stepLimit token.maxSteps (token.steps + 1) elapsed ∧
        token.maxSteps < (token.steps + 1 : Nat)) ∨
      (∃ budget steps elapsed, fault = .timeLimit budget steps elapsed ∧
        ((token.steps + 1 : Nat) : Int) ≤ token.maxSteps) := by
  have started := Run.start_keeps now token
  unfold charge at refused
  simp only [started] at refused
  split at refused
  · rename_i beyond
    cases refused
    exact Or.inl ⟨_, rfl, beyond⟩
  · rename_i within
    split at refused
    · cases refused
      exact Or.inr ⟨_, _, _, rfl, Int.not_lt.mp within⟩
    · cases refused

theorem pause_refused (now : Time) (ms : Number) (token : Token Time) (fault : Fault Time)
    (refused : token.pause now ms = .error fault) : fault = .aborted := by
  unfold pause at refused
  split at refused
  · cases refused
    rfl
  · split at refused
    · cases refused
    · simp only at refused
      split at refused
      · cases refused
      · split at refused <;> cases refused

theorem afterPause_fault (now : Time) (pause : Pause Time) (token : Token Time)
    (fault : Fault Time) (passed : token.afterPause now pause = some fault) :
    fault = .aborted ∨ ∃ budget steps elapsed, fault = .timeLimit budget steps elapsed := by
  unfold afterPause at passed
  split at passed <;> cases passed
  · exact Or.inl rfl
  · exact Or.inl rfl
  · exact Or.inr ⟨_, _, _, rfl⟩
  · exact Or.inr ⟨_, _, _, rfl⟩

end Token

namespace Run

omit [TimeScale Time] in
theorem ending?_eq (run : Run Time) (ending : Ending Time) :
    run.ending? = some ending ↔ run.activity = .ended ending := by
  cases activity : run.activity <;> simp [ending?, activity]

omit [TimeScale Time] in
theorem phase_of_ended {run : Run Time} {ending : Ending Time}
    (activity : run.activity = .ended ending) : run.phase = ending.phase := by
  rw [phase, activity]

def IsSpent (run : Run Time) : Prop :=
  run.token.steps = run.token.maxSteps.toNat + 1 ∧
    ∃ elapsed, run.activity =
      .ended (.fault (.stepLimit run.token.maxSteps run.token.steps elapsed))

def IsWithin (run : Run Time) : Prop :=
  run.token.steps ≤ run.token.maxSteps.toNat

/-- If the run has ended by this step limit, it was its own and is spent. -/
def OwnsLimit (budget : Int) (steps : Nat) (elapsed : Time) (run : Run Time) : Prop :=
  run.activity = .ended (.fault (.stepLimit budget steps elapsed)) → run.IsSpent

omit [TimeScale Time] in
theorem within_of_active {run : Run Time} (counts : run.IsWithin ∨ run.IsSpent)
    (active : run.isEnded = false) : run.IsWithin := by
  rcases counts with within | ⟨-, elapsed, ended⟩
  · exact within
  · simp [isEnded, ended] at active

omit [TimeScale Time] in
theorem within_of_calling {run : Run Time} (counts : run.IsWithin ∨ run.IsSpent) {call : Call}
    {due : Option Time} {next : Position} (activity : run.activity = .calling call due next) :
    run.IsWithin :=
  within_of_active counts (by simp [isEnded, activity])

omit [TimeScale Time] in
theorem cancel_counts (run : Run Time) (counts : run.IsWithin ∨ run.IsSpent) :
    run.cancel.IsWithin ∨ run.cancel.IsSpent := by
  rcases counts with within | ⟨spent, elapsed, ended⟩
  · rw [cancel_eq]
    exact Or.inl within
  · rw [cancel_of_ended ended]
    exact Or.inr ⟨spent, elapsed, ended⟩

omit [TimeScale Time] in
theorem cancel_owns (budget : Int) (steps : Nat) (elapsed : Time) (run : Run Time)
    (owns : run.OwnsLimit budget steps elapsed) : run.cancel.OwnsLimit budget steps elapsed := by
  cases activity : run.activity with
  | ended ending => rwa [cancel_of_ended activity]
  | _ =>
      intro ended
      simp [cancel, activity] at ended

theorem steps_count {now : Time} {connected : Bool} {run after : Run Time} {asked : Option Call}
    (steps : Steps now connected run after asked) (within : run.IsWithin) :
    (after.IsWithin ∨ after.IsSpent) ∧
      ∀ budget steps elapsed, after.OwnsLimit budget steps elapsed := by
  -- Only a charge counts, and only one that is refused can end a run by the step limit.
  cases steps with
  | begin =>
      have same := start_keeps now run.token
      refine ⟨Or.inl ?_, fun _ _ _ ended => by cases ended⟩
      simpa [IsWithin, same] using within
  | charged activity stepped passed =>
      have granted := Token.charge_within now run.token passed
      refine ⟨Or.inl ?_, fun _ _ _ ended => by cases ended⟩
      simp only [IsWithin, Token.charge_maxSteps]
      omega
  | limited activity stepped exceeded =>
      rcases Token.charge_refused now run.token _ exceeded with
        ⟨elapsed, rfl, beyond⟩ | ⟨budget, count, elapsed, rfl, granted⟩
      · have spent : IsSpent
            { run with
              token := (run.token.charge now).1
              activity := .ended (.fault (.stepLimit run.token.maxSteps (run.token.steps + 1)
                elapsed)) } := by
          refine ⟨?_, elapsed, ?_⟩
          · unfold IsWithin at within
            simp only [Token.charge_steps, Token.charge_maxSteps]
            omega
          · simp only [Token.charge_steps, Token.charge_maxSteps]
        exact ⟨Or.inr spent, fun _ _ _ _ => spent⟩
      · refine ⟨Or.inl ?_, fun _ _ _ ended => by cases ended⟩
        simp only [IsWithin, Token.charge_maxSteps, Token.charge_steps]
        omega
  | refused activity stepped paused =>
      cases Token.pause_refused _ _ _ _ paused
      exact ⟨Or.inl within, fun _ _ _ ended => by cases ended⟩
  | overslept activity passed =>
      rcases Token.afterPause_fault _ _ _ _ passed with rfl | ⟨budget, count, elapsed, rfl⟩
      · exact ⟨Or.inl within, fun _ _ _ ended => by cases ended⟩
      · exact ⟨Or.inl within, fun _ _ _ ended => by cases ended⟩
  | _ => exact ⟨Or.inl within, fun _ _ _ ended => by cases ended⟩

end Run

namespace Moment

def Counts (moment : Moment Time) : Prop :=
  moment.run.IsWithin ∨ moment.run.IsSpent

theorem next_counts (before : Moment Time) (event : Event Time) (after : Moment Time)
    (happens : before.Next event after) (counts : before.Counts) : after.Counts := by
  cases happens with
  | step ready =>
      have active := Run.active_of_canStep _ _ ready
      exact (Run.steps_count (Run.step_steps _ _ _ ready) (Run.within_of_active counts active)).1
  | lasts later activity | returns activity | raises fault activity =>
      have within := Run.within_of_calling counts activity
      exact Or.inl within
  | cancel => exact Run.cancel_counts _ counts
  | abort | connection | edit | pass | expire => exact counts

theorem next_ended (count : Nat) (before : Moment Time) (event : Event Time) (after : Moment Time)
    (happens : before.Next event after)
    (ended : before.run.isEnded = true ∧ before.run.token.steps = count) :
    after.run.isEnded = true ∧ after.run.token.steps = count := by
  have busy : ∀ {run : Run Time} {call : Call} {due : Option Time} {next : Position},
      run.activity = .calling call due next → run.isEnded ≠ true :=
    fun activity => by simp [Run.isEnded, activity]
  cases happens with
  | step ready => simp [Run.active_of_canStep _ _ ready] at ended
  | lasts later activity | returns activity | raises fault activity =>
      exact absurd ended.1 (busy activity)
  | @cancel now connected run suspended =>
      refine ⟨run.cancel_isEnded, ?_⟩
      rw [Run.cancel_eq]
      exact ended.2
  | abort | connection | edit | pass | expire => exact ended

/-- No event but the end of a call can end a run by a step limit that is not
its own. -/
theorem next_owns (budget : Int) (steps : Nat) (elapsed : Time) (before : Moment Time)
    (event : Event Time) (after : Moment Time) (happens : before.Next event after)
    (counts : before.Counts) (owns : before.run.OwnsLimit budget steps elapsed)
    (unraised : event ≠ .raises (.stepLimit budget steps elapsed)) :
    after.run.OwnsLimit budget steps elapsed := by
  cases happens with
  | step ready =>
      have within := Run.within_of_active counts (Run.active_of_canStep _ _ ready)
      exact (Run.steps_count (Run.step_steps _ _ _ ready) within).2 budget steps elapsed
  | lasts | returns => exact fun ended => by cases ended
  | raises fault activity =>
      intro ended
      cases ended
      exact absurd rfl unraised
  | cancel => exact Run.cancel_owns budget steps elapsed _ owns
  | abort | connection | edit | pass | expire => exact owns

end Moment

namespace Course

theorem within_of_raised {first last : Moment Time} (course : Course first last)
    (counts : first.Counts) (fault : Fault Time) (raised : .raises fault ∈ course.events) :
    last.run.IsWithin := by
  induction course with
  | here => cases raised
  | next event happens rest ih =>
      rcases List.mem_cons.mp raised with rfl | later
      · cases happens with
        | @raises now connected run call due next fault activity =>
            have within := Run.within_of_calling counts activity
            have kept := rest.keeps (Moment.next_ended run.token.steps) ⟨rfl, rfl⟩
            unfold Run.IsWithin at within ⊢
            rw [kept.2, rest.terms.maxSteps]
            exact within
      · exact ih (Moment.next_counts _ event _ happens counts) later

theorem owns_limit (budget : Int) (steps : Nat) (elapsed : Time) {first last : Moment Time}
    (course : Course first last) (counts : first.Counts)
    (begins : first.run.OwnsLimit budget steps elapsed)
    (unraised : .raises (.stepLimit budget steps elapsed) ∉ course.events) :
    last.run.OwnsLimit budget steps elapsed := by
  let Known (moment : Moment Time) : Prop :=
    moment.Counts ∧ moment.run.OwnsLimit budget steps elapsed
  have known : Known last := by
    refine course.keeps_along Known ?_ ⟨counts, begins⟩
    rintro before event after member happens ⟨counted, owned⟩
    refine ⟨Moment.next_counts _ event _ happens counted,
      Moment.next_owns budget steps elapsed _ event _ happens counted owned ?_⟩
    rintro rfl
    exact unraised member
  exact known.2

end Course

/-! What a moment of a run can come to next. -/

/-- A run that has not ended goes on by itself, or when its call or its pause
is over. -/
theorem Moment.goes_on_alone (moment : Moment Time) (active : moment.run.isEnded = false) :
    ∃ event after, moment.Next event after ∧
      (event = .step ∨ event = .returns ∨ event = .expire) := by
  obtain ⟨now, connected, run⟩ := moment
  have ready (able : run.canStep now = true) : ∃ event after,
      Next ⟨now, connected, run⟩ event after ∧
        (event = .step ∨ event = .returns ∨ event = .expire) :=
    ⟨.step, _, .step able, Or.inl rfl⟩
  cases activity : run.activity with
  | unstarted | moving position | rousing turns next =>
      exact ready (by simp [Run.canStep, Run.isReady, activity])
  | calling call due next => exact ⟨.returns, _, .returns activity, Or.inr (Or.inl rfl)⟩
  | ended ending => simp [Run.isEnded, activity] at active
  | pausing pause next =>
      cases able : run.canStep now with
      | true => exact ready able
      | false =>
          simp only [Run.canStep, Run.isReady, activity, Bool.or_eq_false_iff] at able
          obtain ⟨unaborted, early⟩ := able
          cases pause with
          | turn | turns => cases early
          | till due capped =>
              have ahead : TimeScale.before now due = true := by simpa [Pause.isOver] using early
              exact ⟨.expire, _, .expire activity unaborted ahead, Or.inr (Or.inr rfl)⟩

theorem Moment.goes_on (moment : Moment Time) (active : moment.run.isEnded = false) :
    ∃ event after, moment.Next event after ∧ (event.isMove = true ∨ event = .expire) := by
  obtain ⟨event, after, happens, rfl | rfl | rfl⟩ := moment.goes_on_alone active
  · exact ⟨_, _, happens, Or.inl rfl⟩
  · exact ⟨_, _, happens, Or.inl rfl⟩
  · exact ⟨_, _, happens, Or.inr rfl⟩

def Course.moves {first last : Moment Time} (course : Course first last) : Nat :=
  course.total fun _ event _ => event.isMove.toNat

def mostMoves (blocks : Nat) (maxSteps : Int) : Nat :=
  (maxSteps + 1).toNat * Run.stepWorth blocks + 20 * blocks + 52

def Phase.isTerminal : Phase → Bool
  | completed | aborted | faulted => true
  | idle | homing | running => false

omit [TimeScale Time] in
theorem Ending.phase_isTerminal (ending : Ending Time) (begun : ending ≠ .dropped) :
    ending.phase.isTerminal = true := by
  cases ending with
  | fault fault => cases fault <;> rfl
  | completed | cancelled => rfl
  | dropped => exact absurd rfl begun

/-- Only a cancellation drops a run before it has begun. -/
theorem Moment.next_undropped (before : Moment Time) (event : Event Time) (after : Moment Time)
    (happens : before.Next event after) (uncancelled : event ≠ .cancel)
    (undropped : before.run.activity ≠ .ended .dropped) : after.run.activity ≠ .ended .dropped := by
  cases happens with
  | @step now connected run ready =>
      have steps := Run.step_steps now connected run ready
      intro dropped
      generalize (run.step now connected).run = after at steps dropped
      generalize (run.step now connected).call = asked at steps
      cases steps <;> cases dropped
  | lasts | returns | raises => exact fun dropped => by cases dropped
  | cancel => exact absurd rfl uncancelled
  | abort | connection | edit | pass | expire => exact undropped

theorem Moment.next_of_ended {before after : Moment Time} {event : Event Time} {ending : Ending Time}
    (happens : before.Next event after) (ended : before.run.activity = .ended ending) :
    after.run.activity = before.run.activity ∧ after.run.token.steps = before.run.token.steps := by
  cases happens with
  | @step now connected run ready =>
      have ended : run.activity = .ended ending := ended
      simp [Run.canStep, Run.isReady, ended] at ready
  | lasts later activity | returns activity | raises fault activity =>
      cases ended.symm.trans activity
  | cancel =>
      rw [Run.cancel_of_ended ended]
      exact ⟨rfl, rfl⟩
  | abort | connection | edit | pass | expire => exact ⟨rfl, rfl⟩

/-- What a course of a run keeps to under a budget of steps. A budget below
zero counts as none. -/
structure Course.KeepsBudget (blocks : Nat) (maxSteps : Int) {first last : Moment Time}
    (course : Course first last) : Prop where
  pushes : course.pushed ≤ last.run.token.steps
  turns : course.pushed + course.popped ≤ 2 * last.run.token.steps + 1
  steps : last.run.token.steps ≤ maxSteps.toNat + 1
  limit : last.run.token.steps = maxSteps.toNat + 1 ↔
    ∃ budget steps elapsed,
      last.run.ending? = some (.fault (.stepLimit budget steps elapsed)) ∧
        .raises (.stepLimit budget steps elapsed) ∉ course.events
  blockCalls : course.blockCalls ≤ maxSteps.toNat
  homingCalls : course.homingCalls ≤ 1
  moves : course.moves ≤ mostMoves blocks maxSteps
  goesOn : last.run.isEnded = false →
    ∃ event after, last.Next event after ∧ (event.isMove = true ∨ event = .expire)
  terminal : last.run.isEnded = true → last.run.phase.isTerminal = true ∨
    (last.run.ending? = some .dropped ∧ .cancel ∈ course.events)

namespace Course

theorem calls_within_grants {first last : Moment Time} (course : Course first last)
    (nested : first.IsNested) :
    ((course.pushed + course.blockCalls : Nat) : Int) + last.unspent ≤ first.unspent := by
  have balance := course.balances Moment.IsNested Moment.next_nested Moment.spends_granted nested
  rw [total_add, total_zero] at balance
  simpa [pushed, blockCalls] using balance

theorem pops_within_pushes {first last : Moment Time} (course : Course first last) :
    (course.popped : Int) + last.run.depth ≤ first.run.depth + course.pushed :=
  course.balances (fun _ => True) (fun _ _ _ _ known => known)
    (fun before event after happens _ => Moment.spends_depth before event after happens) True.intro

theorem homings_within {first last : Moment Time} (course : Course first last) :
    (course.homingCalls : Int) + last.run.homings ≤ first.run.homings := by
  have balance := course.balances (fun _ => True) (fun _ _ _ _ known => known)
    (fun before event after happens _ => Moment.spends_homings before event after happens)
    True.intro
  rw [total_zero] at balance
  simpa [homingCalls] using balance

theorem moves_within {first last : Moment Time} (course : Course first last) (blocks : List Block)
    (placed : first.run.plan.index = .ofBlocks blocks) :
    (course.moves : Int) + last.run.worth blocks.length ≤ first.run.worth blocks.length := by
  have kept (before : Moment Time) (event : Event Time) (after : Moment Time)
      (happens : before.Next event after) (known : before.run.plan.index = .ofBlocks blocks) :
      after.run.plan.index = .ofBlocks blocks := by
    rw [(Moment.next_terms happens).plan]
    exact known
  have balance := course.balances (fun moment => moment.run.plan.index = .ofBlocks blocks) kept
    (Moment.spends_worth blocks) placed
  rw [total_zero] at balance
  simpa [moves] using balance

end Course

section

variable (now : Time) (connected : Bool) (blocks : List Block) (abilities : Abilities)
  (config : Config) (maxSteps : Int) (maxDuration : Time)

omit [TimeScale Time] in
theorem Moment.initial_nested :
    (initial now connected blocks abilities config (.fresh maxSteps maxDuration)).IsNested := by
  intro position there
  cases there

omit [TimeScale Time] in
theorem Moment.initial_worth :
    (initial now connected blocks abilities config (.fresh maxSteps maxDuration)).run.worth
      blocks.length ≤ mostMoves blocks.length maxSteps := by
  have top : (ChildIndex.ofBlocks blocks).topLevel.length ≤ blocks.length :=
    ChildIndex.members_ofBlocks_length blocks none
  simp only [initial, Run.prepare, Run.worth, Run.allowance, Run.weight, Token.fresh, mostMoves,
    Position.weight, freshWeight, Int.natCast_zero, Int.sub_zero]
  omega

variable {now connected blocks abilities config maxSteps maxDuration} {moment : Moment Time}
  (course : Course
    (.initial now connected blocks abilities config (.fresh maxSteps maxDuration)) moment)

include course

theorem Course.counted : moment.Counts :=
  course.keeps Moment.next_counts (Or.inl (Nat.zero_le _))

theorem Course.steps_within : moment.run.token.steps ≤ maxSteps.toNat + 1 := by
  have budget : moment.run.token.maxSteps = maxSteps := course.terms.maxSteps
  rcases course.counted with within | ⟨spent, -⟩
  · unfold Run.IsWithin at within
    rw [budget] at within
    omega
  · rw [budget] at spent
    exact Nat.le_of_eq spent

theorem Course.spent_iff_limit : moment.run.token.steps = maxSteps.toNat + 1 ↔
    ∃ budget steps elapsed,
      moment.run.ending? = some (.fault (.stepLimit budget steps elapsed)) ∧
        .raises (.stepLimit budget steps elapsed) ∉ course.events := by
  have budget : moment.run.token.maxSteps = maxSteps := course.terms.maxSteps
  have fresh : (Moment.initial now connected blocks abilities config
      (.fresh maxSteps maxDuration)).Counts := Or.inl (Nat.zero_le _)
  constructor
  · intro full
    have beyond : ¬ moment.run.IsWithin := by
      unfold Run.IsWithin
      omega
    rcases course.counted with within | ⟨-, elapsed, ended⟩
    · exact absurd within beyond
    · refine ⟨_, _, elapsed, (moment.run.ending?_eq _).mpr ended, fun raised => ?_⟩
      exact beyond (course.within_of_raised fresh _ raised)
  · rintro ⟨limit, steps, elapsed, ending, unraised⟩
    have unended : (Moment.initial now connected blocks abilities config
        (.fresh maxSteps maxDuration)).run.OwnsLimit limit steps elapsed :=
      fun ended => by cases ended
    have owns := course.owns_limit limit steps elapsed fresh unended unraised
    have spent := owns ((moment.run.ending?_eq _).mp ending)
    rw [spent.1, budget]

theorem Course.ends_terminal (ended : moment.run.isEnded = true) :
    moment.run.phase.isTerminal = true ∨
      (moment.run.ending? = some .dropped ∧ .cancel ∈ course.events) := by
  have undropped (uncancelled : .cancel ∉ course.events) :
      moment.run.activity ≠ .ended .dropped := by
    refine course.keeps_along (fun moment => moment.run.activity ≠ .ended .dropped) ?_
      (fun dropped => by cases dropped)
    intro before event after member happens
    refine Moment.next_undropped before event after happens ?_
    rintro rfl
    exact uncancelled member
  cases activity : moment.run.activity with
  | ended ending =>
      by_cases dropped : ending = .dropped
      · subst dropped
        have cancelled : .cancel ∈ course.events :=
          Classical.byContradiction fun missing => undropped missing activity
        exact Or.inr ⟨(moment.run.ending?_eq _).mpr activity, cancelled⟩
      · have terminal := ending.phase_isTerminal dropped
        exact Or.inl (by simpa [Run.phase, activity] using terminal)
  | _ => simp [Run.isEnded, activity] at ended

/-- Every run terminates under its step budget, whatever its blocks are and
whatever its effector does. -/
theorem run_keeps_budget : course.KeepsBudget blocks.length maxSteps := by
  have budget : moment.run.token.maxSteps = maxSteps := course.terms.maxSteps
  have granted : moment.run.granted ≤ moment.run.token.steps := Nat.min_le_left _ _
  have allowed : moment.run.granted ≤ maxSteps.toNat := by
    rw [← budget]
    exact Nat.min_le_right _ _
  have unspent : -(moment.run.granted : Int) ≤ moment.unspent := by
    unfold Moment.unspent
    omega
  -- Four balances along the course; what is left of each at its end is not negative.
  have grants : ((course.pushed + course.blockCalls : Nat) : Int) + moment.unspent ≤ 0 :=
    course.calls_within_grants
      (Moment.initial_nested now connected blocks abilities config maxSteps maxDuration)
  have pops : (course.popped : Int) + moment.run.depth ≤ (1 : Nat) + course.pushed :=
    course.pops_within_pushes
  have homings : (course.homingCalls : Int) + moment.run.homings ≤ (1 : Nat) :=
    course.homings_within
  have moves := course.moves_within blocks rfl
  have worth := Moment.initial_worth now connected blocks abilities config maxSteps maxDuration
  exact {
    pushes := by omega
    turns := by omega
    steps := course.steps_within
    limit := course.spent_iff_limit
    blockCalls := by omega
    homingCalls := by omega
    moves := by omega
    goesOn := moment.goes_on
    terminal := course.ends_terminal }

end

end ArmProgram
