import ArmProgram.Proofs.Run.Forks

/-!
A larger budget only extends a run. Until a budget first tells them apart two
runs of one program in one world do the same: they differ in their budgets
only. From the delay that one budget cuts short on, that run has nothing left
to do but to wait for its limit or for an abort, and the other one waits at
least as long. So whatever the run with the larger budget goes through, the
other one can be beside it.
-/

namespace ArmProgram

variable {Time : Type} [TimeScale Time]

def Run.Lags (now : Time) (turns : Nat) (run : Run Time) : Prop :=
  match run.activity with
  | .pausing (.till due _) _ => TimeScale.before now due = true
  | .pausing (.turns more _) _ => turns ≤ more ∧ more ≤ 2
  | .rousing more _ => turns ≤ more
  | _ => False

inductive Shadows (fewSteps : Int) (shortTime now : Time) : Track Time → Track Time → Prop where
  | alike (more : Track Time) : Shadows fewSteps shortTime now (more.under fewSteps shortTime) more
  /-- The delay that the smaller budget has cut short comes to its end first. -/
  | capped (more : Track Time) {due later : Time} {capped : Bool} {next : Position}
      (activity : more.run.activity = .pausing (.till later capped) next)
      (first : TimeScale.before later due = false) :
      Shadows fewSteps shortTime now
        ((more.under fewSteps shortTime).busy (.pausing (.till due true) next)) more
  /-- No time was left for the delay, and an abort comes too late. -/
  | lapsing (more : Track Time) {turns : Nat} {next : Position} (few : turns ≤ 2)
      (lags : more.run.Lags now turns) :
      Shadows fewSteps shortTime now
        ((more.under fewSteps shortTime).busy (.pausing (.turns turns true) next)) more
  /-- An abort came at the end of the delay, and the larger budget takes some
  more turns to learn of it. -/
  | leaving (more : Track Time) {turns : Nat} {next : Position}
      (activity : more.run.activity = .rousing turns next) :
      Shadows fewSteps shortTime now
        { (more.under fewSteps shortTime).busy (.ended (.fault .aborted)) with
          endedAt := some now } more
  | spent {less more : Track Time} (calls : less.calls <+: more.calls)
      (steps : less.run.token.steps ≤ more.run.token.steps) (exhausted : less.run.IsOver fewSteps) :
      Shadows fewSteps shortTime now less more

namespace Shadows

variable {fewSteps : Int} {shortTime now : Time} {connected : Bool}

theorem meet_spent {less more : Track Time} (event : Event Time) (later : Time)
    (calls : less.calls <+: more.calls)
    (steps : less.run.token.steps ≤ more.run.token.steps) (exhausted : less.run.IsOver fewSteps) :
    Shadows fewSteps shortTime later (less.meet now connected event)
      (more.meet now connected event) := by
  have grows := more.meet_grows now connected event
  have ended : ∃ ending, less.run.activity = .ended ending := by
    rcases exhausted with ⟨_, _, _, ended⟩ | ⟨_, _, _, _, ended⟩
    · exact ⟨_, ended⟩
    · exact ⟨_, ended⟩
  obtain ⟨ending, ended⟩ := ended
  obtain ⟨activity, sameCalls, sameSteps⟩ := less.meet_ended now connected event ended
  refine .spent ?_ ?_ ?_
  · rw [sameCalls]
    exact calls.trans grows.1
  · rw [sameSteps]
    exact Nat.le_trans steps grows.2
  · unfold Run.IsOver at exhausted ⊢
    rwa [activity, sameSteps]

/-- One step of the same run under two budgets, put into what each has done. -/
theorem of_forks (more : Track Time) {lesser larger : Run.Outcome Time}
    (forks : Run.Forks fewSteps shortTime now lesser larger) :
    Shadows fewSteps shortTime now
      ((more.under fewSteps shortTime).put now lesser.call lesser.run)
      (more.put now larger.call larger.run) := by
  cases forks with
  | same run call =>
      rw [run, call]
      exact .alike (more.put now larger.call larger.run)
  | exhausted ended steps silent =>
      refine .spent ?_ steps ended
      have kept : ((more.under fewSteps shortTime).put now lesser.call lesser.run).calls =
          more.calls := by
        rw [silent]
        exact List.append_nil more.calls
      rw [kept]
      exact more.put_calls now larger.call larger.run
  | @cut pause later next cut activity run silent mute =>
      have same : (more.under fewSteps shortTime).put now lesser.call lesser.run =
          ((more.put now larger.call larger.run).under fewSteps shortTime).busy
            (.pausing pause next) := by
        rw [silent, mute, run]
        simp [Track.put, Track.under, Track.busy, Run.under, Run.isEnded, activity]
      rw [same]
      cases cut with
      | till first => exact .capped _ activity first
      | atOnce ahead => exact .lapsing _ (Nat.le_refl 2) (by simpa [Run.Lags, Track.put, activity])
      | together => exact .lapsing _ (Nat.le_refl 2) (by simp [Run.Lags, Track.put, activity])

variable [ExactTime Time]

omit [ExactTime Time] in
theorem put_paused (more : Track Time) {pause : Pause Time} {next : Position}
    (active : more.run.isEnded = false) (asked : Option Call) (run : Run Time) :
    Shadows fewSteps shortTime now
      (((more.under fewSteps shortTime).busy (.pausing pause next)).put now asked
        (run.under fewSteps shortTime))
      (more.put now asked run) := by
  have same : ((more.under fewSteps shortTime).busy (.pausing pause next)).put now asked
      (run.under fewSteps shortTime) = (more.put now asked run).under fewSteps shortTime := by
    unfold Track.put
    rw [active]
    rfl
  rw [same]
  exact .alike (more.put now asked run)

theorem meet_capped (more : Track Time) {due later : Time} {capped : Bool} {next : Position}
    (activity : more.run.activity = .pausing (.till later capped) next)
    (first : TimeScale.before later due = false) :
    Shadows fewSteps shortTime now
      (((more.under fewSteps shortTime).busy (.pausing (.till due true) next)).meet now connected
        .step)
      (more.meet now connected .step) := by
  generalize small : (more.under fewSteps shortTime).busy (.pausing (.till due true) next) = less
  have waits : less.run.activity = .pausing (.till due true) next := by rw [← small]; rfl
  have signal : less.run.token.aborted = more.run.token.aborted := by rw [← small]; rfl
  have wakes : less.run.canStep now = _ := Run.canStep_till waits
  have wakes' : more.run.canStep now = _ := Run.canStep_till activity
  rw [signal] at wakes
  have active : more.run.isEnded = false := by simp [Run.isEnded, activity]
  cases aborted : more.run.token.aborted with
  | true =>
      rw [aborted] at wakes wakes' signal
      rw [less.meet_step now connected wakes, more.meet_step now connected wakes']
      cases early : TimeScale.before now due with
      | true =>
          -- Both learn of the abort in the same turn.
          have ahead := ExactTime.before_of_before early first
          rw [Run.step_early waits early signal, Run.step_early activity ahead aborted, ← small]
          exact put_paused more active none { more.run with activity := .rousing 1 next }
      | false =>
          rw [Run.step_late waits early signal]
          cases ahead : TimeScale.before now later with
          | true =>
              rw [Run.step_early activity ahead aborted, ← small]
              have same : ((more.under fewSteps shortTime).busy
                  (.pausing (.till due true) next)).put now none
                  { more.run.under fewSteps shortTime with
                    activity := .ended (.fault .aborted) } =
                  { ((more.put now none { more.run with activity := .rousing 1 next }).under fewSteps
                      shortTime).busy (.ended (.fault .aborted)) with endedAt := some now } := by
                rfl
              exact same ▸ .leaving (more.put now none { more.run with activity := .rousing 1 next })
                rfl
          | false =>
              rw [Run.step_late activity ahead aborted, ← small]
              exact put_paused more active none
                { more.run with activity := .ended (.fault .aborted) }
  | false =>
      rw [aborted] at wakes wakes' signal
      cases early : TimeScale.before now due with
      | true =>
          have ahead := ExactTime.before_of_before early first
          rw [early] at wakes
          rw [ahead] at wakes'
          rw [less.meet_wait now connected wakes, more.meet_wait now connected wakes', ← small]
          exact .capped more activity first
      | false =>
          have grows := more.meet_grows now connected .step
          rw [early] at wakes
          rw [less.meet_step now connected wakes, Run.step_overslept waits early rfl signal,
            ← small]
          refine .spent ?_ grows.2 (Or.inl ⟨_, _, _, rfl⟩)
          exact (Track.silent_calls ..).symm ▸ grows.1

omit [ExactTime Time] in
/-- A run that lags takes at most one of its turns. -/
theorem lags_meet (connected : Bool) (more : Track Time) {turns : Nat} (few : turns + 1 ≤ 2)
    (lags : more.run.Lags now (turns + 1)) :
    (more.meet now connected .step).run.Lags now turns ∧
      ∃ activity, more.meet now connected .step =
        { more with run := { more.run with activity } } := by
  cases activity : more.run.activity with
  | pausing pause next =>
      cases pause with
      | turn => simp [Run.Lags, activity] at lags
      | till due capped =>
          -- Its time is still to come, so unless it is aborted it waits and takes no turn.
          have ahead : TimeScale.before now due = true := by simpa [Run.Lags, activity] using lags
          have wakes : more.run.canStep now = _ := Run.canStep_till activity
          cases aborted : more.run.token.aborted with
          | true =>
              rw [aborted] at wakes
              rw [more.meet_step now connected wakes, Run.step_early activity ahead aborted]
              refine ⟨?_, .rousing 1 next, ?_⟩
              · simp only [Run.Lags, Track.put, Run.startle]
                omega
              · simp [Track.put, Run.startle, Run.isEnded]
          | false =>
              rw [aborted, ahead] at wakes
              rw [more.meet_wait now connected wakes]
              exact ⟨by simpa [Run.Lags, activity] using ahead, more.run.activity, rfl⟩
      | turns left capped =>
          have known : turns + 1 ≤ left ∧ left ≤ 2 := by simpa [Run.Lags, activity] using lags
          obtain ⟨left, rfl⟩ : ∃ fewer, left = fewer + 1 := ⟨left - 1, by omega⟩
          have uncut : Pause.cutTurns? (left + 1) = none := by
            unfold Pause.cutTurns?
            split <;> first | omega | rfl
          have goesOn : more.run.step now connected =
              more.run.suspend (.turns left capped) next := by
            simp [Run.step, Run.stir, activity, uncut]
          rw [more.meet_step now connected (Run.canStep_turns activity), goesOn]
          refine ⟨?_, .pausing (.turns left capped) next, ?_⟩
          · simp only [Run.Lags, Track.put, Run.suspend]
            omega
          · simp [Track.put, Run.suspend, Run.isEnded]
  | rousing left next =>
      have known : turns + 1 ≤ left := by simpa [Run.Lags, activity] using lags
      obtain ⟨left, rfl⟩ : ∃ fewer, left = fewer + 1 := ⟨left - 1, by omega⟩
      have wakes : more.run.canStep now = true := by simp [Run.canStep, Run.isReady, activity]
      have goesOn : more.run.step now connected = more.run.startle left next := by
        simp [Run.step, Run.rouse, activity]
      rw [more.meet_step now connected wakes, goesOn]
      refine ⟨?_, .rousing left next, ?_⟩
      · simp only [Run.Lags, Track.put, Run.startle]
        omega
      · simp [Track.put, Run.startle, Run.isEnded]
  | _ => simp [Run.Lags, activity] at lags

omit [ExactTime Time] in
/-- An abort does not shorten what is left of such a pause. -/
theorem meet_turns (connected : Bool) (more : Track Time) {turns : Nat} (few : turns + 1 ≤ 2)
    (next : Position) :
    ((more.under fewSteps shortTime).busy (.pausing (.turns (turns + 1) true) next)).meet now
        connected .step =
      (more.under fewSteps shortTime).busy (.pausing (.turns turns true) next) := by
  have uncut : Pause.cutTurns? (turns + 1) = none := by
    unfold Pause.cutTurns?
    split <;> first | omega | rfl
  rw [Track.meet_step now connected _ (Run.canStep_turns rfl)]
  simp [Run.step, Run.stir, uncut, Track.put, Track.busy, Track.under, Run.under, Run.suspend,
    Run.isEnded]

omit [ExactTime Time] in
theorem meet_lapsing (more : Track Time) {turns : Nat} {next : Position} (few : turns ≤ 2)
    (lags : more.run.Lags now turns) :
    Shadows fewSteps shortTime now
      (((more.under fewSteps shortTime).busy (.pausing (.turns turns true) next)).meet now connected
        .step)
      (more.meet now connected .step) := by
  cases turns with
  | zero =>
      have grows := more.meet_grows now connected .step
      rw [Track.meet_step now connected _ (Run.canStep_turns rfl), Run.step_lapsed rfl]
      refine .spent ?_ grows.2 (Or.inl ⟨_, _, _, rfl⟩)
      exact (Track.silent_calls ..).symm ▸ grows.1
  | succ turns =>
      obtain ⟨lagging, activity, same⟩ := lags_meet connected more few lags
      have stays : ((more.meet now connected .step).under fewSteps shortTime).busy
          (.pausing (.turns turns true) next) =
            (more.under fewSteps shortTime).busy (.pausing (.turns turns true) next) := by
        rw [same]
        rfl
      rw [meet_turns connected more few, ← stays]
      exact .lapsing _ (Nat.le_of_succ_le few) lagging

omit [ExactTime Time] in
theorem meet_leaving (more : Track Time) {turns : Nat} {next : Position}
    (activity : more.run.activity = .rousing turns next) :
    Shadows fewSteps shortTime now
      { (more.under fewSteps shortTime).busy (.ended (.fault .aborted)) with endedAt := some now }
      (more.meet now connected .step) := by
  have wakes : more.run.canStep now = true := by simp [Run.canStep, Run.isReady, activity]
  rw [more.meet_step now connected wakes]
  cases turns with
  | zero =>
      have ends : more.run.step now connected = more.run.fail now .aborted := by
        simp [Run.step, Run.rouse, activity]
      have same : { (more.under fewSteps shortTime).busy (.ended (.fault .aborted)) with
          endedAt := some now } = (more.put now none (more.run.fail now .aborted).run).under
            fewSteps shortTime := by
        simp [Track.put, Track.busy, Track.under, Run.under, Run.fail, Run.finish, Run.isEnded,
          activity]
      rw [ends]
      exact same ▸ .alike _
  | succ turns =>
      have goesOn : more.run.step now connected = more.run.startle turns next := by
        simp [Run.step, Run.rouse, activity]
      have same : { (more.under fewSteps shortTime).busy (.ended (.fault .aborted)) with
          endedAt := some now } =
            { ((more.put now none (more.run.startle turns next).run).under fewSteps shortTime).busy
                (.ended (.fault .aborted)) with endedAt := some now } := by
        simp [Track.put, Track.busy, Track.under, Run.under, Run.startle]
      rw [goesOn]
      exact same ▸ .leaving _ rfl

theorem turn (fewer : fewSteps ≤ more.run.token.maxSteps)
    (shorter : TimeScale.before more.run.token.maxDuration shortTime = false)
    (shadows : Shadows fewSteps shortTime now less more) :
    Shadows fewSteps shortTime now (less.meet now connected .step)
      (more.meet now connected .step) := by
  cases shadows with
  | alike =>
      have same : (more.under fewSteps shortTime).run.canStep now = more.run.canStep now := rfl
      cases ready : more.run.canStep now with
      | true =>
          rw [Track.meet_step now connected _ (same.trans ready),
            more.meet_step now connected ready]
          exact of_forks more (Run.step_forks connected fewer shorter)
      | false =>
          rw [Track.meet_wait now connected _ (same.trans ready),
            more.meet_wait now connected ready]
          exact .alike more
  | capped _ activity first => exact meet_capped more activity first
  | lapsing _ few lags => exact meet_lapsing more few lags
  | leaving _ activity => exact meet_leaving more activity
  | spent calls steps exhausted => exact meet_spent .step now calls steps exhausted

omit [ExactTime Time] in
theorem uncalled_of_lags {run : Run Time} {turns : Nat} (lags : run.Lags now turns) (call : Call)
    (due : Option Time) (next : Position) : run.activity ≠ .calling call due next := by
  intro activity
  simp [Run.Lags, activity] at lags

omit [ExactTime Time] in
/-- Only runs that still do the same are in a call together. -/
theorem effect {event : Event Time} (effect : event.endsCall = true)
    (shadows : Shadows fewSteps shortTime now less more) :
    Shadows fewSteps shortTime now (less.meet now connected event)
      (more.meet now connected event) := by
  cases shadows with
  | alike =>
      rw [Track.meet_under now connected event more]
      · exact .alike _
      · rintro rfl
        cases effect
  | capped _ activity first =>
      rw [Track.meet_uncalled now connected event _ (fun _ _ _ called => by cases called) effect,
        more.meet_uncalled now connected event (by simp [activity]) effect]
      exact .capped more activity first
  | lapsing _ few lags =>
      rw [Track.meet_uncalled now connected event _ (fun _ _ _ called => by cases called) effect,
        more.meet_uncalled now connected event (uncalled_of_lags lags) effect]
      exact .lapsing more few lags
  | leaving _ activity =>
      rw [Track.meet_uncalled now connected event _ (fun _ _ _ called => by cases called) effect,
        more.meet_uncalled now connected event (by simp [activity]) effect]
      exact .leaving more activity
  | spent calls steps exhausted => exact meet_spent event now calls steps exhausted

omit [ExactTime Time] in
theorem abort (shadows : Shadows fewSteps shortTime now less more) :
    Shadows fewSteps shortTime now (less.meet now connected .abort)
      (more.meet now connected .abort) := by
  rw [more.meet_abort, less.meet_abort]
  cases shadows with
  | alike => exact .alike { more with run := more.run.abort }
  | capped _ activity first => exact .capped { more with run := more.run.abort } activity first
  | lapsing _ few lags => exact .lapsing { more with run := more.run.abort } few lags
  | leaving _ activity => exact .leaving { more with run := more.run.abort } activity
  | spent calls steps exhausted => exact .spent calls steps exhausted

omit [ExactTime Time] in
theorem edit (place : Nat) (parameters : Parameters)
    (shadows : Shadows fewSteps shortTime now less more) :
    Shadows fewSteps shortTime now (less.meet now connected (.edit place parameters))
      (more.meet now connected (.edit place parameters)) := by
  rw [more.meet_edit, less.meet_edit]
  let edited : Track Time := { more with run := more.run.rewrite place parameters }
  cases shadows with
  | alike => exact .alike edited
  | capped _ activity first => exact .capped edited activity first
  | lapsing _ few lags => exact .lapsing edited few lags
  | leaving _ activity => exact .leaving edited activity
  | spent calls steps exhausted => exact .spent calls steps exhausted

omit [ExactTime Time] in
theorem cancel (present : less.run.isEnded = true → less.run.isLimited = true)
    (shadows : Shadows fewSteps shortTime now less more) :
    Shadows fewSteps shortTime now (less.meet now connected .cancel)
      (more.meet now connected .cancel) := by
  -- Both runs are in a pause, or the abort reaches the larger one there.
  have together {pause : Pause Time} {next : Position}
      (suspended : more.run.cancel = { more.run with activity := .ended .cancelled })
      (active : more.run.isEnded = false) :
      Shadows fewSteps shortTime now
        (((more.under fewSteps shortTime).busy (.pausing pause next)).meet now connected .cancel)
        (more.meet now connected .cancel) := by
    simp only [Track.meet, suspended]
    exact put_paused more active none { more.run with activity := .ended .cancelled }
  cases shadows with
  | alike =>
      rw [Track.meet_under now connected .cancel more _ _ (by simp)]
      exact .alike _
  | capped _ activity first =>
      exact together (by simp [Run.cancel, activity]) (by simp [Run.isEnded, activity])
  | lapsing _ few lags =>
      cases activity : more.run.activity with
      | pausing | rousing =>
          exact together (by simp [Run.cancel, activity]) (by simp [Run.isEnded, activity])
      | _ => simp [Run.Lags, activity] at lags
  | leaving => cases present rfl
  | spent calls steps exhausted => exact meet_spent .cancel now calls steps exhausted

omit [ExactTime Time] in
theorem pass {later : Time} (less_reaches : less.run.Reaches now later)
    (more_reaches : more.run.Reaches now later)
    (shadows : Shadows fewSteps shortTime now less more) :
    Shadows fewSteps shortTime later less more := by
  cases shadows with
  | alike => exact .alike more
  | capped _ activity first => exact .capped more activity first
  | lapsing => exact less_reaches.2.elim
  | leaving _ activity =>
      have held := more_reaches.2
      rw [activity] at held
      exact held.elim
  | spent calls steps exhausted => exact .spent calls steps exhausted

end Shadows

namespace Pair

variable {fewSteps manySteps : Int} {shortTime longTime : Time}

structure IsShadow (fewSteps : Int) (shortTime : Time) (pair : Pair Time) : Prop where
  fewer : fewSteps ≤ pair.more.run.token.maxSteps
  shorter : TimeScale.before pair.more.run.token.maxDuration shortTime = false
  shadows : Shadows fewSteps shortTime pair.now pair.less pair.more

variable [ExactTime Time]

theorem after_shadow (pair : Pair Time) (event : Event Time) (allowed : pair.Allows event)
    (shadow : pair.IsShadow fewSteps shortTime) :
    (pair.after event).IsShadow fewSteps shortTime := by
  obtain ⟨fewer, shorter, shadows⟩ := shadow
  obtain ⟨lessAllows, moreAllows, present⟩ := allowed
  have terms : (pair.after event).more.run.SameTerms pair.more.run := by
    rcases pair.more.meet_next pair.now pair.connected event moreAllows with same | ⟨_, happens⟩
    · have still : (pair.after event).more.run = pair.more.run := congrArg Moment.run same
      rw [still]
      exact .refl _
    · exact Moment.next_terms happens
  constructor
  · rw [terms.maxSteps]
    exact fewer
  · rw [terms.maxDuration]
    exact shorter
  · change Shadows fewSteps shortTime (event.clock pair.now)
      (pair.less.meet pair.now pair.connected event) (pair.more.meet pair.now pair.connected event)
    cases event with
    | step => exact shadows.turn fewer shorter
    | lasts | returns | raises => exact shadows.effect rfl
    | abort => exact shadows.abort
    | cancel => exact shadows.cancel (present rfl)
    | connection => exact shadows
    | edit place parameters => exact shadows.edit place parameters
    | pass later => exact shadows.pass lessAllows moreAllows
    | expire => exact lessAllows.elim

def initial (now : Time) (connected : Bool) (blocks : List Block) (abilities : Abilities)
    (config : Config) (fewSteps manySteps : Int) (shortTime longTime : Time) : Pair Time :=
  { now, connected
    less := .fresh (.prepare blocks abilities config (.fresh fewSteps shortTime))
    more := .fresh (.prepare blocks abilities config (.fresh manySteps longTime)) }

/-- What the larger budget makes of a run. The runs are compared where the
larger one has no step to take at this very time. -/
structure Extends (fewSteps : Int) (pair : Pair Time) : Prop where
  calls : pair.less.calls <+: pair.more.calls
  steps : pair.less.run.token.steps ≤ pair.more.run.token.steps
  unlimited : pair.less.run.isLimited = false →
    pair.less.calls = pair.more.calls ∧ pair.less.run.token.steps = pair.more.run.token.steps ∧
      (pair.more.run.canStep pair.now = false →
        pair.less.run.ending? = pair.more.run.ending? ∧ pair.less.endedAt = pair.more.endedAt)
  completes : pair.more.run.ending? = some .completed →
    (∀ budget steps elapsed,
      pair.less.run.ending? ≠ some (.fault (.timeLimit budget steps elapsed))) →
    (pair.less.run.ending? = some .completed ↔ pair.more.run.token.steps ≤ fewSteps.toNat)

omit [ExactTime Time] in
theorem extends_of_waiting {now : Time} {connected : Bool} {activity : Activity Time}
    {more : Track Time} (waits : ∀ ending, activity ≠ .ended ending)
    (waiting : ∀ ending, more.run.activity ≠ .ended ending) :
    Extends fewSteps ⟨now, connected, (more.under fewSteps shortTime).busy activity, more⟩ := by
  have unended : more.run.ending? = none := by
    unfold Run.ending?
    split
    · exact absurd ‹_› (waiting _)
    · rfl
  have unended' : ((more.under fewSteps shortTime).busy activity).run.ending? = none := by
    cases activity with
    | ended ending => exact absurd rfl (waits ending)
    | _ => rfl
  constructor
  · exact List.prefix_rfl
  · exact Nat.le_refl _
  · intro _
    exact ⟨rfl, rfl, fun _ => ⟨unended'.trans unended.symm, rfl⟩⟩
  · intro completed
    rw [unended] at completed
    cases completed

omit [ExactTime Time] in
theorem extends_of_shadow {pair : Pair Time} (shadow : pair.IsShadow fewSteps shortTime)
    (budget : pair.less.run.token.maxSteps = fewSteps)
    (counts : pair.less.run.IsWithin ∨ pair.less.run.IsSpent) : pair.Extends fewSteps := by
  obtain ⟨now, connected, less, more⟩ := pair
  have shadows : Shadows fewSteps shortTime now less more := shadow.shadows
  cases shadows with
  | alike =>
      constructor
      · exact List.prefix_rfl
      · exact Nat.le_refl _
      · exact fun _ => ⟨rfl, rfl, fun _ => ⟨rfl, rfl⟩⟩
      · intro completed _
        -- A run that has completed is not spent, so the smaller limit was enough for it.
        have within : more.run.token.steps ≤ fewSteps.toNat := by
          rcases counts with within | ⟨-, elapsed, spent⟩
          · exact within
          · have ended := (more.run.ending?_eq _).mp completed
            cases ended.symm.trans spent
        exact ⟨fun _ => within, fun _ => completed⟩
  | capped _ activity => exact extends_of_waiting nofun (by simp [activity])
  | lapsing _ few lags =>
      refine extends_of_waiting nofun ?_
      intro ending activity
      simp [Run.Lags, activity] at lags
  | leaving _ activity =>
      -- The larger run has still to learn of the abort, so it is not at rest.
      constructor
      · exact List.prefix_rfl
      · exact Nat.le_refl _
      · intro _
        refine ⟨rfl, rfl, fun resting => ?_⟩
        simp [Run.canStep, Run.isReady, activity] at resting
      · intro completed
        simp [Run.ending?, activity] at completed
  | spent calls steps exhausted =>
      constructor
      · exact calls
      · exact steps
      · intro unlimited
        rcases exhausted with ⟨_, _, _, ended⟩ | ⟨_, _, _, _, ended⟩
        · simp [Run.isLimited, ended] at unlimited
        · simp [Run.isLimited, ended] at unlimited
      · intro _ timely
        rcases exhausted with ⟨_, _, _, ended⟩ | ⟨beyond, _, _, _, ended⟩
        · exact absurd ((less.run.ending?_eq _).mpr ended) (timely _ _ _)
        · have limited := (less.run.ending?_eq _).mpr ended
          constructor
          · intro completed
            cases limited.symm.trans completed
          · intro within
            exact absurd (Nat.lt_of_lt_of_le beyond steps) (Nat.not_lt.mpr within)

/-! Every course of the run with the larger budget is one half of two runs. -/

omit [ExactTime Time] in
theorem reaches_of_ended {now later : Time} {run : Run Time}
    (ahead : TimeScale.before now later = true)
    (ended : run.isEnded = true) : run.Reaches now later := by
  refine ⟨ahead, ?_⟩
  cases activity : run.activity with
  | ended => trivial
  | _ => simp [Run.isEnded, activity] at ended

theorem waits_of_reaches {now later due : Time} {capped : Bool} {next : Position} {run : Run Time}
    (reaches : run.Reaches now later) (activity : run.activity = .pausing (.till due capped) next) :
    run.token.aborted = false ∧ TimeScale.before now due = true ∧
      TimeScale.before due later = false := by
  obtain ⟨ahead, held⟩ := reaches
  rw [activity] at held
  obtain ⟨unaborted, early | rfl⟩ := held
  · have late := ExactTime.asymm early
    exact ⟨unaborted, ExactTime.before_of_before ahead late, late⟩
  · exact ⟨unaborted, ahead, ExactTime.before_self later⟩

def CatchesUp (pair : Pair Time) (later : Time) : Prop :=
  ∃ last, pair.Plays last ∧ last.now = later ∧ last.connected = pair.connected ∧
    last.more.run = pair.more.run

omit [ExactTime Time] in
theorem catchesUp_pass {pair : Pair Time} {later : Time}
    (less : pair.less.run.Reaches pair.now later) (more : pair.more.run.Reaches pair.now later) :
    pair.CatchesUp later :=
  ⟨pair.after (.pass later), .next (.pass later) ⟨less, more, nofun⟩ (.here _), rfl, rfl, rfl⟩

omit [ExactTime Time] in
/-- A turn that only the run with the smaller budget takes. -/
theorem catchesUp_turn {pair : Pair Time} {later : Time}
    (resting : pair.more.run.canStep pair.now = false)
    (catches : (pair.after .step).CatchesUp later) : pair.CatchesUp later := by
  have still : (pair.after .step).more = pair.more :=
    pair.more.meet_wait pair.now pair.connected resting
  obtain ⟨last, plays, time, same, run⟩ := catches
  refine ⟨last, .next .step ⟨trivial, trivial, nofun⟩ plays, time, same, ?_⟩
  rw [run, still]

theorem canStep_of_reaches {now later due : Time} {capped : Bool} {next : Position}
    {run : Run Time} (reaches : run.Reaches now later)
    (activity : run.activity = .pausing (.till due capped) next) : run.canStep now = false := by
  obtain ⟨unaborted, ahead, -⟩ := waits_of_reaches reaches activity
  simp [Run.canStep_till activity, unaborted, ahead]

omit [ExactTime Time] in
/-- The smaller budget ends its run in the turn in which its pause is over. -/
theorem meet_over {now : Time} {connected : Bool} {less : Track Time} {pause : Pause Time}
    {next : Position} (activity : less.run.activity = .pausing pause next)
    (exhausted : (less.run.token.aborted = false ∧
      ∃ due, pause = .till due true ∧ TimeScale.before now due = false) ∨ pause = .turns 0 true) :
    (less.meet now connected .step).run.isEnded = true := by
  rcases exhausted with ⟨unaborted, due, rfl, late⟩ | rfl
  · have ready : less.run.canStep now = true := by simp [Run.canStep_till activity, late]
    rw [less.meet_step now connected ready, Run.step_overslept activity late rfl unaborted]
    rfl
  · have ready : less.run.canStep now = true := by
      simp [Run.canStep, Run.isReady, activity, Pause.isOver]
    rw [less.meet_step now connected ready]
    simp [Run.step, Run.stir, activity, Pause.isOver, Run.wake, Token.afterPause, Track.put,
      Run.fail, Run.finish, Run.isEnded]

theorem catchesUp_over {pair : Pair Time} {later due : Time} {capped : Bool}
    {next : Position} (reaches : pair.more.run.Reaches pair.now later)
    (activity : pair.more.run.activity = .pausing (.till due capped) next)
    (ended : (pair.less.meet pair.now pair.connected .step).run.isEnded = true) :
    pair.CatchesUp later := by
  have resting := canStep_of_reaches reaches activity
  have still : (pair.after .step).more = pair.more :=
    pair.more.meet_wait pair.now pair.connected resting
  refine catchesUp_turn resting (catchesUp_pass (reaches_of_ended reaches.1 ended) ?_)
  rw [still]
  exact reaches

theorem catchesUp_capped {now later due : Time} {connected : Bool} {more : Track Time}
    {till : Time} {capped : Bool} {next : Position} (reaches : more.run.Reaches now later)
    (activity : more.run.activity = .pausing (.till till capped) next) :
    CatchesUp ⟨now, connected,
      (more.under fewSteps shortTime).busy (.pausing (.till due true) next), more⟩ later := by
  obtain ⟨unaborted, ahead, last⟩ := waits_of_reaches reaches activity
  cases short : TimeScale.before due later with
  | false =>
      -- Both pauses last until then.
      have within : TimeScale.before later due = true ∨ later = due := by
        cases early : TimeScale.before later due with
        | true => exact Or.inl rfl
        | false => exact Or.inr (ExactTime.eq_of_not_before early short)
      exact catchesUp_pass ⟨reaches.1, unaborted, within⟩ reaches
  | true =>
      cases early : TimeScale.before now due with
      | false =>
          apply catchesUp_over reaches activity
          exact meet_over rfl (Or.inl ⟨unaborted, due, rfl, early⟩)
      | true =>
          -- The smaller budget ends its run first, and then the time goes on.
          have sooner := ExactTime.before_of_before short last
          have reaches' : more.run.Reaches now due := by
            refine ⟨early, ?_⟩
            rw [activity]
            exact ⟨unaborted, Or.inl sooner⟩
          have exhausted : CatchesUp ⟨due, connected,
              (more.under fewSteps shortTime).busy (.pausing (.till due true) next), more⟩ later :=
            catchesUp_over ⟨short, reaches.2⟩ activity
              (meet_over rfl (Or.inl ⟨unaborted, due, rfl, ExactTime.before_self due⟩))
          obtain ⟨final, plays, rest⟩ := exhausted
          exact ⟨final, .next (.pass due) ⟨⟨early, unaborted, Or.inr rfl⟩, reaches', nofun⟩ plays,
            rest⟩

theorem catchesUp_lapsing {now later due : Time} {connected : Bool} {more : Track Time}
    {turns : Nat} {capped : Bool} {next beyond : Position} (few : turns ≤ 2)
    (activity : more.run.activity = .pausing (.till due capped) beyond)
    (reaches : more.run.Reaches now later) :
    CatchesUp ⟨now, connected,
      (more.under fewSteps shortTime).busy (.pausing (.turns turns true) next), more⟩ later := by
  induction turns with
  | zero => exact catchesUp_over reaches activity (meet_over rfl (Or.inr rfl))
  | succ turns ih =>
      have resting := canStep_of_reaches reaches activity
      have stepped : (Pair.mk now connected ((more.under fewSteps shortTime).busy
          (.pausing (.turns (turns + 1) true) next)) more).after .step =
            ⟨now, connected,
              (more.under fewSteps shortTime).busy (.pausing (.turns turns true) next), more⟩ := by
        unfold after
        rw [Shadows.meet_turns connected more few next, more.meet_wait now connected resting]
        rfl
      refine catchesUp_turn resting ?_
      rw [stepped]
      exact ih (Nat.le_of_succ_le few)

theorem catchesUp {pair : Pair Time} {later : Time} (shadow : pair.IsShadow fewSteps shortTime)
    (reaches : pair.more.run.Reaches pair.now later) : pair.CatchesUp later := by
  obtain ⟨now, connected, less, more⟩ := pair
  have shadows : Shadows fewSteps shortTime now less more := shadow.shadows
  cases shadows with
  | alike => exact catchesUp_pass reaches reaches
  | capped _ activity first => exact catchesUp_capped reaches activity
  | lapsing _ few lags =>
      -- Time passes for the larger one, so its pause lasts to a point in time.
      have held := reaches.2
      cases activity : more.run.activity with
      | pausing pause next =>
          rw [activity] at held
          cases pause with
          | turn | turns => exact held.elim
          | till due capped => exact catchesUp_lapsing few activity reaches
      | rousing =>
          rw [activity] at held
          exact held.elim
      | _ => simp [Run.Lags, activity] at lags
  | leaving _ activity =>
      have held := reaches.2
      rw [activity] at held
      exact held.elim
  | spent calls steps exhausted =>
      refine catchesUp_pass (reaches_of_ended reaches.1 ?_) reaches
      rcases exhausted with ⟨_, _, _, ended⟩ | ⟨_, _, _, _, ended⟩
      · simp [Run.isEnded, ended]
      · simp [Run.isEnded, ended]

omit [ExactTime Time] in
theorem isOpen_of_shadow {now : Time} {less more : Track Time}
    (shadows : Shadows fewSteps shortTime now less more) (suspended : more.run.isOpen = true) :
    less.run.isOpen = true := by
  cases shadows with
  | alike => exact suspended
  | capped | lapsing | leaving => rfl
  | spent calls steps exhausted =>
      rcases exhausted with ⟨_, _, _, ended⟩ | ⟨_, _, _, _, ended⟩
      · simp [Run.isOpen, ended]
      · simp [Run.isOpen, ended]

/-- Whatever may happen next to the run with the larger budget may happen to both. -/
theorem accompanies_next {pair : Pair Time} (shadow : pair.IsShadow fewSteps shortTime)
    {event : Event Time} {after : Moment Time}
    (happens : Moment.Next ⟨pair.now, pair.connected, pair.more.run⟩ event after)
    (uncancelled : event ≠ .cancel) :
    ∃ last, pair.Plays last ∧ after = ⟨last.now, last.connected, last.more.run⟩ := by
  have waited {later : Time} (reaches : pair.more.run.Reaches pair.now later) :
      ∃ last, pair.Plays last ∧ (⟨later, pair.connected, pair.more.run⟩ : Moment Time) =
        ⟨last.now, last.connected, last.more.run⟩ := by
    obtain ⟨last, plays, rfl, same, run⟩ := catchesUp shadow reaches
    exact ⟨last, plays, by rw [same, run]⟩
  have suspend (suspended : pair.more.run.isOpen = true) : pair.less.run.isOpen = true :=
    isOpen_of_shadow shadow.shadows suspended
  have once (event : Event Time) (other : event ≠ .cancel)
      (less : pair.less.run.Allows pair.now event) (more : pair.more.run.Allows pair.now event) :
      pair.Plays (pair.after event) :=
    .next event ⟨less, more, fun same => absurd same other⟩ (.here _)
  cases happens with
  | step ready =>
      refine ⟨_, once .step uncancelled trivial trivial, ?_⟩
      have stepped := pair.more.meet_step pair.now pair.connected ready
      simp only [after, stepped]
      rfl
  | lasts later activity =>
      refine ⟨_, once (.lasts later) uncancelled trivial trivial, ?_⟩
      simp only [after, Track.meet, activity]
      rfl
  | returns activity =>
      refine ⟨_, once .returns uncancelled trivial trivial, ?_⟩
      simp only [after, Track.meet, activity]
      rfl
  | raises fault activity =>
      refine ⟨_, once (.raises fault) uncancelled trivial trivial, ?_⟩
      simp only [after, Track.meet, activity]
      rfl
  | abort suspended =>
      exact ⟨_, once .abort uncancelled (suspend suspended) suspended, rfl⟩
  | cancel => exact absurd rfl uncancelled
  | connection reported suspended =>
      exact ⟨_, once (.connection reported) uncancelled (suspend suspended) suspended, rfl⟩
  | edit place parameters suspended =>
      exact ⟨_, once (.edit place parameters) uncancelled (suspend suspended) suspended, rfl⟩
  | pass later waiting => exact waited (Run.reaches_of_waits waiting)
  | expire activity unaborted ahead =>
      refine waited ⟨ahead, ?_⟩
      rw [activity]
      exact ⟨unaborted, Or.inr rfl⟩

theorem accompanies {pair : Pair Time} (shadow : pair.IsShadow fewSteps shortTime)
    {first last : Moment Time} (course : Course first last)
    (begins : first = ⟨pair.now, pair.connected, pair.more.run⟩)
    (uncancelled : .cancel ∉ course.events) :
    ∃ final, pair.Plays final ∧ last = ⟨final.now, final.connected, final.more.run⟩ := by
  induction course generalizing pair with
  | here => exact ⟨pair, .here pair, begins⟩
  | next event happens rest ih =>
      subst begins
      have first : event ≠ .cancel := by
        rintro rfl
        exact uncancelled List.mem_cons_self
      obtain ⟨middle, plays, same⟩ := accompanies_next shadow happens first
      obtain ⟨final, onwards, ends⟩ := ih (plays.keeps after_shadow shadow) same
        fun later => uncancelled (List.mem_cons_of_mem _ later)
      exact ⟨final, plays.trans onwards, ends⟩

/-- A larger budget of steps, of time or of both only extends a run, whatever
its blocks are, whatever its effector does and whatever others do meanwhile.
Without a limit to the smaller one the two runs are the same, and one that
completes after so many steps completes under every budget that allows them.
The run with the smaller budget is there whatever the larger one goes through,
unless that is cancelled. -/
theorem larger_budget_extends (now : Time) (connected : Bool) (blocks : List Block)
    (abilities : Abilities) (config : Config) (fewer : fewSteps ≤ manySteps)
    (shorter : TimeScale.before longTime shortTime = false) {pair : Pair Time}
    (plays : (initial now connected blocks abilities config fewSteps manySteps shortTime
      longTime).Plays pair) :
    pair.Extends fewSteps ∧
      ∀ (last : Moment Time) (course : Course ⟨pair.now, pair.connected, pair.more.run⟩ last),
        .cancel ∉ course.events →
        ∃ final, pair.Plays final ∧ last = ⟨final.now, final.connected, final.more.run⟩ := by
  have shadow : pair.IsShadow fewSteps shortTime :=
    plays.keeps after_shadow ⟨fewer, shorter,
      .alike (.fresh (.prepare blocks abilities config (.fresh manySteps longTime)))⟩
  refine ⟨?_, fun last course => accompanies shadow course rfl⟩
  obtain ⟨⟨course⟩, -⟩ := plays.courses
  have budget : pair.less.run.token.maxSteps = fewSteps := course.terms.maxSteps
  have counts : pair.less.run.IsWithin ∨ pair.less.run.IsSpent :=
    course.keeps Moment.next_counts (Or.inl (Nat.zero_le _))
  exact extends_of_shadow shadow budget counts

def gripsAndRest : List Block :=
  [⟨"open", "open_gripper", .empty, none, none⟩, ⟨"close", "close_gripper", .empty, none, none⟩,
    ⟨"rest", "wait_seconds", .ofList [("seconds", .text "1e999")], none, none⟩]

/-- One step is allowed, or one for each block. No time is enough for the last of them. -/
def twoBudgets : Pair EndlessTime :=
  initial 0 true gripsAndRest ⟨false, true, true, .off⟩
    { Config.default with interBlockDelay := 0 } 1 3 (TimeScale.ofSeconds 300)
    (TimeScale.ofSeconds 600)

theorem second_grip_needs_second_step : ∃ pair, twoBudgets.Plays pair ∧
    pair.less.calls.map (·.call.name) = ["open_gripper"] ∧
    pair.more.calls.map (·.call.name) = ["open_gripper", "close_gripper"] ∧
    pair.more.endedAt = some (TimeScale.ofSeconds 600) ∧ pair.Extends 1 := by
  have turn {pair last : Pair EndlessTime} (rest : (pair.after .step).Plays last) :
      pair.Plays last :=
    .next .step ⟨trivial, trivial, nofun⟩ rest
  have back {pair last : Pair EndlessTime} (rest : (pair.after .returns).Plays last) :
      pair.Plays last :=
    .next .returns ⟨trivial, trivial, nofun⟩ rest
  have pass {pair last : Pair EndlessTime} (later : EndlessTime)
      (less : pair.less.run.Reaches pair.now later) (more : pair.more.run.Reaches pair.now later)
      (rest : (pair.after (.pass later)).Plays last) : pair.Plays last :=
    .next (.pass later) ⟨less, more, nofun⟩ rest
  obtain ⟨pair, plays, less, more, ended⟩ : ∃ pair, twoBudgets.Plays pair ∧
      pair.less.calls.map (·.call.name) = ["open_gripper"] ∧
      pair.more.calls.map (·.call.name) = ["open_gripper", "close_gripper"] ∧
      pair.more.endedAt = some (TimeScale.ofSeconds 600) := by
    refine ⟨_, turn <| turn <| turn <| turn <| turn <| back <|
      turn <| turn <| turn <| turn <| turn <| back <|
      turn <| turn <| turn <| turn <| turn <| pass (TimeScale.ofSeconds 600) ?_ ?_ <|
      turn <| .here _, ?_, ?_, ?_⟩
    all_goals decide +kernel
  exact ⟨pair, plays, less, more, ended,
    (larger_budget_extends 0 true _ _ _ (by decide) (by decide +kernel) plays).1⟩

end Pair

end ArmProgram
