import ArmProgram.Proofs.Decimal.Exact
import ArmProgram.Proofs.Run.Moment

/-!
The deadline of a run, in exact time. A delay that reaches past the deadline is
cut there, and one that begins behind it ends at once, so only a call can take the
clock past the deadline. Budgets and lengths may be infinite.
-/

namespace ArmProgram

noncomputable def exactly (x : Float) : EReal :=
  match Decimal.value? x with
  | some value => ((value : ℝ) : EReal)
  | none => if 0 < x then ⊤ else if x < 0 then ⊥ else 0

noncomputable instance : TimeScale EReal where
  zero := 0
  add := (· + ·)
  sub := (· - ·)
  before first second := decide (first < second)
  ofSeconds := exactly
  ofMillis
    | .int n => ((n / 1000 : ℝ) : EReal)
    | .double x => exactly x / 1000

theorem before_iff (first second : EReal) :
    TimeScale.before first second = true ↔ first < second :=
  decide_eq_true_iff

theorem exactly_pos {x : Float} (positive : 0 < x) : 0 < exactly x := by
  unfold exactly
  cases known : Decimal.value? x with
  | none => simp [positive]
  | some value =>
      have zero : Decimal.value? 0 = some 0 := by rw [Decimal.value?_unpack]; rfl
      have above : 0 < value := (Decimal.lt_iff_value_lt 0 x 0 value zero known).mp positive
      exact EReal.coe_pos.mpr (Rat.cast_pos.mpr above)

theorem ofMillis_pos {ms : Number} (positive : ms.isPositive = true) :
    (0 : EReal) < TimeScale.ofMillis ms := by
  cases ms with
  | int n =>
      have above : 0 < n := of_decide_eq_true positive
      have length : (0 : ℝ) < n / 1000 := by positivity
      exact EReal.coe_pos.mpr length
  | double x =>
      have above : 0 < x := of_decide_eq_true positive
      exact EReal.div_pos (exactly_pos above) (by norm_num) (EReal.natCast_ne_top 1000)

/-- What is left of a budget takes the clock from now to the deadline. -/
theorem now_add_left (start now : ℝ) (budget : EReal) :
    (now : EReal) + (budget - (now - start)) = start + budget := by
  induction budget using EReal.rec with
  | bot => simp
  | top => rw [← EReal.coe_sub, EReal.top_sub_coe, EReal.coe_add_top, EReal.coe_add_top]
  | coe budget =>
      norm_cast
      ring

theorem now_add_lt_iff (now : ℝ) (first second : EReal) :
    (now : EReal) + first < now + second ↔ first < second :=
  lt_iff_lt_of_le_iff_le (EReal.addLECancellable_coe now).add_le_add_iff_left

theorem ofLength_positive (now : ℝ) {length : EReal} (positive : 0 < length) (capped : Bool) :
    Pause.ofLength (now : EReal) length capped = .till (now + length) capped := by
  have ahead : (now : EReal) < now + length := by
    have later := (now_add_lt_iff now 0 length).mpr positive
    rwa [add_zero] at later
  exact if_pos ((before_iff _ _).mpr ahead)

theorem ofLength_zero (now : EReal) (capped : Bool) :
    Pause.ofLength now 0 capped = .turns 2 capped := by
  have still : TimeScale.add now 0 = now := add_zero now
  have none : TimeScale.before now now = false := decide_eq_false (lt_irrefl now)
  have zero : TimeScale.before (TimeScale.zero : EReal) 0 = false := decide_eq_false (lt_irrefl 0)
  simp [Pause.ofLength, still, none, zero]

namespace Token

section

variable {token : Token EReal} {start now : ℝ} (started : token.startedAt = some (start : EReal))
  (unaborted : token.aborted = false) {ms : Number} (positive : ms.isPositive = true)

include started unaborted positive

/-- A delay waits as long as it should, or only till the deadline, or not at all. -/
theorem pause_exact : token.pause (now : EReal) ms = .ok
    (if (now : EReal) + TimeScale.ofMillis ms ≤ start + token.maxDuration then
      .till (now + TimeScale.ofMillis ms) false
    else if (now : EReal) < start + token.maxDuration then
      .till (start + token.maxDuration) true
    else .turns 2 true) := by
  have reach := now_add_left start now token.maxDuration
  have left : token.remaining? (now : EReal) = some (token.maxDuration - (now - start)) := by
    simp [remaining?, elapsed, started, TimeScale.sub]
  have cut : token.maxDuration - (now - start) < TimeScale.ofMillis ms ↔
      (start : EReal) + token.maxDuration < now + TimeScale.ofMillis ms := by
    rw [← reach, now_add_lt_iff]
  have some : 0 < token.maxDuration - (now - start) ↔
      (now : EReal) < start + token.maxDuration := by
    rw [← reach, ← now_add_lt_iff now, add_zero]
  simp only [pause, unaborted, positive, left, Bool.not_true, Bool.false_eq_true, ↓reduceIte]
  by_cases fits : (now : EReal) + TimeScale.ofMillis ms ≤ start + token.maxDuration
  · have whole := (before_iff _ _).not.mpr (cut.not.mpr (not_lt.mpr fits))
    rw [if_neg whole, if_pos fits, ofLength_positive now (ofMillis_pos positive)]
  · have cuts := (before_iff _ _).mpr (cut.mpr (not_le.mp fits))
    rw [if_pos cuts, if_neg fits]
    by_cases ahead : (now : EReal) < start + token.maxDuration
    · have rest : TimeScale.orZero (token.maxDuration - (now - start)) =
          token.maxDuration - (now - start) := if_pos ((before_iff _ _).mpr (some.mpr ahead))
      rw [if_pos ahead, rest, ofLength_positive now (some.mpr ahead), reach]
    · have nothing : TimeScale.orZero (token.maxDuration - (now - start)) = 0 :=
        if_neg ((before_iff _ _).not.mpr (some.not.mpr ahead))
      rw [if_neg ahead, nothing, ofLength_zero]

end

/-- How a delay of a token started before ends: when, and with which fault. The
deadline or what is asked for is what it waits for, and an abort may come first. -/
noncomputable def ends (token : Token EReal) (start now : ℝ) (ms : Number)
    (abortAt : Option ℝ) : EReal × Option (Fault EReal) :=
  let due := (now : EReal) + TimeScale.ofMillis ms
  let deadline := (start : EReal) + token.maxDuration
  let stop := max (now : EReal) deadline
  let undisturbed := if due ≤ deadline then (due, none) else (stop, some (token.timeLimit stop))
  if token.aborted then (now, some .aborted)
  else
    match abortAt with
    | none => undisturbed
    | some time =>
        if (time : EReal) < due ∧ (time : EReal) < stop then (time, some .aborted)
        else undisturbed

/-- A delay with no time left ends with its turns, which no abort comes before. -/
theorem delay_turns {token : Token EReal} {now : EReal} {ms : Number}
    (paused : token.pause now ms = .ok (.turns 2 true)) (abortAt : Option EReal) :
    (token.delay now ms abortAt).2 = (now, some (token.timeLimit now)) := by
  have limit : token.afterPause now (.turns 2 true) = some (token.timeLimit now) := by
    cases aborted : token.aborted <;> simp only [afterPause, aborted]
  have whole : Pause.cutTurns? 2 = none := rfl
  unfold delay
  rw [paused]
  simp only [limit, whole, Option.isSome_none, Bool.false_eq_true, ↓reduceIte]
  split <;> rfl

theorem delay_till {token : Token EReal} {now : EReal} {ms : Number} {due : EReal} {capped : Bool}
    (paused : token.pause now ms = .ok (.till due capped)) (unaborted : token.aborted = false)
    (abortAt : Option ℝ) (ahead : ∀ time ∈ abortAt, now ≤ time) :
    (token.delay now ms (abortAt.map Real.toEReal)).2 =
      match abortAt with
      | none => (due, if capped then some (token.timeLimit due) else none)
      | some time =>
          if (time : EReal) < due then ((time : EReal), some .aborted)
          else (due, if capped then some (token.timeLimit due) else none) := by
  have undisturbed : token.afterPause due (.till due capped) =
      if capped then some (token.timeLimit due) else none := by
    cases capped <;> simp [afterPause, unaborted]
  unfold delay
  rw [paused]
  cases abortAt with
  | none => simp only [Option.map_none, undisturbed]
  | some time =>
      have comes : TimeScale.latest now (time : EReal) = time := by
        have late : now ≤ time := ahead time rfl
        unfold TimeScale.latest
        split
        · rfl
        · rename_i early
          exact le_antisymm late (not_lt.mp ((before_iff _ _).not.mp early))
      simp only [Option.map_some, comes, undisturbed, before_iff]
      split <;> rfl

section

variable {token : Token EReal} {start now : ℝ} (started : token.startedAt = some (start : EReal))
  {ms : Number} (positive : ms.isPositive = true) {abortAt : Option ℝ}
  (ahead : ∀ time ∈ abortAt, now ≤ time)

include started positive ahead

theorem delay_exact : (token.delay (now : EReal) ms (abortAt.map Real.toEReal)).2 =
    token.ends start now ms abortAt := by
  have coming : ∀ time ∈ abortAt, (now : EReal) ≤ time :=
    fun time there => EReal.coe_le_coe_iff.mpr (ahead time there)
  cases unaborted : token.aborted with
  | true => simp [delay, pause, ends, unaborted]
  | false =>
      have paused : token.pause (now : EReal) ms = _ := pause_exact started unaborted positive
      -- An abort may end a sleep of its whole length or one cut short, and no pause of turns.
      by_cases fits : (now : EReal) + TimeScale.ofMillis ms ≤ start + token.maxDuration
      · rw [if_pos fits] at paused
        rw [delay_till paused unaborted abortAt coming]
        cases abortAt with
        | none => simp [ends, unaborted, fits]
        | some time =>
            have sooner : (time : EReal) < now + TimeScale.ofMillis ms →
                (time : EReal) < max (now : EReal) (start + token.maxDuration) :=
              fun before => (before.trans_le fits).trans_le (le_max_right _ _)
            simp only [ends, unaborted, fits, Bool.false_eq_true, ↓reduceIte,
              and_iff_left_of_imp sooner]
      · rw [if_neg fits] at paused
        by_cases early : (now : EReal) < start + token.maxDuration
        · rw [if_pos early] at paused
          rw [delay_till paused unaborted abortAt coming]
          have stop := max_eq_right early.le
          cases abortAt with
          | none => simp [ends, unaborted, fits, stop]
          | some time =>
              have sooner : (time : EReal) < start + token.maxDuration →
                  (time : EReal) < now + TimeScale.ofMillis ms :=
                fun before => before.trans (not_le.mp fits)
              simp [ends, unaborted, fits, stop, and_iff_right_of_imp sooner]
        · rw [if_neg early] at paused
          have stop := max_eq_left (not_lt.mp early)
          rw [delay_turns paused]
          cases abortAt with
          | none => simp [ends, unaborted, fits, stop]
          | some time =>
              have late := not_lt.mpr (coming time rfl)
              simp [ends, unaborted, fits, stop, late]

end

/-- A delay goes by undisturbed exactly if no abort comes before it is over, and it
is over by the deadline. -/
theorem ends_undisturbed_iff (token : Token EReal) (start now : ℝ) (ms : Number)
    (abortAt : Option ℝ) :
    (token.ends start now ms abortAt).2 = none ↔
      token.aborted = false ∧
        (∀ time ∈ abortAt, (now : EReal) + TimeScale.ofMillis ms ≤ time) ∧
        (now : EReal) + TimeScale.ofMillis ms ≤ start + token.maxDuration := by
  cases aborted : token.aborted with
  | true => simp [ends, aborted]
  | false =>
      cases abortAt with
      | none =>
          simp only [ends, aborted, Bool.false_eq_true, ↓reduceIte]
          split <;> simp [*]
      | some time =>
          simp only [ends, aborted, Bool.false_eq_true, ↓reduceIte, Option.mem_def,
            Option.some.injEq, forall_eq', true_and]
          by_cases first : (time : EReal) < now + TimeScale.ofMillis ms ∧
              (time : EReal) < max (now : EReal) (start + token.maxDuration)
          · rw [if_pos first]
            exact iff_of_false (by simp) fun spared => absurd first.1 (not_lt.mpr spared.1)
          · -- An abort before a delay that fits is over comes before the deadline as well.
            rw [if_neg first]
            have spared (fits : (now : EReal) + TimeScale.ofMillis ms ≤ start + token.maxDuration) :
                (now : EReal) + TimeScale.ofMillis ms ≤ time := by
              refine not_lt.mp fun before => first ⟨before, ?_⟩
              exact (before.trans_le fits).trans_le (le_max_right _ _)
            rw [and_iff_right_of_imp spared]
            split <;> simp [*]

end Token

/-! Along a course. -/

/-- At any time now, what is left of a budget takes the clock no further than the
deadline. -/
theorem now_add_left_le (now : ℝ) (start budget : EReal) :
    (now : EReal) + (budget - (now - start)) ≤ start + budget := by
  induction start using EReal.rec with
  | bot => simp
  | top => induction budget using EReal.rec <;> simp
  | coe start => exact (now_add_left start now budget).le

theorem Pause.till_of_ofLength {now length due : EReal} {capped cut : Bool}
    (pause : Pause.ofLength now length capped = .till due cut) :
    due = now + length ∧ now < now + length := by
  unfold ofLength at pause
  simp only at pause
  split at pause
  · rename_i ahead
    cases pause
    exact ⟨rfl, (before_iff _ _).mp ahead⟩
  · split at pause <;> cases pause

theorem reach_within {now start budget length : EReal} (ahead : now < now + length)
    (within : length ≤ budget - (now - start)) : now + length ≤ start + budget := by
  induction now using EReal.rec with
  | bot => simp at ahead
  | top => simp at ahead
  | coe now => exact (add_le_add_right within _).trans (now_add_left_le now start budget)

theorem orZero_of_ahead {now left : EReal} (ahead : now < now + TimeScale.orZero left) :
    TimeScale.orZero left = left := by
  unfold TimeScale.orZero at ahead ⊢
  split
  · rfl
  · rename_i spent
    have still : now + TimeScale.zero = now := add_zero now
    rw [if_neg spent, still] at ahead
    exact absurd ahead (lt_irrefl now)

namespace Token

variable {token : Token EReal} {now start : EReal} {ms : Number} {pause : Pause EReal}
  (paused : token.pause now ms = .ok pause) (started : token.startedAt = some start)

include paused started

/-- The pauses of a delay: a turn, what is left of the budget, or all of its length,
which is not more than that. -/
theorem pause_cases : pause = .turn ∧ ms.isPositive = false ∨
    pause = .ofLength now (TimeScale.orZero (token.maxDuration - (now - start))) true ∨
      pause = .ofLength now (TimeScale.ofMillis ms) false ∧
        TimeScale.ofMillis ms ≤ token.maxDuration - (now - start) := by
  have left : token.remaining? now = some (token.maxDuration - (now - start)) := by
    simp [remaining?, elapsed, started, TimeScale.sub]
  unfold Token.pause at paused
  rw [left] at paused
  split at paused
  · cases paused
  · split at paused
    · rename_i nothing
      cases paused
      exact Or.inl ⟨rfl, by simpa using nothing⟩
    · simp only at paused
      split at paused
      · cases paused
        exact Or.inr (Or.inl rfl)
      · rename_i fits
        cases paused
        exact Or.inr (Or.inr ⟨rfl, not_lt.mp ((before_iff _ _).not.mp fits)⟩)

theorem pause_within {due : EReal} {capped : Bool} (sleeps : pause = .till due capped) :
    now < due ∧ due ≤ start + token.maxDuration := by
  rcases pause_cases paused started with ⟨turn, -⟩ | cut | ⟨whole, fits⟩
  · cases turn.symm.trans sleeps
  · obtain ⟨rfl, ahead⟩ := Pause.till_of_ofLength (cut.symm.trans sleeps)
    exact ⟨ahead, reach_within ahead (orZero_of_ahead ahead).le⟩
  · obtain ⟨rfl, ahead⟩ := Pause.till_of_ofLength (whole.symm.trans sleeps)
    exact ⟨ahead, reach_within ahead fits⟩

end Token

/-! The clock of a run is started when it begins, and never again. -/

section Clock

variable {Time : Type} [TimeScale Time]

omit [TimeScale Time] in
theorem Token.startedAt_start (now : Time) (token : Token Time) :
    ∃ start, (token.start now).startedAt = some start := by
  unfold start
  cases started : token.startedAt with
  | none => exact ⟨now, rfl⟩
  | some start => exact ⟨start, started⟩

omit [TimeScale Time] in
theorem Token.start_of_started {token : Token Time} {start : Time}
    (started : token.startedAt = some start) (now : Time) : token.start now = token := by
  simp [Token.start, started]

theorem Token.startedAt_charge {token : Token Time} {start : Time}
    (started : token.startedAt = some start) (now : Time) :
    (token.charge now).1.startedAt = some start := by
  simp [charge, start_of_started started, started]

theorem Run.steps_startedAt {now : Time} {connected : Bool} {run after : Run Time}
    {asked : Option Call} (steps : Steps now connected run after asked) {start : Time}
    (started : run.token.startedAt = some start) : after.token.startedAt = some start := by
  cases steps with
  | begin => simp [Token.start_of_started started, started]
  | charged | limited => exact Token.startedAt_charge started now
  | _ => exact started

theorem Moment.next_startedAt {before after : Moment Time} {event : Event Time}
    (happens : before.Next event after) {start : Time}
    (started : before.run.token.startedAt = some start) :
    after.run.token.startedAt = some start := by
  cases happens with
  | step ready => exact Run.steps_startedAt (Run.step_steps _ _ _ ready) started
  | cancel =>
      rw [Run.cancel_eq]
      exact started
  | _ => exact started

def Run.IsClocked (run : Run Time) : Prop :=
  run.hasBegun = true → run.isEnded = false → ∃ start, run.token.startedAt = some start

theorem Run.steps_clocked {now : Time} {connected : Bool} {run after : Run Time}
    {asked : Option Call} (steps : Steps now connected run after asked) (clocked : run.IsClocked)
    (active : run.isEnded = false) : after.IsClocked := by
  intro begun goes
  cases activity : run.activity with
  | unstarted =>
      cases steps with
      | begin => exact Token.startedAt_start now run.token
      | _ => simp_all
  | _ =>
      obtain ⟨start, started⟩ := clocked (by simp [hasBegun, activity]) active
      exact ⟨start, steps_startedAt steps started⟩

theorem Moment.next_clocked {before after : Moment Time} {event : Event Time}
    (happens : before.Next event after) (clocked : before.run.IsClocked) :
    after.run.IsClocked := by
  cases happens with
  | step ready =>
      exact Run.steps_clocked (Run.step_steps _ _ _ ready) clocked (Run.active_of_canStep _ _ ready)
  | lasts later activity | returns activity =>
      intro begun goes
      exact clocked (by simp [Run.hasBegun, activity]) (by simp [Run.isEnded, activity])
  | raises =>
      intro begun goes
      cases goes
  | cancel =>
      intro begun goes
      rw [Run.cancel_isEnded] at goes
      cases goes
  | abort | connection | edit | pass | expire => exact clocked

omit [TimeScale Time] in
theorem Run.position_of_active {run : Run Time} (begun : run.hasBegun = true)
    (active : run.isEnded = false) : ∃ position, run.position? = some position := by
  cases activity : run.activity with
  | unstarted => simp [hasBegun, activity] at begun
  | ended ending => simp [isEnded, activity] at active
  | moving | pausing | rousing | calling => simp [position?, activity]

/-- A run that has begun and goes on lets time pass in a sleep or in a call. -/
theorem Run.sleeps_or_calls {now later : Time} {run : Run Time} {position : Position}
    (waiting : run.waits now later = true) (there : run.position? = some position) :
    (∃ due capped, run.activity = .pausing (.till due capped) position) ∨
      ∃ call due, run.activity = .calling call due position := by
  cases activity : run.activity with
  | unstarted | ended => simp [position?, activity] at there
  | moving | rousing => simp [waits, activity] at waiting
  | pausing pause next =>
      have here : next = position := by simpa [position?, activity] using there
      subst here
      cases pause with
      | till due capped => exact Or.inl ⟨due, capped, rfl⟩
      | turn | turns => simp [waits, activity] at waiting
  | calling call due next =>
      have here : next = position := by simpa [position?, activity] using there
      subst here
      exact Or.inr ⟨call, due, rfl⟩

theorem Run.before_of_waits {now later due : Time} {run : Run Time} {capped : Bool}
    {next : Position} (sleeping : run.activity = .pausing (.till due capped) next)
    (waiting : run.waits now later = true) : TimeScale.before later due = true := by
  simp only [waits, sleeping, Bool.and_eq_true] at waiting
  exact waiting.2.2

end Clock

/-! The deadline of a run. -/

noncomputable def Run.deadline? (run : Run EReal) : Option EReal :=
  run.token.startedAt.map (· + run.token.maxDuration)

namespace Moment

def SleepsInTime (moment : Moment EReal) : Prop :=
  ∀ due capped next, moment.run.activity = .pausing (.till due capped) next →
    moment.now ≤ due ∧ ∃ deadline, moment.run.deadline? = some deadline ∧ due ≤ deadline

theorem sleeps_of_awake {moment : Moment EReal}
    (awake : ∀ pause next, moment.run.activity ≠ .pausing pause next) : moment.SleepsInTime :=
  fun _ _ _ activity => absurd activity (awake _ _)

theorem steps_sleeps {now : EReal} {connected : Bool} {run after : Run EReal}
    {asked : Option Call} (steps : Run.Steps now connected run after asked)
    (clocked : run.IsClocked) : SleepsInTime ⟨now, connected, after⟩ := by
  cases steps with
  | delayed activity stepped paused =>
      intro due capped next sleeping
      cases sleeping
      obtain ⟨start, started⟩ :=
        clocked (by simp [Run.hasBegun, activity]) (by simp [Run.isEnded, activity])
      obtain ⟨ahead, within⟩ := Token.pause_within paused started rfl
      exact ⟨ahead.le, _, by simp [Run.deadline?, started], within⟩
  | stirred => exact fun due capped next sleeping => by cases sleeping
  | _ => exact sleeps_of_awake (by simp)

theorem next_sleeps {before after : Moment EReal} {event : Event EReal}
    (happens : before.Next event after) (clocked : before.run.IsClocked)
    (sleeps : before.SleepsInTime) : after.SleepsInTime := by
  cases happens with
  | step ready => exact steps_sleeps (Run.step_steps _ _ _ ready) clocked
  | lasts | returns | raises => exact sleeps_of_awake fun _ _ sleeping => by cases sleeping
  | @cancel now connected run =>
      refine sleeps_of_awake fun pause next sleeping => ?_
      have ended := run.cancel_isEnded
      rw [Run.isEnded, sleeping] at ended
      cases ended
  | abort | connection | edit => exact sleeps
  | pass later waiting =>
      intro due capped next sleeping
      obtain ⟨-, deadline, known, within⟩ := sleeps due capped next sleeping
      refine ⟨?_, deadline, known, within⟩
      exact ((before_iff _ _).mp (Run.before_of_waits sleeping waiting)).le
  | expire activity =>
      intro due capped next sleeping
      obtain ⟨-, deadline, known, within⟩ := sleeps due capped next sleeping
      cases activity.symm.trans sleeping
      exact ⟨le_rfl, deadline, known, within⟩

/-- What holds of the deadline at every moment of a run. It is set when the run
begins and stays; no sleep reaches past it; and the clock passes it in a call. -/
structure KeepsDeadline (moment : Moment EReal) : Prop where
  known : moment.run.hasBegun = true → moment.run.isEnded = false →
    ∃ deadline, moment.run.deadline? = some deadline
  stays : ∀ event after deadline, moment.Next event after →
    moment.run.deadline? = some deadline → after.run.deadline? = some deadline
  sleeps : moment.SleepsInTime
  passed : ∀ event after deadline, moment.Next event after → moment.run.hasBegun = true →
    moment.run.isEnded = false → moment.run.deadline? = some deadline →
    moment.now ≤ deadline → deadline < after.now →
    ∃ call due next, moment.run.activity = .calling call due next

theorem next_deadline {before after : Moment EReal} {event : Event EReal} {deadline : EReal}
    (happens : before.Next event after) (known : before.run.deadline? = some deadline) :
    after.run.deadline? = some deadline := by
  obtain ⟨start, started, rfl⟩ := Option.map_eq_some_iff.mp known
  simp only [Run.deadline?, next_startedAt happens started, (next_terms happens).maxDuration,
    Option.map_some]

theorem calling_of_passed {before after : Moment EReal} {event : Event EReal} {deadline : EReal}
    (happens : before.Next event after) (sleeps : before.SleepsInTime)
    (begun : before.run.hasBegun = true) (active : before.run.isEnded = false)
    (known : before.run.deadline? = some deadline) (early : before.now ≤ deadline)
    (late : deadline < after.now) :
    ∃ call due next, before.run.activity = .calling call due next := by
  -- Of the events, only two move the clock.
  cases happens with
  | pass later waiting =>
      obtain ⟨position, there⟩ := Run.position_of_active begun active
      rcases Run.sleeps_or_calls waiting there with ⟨due, capped, sleeping⟩ | ⟨call, due, calling⟩
      · obtain ⟨-, deadline', known', within⟩ := sleeps due capped position sleeping
        cases known.symm.trans known'
        have ahead := (before_iff _ _).mp (Run.before_of_waits sleeping waiting)
        exact absurd (late.trans ahead) (not_lt.mpr within)
      · exact ⟨call, due, position, calling⟩
  | expire activity =>
      obtain ⟨-, deadline', known', within⟩ := sleeps _ _ _ activity
      cases known.symm.trans known'
      exact absurd late (not_lt.mpr within)
  | _ => exact absurd late (not_lt.mpr early)

end Moment

theorem Course.keeps_deadline {now : EReal} {connected : Bool} {blocks : List Block}
    {abilities : Abilities} {config : Config} {token : Token EReal} {moment : Moment EReal}
    (course : Course (.initial now connected blocks abilities config token) moment) :
    moment.KeepsDeadline := by
  -- What a sleep may take is reckoned from the start of the clock.
  let Inv (moment : Moment EReal) : Prop := moment.run.IsClocked ∧ moment.SleepsInTime
  have kept (before : Moment EReal) (event : Event EReal) (after : Moment EReal)
      (happens : before.Next event after) (known : Inv before) : Inv after :=
    ⟨Moment.next_clocked happens known.1, Moment.next_sleeps happens known.1 known.2⟩
  have start : Inv (.initial now connected blocks abilities config token) := by
    refine ⟨fun begun => ?_, Moment.sleeps_of_awake fun pause next sleeping => ?_⟩
    · cases begun
    · cases sleeping
  obtain ⟨clocked, sleeps⟩ : Inv moment := course.keeps kept start
  refine ⟨fun begun active => ?_, fun _ _ _ => Moment.next_deadline, sleeps,
    fun _ _ _ happens => Moment.calling_of_passed happens sleeps⟩
  obtain ⟨start, started⟩ := clocked begun active
  exact ⟨start + moment.run.token.maxDuration, by simp [Run.deadline?, started]⟩

/-- A delay of a started token ends when it should, at an abort or at the deadline,
whichever comes first; it goes by undisturbed exactly if no abort comes before it is
over and it is over by the deadline. So no sleep of a run reaches past its deadline,
and the clock passes it in a call. -/
theorem delays_keep_deadline (token : Token EReal) (start now : ℝ)
    (started : token.startedAt = some (start : EReal)) (ms : Number)
    (positive : ms.isPositive = true) (abortAt : Option ℝ)
    (ahead : ∀ time ∈ abortAt, now ≤ time) :
    (token.delay (now : EReal) ms (abortAt.map Real.toEReal)).2 =
        token.ends start now ms abortAt ∧
      ((token.ends start now ms abortAt).2 = none ↔
        token.aborted = false ∧
          (∀ time ∈ abortAt, (now : EReal) + TimeScale.ofMillis ms ≤ time) ∧
          (now : EReal) + TimeScale.ofMillis ms ≤ start + token.maxDuration) ∧
      ∀ (begins : EReal) (connected : Bool) (blocks : List Block) (abilities : Abilities)
        (config : Config) (given : Token EReal) (moment : Moment EReal),
        Course (.initial begins connected blocks abilities config given) moment →
        moment.KeepsDeadline :=
  ⟨Token.delay_exact started positive ahead, token.ends_undisturbed_iff start now ms abortAt,
    fun _ _ _ _ _ _ _ course => course.keeps_deadline⟩

noncomputable def twoSeconds : Token EReal :=
  ⟨10, 2, false, 1, some (0 : ℝ)⟩

/-- A wait of two seconds with one second left, which an abort comes too late for. -/
theorem long_wait_ends_at_deadline :
    twoSeconds.startedAt = some ((0 : ℝ) : EReal) ∧ (Number.int 2000).isPositive = true ∧
      (∀ time ∈ some (5 : ℝ), 1 ≤ time) ∧
      (twoSeconds.delay ((1 : ℝ) : EReal) (.int 2000) (some ((5 : ℝ) : EReal))).2 =
        (2, some (.timeLimit 2 1 2)) := by
  have ahead : ∀ time ∈ some (5 : ℝ), 1 ≤ time := by
    rintro _ ⟨⟩
    norm_num
  refine ⟨rfl, rfl, ahead, ?_⟩
  have due : ((1 : ℝ) : EReal) + TimeScale.ofMillis (.int 2000) = (3 : ℝ) := by
    have length : TimeScale.ofMillis (.int 2000) = (((2000 : ℤ) / 1000 : ℝ) : EReal) := rfl
    rw [length, ← EReal.coe_add]
    norm_num
  have deadline : ((0 : ℝ) : EReal) + 2 = (2 : ℝ) := zero_add _
  have late : ¬ (3 : ℝ) ≤ 2 ∧ ¬ (5 : ℝ) < 3 ∧ (1 : ℝ) ≤ 2 := by norm_num
  have stop : max ((1 : ℝ) : EReal) (2 : ℝ) = (2 : ℝ) :=
    max_eq_right (EReal.coe_le_coe_iff.mpr late.2.2)
  have elapsed : TimeScale.sub ((2 : ℝ) : EReal) (0 : ℝ) = (2 : ℝ) := sub_zero _
  obtain ⟨ended, -⟩ :=
    delays_keep_deadline twoSeconds 0 1 rfl (.int 2000) rfl (some 5) ahead
  refine ended.trans ?_
  simp only [Token.ends, due, deadline, stop, EReal.coe_le_coe_iff, EReal.coe_lt_coe_iff, late,
    false_and, ↓reduceIte, Token.timeLimit, Token.elapsed, twoSeconds, elapsed,
    Bool.false_eq_true]
  rfl

end ArmProgram
