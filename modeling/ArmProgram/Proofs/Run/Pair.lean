import ArmProgram.Proofs.Run.Budget

/-!
Two runs in one world. They share the clock and the connection, every event
reaches both, and a turn is a turn for each that has a step to take, so both see
the same schedule and the same effector. What each of them does is kept beside
it: the calls that it began, when it began them, and when it ended.
-/

namespace ArmProgram

variable {Time : Type} [TimeScale Time]

structure Track (Time : Type) where
  run : Run Time
  calls : List (CallRecord Time)
  endedAt : Option Time

namespace Track

def fresh (run : Run Time) : Track Time :=
  ⟨run, [], none⟩

def put (now : Time) (asked : Option Call) (run : Run Time) (track : Track Time) : Track Time :=
  { run
    calls := track.calls ++ (asked.map (CallRecord.mk now)).toList
    endedAt := if !track.run.isEnded && run.isEnded then some now else track.endedAt }

/-- What an event does to one of the runs. It passes over one that it does not
concern. -/
def meet (now : Time) (connected : Bool) (event : Event Time) (track : Track Time) : Track Time :=
  match event, track.run.activity with
  | .step, _ =>
      if track.run.canStep now then
        let outcome := track.run.step now connected
        track.put now outcome.call outcome.run
      else track
  | .lasts later, .calling call _ next =>
      track.put now none { track.run with activity := .calling call (some later) next }
  | .returns, .calling _ _ next => track.put now none (track.run.resume next).run
  | .raises fault, .calling _ _ _ => track.put now none (track.run.fail now fault).run
  | .abort, _ => track.put now none track.run.abort
  | .cancel, _ => track.put now none track.run.cancel
  | .edit place parameters, _ => track.put now none (track.run.rewrite place parameters)
  | _, _ => track

end Track

namespace Run

def Reaches (now later : Time) (run : Run Time) : Prop :=
  TimeScale.before now later = true ∧
    match run.activity with
    | .pausing (.till due _) _ =>
        run.token.aborted = false ∧ (TimeScale.before later due = true ∨ later = due)
    | .pausing _ _ | .rousing _ _ | .moving _ => False
    | .unstarted | .calling .. | .ended _ => True

instance decidableReaches [DecidableEq Time] (now later : Time) (run : Run Time) :
    Decidable (run.Reaches now later) :=
  match run with
  | ⟨_, _, _, .pausing (.till _ _) _⟩ => inferInstanceAs (Decidable (_ ∧ _ ∧ (_ ∨ _)))
  | ⟨_, _, _, .pausing .turn _⟩ | ⟨_, _, _, .pausing (.turns _ _) _⟩ | ⟨_, _, _, .rousing _ _⟩
  | ⟨_, _, _, .moving _⟩ => inferInstanceAs (Decidable (_ ∧ False))
  | ⟨_, _, _, .unstarted⟩ | ⟨_, _, _, .calling _ _ _⟩ | ⟨_, _, _, .ended _⟩ =>
      inferInstanceAs (Decidable (_ ∧ True))

def Allows (now : Time) (run : Run Time) : Event Time → Prop
  | .step | .lasts _ | .returns | .raises _ => True
  | .abort | .cancel | .connection _ | .edit _ _ => run.isOpen = true
  | .pass later => run.Reaches now later
  | .expire => False

def isLimited (run : Run Time) : Bool :=
  match run.activity with
  | .ended (.fault (.stepLimit ..)) | .ended (.fault (.timeLimit ..)) => true
  | _ => false

end Run

namespace Event

def clock (now : Time) : Event Time → Time
  | .pass later => later
  | _ => now

def reported (connected : Bool) : Event Time → Bool
  | .connection reported => reported
  | _ => connected

def endsCall : Event Time → Bool
  | .lasts _ | .returns | .raises _ => true
  | _ => false

end Event

/-! What any event leaves of what a run has done. -/

namespace Run

theorem steps_grow {now : Time} {connected : Bool} {run after : Run Time} {asked : Option Call}
    (steps : Steps now connected run after asked) : run.token.steps ≤ after.token.steps := by
  cases steps with
  | begin => exact Nat.le_of_eq (start_keeps now run.token).2.symm
  | charged | limited =>
      simp only [Token.charge_steps]
      exact Nat.le_succ _
  | _ => exact Nat.le_refl _

end Run

namespace Track

omit [TimeScale Time] in
theorem put_calls (now : Time) (asked : Option Call) (run : Run Time) (track : Track Time) :
    track.calls <+: (track.put now asked run).calls :=
  List.prefix_append _ _

omit [TimeScale Time] in
theorem silent_calls (now : Time) (run : Run Time) (track : Track Time) :
    (track.put now none run).calls = track.calls :=
  List.append_nil track.calls

variable (now : Time) (connected : Bool) (event : Event Time) (track : Track Time)

theorem meet_grows : track.calls <+: (track.meet now connected event).calls ∧
    track.run.token.steps ≤ (track.meet now connected event).run.token.steps := by
  have still : track.calls <+: track.calls ∧ track.run.token.steps ≤ track.run.token.steps :=
    ⟨List.prefix_rfl, Nat.le_refl _⟩
  cases event with
  | step =>
      simp only [meet]
      split
      · rename_i ready
        exact ⟨put_calls .., Run.steps_grow (Run.step_steps now connected track.run ready)⟩
      · exact still
  | lasts | returns | raises =>
      unfold meet
      cases track.run.activity with
      | calling => exact ⟨put_calls .., Nat.le_refl _⟩
      | _ => exact still
  | cancel => exact ⟨put_calls .., Nat.le_of_eq (by rw [← Run.cancel_token]; rfl)⟩
  | abort | edit => exact ⟨put_calls .., Nat.le_refl _⟩
  | connection | pass | expire => exact still

theorem meet_step (ready : track.run.canStep now = true) :
    track.meet now connected .step =
      track.put now (track.run.step now connected).call (track.run.step now connected).run :=
  if_pos ready

theorem meet_wait (waits : track.run.canStep now = false) :
    track.meet now connected .step = track :=
  if_neg (by simp [waits])

theorem meet_abort : track.meet now connected .abort = { track with run := track.run.abort } := by
  have same : track.run.abort.isEnded = track.run.isEnded := rfl
  simp [meet, put, same]

theorem meet_edit (place : Nat) (parameters : Parameters) :
    track.meet now connected (.edit place parameters) =
      { track with run := track.run.rewrite place parameters } := by
  have same : (track.run.rewrite place parameters).isEnded = track.run.isEnded := rfl
  simp [meet, put, same]

/-- The effector ends a call; there is none to end otherwise. -/
theorem meet_uncalled (uncalled : ∀ call due next, track.run.activity ≠ .calling call due next)
    (effect : event.endsCall = true) : track.meet now connected event = track := by
  cases event with
  | lasts | returns | raises =>
      unfold meet
      cases activity : track.run.activity with
      | calling call due next => exact absurd activity (uncalled call due next)
      | _ => rfl
  | step | abort | cancel | connection | edit | pass | expire => cases effect

/-- Nothing but its signal and its blocks changes of a run that has ended. -/
theorem meet_ended {ending : Ending Time} (ended : track.run.activity = .ended ending) :
    (track.meet now connected event).run.activity = track.run.activity ∧
      (track.meet now connected event).calls = track.calls ∧
      (track.meet now connected event).run.token.steps = track.run.token.steps := by
  have still : (track.put now none track.run.cancel).run = track.run := Run.cancel_of_ended ended
  cases event with
  | step => simp [meet, Run.canStep, Run.isReady, ended]
  | lasts | returns | raises => simp [meet, ended]
  | cancel =>
      simp only [meet, still, true_and, and_true]
      exact List.append_nil _
  | abort | edit => exact ⟨rfl, List.append_nil _, rfl⟩
  | connection | pass | expire => exact ⟨rfl, rfl, rfl⟩

end Track

structure Pair (Time : Type) where
  now : Time
  connected : Bool
  less : Track Time
  more : Track Time

namespace Pair

/-- Both runs allow the event. A cancellation is for runs in progress: one that
has ended otherwise than by a limit is not there to be cancelled. -/
def Allows (pair : Pair Time) (event : Event Time) : Prop :=
  pair.less.run.Allows pair.now event ∧ pair.more.run.Allows pair.now event ∧
    (event = .cancel → pair.less.run.isEnded = true → pair.less.run.isLimited = true)

def after (pair : Pair Time) (event : Event Time) : Pair Time :=
  { now := event.clock pair.now
    connected := event.reported pair.connected
    less := pair.less.meet pair.now pair.connected event
    more := pair.more.meet pair.now pair.connected event }

inductive Plays : Pair Time → Pair Time → Prop where
  | here (pair : Pair Time) : Plays pair pair
  | next {pair last : Pair Time} (event : Event Time) (allowed : pair.Allows event)
      (rest : Plays (pair.after event) last) : Plays pair last

theorem Plays.trans {first middle last : Pair Time} (left : Plays first middle)
    (right : Plays middle last) : Plays first last := by
  induction left with
  | here => exact right
  | next event allowed _ ih => exact .next event allowed (ih right)

theorem Plays.keeps {Inv : Pair Time → Prop} {first last : Pair Time} (plays : Plays first last)
    (kept : ∀ pair event, pair.Allows event → Inv pair → Inv (pair.after event))
    (start : Inv first) : Inv last := by
  induction plays with
  | here => exact start
  | next event allowed _ ih => exact ih (kept _ event allowed start)

end Pair

/-! Each of the two runs by itself goes through a course. -/

theorem Run.Reaches.next {now later : Time} {connected : Bool} {run : Run Time}
    (reaches : run.Reaches now later) :
    ∃ event, Moment.Next ⟨now, connected, run⟩ event ⟨later, connected, run⟩ := by
  obtain ⟨ahead, held⟩ := reaches
  cases activity : run.activity with
  | pausing pause next =>
      rw [activity] at held
      cases pause with
      | turn | turns => exact held.elim
      | till due capped =>
          obtain ⟨unaborted, early | same⟩ := held
          · exact ⟨.pass later, .pass later (by simp [waits, activity, ahead, unaborted, early])⟩
          · subst same
            exact ⟨.expire, .expire activity unaborted ahead⟩
  | rousing | moving =>
      rw [activity] at held
      exact held.elim
  | unstarted | calling | ended =>
      exact ⟨.pass later, .pass later (by simp [waits, activity, ahead])⟩

theorem Run.reaches_of_waits {now later : Time} {run : Run Time}
    (waiting : run.waits now later = true) : run.Reaches now later := by
  unfold waits at waiting
  rw [Bool.and_eq_true] at waiting
  obtain ⟨ahead, held⟩ := waiting
  refine ⟨ahead, ?_⟩
  cases activity : run.activity with
  | pausing pause next =>
      cases pause with
      | turn | turns => simp [activity] at held
      | till due capped =>
          have known : run.token.aborted = false ∧ TimeScale.before later due = true := by
            simpa [activity] using held
          exact ⟨known.1, Or.inl known.2⟩
  | rousing | moving => simp [activity] at held
  | unstarted | calling | ended => trivial

theorem Track.meet_next (now : Time) (connected : Bool) (event : Event Time) (track : Track Time)
    (allowed : track.run.Allows now event) :
    (⟨event.clock now, event.reported connected, (track.meet now connected event).run⟩ :
      Moment Time) = ⟨now, connected, track.run⟩ ∨
    ∃ event', Moment.Next ⟨now, connected, track.run⟩ event'
      ⟨event.clock now, event.reported connected, (track.meet now connected event).run⟩ := by
  cases event with
  | step =>
      by_cases ready : track.run.canStep now = true
      · right
        refine ⟨.step, ?_⟩
        simp only [meet, if_pos ready]
        exact .step ready
      · left
        simp only [meet, if_neg ready]
        rfl
  | lasts later =>
      cases activity : track.run.activity with
      | calling =>
          right
          simp only [meet, activity]
          exact ⟨.lasts later, .lasts later activity⟩
      | _ => left; simp only [meet, activity]; rfl
  | returns =>
      cases activity : track.run.activity with
      | calling =>
          right
          simp only [meet, activity]
          exact ⟨.returns, .returns activity⟩
      | _ => left; simp only [meet, activity]; rfl
  | raises fault =>
      cases activity : track.run.activity with
      | calling =>
          right
          simp only [meet, activity]
          exact ⟨.raises fault, .raises fault activity⟩
      | _ => left; simp only [meet, activity]; rfl
  | abort => exact Or.inr ⟨.abort, .abort allowed⟩
  | cancel => exact Or.inr ⟨.cancel, .cancel allowed⟩
  | connection reported => exact Or.inr ⟨.connection reported, .connection reported allowed⟩
  | edit place parameters => exact Or.inr ⟨.edit place parameters, .edit place parameters allowed⟩
  | pass later => exact Or.inr allowed.next
  | expire => exact allowed.elim

namespace Pair

theorem Plays.courses {first last : Pair Time} (plays : Plays first last) :
    Nonempty (Course ⟨first.now, first.connected, first.less.run⟩
      ⟨last.now, last.connected, last.less.run⟩) ∧
    Nonempty (Course ⟨first.now, first.connected, first.more.run⟩
      ⟨last.now, last.connected, last.more.run⟩) := by
  have add {before middle after : Moment Time} (rest : Nonempty (Course middle after))
      (moved : middle = before ∨ ∃ event, Moment.Next before event middle) :
      Nonempty (Course before after) := by
    obtain ⟨course⟩ := rest
    rcases moved with rfl | ⟨event, happens⟩
    · exact ⟨course⟩
    · exact ⟨.next event happens course⟩
  induction plays with
  | here => exact ⟨⟨.here _⟩, ⟨.here _⟩⟩
  | @next pair last event allowed _ ih =>
      constructor
      · exact add ih.1 (pair.less.meet_next _ _ event allowed.1)
      · exact add ih.2 (pair.more.meet_next _ _ event allowed.2.1)

end Pair

end ArmProgram
