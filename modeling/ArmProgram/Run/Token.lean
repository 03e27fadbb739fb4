import ArmProgram.Run.TimeScale
import ArmProgram.Run.Fault

/-!
The token of a run: its abort signal and its budget of steps and time. The
clock of the budget starts once. A delay is a pause that an abort ends at
once and that the time budget cuts short.
-/

namespace ArmProgram

variable {Time : Type} [TimeScale Time]

structure Token (Time : Type) where
  maxSteps : Int
  maxDuration : Time
  aborted : Bool
  steps : Nat
  startedAt : Option Time
  deriving Repr, Inhabited

/-- What a delay waits for. A capped pause ends with the time budget. -/
inductive Pause (Time : Type) where
  /-- Nothing: others get their turn and no time passes. -/
  | turn
  /-- A length of time that the clock does not show: some more turns than one,
  and no time passes. -/
  | turns (more : Nat) (capped : Bool)
  /-- A point in time. -/
  | till (due : Time) (capped : Bool)
  deriving Repr

namespace Pause

/-- The pause of a length that begins now. It takes three turns without any
length, and six with one that is lost on the clock. -/
def ofLength (now length : Time) (capped : Bool) : Pause Time :=
  let due := TimeScale.add now length
  if TimeScale.before now due then .till due capped
  else if TimeScale.before TimeScale.zero length then .turns 5 capped
  else .turns 2 capped

def isOver (now : Time) : Pause Time → Bool
  | turn => true
  | turns _ _ => true
  | till due _ => !TimeScale.before now due

def more : Pause Time → Nat
  | turns more _ => more
  | _ => 0

/-- Turns that an abort leaves of a pause of turns, beyond the next. Only the
first two of six can be aborted. -/
def cutTurns? : Nat → Option Nat
  | 5 => some 1
  | 4 => some 0
  | _ => none

theorem ofLength_more (now length : Time) (capped : Bool) :
    (ofLength now length capped).more ≤ 5 := by
  unfold ofLength
  simp only
  split
  · exact Nat.zero_le 5
  · split <;> simp [more]

theorem cutTurns?_lt (turns left : Nat) (cut : cutTurns? turns = some left) : left < turns := by
  unfold cutTurns? at cut
  split at cut <;> cases cut <;> decide

end Pause

namespace Token

def fresh (maxSteps : Int) (maxDuration : Time) : Token Time :=
  ⟨maxSteps, maxDuration, false, 0, none⟩

def abort (token : Token Time) : Token Time :=
  { token with aborted := true }

def start (now : Time) (token : Token Time) : Token Time :=
  match token.startedAt with
  | none => { token with startedAt := some now }
  | some _ => token

def elapsed (now : Time) (token : Token Time) : Time :=
  match token.startedAt with
  | none => TimeScale.zero
  | some start => TimeScale.sub now start

def remaining? (now : Time) (token : Token Time) : Option Time :=
  token.startedAt.map fun _ => TimeScale.sub token.maxDuration (token.elapsed now)

def timeLimit (now : Time) (token : Token Time) : Fault Time :=
  .timeLimit token.maxDuration token.steps (token.elapsed now)

/-- Counts one step and starts the clock. The step budget is looked at before
the time budget. -/
def charge (now : Time) (token : Token Time) : Token Time × Option (Fault Time) :=
  let started := token.start now
  let charged := { started with steps := started.steps + 1 }
  let fault :=
    if charged.maxSteps < charged.steps then
      some (.stepLimit charged.maxSteps charged.steps (charged.elapsed now))
    else if TimeScale.before charged.maxDuration (charged.elapsed now) then
      some (charged.timeLimit now)
    else none
  (charged, fault)

def pause (now : Time) (ms : Number) (token : Token Time) : Except (Fault Time) (Pause Time) :=
  if token.aborted then .error .aborted
  else if !ms.isPositive then .ok .turn
  else
    let length := TimeScale.ofMillis ms
    match token.remaining? now with
    | none => .ok (.ofLength now length false)
    | some left =>
        if TimeScale.before left length then
          .ok (.ofLength now (TimeScale.orZero left) true)
        else .ok (.ofLength now length false)

/-- How a pause ends that is over now: aborted, at the end of the time
budget, or as it was meant to. The last turn of several is too late for an
abort. -/
def afterPause (now : Time) (pause : Pause Time) (token : Token Time) : Option (Fault Time) :=
  match token.aborted, pause with
  | true, .turn | true, .till _ _ => some .aborted
  | _, .turns _ true | _, .till _ true => some (token.timeLimit now)
  | _, _ => none

/-- A whole delay with an abort at a given time, if one is to come: the token
and the time when it ends, and how. An abort whose time has passed comes at
once, but not before the first turn. -/
def delay (now : Time) (ms : Number) (abortAt : Option Time) (token : Token Time) :
    Token Time × Time × Option (Fault Time) :=
  match token.pause now ms with
  | .error fault => (token, now, some fault)
  | .ok .turn => (token, now, token.afterPause now .turn)
  | .ok (.turns more capped) =>
      let fault := token.afterPause now (.turns more capped)
      if abortAt.any fun time => !TimeScale.before now time then
        (token.abort, now, if (Pause.cutTurns? more).isSome then some .aborted else fault)
      else (token, now, fault)
  | .ok (.till due capped) =>
      let plain := (token, due, token.afterPause due (.till due capped))
      match abortAt with
      | none => plain
      | some time =>
          let time := TimeScale.latest now time
          if TimeScale.before time due then
            let aborted := token.abort
            (aborted, time, aborted.afterPause time (.till due capped))
          else plain

def chargeMany (now : Time) : Nat → Token Time → Token Time × Option (Fault Time)
  | 0, token => (token, none)
  | count + 1, token =>
      match token.charge now with
      | (charged, some fault) => (charged, some fault)
      | (charged, none) => chargeMany now count charged

theorem pause_more (now : Time) (ms : Number) (token : Token Time) (pause : Pause Time)
    (paused : token.pause now ms = .ok pause) : pause.more ≤ 5 := by
  unfold Token.pause at paused
  split at paused
  · cases paused
  · split at paused
    · cases paused
      exact Nat.zero_le 5
    · simp only at paused
      split at paused
      · cases paused
        exact Pause.ofLength_more _ _ _
      · split at paused <;> cases paused <;> exact Pause.ofLength_more _ _ _

theorem charge_steps (now : Time) (token : Token Time) :
    (token.charge now).1.steps = token.steps + 1 := by
  unfold charge start
  cases token.startedAt <;> rfl

theorem charge_maxSteps (now : Time) (token : Token Time) :
    (token.charge now).1.maxSteps = token.maxSteps := by
  unfold charge start
  cases token.startedAt <;> rfl

theorem charge_within (now : Time) (token : Token Time)
    (passed : (token.charge now).2 = none) :
    ((token.charge now).1.steps : Int) ≤ token.maxSteps := by
  have same := charge_maxSteps now token
  rw [← same]
  unfold charge at passed ⊢
  simp only at passed ⊢
  split at passed
  · cases passed
  · rename_i within
    exact Int.not_lt.mp within

end Token

end ArmProgram
