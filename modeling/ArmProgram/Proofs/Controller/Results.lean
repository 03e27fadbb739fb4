import ArmProgram.Proofs.Controller.Turns

/-!
What callers learn of their runs. Over a whole play it is taken down how every run
ends and what those get who wait for one. Each run that has ended is on record
once, with a result that tells how it ended unless it was cancelled. A caller that
came to run the program waits for the run that its own start has launched, and the
result that the controller shows is that of the latest run on record that has one.
-/

namespace ArmProgram

variable {Time : Type}

/-! The record. -/

/-- How a run has ended: its number, and what its task returns, which is nothing if
it was cancelled. -/
structure Finish (Time : Type) where
  number : Nat
  result : Option (Result Time)

structure Seat where
  caller : Option Nat
  waiter : Waiter

/-- How a wait has ended: the caller was cancelled, or it got what the task of the
run returns. -/
inductive Parting (Time : Type) where
  | left (seat : Seat)
  | received (seat : Seat) (finish : Option (Finish Time))

def Parting.seat : Parting Time → Seat
  | left seat | received seat _ => seat

/-- What is taken down of a play: the runs that have ended, latest first, those who
wait for one, and those who have waited. -/
structure Annals (Time : Type) where
  finishes : List (Finish Time)
  seats : List Seat
  partings : List (Parting Time)

def Deed.vacates? : Deed Time → Option Nat
  | .moves (.abandonWait place) | .moves (.finishWait place) => some place
  | _ => none

def Scene.finish? (before after : Scene Time) : Option (Finish Time) :=
  if before.controller.isRunning && !after.controller.isRunning then
    some ⟨before.past.length,
      if after.controller.wasCancelled then none else after.controller.lastResult⟩
  else none

namespace Annals

def empty : Annals Time :=
  ⟨[], [], []⟩

def finish? (number : Nat) (annals : Annals Time) : Option (Finish Time) :=
  annals.finishes.find? (·.number = number)

def awaited? (scene : Scene Time) (id : Nat) (annals : Annals Time) : Option (Finish Time) :=
  annals.finish? (scene.starters.idxOf id)

def parting? (deed : Deed Time) (annals : Annals Time) : Option (Parting Time) :=
  match deed with
  | .moves (.abandonWait place) => annals.seats[place]?.map .left
  | .moves (.finishWait place) =>
      annals.seats[place]?.map fun seat => .received seat (annals.finish? seat.waiter.number)
  | _ => none

variable [TimeScale Time]

def next (before : Scene Time) (deed : Deed Time) (annals : Annals Time) : Annals Time :=
  let after := before.after deed
  let joined := after.waiters.take (after.waiters.length - before.waiters.length)
  let seats := deed.vacates?.elim annals.seats annals.seats.eraseIdx
  { finishes := (before.finish? after).toList ++ annals.finishes
    seats := joined.map (⟨before.controller.starter? after.controller, ·⟩) ++ seats
    partings := (annals.parting? deed).toList ++ annals.partings }

end Annals

def Vigil.annals [TimeScale Time] {first last : Watch Time} (annals : Annals Time) :
    Vigil first last → Annals Time
  | .here _ => annals
  | .next deed _ rest => rest.annals (annals.next first.scene deed)

/-! What is on record. -/

structure Finish.Tells (finish : Finish Time) (scene : Scene Time) (run : Run Time)
    (ending : Ending Time) : Prop where
  reported : ending.isCancelled = false →
    ∃ result, finish.result = some result ∧ result.Tells run ending
  cancelled : ending.isCancelled = true → finish.result = none ∧ finish.number ∈ scene.doomed

structure Scene.Chronicled (scene : Scene Time) (finishes : List (Finish Time)) : Prop where
  once : (finishes.map (·.number)).Nodup
  ended : ∀ number run, scene.tasks[number]? = some run → run.isEnded = true →
    ∃ finish ∈ finishes, finish.number = number
  tells : ∀ finish ∈ finishes, ∃ run ending, scene.tasks[finish.number]? = some run ∧
    run.activity = .ended ending ∧ finish.Tells scene run ending
  latest : scene.controller.lastResult = finishes.findSome? (·.result)

namespace Scene

variable [TimeScale Time] {before after : Scene Time}

theorem Turns.stays (turns : before.Turns after) {number : Nat} {run : Run Time}
    (there : before.tasks[number]? = some run) (ended : run.isEnded = true) :
    ∃ later, after.tasks[number]? = some later ∧ run.Stays later := by
  cases turns with
  | rests past latest result unstarted =>
      rcases before.tasks_cases there with old | ⟨rfl, here⟩
      · exact ⟨run, after.tasks_past (past ▸ old), .refl run⟩
      · rw [here] at latest
        rw [← past, after.tasks_last]
        generalize after.controller.cell.run = now at latest
        cases latest with
        | some stays => exact ⟨_, rfl, stays⟩
  | ends latest ending past running concludes doomed unstarted =>
      rcases before.tasks_cases there with old | ⟨rfl, here⟩
      · exact ⟨run, after.tasks_past (past ▸ old), .refl run⟩
      · obtain ⟨going, known, unended⟩ := before.controller.isRunning_iff.mp running
        cases here.symm.trans known
        cases unended.symm.trans ended
  | launches id idle past running result started =>
      exact ⟨run, after.tasks_past (past ▸ there), .refl run⟩

theorem Turns.ended (turns : before.Turns after) {number : Nat} {later : Run Time}
    (there : after.tasks[number]? = some later) (ended : later.isEnded = true) :
    (∃ run, before.tasks[number]? = some run ∧ run.isEnded = true) ∨
      number = before.past.length ∧ before.controller.isRunning = true ∧
        after.controller.isRunning = false := by
  cases turns with
  | rests past latest result unstarted =>
      rcases after.tasks_cases there with old | ⟨rfl, here⟩
      · exact Or.inl ⟨later, before.tasks_past (past ▸ old), ended⟩
      · rw [here] at latest
        rw [past, before.tasks_last]
        generalize before.controller.cell.run = earlier at latest
        cases latest with
        | some stays => exact Or.inl ⟨_, rfl, stays.ended.symm.trans ended⟩
  | ends latest ending past running concludes doomed unstarted =>
      rcases after.tasks_cases there with old | ⟨rfl, here⟩
      · exact Or.inl ⟨later, before.tasks_past (past ▸ old), ended⟩
      · exact Or.inr ⟨by rw [past], running, concludes.idle⟩
  | launches id idle past running result started =>
      rcases after.tasks_cases there with old | ⟨rfl, here⟩
      · exact Or.inl ⟨later, past ▸ old, ended⟩
      · rw [Controller.isRunning_of_latest here, ended] at running
        cases running

/-- Without an end there is nothing new on record. -/
theorem Turns.unfinished (turns : before.Turns after)
    (unended : before.controller.isRunning = true → after.controller.isRunning = true) :
    before.finish? after = none ∧
      after.controller.lastResult = before.controller.lastResult := by
  have none : before.finish? after = none := by
    unfold finish?
    cases running : before.controller.isRunning with
    | false => rfl
    | true => simp [unended running]
  cases turns with
  | rests past latest result unstarted => exact ⟨none, result⟩
  | launches id idle past running result started => exact ⟨none, result⟩
  | ends run ending past running concludes doomed unstarted =>
      exact absurd (concludes.idle.symm.trans (unended running)) Bool.false_ne_true

/-- The record of a run that is concluded tells how it ended. The controller goes on
to show its result, or the one from before. -/
theorem finish?_of_concludes {run : Run Time} {ending : Ending Time}
    (running : before.controller.isRunning = true)
    (concludes : before.controller.Concludes after.controller run ending)
    (doomed : ending.isCancelled = true → before.past.length ∈ after.doomed) :
    ∃ finish, before.finish? after = some finish ∧ finish.number = before.past.length ∧
      finish.Tells after run ending ∧
      after.controller.lastResult = finish.result.or before.controller.lastResult := by
  have idle := concludes.idle
  obtain ⟨latest, ended, now, noted⟩ := concludes
  have cancelled : after.controller.wasCancelled = ending.isCancelled := by
    simp only [Controller.wasCancelled, latest, Option.any_some, Run.ending?, ended]
    cases ending <;> rfl
  have finished : before.finish? after = some ⟨before.past.length,
      if ending.isCancelled then none else after.controller.lastResult⟩ := by
    simp only [finish?, running, idle, cancelled, Bool.not_false, Bool.and_self, ↓reduceIte]
  refine ⟨_, finished, rfl, ?_, ?_⟩
  · refine ⟨fun uncancelled => ?_, fun gone => ⟨?_, doomed gone⟩⟩
    · obtain ⟨result, made, tells⟩ := Result.ofEnding_tells now ended uncancelled
      rw [made, Option.some_or] at noted
      refine ⟨result, ?_, tells⟩
      simp only [uncancelled, Bool.false_eq_true, ↓reduceIte, noted]
    · simp only [gone, ↓reduceIte]
  · cases gone : ending.isCancelled with
    | true =>
        rw [Result.ofEnding_cancelled now run.token gone, Option.none_or] at noted
        simp only [↓reduceIte, noted, Option.none_or]
    | false =>
        obtain ⟨result, made, -⟩ := Result.ofEnding_tells now ended gone
        rw [made, Option.some_or] at noted
        simp only [noted, Bool.false_eq_true, ↓reduceIte, Option.some_or]

/-- What a record tells of a run stays true. -/
theorem Turns.tells (turns : before.Turns after)
    (doomed : ∀ number ∈ before.doomed, number ∈ after.doomed)
    {finishes : List (Finish Time)} (chronicled : before.Chronicled finishes)
    (finish : Finish Time) (listed : finish ∈ finishes) :
    ∃ run ending, after.tasks[finish.number]? = some run ∧ run.activity = .ended ending ∧
      finish.Tells after run ending := by
  obtain ⟨run, ending, there, activity, tells⟩ := chronicled.tells finish listed
  have ended := Run.isEnded_of_activity activity
  obtain ⟨later, known, stays⟩ := turns.stays there ended
  refine ⟨later, ending, known, (stays.activity ended).trans activity, fun uncancelled => ?_,
    fun gone => ?_⟩
  · obtain ⟨result, noted, same⟩ := tells.reported uncancelled
    exact ⟨result, noted, same.stays stays ended⟩
  · obtain ⟨none, marked⟩ := tells.cancelled gone
    exact ⟨none, doomed _ marked⟩

omit [TimeScale Time] in
theorem Chronicled.unlisted {finishes : List (Finish Time)} (chronicled : before.Chronicled finishes)
    (running : before.controller.isRunning = true) :
    before.past.length ∉ finishes.map (·.number) := by
  intro listed
  obtain ⟨finish, member, same⟩ := List.mem_map.mp listed
  obtain ⟨run, ending, there, activity, -⟩ := chronicled.tells finish member
  obtain ⟨latest, here, going⟩ := before.controller.isRunning_iff.mp running
  rw [same, before.tasks_last, here] at there
  cases there
  exact absurd (going.symm.trans (Run.isEnded_of_activity activity)) Bool.false_ne_true

/-- A deed that concludes a run puts it on record, and any other deed leaves the
record as it is. -/
theorem Turns.chronicled (turns : before.Turns after)
    (doomed : ∀ number ∈ before.doomed, number ∈ after.doomed)
    {finishes : List (Finish Time)} (chronicled : before.Chronicled finishes) :
    after.Chronicled ((before.finish? after).toList ++ finishes) := by
  have kept := turns.tells doomed chronicled
  have former (number : Nat) (run : Run Time) (there : after.tasks[number]? = some run)
      (ended : run.isEnded = true) : (∃ finish ∈ finishes, finish.number = number) ∨
        number = before.past.length ∧ before.controller.isRunning = true ∧
          after.controller.isRunning = false := by
    refine (turns.ended there ended).imp_left fun ⟨earlier, known, old⟩ => ?_
    exact chronicled.ended number earlier known old
  by_cases unended : before.controller.isRunning = true → after.controller.isRunning = true
  · obtain ⟨none, result⟩ := turns.unfinished unended
    rw [none]
    refine ⟨chronicled.once, fun number run there ended => ?_, kept, result.trans chronicled.latest⟩
    refine (former number run there ended).resolve_right fun ⟨_, running, idle⟩ => ?_
    exact absurd (idle.symm.trans (unended running)) Bool.false_ne_true
  · obtain ⟨running, idle⟩ := Classical.not_imp.mp unended
    cases turns with
    | rests past latest result unstarted =>
        exact absurd ((Controller.isRunning_of_stays latest).1.trans running) idle
    | launches id unstarted past active result started => exact absurd active idle
    | ends run ending past active concludes gone unstarted =>
        obtain ⟨finish, new, number, tells, result⟩ := finish?_of_concludes running concludes
          fun cancelled => doomed _ (gone cancelled)
        have there : after.tasks[finish.number]? = some run := by
          rw [number, ← past, after.tasks_last, concludes.latest]
        rw [new]
        refine ⟨?_, fun other later known ended => ?_, fun other listed => ?_, ?_⟩
        · refine List.nodup_cons.mpr ⟨fun listed => ?_, chronicled.once⟩
          exact chronicled.unlisted running (number ▸ listed)
        · rcases former other later known ended with ⟨old, member, same⟩ | ⟨same, -, -⟩
          · exact ⟨old, List.mem_cons_of_mem _ member, same⟩
          · exact ⟨finish, List.mem_cons_self, number.trans same.symm⟩
        · rcases List.mem_cons.mp listed with rfl | old
          · exact ⟨run, ending, there, concludes.ended, tells⟩
          · exact kept other old
        · -- Without a result of its own the run leaves the one from before.
          rw [result, chronicled.latest, Option.toList_some, List.singleton_append,
            List.findSome?_cons]
          cases finish.result <;> rfl

/-! Those who wait. -/

def Owns (scene : Scene Time) (seat : Seat) : Prop :=
  ∀ id, seat.caller = some id → scene.starters[seat.waiter.number]? = some id

/-- Those who wait and those who have waited are on record. No caller that stays for
its run is lost, and what it gets is the record of that run. -/
structure Seated (scene : Scene Time) (annals : Annals Time) : Prop where
  seats : annals.seats.map (·.waiter) = scene.waiters
  own : ∀ seat ∈ annals.seats, scene.Owns seat
  parted : ∀ parting ∈ annals.partings, scene.Owns parting.seat
  received : ∀ seat finish, .received seat finish ∈ annals.partings →
    ∃ known ∈ annals.finishes, finish = some known ∧ known.number = seat.waiter.number
  stayed : ∀ id ∈ scene.stayers, id ∈ scene.starters →
    (∃ seat ∈ annals.seats, seat.caller = some id) ∨
      ∃ parting ∈ annals.partings, parting.seat.caller = some id

structure Joins (before after : Scene Time) (joined : List Waiter) : Prop where
  waiters : after.waiters = joined ++ before.waiters
  stayers : ∀ id ∈ after.stayers, id ∈ before.stayers ∨ id = before.callers
  number : ∀ id, before.controller.starter? after.controller = some id →
    ∀ waiter ∈ joined, waiter.number = after.past.length
  stays : ∀ id ∈ after.stayers, before.controller.starter? after.controller = some id → joined ≠ []

omit [TimeScale Time] in
theorem joins_of_same (waiters : after.waiters = before.waiters)
    (stayers : after.stayers = before.stayers)
    (answers : after.controller.answers = before.controller.answers) : before.Joins after [] := by
  have unstarted := unstarted_of_same answers
  refine ⟨waiters, fun id listed => Or.inl (stayers ▸ listed), fun id _ waiter => nofun,
    fun id _ started => ?_⟩
  rw [unstarted] at started
  cases started

omit [TimeScale Time] in
theorem follow_joins (scene : Scene Time) (after : Controller Time) :
    ∃ joined, scene.Joins (scene.follow after) joined := by
  cases started : scene.controller.starter? after with
  | none =>
      refine ⟨[], ?_, fun _ listed => Or.inl listed, fun _ _ _ => nofun, fun id _ same => ?_⟩
      · simp only [follow, waitersAfter, started, List.nil_append]
      · exact absurd (same.symm.trans started) (Option.some_ne_none _)
  | some id =>
      by_cases stays : scene.stayers.contains id = true
      · refine ⟨[⟨(scene.pastAfter after).length, true⟩], ?_, fun _ listed => Or.inl listed, ?_,
          fun _ _ _ => List.cons_ne_nil _ _⟩
        · simp only [follow, waitersAfter, started, stays, ↓reduceIte, List.singleton_append]
        · intro _ _ waiter listed
          rw [List.mem_singleton.mp listed]
          rfl
      · refine ⟨[], ?_, fun _ listed => Or.inl listed, fun _ _ _ => nofun,
          fun other listed same => ?_⟩
        · simp only [follow, waitersAfter, started, stays, Bool.false_eq_true, ↓reduceIte,
            List.nil_append]
        · cases started.symm.trans same
          exact absurd (List.contains_iff_mem.mpr listed) stays

theorem receive_joins (wish : Wish) (stays : Bool) (scene : Scene Time) :
    ∃ joined, scene.Joins (scene.receive wish stays) joined := by
  obtain ⟨joined, waiters, -, number, seated⟩ := follow_joins
    { scene with
      callers := scene.callers + 1
      stayers := if stays then scene.callers :: scene.stayers else scene.stayers }
    (scene.controller.arrive ⟨scene.callers, wish⟩)
  refine ⟨joined, waiters, fun id listed => ?_, number, seated⟩
  cases stays with
  | false => exact Or.inl listed
  | true => exact (List.mem_cons.mp listed).symm

theorem after_joins (scene : Scene Time) (deed : Deed Time) (stays : deed.vacates? = none) :
    ∃ joined, scene.Joins (scene.after deed) joined := by
  cases deed with
  | edit draft entries => exact ⟨[], joins_of_same rfl rfl rfl⟩
  | moves move =>
      cases move with
      | call errand =>
          cases errand with
          | start | run | stop => exact receive_joins _ _ scene
          | wait =>
              have silent (after : Scene Time) (same : after.controller = scene.controller) :
                  scene.controller.starter? after.controller = none :=
                unstarted_of_same (by rw [same])
              simp only [after, next, meet]
              split
              · refine ⟨[⟨scene.past.length, false⟩], rfl, fun _ listed => Or.inl listed, ?_, ?_⟩
                · intro id started
                  cases (silent _ rfl).symm.trans started
                · intro id _ started
                  cases (silent _ rfl).symm.trans started
              · exact ⟨[], joins_of_same rfl rfl rfl⟩
          | importBlocks blocks => exact ⟨[], joins_of_same rfl rfl rfl⟩
      | letIn => exact follow_joins scene _
      | resume =>
          obtain ⟨joined, waiters, stayers, number, seated⟩ :=
            follow_joins scene.letGo scene.controller.resumeHolder
          exact ⟨joined, waiters, stayers, number, seated⟩
      | abandonWait place | finishWait place => cases stays
      | unwind number =>
          obtain ⟨-, stayers, waiters, -⟩ := scene.onTask_people number cancelled
          exact ⟨[], joins_of_same waiters stayers
            (onTask_runsOn number _ scene Controller.cancelled_runsOn).sameLine.answers⟩
      | step number =>
          obtain ⟨-, stayers, waiters, -⟩ := scene.onTask_people number (·.stepRun)
          exact ⟨[], joins_of_same waiters stayers
            (onTask_runsOn number _ scene Controller.stepRun_runsOn).sameLine.answers⟩
      | abandonHold | abandonQueue | doom | effect | equip | arm | pass =>
          exact ⟨[], joins_of_same rfl rfl rfl⟩

omit [TimeScale Time] in
theorem Owns.grow {seat : Seat} (owns : before.Owns seat) {more : List Nat}
    (starters : after.starters = before.starters ++ more) : after.Owns seat := by
  intro id same
  have known := owns id same
  obtain ⟨old, -⟩ := List.getElem?_eq_some_iff.mp known
  rwa [starters, List.getElem?_append_left old]

omit [TimeScale Time] in
/-- Some come to wait, and for their own run if one has just been launched. -/
theorem Seated.join {annals : Annals Time} (seated : before.Seated annals) (lined : before.Lined)
    {joined : List Waiter} (joins : before.Joins after joined)
    (starters : after.starters =
      before.starters ++ (before.controller.starter? after.controller).toList)
    (launched : ∀ id, before.controller.starter? after.controller = some id →
      after.past.length = before.starters.length) (more : List (Finish Time)) :
    after.Seated
      ⟨more ++ annals.finishes,
        joined.map (⟨before.controller.starter? after.controller, ·⟩) ++ annals.seats,
        annals.partings⟩ := by
  constructor
  · rw [List.map_append, List.map_map, seated.seats, joins.waiters]
    exact congrArg (· ++ before.waiters) (List.map_id joined)
  · intro seat listed
    rcases List.mem_append.mp listed with new | old
    · obtain ⟨waiter, came, rfl⟩ := List.mem_map.mp new
      intro id mine
      have started : before.controller.starter? after.controller = some id := mine
      have place := (joins.number id started waiter came).trans (launched id started)
      rw [starters, place, started, Option.toList_some, List.getElem?_concat_length]
    · exact (seated.own seat old).grow starters
  · exact fun parting listed => (seated.parted parting listed).grow starters
  · intro seat finish listed
    obtain ⟨known, member, same⟩ := seated.received seat finish listed
    exact ⟨known, List.mem_append_right _ member, same⟩
  · intro id listed started
    rw [starters, List.mem_append, Option.mem_toList] at started
    rcases started with old | new
    · -- Who had started a run before is not the caller that has just come.
      have stayed : id ∈ before.stayers := by
        refine (joins.stayers id listed).resolve_right fun same => ?_
        exact Nat.lt_irrefl _ (same ▸ lined.known id (mem_starters old))
      refine (seated.stayed id stayed old).imp_left fun ⟨seat, member, same⟩ => ?_
      exact ⟨seat, List.mem_append_right _ member, same⟩
    · obtain ⟨waiter, came⟩ := List.exists_mem_of_ne_nil _ (joins.stays id listed new)
      refine Or.inl ⟨_, List.mem_append_left _ (List.mem_map_of_mem came), new⟩

omit [TimeScale Time] in
theorem Seated.leave {annals : Annals Time} (seated : before.Seated annals) {place : Nat}
    {part : Seat → Parting Time} (waiters : after.waiters = before.waiters.eraseIdx place)
    (stayers : after.stayers = before.stayers) (starters : after.starters = before.starters)
    (same : ∀ seat, (part seat).seat = seat)
    (received : ∀ seat, annals.seats[place]? = some seat → ∀ other finish,
      part seat = .received other finish →
        ∃ known ∈ annals.finishes, finish = some known ∧ known.number = other.waiter.number) :
    after.Seated
      ⟨annals.finishes, annals.seats.eraseIdx place,
        (annals.seats[place]?.map part).toList ++ annals.partings⟩ := by
  have still : after.starters = before.starters ++ [] := by rw [starters, List.append_nil]
  constructor
  · rw [← List.eraseIdx_map, seated.seats, waiters]
  · exact fun seat listed => (seated.own seat (List.mem_of_mem_eraseIdx listed)).grow still
  · intro parting listed
    rcases List.mem_append.mp listed with new | old
    · obtain ⟨seat, there, rfl⟩ := Option.map_eq_some_iff.mp (Option.mem_toList.mp new)
      rw [same]
      exact (seated.own seat (List.mem_of_getElem? there)).grow still
    · exact (seated.parted parting old).grow still
  · intro other finish listed
    rcases List.mem_append.mp listed with new | old
    · obtain ⟨seat, there, got⟩ := Option.map_eq_some_iff.mp (Option.mem_toList.mp new)
      exact received seat there other finish got
    · exact seated.received other finish old
  · intro id listed started
    rw [stayers] at listed
    rw [starters] at started
    rcases seated.stayed id listed started with ⟨seat, member, mine⟩ | ⟨parting, member, mine⟩
    · -- Which seat is given up is known by its place.
      obtain ⟨at', there⟩ := List.getElem?_of_mem member
      by_cases here : at' = place
      · subst here
        refine Or.inr ⟨part seat, List.mem_append_left _ ?_, (congrArg Seat.caller (same seat)).trans mine⟩
        rw [there]
        exact List.mem_singleton_self _
      · exact Or.inl ⟨seat, List.mem_eraseIdx_iff_getElem?.mpr ⟨at', here, there⟩, mine⟩
    · exact Or.inr ⟨parting, List.mem_append_right _ member, mine⟩

theorem next_join (annals : Annals Time) (deed : Deed Time) (stays : deed.vacates? = none)
    {joined : List Waiter} (waiters : (before.after deed).waiters = joined ++ before.waiters) :
    annals.next before deed =
      ⟨(before.finish? (before.after deed)).toList ++ annals.finishes,
        joined.map (⟨before.controller.starter? (before.after deed).controller, ·⟩) ++ annals.seats,
        annals.partings⟩ := by
  have silent : annals.parting? deed = none := by
    cases deed with
    | edit draft entries => rfl
    | moves move =>
        cases move with
        | abandonWait place | finishWait place => cases stays
        | _ => rfl
  have front : (joined ++ before.waiters).length - before.waiters.length = joined.length := by
    rw [List.length_append, Nat.add_sub_cancel]
  simp only [Annals.next, stays, silent, waiters, front, List.take_left', Option.elim_none,
    Option.toList_none, List.nil_append]

theorem next_leave (annals : Annals Time) (deed : Deed Time) {place : Nat}
    (vacates : deed.vacates? = some place)
    (waiters : (before.after deed).waiters = before.waiters.eraseIdx place)
    (same : (before.after deed).controller = before.controller) :
    annals.next before deed =
      ⟨annals.finishes, annals.seats.eraseIdx place,
        (annals.parting? deed).toList ++ annals.partings⟩ := by
  have fewer : (before.waiters.eraseIdx place).length - before.waiters.length = 0 :=
    Nat.sub_eq_zero_of_le (List.eraseIdx_sublist _ _).length_le
  have unfinished : before.finish? (before.after deed) = none := by
    simp only [finish?, same, Bool.and_not_self, Bool.false_eq_true, ↓reduceIte]
  simp only [Annals.next, vacates, waiters, fewer, unfinished, List.take_zero, List.map_nil,
    Option.elim_some, Option.toList_none, List.nil_append]

theorem after_sound {scene : Scene Time} (sound : scene.Sound) (deed : Deed Time)
    (allowed : scene.allowsDeed deed = true) : (scene.after deed).Sound := by
  cases deed with
  | moves move => exact goes_sound sound (next_goes sound move allowed)
  | edit draft entries => exact ⟨sound.past, sound.reach, sound.holds⟩

omit [TimeScale Time] in
theorem abandon_people (place : Nat) (scene : Scene Time) :
    (scene.abandon place).waiters = scene.waiters.eraseIdx place ∧
      (scene.abandon place).stayers = scene.stayers ∧
      (scene.abandon place).starters = scene.starters ∧
      (scene.abandon place).controller = scene.controller := by
  simp only [abandon]
  split <;> exact ⟨rfl, rfl, rfl, rfl⟩

theorem after_doomed (scene : Scene Time) (deed : Deed Time) (number : Nat)
    (doomed : number ∈ scene.doomed) : number ∈ (scene.after deed).doomed := by
  cases deed with
  | edit draft entries => exact doomed
  | moves move =>
      cases move with
      | doom other => exact List.mem_cons_of_mem _ doomed
      | abandonWait place =>
          simp only [after, next, abandon]
          split
          · exact List.mem_cons_of_mem _ doomed
          · exact doomed
      | unwind other =>
          obtain ⟨-, -, -, same⟩ := scene.onTask_people other cancelled
          exact same ▸ doomed
      | step other =>
          obtain ⟨-, -, -, same⟩ := scene.onTask_people other (·.stepRun)
          exact same ▸ doomed
      | call errand =>
          cases errand with
          | wait =>
              simp only [after, next, meet]
              split <;> exact doomed
          | _ => exact doomed
      | _ => exact doomed

/-! The whole record. -/

structure Recorded (scene : Scene Time) (annals : Annals Time) : Prop where
  sound : scene.Sound
  lined : scene.Lined
  runs : scene.starters.length = scene.tasks.length
  chronicled : scene.Chronicled annals.finishes
  seated : scene.Seated annals

theorem Turns.runs (turns : before.Turns after)
    (starters : after.starters =
      before.starters ++ (before.controller.starter? after.controller).toList)
    (runs : before.starters.length = before.tasks.length) :
    after.starters.length = after.tasks.length := by
  rw [starters, List.length_append, runs, tasks_length after]
  cases turns with
  | rests past latest result unstarted =>
      rw [unstarted, past, tasks_length, (Controller.isRunning_of_stays latest).2]
      rfl
  | ends run ending past running concludes doomed unstarted =>
      rw [unstarted, past, tasks_length, concludes.latest,
        Controller.present_of_running _ running]
      rfl
  | launches id idle past running result started =>
      rw [started, past, Controller.present_of_running _ running]
      rfl

omit [TimeScale Time] in
theorem finish?_of_ended {scene : Scene Time} {annals : Annals Time} {number : Nat}
    (chronicled : scene.Chronicled annals.finishes) (ended : scene.hasEnded number = true) :
    ∃ known ∈ annals.finishes, annals.finish? number = some known ∧ known.number = number := by
  obtain ⟨run, there, finished⟩ := (Option.any_eq_true ..).mp ended
  obtain ⟨finish, listed, same⟩ := chronicled.ended number run there finished
  have present : (annals.finish? number).isSome = true :=
    List.find?_isSome.mpr ⟨finish, listed, decide_eq_true same⟩
  obtain ⟨known, found⟩ := Option.isSome_iff_exists.mp present
  have mine : known.number = number := by
    unfold Annals.finish? at found
    simpa using List.find?_some found
  exact ⟨known, List.mem_of_find?_eq_some found, found, mine⟩

omit [TimeScale Time] in
/-- The task that a start has returned is that of the run which it has launched. -/
theorem awaited?_of_ended {scene : Scene Time} {annals : Annals Time} (lined : scene.Lined)
    (chronicled : scene.Chronicled annals.finishes) {number id : Nat}
    (started : scene.starters[number]? = some id) (ended : scene.hasEnded number = true) :
    ∃ known ∈ annals.finishes, annals.awaited? scene id = some known ∧ known.number = number := by
  obtain ⟨bound, rfl⟩ := List.getElem?_eq_some_iff.mp started
  rw [Annals.awaited?, lined.starters.idxOf_getElem number bound]
  exact finish?_of_ended chronicled ended

theorem Seated.hasEnded {scene : Scene Time} {annals : Annals Time} (seated : scene.Seated annals)
    {place : Nat} {seat : Seat} (there : annals.seats[place]? = some seat)
    (allowed : scene.allows (.finishWait place) = true) :
    scene.hasEnded seat.waiter.number = true := by
  have waits : scene.waiters[place]? = some seat.waiter := by
    rw [← seated.seats, List.getElem?_map, there, Option.map_some]
  simpa only [allows, waits, Option.any_some] using allowed

theorem next_recorded {scene : Scene Time} {annals : Annals Time} (recorded : scene.Recorded annals)
    (deed : Deed Time) (allowed : scene.allowsDeed deed = true) :
    (scene.after deed).Recorded (annals.next scene deed) := by
  obtain ⟨sound, lined, runs, chronicled, seated⟩ := recorded
  have turns := after_turns sound deed allowed
  have proceeds := scene.after_proceeds deed allowed
  have starters := proceeds.starters
  refine ⟨after_sound sound deed allowed, proceeds.lined lined, turns.runs starters runs,
    turns.chronicled (scene.after_doomed deed) chronicled, ?_⟩
  cases vacates : deed.vacates? with
  | none =>
      obtain ⟨joined, joins⟩ := scene.after_joins deed vacates
      rw [next_join annals deed vacates joins.waiters]
      refine seated.join lined joins starters (fun id started => ?_) _
      cases turns with
      | rests _ _ _ unstarted => cases unstarted.symm.trans started
      | ends _ _ _ _ _ _ unstarted => cases unstarted.symm.trans started
      | launches other idle past running result given => rw [past, runs]
  | some place =>
      cases deed with
      | edit draft entries => cases vacates
      | moves move =>
          cases move with
          | abandonWait place =>
              cases vacates
              obtain ⟨waiters, stayers, still, same⟩ := scene.abandon_people place
              rw [next_leave annals (.moves (.abandonWait place)) rfl waiters same]
              refine seated.leave waiters stayers still (fun _ => rfl) ?_
              exact fun _ _ _ _ got => nomatch got
          | finishWait place =>
              cases vacates
              rw [next_leave annals (.moves (.finishWait place)) rfl rfl rfl]
              refine seated.leave rfl rfl rfl (fun _ => rfl) fun seat there other finish got => ?_
              cases got
              exact finish?_of_ended chronicled (seated.hasEnded there allowed)
          | _ => cases vacates

theorem opening_recorded (arm : Arm Time) (hooks : List Hook) (program : Program)
    (config : Config) (robot : Robot) (nextId : Nat) :
    (opening arm hooks program config robot nextId).Recorded .empty := by
  have none {α : Type} {law : α → Prop} : ∀ one ∈ ([] : List α), law one :=
    fun _ listed => (List.not_mem_nil listed).elim
  refine ⟨opening_sound arm hooks program config robot nextId, ⟨List.nodup_nil, none⟩, rfl,
    ⟨List.nodup_nil, fun _ _ there => ?_, none, rfl⟩,
    ⟨rfl, none, none, fun _ _ listed => (List.not_mem_nil listed).elim, none⟩⟩
  cases there

end Scene

theorem Vigil.recorded [TimeScale Time] {first last : Watch Time} (vigil : Vigil first last)
    {annals : Annals Time} (recorded : first.scene.Recorded annals) :
    last.scene.Recorded (vigil.annals annals) := by
  induction vigil generalizing annals with
  | here => exact recorded
  | next deed allowed rest ih => exact ih (Scene.next_recorded recorded deed allowed)

/-! Starting again. -/

namespace Controller

variable [TimeScale Time]

/-- Without an unfinished run a start that is not refused launches at once. -/
theorem enter_starts (controller : Controller Time) (idle : controller.isRunning = false)
    (id : Nat) {simulate confirm : Bool} {abilities : Abilities}
    (passed : controller.refusal? simulate confirm = none)
    (fits : controller.robot.abilities simulate = .ok abilities) :
    (controller.enter ⟨id, .start simulate confirm⟩).cell.run =
        some (controller.newRun abilities) ∧
      (controller.enter ⟨id, .start simulate confirm⟩).answers =
        (id, .started) :: controller.answers := by
  have grounds := abort_grounds controller
  have still : controller.abortTarget.isRunning = false :=
    (abort_keeps controller).isRunning.trans idle
  have launched := release_fit controller.abortTarget id simulate confirm abilities
    (by rw [grounds.robot, fits])
  have same : controller.abortTarget.newRun abilities = controller.newRun abilities := by
    unfold newRun
    rw [grounds.program, grounds.config]
  simp only [enter, passed, stopActive, still, Bool.false_eq_true, ↓reduceIte]
  exact ⟨launched.run.trans (congrArg some same), launched.answers.trans (by rw [grounds.answers])⟩

end Controller

namespace Scene

variable [TimeScale Time]

structure Starts (scene : Scene Time) (move : Move Time) (id : Nat) (simulate : Bool)
    (abilities : Abilities) : Prop where
  allowed : scene.allows move = true
  started : scene.controller.starter? (scene.next move).controller = some id
  launches : scene.Launches (scene.next move) simulate abilities

/-- The controller can start a run: who holds it goes on, and else the first in line
or the next to come launches, unless it is refused. -/
structure Reopens (scene : Scene Time) : Prop where
  idle : scene.controller.isRunning = false
  goesOn : scene.controller.holder.isSome = true → scene.allows .resume = true
  resumes : ∀ id simulate confirm abilities,
    scene.controller.holder = some ⟨id, .start simulate confirm⟩ →
    scene.controller.robot.abilities simulate = .ok abilities →
      scene.Starts .resume id simulate abilities
  admits : ∀ id simulate confirm abilities, scene.controller.holder = none →
    scene.controller.queue.head? = some ⟨id, .start simulate confirm⟩ →
    scene.controller.refusal? simulate confirm = none →
    scene.controller.robot.abilities simulate = .ok abilities →
      scene.Starts .letIn id simulate abilities
  starts : ∀ simulate confirm abilities, scene.controller.holder = none →
    scene.controller.queue = [] → scene.controller.refusal? simulate confirm = none →
    scene.controller.robot.abilities simulate = .ok abilities →
      scene.Starts (.call (.start simulate confirm)) scene.callers simulate abilities ∧
        scene.Starts (.call (.run simulate confirm)) scene.callers simulate abilities

omit [TimeScale Time] in
theorem starter?_of_answers {scene : Scene Time} {after : Controller Time} {id : Nat}
    (answers : after.answers = (id, .started) :: scene.controller.answers) :
    scene.controller.starter? after = some id :=
  Controller.starter?_iff.mpr (Controller.newAnswer?_cons answers)

theorem reopens_of_idle {scene : Scene Time} (sound : scene.Sound)
    (idle : scene.controller.isRunning = false) : scene.Reopens := by
  have ready : scene.controller.holder.isSome = true → scene.allows .resume = true := by
    intro held
    obtain ⟨present, awaited⟩ := sound.holds held
    obtain ⟨run, here⟩ := Option.isSome_iff_exists.mp present
    have ended := ended_of_idle scene.controller idle run (Option.mem_toList.mpr here)
    simp only [allows, held, awaited, hasEnded, tasks_last, here, ended, Option.any_some,
      Bool.and_self]
  refine ⟨idle, ready, fun id simulate confirm abilities held fits => ?_,
    fun id simulate confirm abilities free first passed fits => ?_,
    fun simulate confirm abilities free empty passed fits => ?_⟩
  · have launched := Controller.release_fit { scene.controller with holder := none } id simulate
      confirm abilities fits
    have outcome : scene.controller.resumeHolder =
        { scene.controller with holder := none }.release ⟨id, .start simulate confirm⟩ := by
      simp only [Controller.resumeHolder, held]
    refine ⟨ready (by rw [held]; rfl), starter?_of_answers ?_, ⟨fits, ?_⟩⟩
    · exact (congrArg Controller.answers outcome).trans launched.answers
    · exact (congrArg (·.cell.run) outcome).trans launched.run
  · obtain ⟨rest, queue⟩ := List.head?_eq_some_iff.mp first
    obtain ⟨run, answers⟩ := { scene.controller with queue := rest }.enter_starts idle id passed fits
    have outcome : scene.controller.admitNext =
        { scene.controller with queue := rest }.enter ⟨id, .start simulate confirm⟩ := by
      simp only [Controller.admitNext, queue]
    refine ⟨by simp only [allows, free, Option.isNone_none], starter?_of_answers ?_, ⟨fits, ?_⟩⟩
    · exact (congrArg Controller.answers outcome).trans answers
    · exact (congrArg (·.cell.run) outcome).trans run
  · obtain ⟨run, answers⟩ := scene.controller.enter_starts idle scene.callers passed fits
    have outcome : scene.controller.arrive ⟨scene.callers, .start simulate confirm⟩ =
        scene.controller.enter ⟨scene.callers, .start simulate confirm⟩ := by
      simp only [Controller.arrive, free, empty, Option.isNone_none, List.isEmpty_nil,
        Bool.and_self, ↓reduceIte]
    constructor
    all_goals
      refine ⟨rfl, starter?_of_answers ?_, ⟨fits, ?_⟩⟩
      · exact (congrArg Controller.answers outcome).trans answers
      · exact (congrArg (·.cell.run) outcome).trans run

/-- A run that unwinds leaves the result of the one before, and the controller can
start again. -/
theorem unwind_reopens {scene : Scene Time} (sound : scene.Sound) (number : Nat)
    (allowed : scene.allows (.unwind number) = true) :
    (scene.next (.unwind number)).controller.lastResult = scene.controller.lastResult ∧
      (scene.next (.unwind number)).Reopens := by
  have later := goes_sound sound (next_goes sound (.unwind number) allowed)
  simp only [allows, Bool.and_eq_true] at allowed
  obtain ⟨rfl, running, outcome⟩ := onTask_latest sound number cancelled allowed.2
  obtain ⟨run, ending, ⟨latest, ended, now, noted⟩, gone⟩ :=
    Controller.cancelled_concludes running
  rw [Result.ofEnding_cancelled now run.token gone, Option.none_or] at noted
  have idle : (scene.next (.unwind scene.past.length)).controller.isRunning = false := by
    simp only [next, outcome, Controller.isRunning_of_latest latest,
      Run.isEnded_of_activity ended, Bool.not_true]
  refine ⟨?_, reopens_of_idle later idle⟩
  simp only [next, outcome, noted]

end Scene

variable [TimeScale Time]

/-- However callers start, run, stop, wait and are cancelled: each run that has ended
is on record once, and unless it was cancelled its result, the way it ended, its phase
and its steps agree. A caller that came to run the program gets the record of the run
that its own start has launched. The controller shows the result of the latest run on
record that was not cancelled, and a cancelled run leaves it able to start again. -/
theorem runs_report_to_their_callers (arm : Arm Time) (hooks : List Hook) (program : Program)
    (config : Config) (robot : Robot) (nextId : Nat) {watch : Watch Time}
    (vigil : Vigil (.ofScene (.opening arm hooks program config robot nextId)) watch) :
    watch.scene.Chronicled (vigil.annals .empty).finishes ∧
      watch.scene.Seated (vigil.annals .empty) ∧
      watch.scene.starters.length = watch.scene.tasks.length ∧ watch.scene.starters.Nodup ∧
      (∀ number id, watch.scene.starters[number]? = some id →
        watch.scene.hasEnded number = true → ∃ finish ∈ (vigil.annals .empty).finishes,
          (vigil.annals .empty).awaited? watch.scene id = some finish ∧ finish.number = number) ∧
      (∀ number, watch.scene.allows (.unwind number) = true →
        (watch.scene.next (.unwind number)).controller.lastResult =
            watch.scene.controller.lastResult ∧
          (watch.scene.next (.unwind number)).Reopens) ∧
      (watch.scene.controller.isRunning = false → watch.scene.Reopens) := by
  have recorded := vigil.recorded
    (Scene.opening_recorded arm hooks program config robot nextId)
  exact ⟨recorded.chronicled, recorded.seated, recorded.runs, recorded.lined.starters,
    fun _ _ => Scene.awaited?_of_ended recorded.lined recorded.chronicled,
    Scene.unwind_reopens recorded.sound, Scene.reopens_of_idle recorded.sound⟩

/-- The second caller replaces the run of the first, which gets the result of its own
run. The second one is cancelled, and its run with it. -/
example : ∃ watch : Watch Float, ∃ vigil : Vigil (.ofScene (.opening (.resting 0 true none) []
      ⟨[⟨"grip", "open_gripper", .empty, none, none⟩]⟩ .default .arm 0)) watch,
    (vigil.annals .empty).finishes.map (fun finish =>
        (finish.number, finish.result.bind (·.errorKind))) = [(1, none), (0, some .aborted)] ∧
      (vigil.annals .empty).partings.map (fun parting =>
        (parting.seat.caller, parting.seat.waiter.number)) = [(some 0, 0), (some 1, 1)] ∧
      watch.scene.controller.lastResult.bind (·.errorKind) = some .aborted := by
  refine ⟨_, .next (.moves (.call (.run true false))) rfl <| .next (.moves (.step 0)) rfl <|
    .next (.moves (.call (.run true false))) rfl <| .next (.moves (.step 0)) rfl <|
    .next (.moves .resume) rfl <| .next (.moves (.abandonWait 0)) rfl <|
    .next (.moves (.unwind 1)) rfl <| .next (.moves (.finishWait 0)) rfl <| .here _, ?_⟩
  exact ⟨rfl, rfl, rfl⟩

end ArmProgram
