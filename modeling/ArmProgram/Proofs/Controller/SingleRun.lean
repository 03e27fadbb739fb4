import ArmProgram.Proofs.Controller.Serving

/-!
One run at a time. The invariant of a scene: all runs of the past have ended,
an unfinished run can be reached through its token, and a holder waits for the
latest run. It holds for every order of moves, so also when a cancelled caller
leaves a wait half done.
-/

namespace ArmProgram

variable {Time : Type}

namespace Scene

variable {before middle after : Scene Time}

inductive Goes (before after : Scene Time) : Prop where
  | on (past : after.past = before.past)
      (present : after.controller.cell.run.isSome = before.controller.cell.run.isSome)
      (running : after.controller.isRunning = true →
        before.controller.isRunning = true ∧ after.controller.target = before.controller.target)
      (holds : after.controller.holder.isSome = true →
        before.controller.holder.isSome = true ∧ after.awaited = before.awaited ∨
          after.controller.isRunning = true ∧ after.awaited = some after.past.length)
      (stopped : ∀ id, before.controller.newAnswer? after.controller = some (id, .stopped) →
        before.controller.isRunning = false)
      (calls : before.controller.isRunning = false →
        after.controller.cell.arm.calls = before.controller.cell.arm.calls)
  | launches (idle : before.controller.isRunning = false)
      (past : after.past = before.past ++ before.controller.cell.run.toList)
      (present : after.controller.cell.run.isSome = true)
      (target : after.controller.target = .run) (free : after.controller.holder = none)
      (unstopped : ∀ id, before.controller.newAnswer? after.controller ≠ some (id, .stopped))

structure Sound (scene : Scene Time) : Prop where
  past : ∀ run ∈ scene.past, run.isEnded = true
  reach : scene.controller.isRunning = true → scene.controller.target = .run
  holds : scene.controller.holder.isSome = true →
    scene.controller.cell.run.isSome = true ∧ scene.awaited = some scene.past.length

theorem ended_of_idle (controller : Controller Time) (idle : controller.isRunning = false)
    (run : Run Time) (here : run ∈ controller.cell.run.toList) : run.isEnded = true := by
  have latest : controller.cell.run = some run := Option.mem_toList.mp here
  simpa [Controller.isRunning, Cell.isRunning, latest] using idle

theorem goes_sound (sound : before.Sound) (goes : before.Goes after) : after.Sound := by
  cases goes with
  | on past present running holds stopped calls =>
      constructor
      · rw [past]
        exact sound.past
      · intro still
        obtain ⟨was, target⟩ := running still
        exact target.trans (sound.reach was)
      · intro held
        rcases holds held with ⟨was, same⟩ | ⟨still, awaited⟩
        · obtain ⟨here, awaited⟩ := sound.holds was
          exact ⟨present.trans here, by rw [same, past, awaited]⟩
        · exact ⟨Controller.present_of_running _ still, awaited⟩
  | launches idle past present target free unstopped =>
      constructor
      · intro run member
        rw [past, List.mem_append] at member
        rcases member with old | latest
        · exact sound.past run old
        · exact ended_of_idle before.controller idle run latest
      · intro _
        exact target
      · intro held
        rw [free] at held
        cases held

theorem pastAfter_kept {scene : Scene Time} {after : Controller Time}
    (unstarted : scene.controller.starter? after = none) : scene.pastAfter after = scene.past := by
  simp only [pastAfter, unstarted, Option.isSome_none, Bool.false_eq_true, ↓reduceIte]

theorem pastAfter_started {scene : Scene Time} {after : Controller Time} {id : Nat}
    (started : scene.controller.starter? after = some id) :
    scene.pastAfter after = scene.tasks := by
  simp only [pastAfter, started, Option.isSome_some, ↓reduceIte, tasks]

theorem follow_goes (scene : Scene Time) (after : Controller Time)
    (serves : scene.controller.Serves after) : scene.Goes (scene.follow after) := by
  cases serves with
  | done keeps holder unstarted stopped =>
      apply Goes.on (pastAfter_kept (Controller.starter?_of_unstarted unstarted)) keeps.present
      · intro still
        have was : scene.controller.isRunning = true := keeps.isRunning ▸ still
        exact ⟨was, keeps.target was⟩
      · intro held
        have was : scene.controller.holder.isSome = true := holder ▸ held
        have occupied : after.holder.isNone = false := by
          rw [holder]
          simpa using was
        refine Or.inl ⟨was, ?_⟩
        simp only [follow, awaitedAfter, occupied, was, Bool.false_eq_true, ↓reduceIte]
      · exact stopped
      · intro _
        exact keeps.calls
  | waits keeps running free unanswered =>
      -- The new holder waits for the latest run, whose number is that of all before it.
      have past := pastAfter_kept (Controller.starter?_of_unanswered unanswered)
      apply Goes.on past keeps.present
      · intro _
        exact ⟨running, keeps.target running⟩
      · intro held
        have occupied : after.holder.isNone = false := by
          simpa [follow] using held
        refine Or.inr ⟨keeps.isRunning.trans running, ?_⟩
        simp only [follow, awaitedAfter, occupied, free, past, Option.isSome_none,
          Bool.false_eq_true, ↓reduceIte]
      · intro id stopped
        rw [show scene.controller.newAnswer? (scene.follow after).controller = none from unanswered]
          at stopped
        cases stopped
      · intro _
        exact keeps.calls
  | launches id idle started running target free =>
      have past := pastAfter_started (Controller.starter?_iff.mpr started)
      apply Goes.launches idle past (Controller.present_of_running after running) target free
      intro other stopped
      have both := started.symm.trans stopped
      cases both

theorem goesOn_goes (on : before.controller.GoesOn after.controller)
    (past : after.past = before.past) (awaited : after.awaited = before.awaited) :
    before.Goes after := by
  apply Goes.on past on.present on.running
  · intro held
    rw [on.holder] at held
    exact Or.inl ⟨held, awaited⟩
  · intro id stopped
    rw [Controller.newAnswer?_same on.answers] at stopped
    cases stopped
  · exact on.calls

theorem goes_refl (scene : Scene Time) : scene.Goes scene :=
  goesOn_goes ((Controller.Keeps.refl scene.controller).goesOn rfl rfl rfl) rfl rfl

/-- Who lets go of the controller leaves the runs as they are, so what happens
then happens from there. -/
theorem letGo_goes (scene : Scene Time) (goes : scene.letGo.Goes after) : scene.Goes after := by
  cases goes with
  | on past present running holds stopped calls =>
      have waits : after.controller.holder.isSome = true →
          after.controller.isRunning = true ∧ after.awaited = some after.past.length := by
        intro held
        rcases holds held with ⟨was, -⟩ | waits
        · cases was
        · exact waits
      exact .on past present running (fun held => Or.inr (waits held)) stopped calls
  | launches idle past present target free unstopped =>
      exact .launches idle past present target free unstopped

theorem latest_of_unfinished {scene : Scene Time} (sound : scene.Sound) {number : Nat}
    {run : Run Time} (there : scene.tasks[number]? = some run) (unfinished : run.isEnded = false) :
    number = scene.past.length ∧ scene.controller.cell.run = some run := by
  apply (scene.tasks_cases there).resolve_left
  intro old
  have ended := sound.past run (List.mem_of_getElem? old)
  rw [unfinished] at ended
  cases ended

theorem unfinished_of (scene : Scene Time) (number : Nat)
    (unfinished : scene.isUnfinished number = true) :
    ∃ run, scene.tasks[number]? = some run ∧ run.isEnded = false := by
  unfold isUnfinished at unfinished
  cases there : scene.tasks[number]? with
  | none => simp [there] at unfinished
  | some run => exact ⟨run, rfl, by simpa [there] using unfinished⟩

theorem onTask_goes {scene : Scene Time} (sound : scene.Sound) (number : Nat)
    (goOn : Controller Time → Controller Time)
    (on : scene.controller.isRunning = true →
      scene.controller.GoesOn (goOn scene.controller))
    (unfinished : scene.isUnfinished number = true) : scene.Goes (scene.onTask number goOn) := by
  obtain ⟨run, there, going⟩ := unfinished_of scene number unfinished
  obtain ⟨rfl, latest⟩ := latest_of_unfinished sound there going
  have running : scene.controller.isRunning = true := by
    simp [Controller.isRunning, Cell.isRunning, latest, going]
  unfold onTask
  rw [if_pos rfl]
  exact goesOn_goes (on running) rfl rfl

theorem tasks_length (scene : Scene Time) :
    scene.tasks.length = scene.past.length + scene.controller.cell.run.isSome.toNat := by
  unfold tasks
  cases scene.controller.cell.run <;> simp

/-- A move leaves the number of runs, or it makes one more when all have ended. -/
theorem goes_tasks (goes : before.Goes after) :
    after.tasks.length = before.tasks.length ∨
      before.controller.isRunning = false ∧ after.tasks.length = before.tasks.length + 1 := by
  cases goes with
  | on past present _ _ _ _ =>
      left
      rw [tasks_length, tasks_length, past, present]
  | launches idle past present _ _ _ =>
      right
      refine ⟨idle, ?_⟩
      have older : after.past = before.tasks := past
      rw [tasks_length, older, present]
      rfl

theorem tasks_ended {scene : Scene Time} (sound : scene.Sound)
    (idle : scene.controller.isRunning = false) : ∀ run ∈ scene.tasks, run.isEnded = true := by
  intro run member
  rcases List.mem_append.mp member with old | latest
  · exact sound.past run old
  · exact ended_of_idle scene.controller idle run latest

theorem goes_silent (goes : before.Goes after) (idle : before.controller.isRunning = false)
    (same : after.tasks.length = before.tasks.length) :
    after.controller.isRunning = false ∧
      after.controller.cell.arm.calls = before.controller.cell.arm.calls := by
  cases goes with
  | on _ _ running _ _ calls =>
      refine ⟨?_, calls idle⟩
      cases still : after.controller.isRunning with
      | false => rfl
      | true =>
          obtain ⟨was, -⟩ := running still
          rw [idle] at was
          cases was
  | launches _ past present _ _ _ =>
      have older : after.past = before.tasks := past
      rw [tasks_length, older, present] at same
      simp at same

/-! Moves. -/

variable [TimeScale Time]

theorem receive_goes (wish : Wish) (stays : Bool) (scene : Scene Time) :
    scene.Goes (scene.receive wish stays) := by
  have goes := follow_goes
    { scene with
      callers := scene.callers + 1
      stayers := if stays then scene.callers :: scene.stayers else scene.stayers }
    _ (Controller.arrive_serves ⟨scene.callers, wish⟩ scene.controller)
  cases goes with
  | on past present running holds stopped calls =>
      exact .on past present running holds stopped calls
  | launches idle past present target free unstopped =>
      exact .launches idle past present target free unstopped

theorem meet_goes (errand : Errand) (scene : Scene Time) : scene.Goes (scene.meet errand) := by
  cases errand with
  | start simulate confirm => exact receive_goes (.start simulate confirm) false scene
  | run simulate confirm => exact receive_goes (.start simulate confirm) true scene
  | stop => exact receive_goes .stop false scene
  | wait =>
      simp only [meet]
      split
      · exact goesOn_goes ((Controller.Keeps.refl scene.controller).goesOn rfl rfl rfl) rfl rfl
      · exact goes_refl scene
  | importBlocks blocks =>
      have imported : scene.controller.Keeps (scene.controller.importBlocks blocks) :=
        ⟨rfl, rfl, fun _ => rfl⟩
      exact goesOn_goes (imported.goesOn rfl rfl rfl) rfl rfl

/-- The run that a holder waits for is the latest, and it has ended when the holder
goes on. -/
theorem idle_of_resume {scene : Scene Time} (sound : scene.Sound)
    (allowed : scene.allows .resume = true) : scene.controller.isRunning = false := by
  simp only [allows, Bool.and_eq_true] at allowed
  obtain ⟨held, waited⟩ := allowed
  obtain ⟨present, awaited⟩ := sound.holds held
  obtain ⟨run, latest⟩ := Option.isSome_iff_exists.mp present
  rw [awaited] at waited
  simpa [hasEnded, tasks, latest, Controller.isRunning, Cell.isRunning] using waited

/-- Every move of a sound scene keeps its runs, or starts one when all have ended. -/
theorem next_goes {scene : Scene Time} (sound : scene.Sound) (move : Move Time)
    (allowed : scene.allows move = true) : scene.Goes (scene.next move) := by
  have same := Controller.Keeps.refl scene.controller
  cases move with
  | call errand => exact meet_goes errand scene
  | letIn =>
      have free : scene.controller.holder = none := Option.isNone_iff_eq_none.mp allowed
      exact follow_goes scene _ (Controller.admitNext_serves scene.controller free)
  | resume =>
      have idle := idle_of_resume sound allowed
      exact letGo_goes scene
        (follow_goes scene.letGo _ (Controller.resumeHolder_serves scene.controller idle))
  | abandonHold => exact letGo_goes scene (goes_refl scene.letGo)
  | abandonQueue place =>
      have left : scene.controller.Keeps
          { scene.controller with queue := scene.controller.queue.eraseIdx place } :=
        ⟨rfl, rfl, fun _ => rfl⟩
      exact goesOn_goes (left.goesOn rfl rfl rfl) rfl rfl
  | abandonWait place =>
      unfold next abandon
      simp only
      split <;> exact goesOn_goes (same.goesOn rfl rfl rfl) rfl rfl
  | finishWait place | doom number => exact goesOn_goes (same.goesOn rfl rfl rfl) rfl rfl
  | unwind number =>
      simp only [allows, Bool.and_eq_true] at allowed
      exact onTask_goes sound number _ (Controller.cancelled_goesOn scene.controller) allowed.2
  | step number =>
      simp only [allows, Bool.and_eq_true] at allowed
      exact onTask_goes sound number _ (Controller.stepRun_goesOn scene.controller) allowed.1
  | effect effect =>
      have applied := Controller.apply_keeps effect scene.controller
      exact goesOn_goes (applied.goesOn rfl rfl rfl) rfl rfl
  | equip robot config =>
      have equipped : scene.controller.Keeps { scene.controller with robot, config } :=
        ⟨rfl, rfl, fun _ => rfl⟩
      exact goesOn_goes (equipped.goesOn rfl rfl rfl) rfl rfl
  | arm latency failOn hooks =>
      refine goesOn_goes ?_ rfl rfl
      exact ⟨rfl, fun still => ⟨still, rfl⟩, rfl, rfl, fun _ => rfl⟩
  | pass later =>
      refine goesOn_goes ?_ rfl rfl
      exact ⟨rfl, fun still => ⟨still, rfl⟩, rfl, rfl, fun _ => rfl⟩

theorem opening_sound (arm : Arm Time) (hooks : List Hook) (program : Program) (config : Config)
    (robot : Robot) (nextId : Nat) : (opening arm hooks program config robot nextId).Sound := by
  constructor
  · intro run member
    cases member
  · intro running
    cases running
  · intro held
    cases held

end Scene

namespace Play

variable [TimeScale Time] {first last : Scene Time}

theorem sound (play : Play first last) (start : first.Sound) : last.Sound := by
  induction play with
  | here => exact start
  | next move allowed _ ih => exact ih (Scene.goes_sound start (Scene.next_goes start move allowed))

theorem tasks_le (play : Play first last) (start : first.Sound) :
    first.tasks.length ≤ last.tasks.length := by
  induction play with
  | here => exact Nat.le_refl _
  | next move allowed _ ih =>
      have goes := Scene.next_goes start move allowed
      have later := ih (Scene.goes_sound start goes)
      rcases Scene.goes_tasks goes with same | ⟨-, more⟩
      · exact same ▸ later
      · omega

theorem silent (play : Play first last) (start : first.Sound)
    (idle : first.controller.isRunning = false)
    (same : last.tasks.length = first.tasks.length) :
    last.controller.isRunning = false ∧
      last.controller.cell.arm.calls = first.controller.cell.arm.calls := by
  induction play with
  | here => exact ⟨idle, rfl⟩
  | @next before last move allowed rest ih =>
      have goes := Scene.next_goes start move allowed
      have sound := Scene.goes_sound start goes
      have grows := rest.tasks_le sound
      -- No run is started on the way, so none is started by this move.
      have unmoved : (before.next move).tasks.length = before.tasks.length := by
        rcases Scene.goes_tasks goes with same | ⟨-, more⟩ <;> omega
      obtain ⟨still, calls⟩ := Scene.goes_silent goes idle unmoved
      obtain ⟨ends, silent⟩ := ih sound still (same.trans unmoved.symm)
      exact ⟨ends, silent.trans calls⟩

end Play

variable [TimeScale Time]

/-- What holds in a scene of the runs of its controller. -/
structure Scene.Exclusive (scene : Scene Time) : Prop where
  /-- At most one run is unfinished. -/
  single : (scene.tasks.filter fun run => !run.isEnded).length ≤ 1
  /-- An unfinished run is the one that the controller shows and that a stop
  aborts. -/
  reached : ∀ run ∈ scene.tasks, run.isEnded = false →
    scene.controller.cell.run = some run ∧ scene.controller.target = .run
  /-- When a run begins a call every other run has unwound. -/
  apart : ∀ number call, scene.allows (.step number) = true → scene.callOf? number = some call →
    ∀ other run, other ≠ number → scene.tasks[other]? = some run → run.isEnded = true
  /-- A new run comes only after every other has unwound. -/
  succeeds : ∀ move, scene.allows move = true →
    (scene.next move).tasks.length ≠ scene.tasks.length →
    ∀ run ∈ scene.tasks, run.isEnded = true
  /-- When a stop returns no run is left, and the arm receives no call until a
  new run is started. -/
  silent : ∀ move id, scene.allows move = true →
    scene.controller.newAnswer? (scene.next move).controller = some (id, .stopped) →
    ∀ (later : Scene Time), Play (scene.next move) later →
      later.tasks.length = (scene.next move).tasks.length →
      (∀ run ∈ later.tasks, run.isEnded = true) ∧
        later.controller.cell.arm.calls = (scene.next move).controller.cell.arm.calls

theorem Scene.Sound.exclusive {scene : Scene Time} (sound : scene.Sound) : scene.Exclusive := by
  constructor
  · have finished : scene.past.filter (fun run => !run.isEnded) = [] := by
      rw [List.filter_eq_nil_iff]
      intro run member
      simp [sound.past run member]
    unfold Scene.tasks
    rw [List.filter_append, finished, List.nil_append]
    refine Nat.le_trans (List.length_filter_le _ _) ?_
    cases scene.controller.cell.run <;> simp
  · intro run member unfinished
    obtain ⟨number, there⟩ := List.getElem?_of_mem member
    obtain ⟨-, latest⟩ := Scene.latest_of_unfinished sound there unfinished
    refine ⟨latest, sound.reach ?_⟩
    simp [Controller.isRunning, Cell.isRunning, latest, unfinished]
  · intro number call allowed _ other run apart there
    simp only [Scene.allows, Bool.and_eq_true] at allowed
    obtain ⟨moving, here, unfinished⟩ := Scene.unfinished_of scene number allowed.1
    obtain ⟨latest, -⟩ := Scene.latest_of_unfinished sound here unfinished
    cases ended : run.isEnded with
    | true => rfl
    | false =>
        obtain ⟨same, -⟩ := Scene.latest_of_unfinished sound there ended
        exact absurd (same.trans latest.symm) apart
  · intro move allowed more
    rcases Scene.goes_tasks (Scene.next_goes sound move allowed) with same | ⟨idle, -⟩
    · exact absurd same more
    · exact Scene.tasks_ended sound idle
  · intro move id allowed stopped later play same
    have goes := Scene.next_goes sound move allowed
    have after := Scene.goes_sound sound goes
    have idle : (scene.next move).controller.isRunning = false := by
      cases goes with
      | on _ _ running _ returns _ =>
          cases still : (scene.next move).controller.isRunning with
          | false => rfl
          | true => rw [(running still).1] at returns; cases returns id stopped
      | launches _ _ _ _ _ unstopped => exact absurd stopped (unstopped id)
    obtain ⟨ends, calls⟩ := play.silent after idle same
    exact ⟨Scene.tasks_ended (play.sound after) ends, calls⟩

/-- However its callers come, are cancelled and wait, a controller has one run
at a time. -/
theorem runs_are_exclusive (arm : Arm Time) (hooks : List Hook) (program : Program)
    (config : Config) (robot : Robot) (nextId : Nat) {scene : Scene Time}
    (play : Play (.opening arm hooks program config robot nextId) scene) : scene.Exclusive :=
  (play.sound (Scene.opening_sound arm hooks program config robot nextId)).exclusive

/-- A second start waits until the first run has unwound. -/
example : ∃ scene : Scene Float,
    ∃ _ : Play (.opening (.resting 0 true none) []
      ⟨[⟨"grip", "open_gripper", .empty, none, none⟩]⟩ .default .arm 0) scene,
    scene.tasks.length = 2 ∧ scene.controller.target = .run := by
  refine ⟨_, .next (.call (.start true false)) rfl <| .next (.step 0) rfl <|
    .next (.call (.start true false)) rfl <| .next (.step 0) rfl <| .next .resume rfl <|
    .here _, ?_, ?_⟩
  · rfl
  · rfl

end ArmProgram
