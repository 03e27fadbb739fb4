import ArmProgram.Proofs.Controller.Admission
import ArmProgram.Controller.Editing

/-!
What a start relies on, watched over a whole play. Its conditions are looked at
when it takes hold of the controller. A start that then has to wait for the run
before is not looked at again, so they hold for its own run as long as nothing
has taken them away in the meantime.
-/

namespace ArmProgram

variable {Time : Type} [TimeScale Time]

inductive Deed (Time : Type) where
  | moves (move : Move Time)
  | edit (draft : Draft) (entries : List (Entry Time))

def Deed.imports : Deed Time → Bool
  | .moves move => move.imports
  | .edit .. => false

namespace Scene

def allowsDeed (scene : Scene Time) : Deed Time → Bool
  | .moves move => scene.allows move
  | .edit .. => true

def after (scene : Scene Time) : Deed Time → Scene Time
  | .moves move => scene.next move
  | .edit draft entries => { scene with controller := scene.controller.withDraft draft entries }

def launcher? (scene : Scene Time) (deed : Deed Time) : Option Caller :=
  match deed, scene.controller.newAnswer? (scene.after deed).controller with
  | .moves move, some (_, .started) | .moves move, some (_, .unfit _) => scene.served? move
  | _, _ => none

theorem launcher?_none (scene : Scene Time) (move : Move Time)
    (calm : ∀ id answer, scene.controller.newAnswer? (scene.next move).controller =
      some (id, answer) → answer ≠ .started ∧ ∀ unfit, answer ≠ .unfit unfit) :
    scene.launcher? (.moves move) = none := by
  unfold launcher?
  cases given : scene.controller.newAnswer? (scene.next move).controller with
  | none => simp only [after, given]
  | some entry =>
      obtain ⟨id, answer⟩ := entry
      obtain ⟨unstarted, fit⟩ := calm id answer given
      cases answer with
      | started => exact absurd rfl unstarted
      | unfit unfit => exact absurd rfl (fit unfit)
      | refused refusal => simp only [after, given]
      | stopped => simp only [after, given]

end Scene

def Wish.confirms : Wish → Bool
  | start _ confirm => confirm
  | stop => false

/-- Whether something a start relies on has been taken away: the program was
emptied or came in from outside, the robot was replaced or lost its connection. -/
def Controller.takesAway (before after : Controller Time) : Bool :=
  (!before.cell.program.blocks.isEmpty && after.cell.program.blocks.isEmpty) ||
    decide (after.robot ≠ before.robot) ||
    (before.cell.arm.connected && !after.cell.arm.connected) ||
    (!before.needsTrust && after.needsTrust)

/-- A scene and what is to be remembered of the way to it. -/
structure Watch (Time : Type) where
  scene : Scene Time
  /-- The program came from outside, and no start that confirmed it has been
  launched since. -/
  untrusted : Bool
  /-- Something was taken away while the holder of the controller has waited. -/
  disturbed : Bool
  /-- A start was launched although it had been disturbed. -/
  tainted : Bool

namespace Watch

def ofScene (scene : Scene Time) : Watch Time :=
  ⟨scene, false, false, false⟩

def next (watch : Watch Time) (deed : Deed Time) : Watch Time :=
  let later := watch.scene.after deed
  let launcher := watch.scene.launcher? deed
  { scene := later
    untrusted :=
      deed.imports || (watch.untrusted && !launcher.any fun caller => caller.wish.confirms)
    disturbed :=
      watch.scene.controller.holder.isSome && later.controller.holder.isSome &&
        (watch.disturbed || watch.scene.controller.takesAway later.controller)
    tainted := watch.tainted || (launcher.isSome && watch.disturbed) }

end Watch

inductive Vigil : Watch Time → Watch Time → Type where
  | here (watch : Watch Time) : Vigil watch watch
  | next {before last : Watch Time} (deed : Deed Time)
      (allowed : before.scene.allowsDeed deed = true) (rest : Vigil (before.next deed) last) :
      Vigil before last

/-! The conditions of a start. -/

omit [TimeScale Time] in
theorem Robot.reports_mono (robot : Robot) {before after : Bool} (stays : before = true → after = true)
    (reported : robot.reports before = true) : robot.reports after = true := by
  cases robot with
  | absent | bare => cases reported
  | arm => exact stays reported
  | limited features =>
      simp only [reports, Bool.and_eq_true] at reported ⊢
      exact ⟨reported.1, stays reported.2⟩

namespace Controller

structure Meets (controller : Controller Time) (simulate confirm : Bool) : Prop where
  program : controller.cell.program.blocks ≠ []
  robot : controller.robot ≠ .absent
  connected : simulate = true ∨ controller.robot.reports controller.cell.arm.connected = true
  trust : controller.needsTrust = true → confirm = true

omit [TimeScale Time] in
theorem refusal?_none_iff (controller : Controller Time) (simulate confirm : Bool) :
    controller.refusal? simulate confirm = none ↔ controller.Meets simulate confirm := by
  constructor
  · intro passed
    unfold refusal? at passed
    split at passed
    · cases passed
    · rename_i filled
      split at passed
      · cases passed
      · rename_i there
        split at passed
        · cases passed
        · rename_i reported
          split at passed
          · cases passed
          · rename_i trusted
            refine ⟨by simpa using filled, there, ?_, ?_⟩
            · cases simulate <;> simp_all
            · cases confirm <;> simp_all
  · rintro ⟨program, robot, connected, trust⟩
    unfold refusal?
    cases simulate <;> cases confirm <;> simp_all

omit [TimeScale Time] in
theorem meets_kept {before after : Controller Time} {simulate confirm : Bool}
    (meets : before.Meets simulate confirm) (kept : before.takesAway after = false) :
    after.Meets simulate confirm := by
  simp only [takesAway, Bool.or_eq_false_iff, Bool.and_eq_false_iff, Bool.not_eq_false',
    ne_eq, decide_not, decide_eq_true_eq] at kept
  obtain ⟨⟨⟨filled, robot⟩, connected⟩, trust⟩ := kept
  refine ⟨?_, ?_, ?_, ?_⟩
  · rcases filled with empty | filled
    · exact absurd (List.isEmpty_iff.mp empty) meets.program
    · simpa using filled
  · rw [robot]
    exact meets.robot
  · rcases meets.connected with simulated | reported
    · exact Or.inl simulated
    · rw [robot]
      refine Or.inr (before.robot.reports_mono ?_ reported)
      intro was
      rcases connected with lost | stays
      · rw [was] at lost
        cases lost
      · exact stays
  · intro needed
    rcases trust with was | fresh
    · exact meets.trust was
    · rw [needed] at fresh
      cases fresh

end Controller

/-! What a watch keeps. -/

namespace Watch

structure Sound (watch : Watch Time) : Prop where
  /-- A start that waits undisturbed still meets its conditions. -/
  checked : ∀ id simulate confirm,
    watch.scene.controller.holder = some ⟨id, .start simulate confirm⟩ →
    watch.disturbed = false → watch.scene.controller.Meets simulate confirm
  trust : watch.tainted = false → watch.untrusted = watch.scene.controller.needsTrust

theorem checked_of_sameHolder {watch : Watch Time} (sound : watch.Sound) (deed : Deed Time)
    (same : (watch.scene.after deed).controller.holder = watch.scene.controller.holder)
    (id : Nat) (simulate confirm : Bool)
    (held : (watch.next deed).scene.controller.holder = some ⟨id, .start simulate confirm⟩)
    (undisturbed : (watch.next deed).disturbed = false) :
    (watch.next deed).scene.controller.Meets simulate confirm := by
  have before : watch.scene.controller.holder = some ⟨id, .start simulate confirm⟩ :=
    same.symm.trans held
  simp only [next, same, before, Option.isSome_some, Bool.true_and, Bool.or_eq_false_iff]
    at undisturbed
  obtain ⟨calm, kept⟩ := undisturbed
  exact Controller.meets_kept (sound.checked id simulate confirm before calm) kept

/-- Without a launch a watch stays sound if who holds the controller now has held
it before or has just been looked at. -/
theorem sound_of_unlaunched {watch : Watch Time} (sound : watch.Sound) (deed : Deed Time)
    (homemade : deed.imports = false) (unlaunched : watch.scene.launcher? deed = none)
    (same : (watch.scene.after deed).controller.needsTrust = watch.scene.controller.needsTrust)
    (holder : (watch.scene.after deed).controller.holder = watch.scene.controller.holder ∨
      ∀ id simulate confirm,
        (watch.scene.after deed).controller.holder = some ⟨id, .start simulate confirm⟩ →
          (watch.scene.after deed).controller.Meets simulate confirm) :
    (watch.next deed).Sound := by
  constructor
  · intro id simulate confirm held undisturbed
    rcases holder with kept | judged
    · exact checked_of_sameHolder sound deed kept id simulate confirm held undisturbed
    · exact judged id simulate confirm held
  · intro untainted
    simp only [next, unlaunched, homemade, same, Option.isSome_none, Option.any_none,
      Bool.false_and, Bool.or_false, Bool.false_or, Bool.not_false, Bool.and_true] at untainted ⊢
    exact sound.trust untainted

theorem import_marks (scene : Scene Time) (move : Move Time) (imports : move.imports = true) :
    (scene.next move).controller.holder = scene.controller.holder ∧
      (scene.next move).controller.needsTrust = true := by
  cases move with
  | call errand =>
      cases errand with
      | importBlocks blocks => exact ⟨rfl, rfl⟩
      | _ => cases imports
  | _ => cases imports

/-- A launch uses up the confirmation of a program from outside, and it gave one
unless the start had been disturbed. -/
theorem launch_sound {watch : Watch Time} (sound : watch.Sound) (move : Move Time)
    (homemade : move.imports = false) (id : Nat) (simulate confirm : Bool)
    (launcher : watch.scene.launcher? (.moves move) = some ⟨id, .start simulate confirm⟩)
    (passed : watch.scene.controller.refusal? simulate confirm = none ∨
      watch.scene.controller.holder = some ⟨id, .start simulate confirm⟩)
    (free : (watch.scene.next move).controller.holder = none)
    (trust : (watch.scene.next move).controller.needsTrust = false) :
    (watch.next (.moves move)).Sound := by
  constructor
  · intro other simulated confirmed held
    rw [show (watch.next (.moves move)).scene.controller.holder = none from free] at held
    cases held
  · intro untainted
    simp only [next, launcher, Option.isSome_some, Bool.true_and, Bool.or_eq_false_iff]
      at untainted
    have meets : watch.scene.controller.Meets simulate confirm := by
      rcases passed with passed | held
      · exact (Controller.refusal?_none_iff _ _ _).mp passed
      · exact sound.checked id simulate confirm held untainted.2
    have known := sound.trust untainted.1
    have later : (watch.next (.moves move)).scene.controller.needsTrust = false := trust
    rw [later]
    simp only [next, launcher, Deed.imports, homemade, known, Option.any_some, Wish.confirms,
      Bool.false_or]
    cases needed : watch.scene.controller.needsTrust with
    | false => rfl
    | true => rw [meets.trust needed]; rfl

/-- Serving a caller keeps a watch sound: who takes hold has just been looked
at. -/
theorem admits_sound {watch : Watch Time} (sound : watch.Sound) (move : Move Time)
    (homemade : move.imports = false)
    (admits : watch.scene.controller.Admits (watch.scene.next move).controller
      (watch.scene.served? move)) : (watch.next (.moves move)).Sound := by
  cases admits with
  | rests holder trust stopped =>
      have unlaunched : watch.scene.launcher? (.moves move) = none := by
        refine watch.scene.launcher?_none move fun id answer given => ?_
        have same : answer = .stopped := stopped (id, answer) given
        subst same
        exact ⟨nofun, fun _ => nofun⟩
      refine sound_of_unlaunched sound (.moves move) homemade unlaunched trust ?_
      rcases holder with same | free
      · exact Or.inl same
      · refine Or.inr fun id simulate confirm held => ?_
        rw [show (watch.scene.after (.moves move)).controller.holder = none from free] at held
        cases held
  | refuses id simulate confirm refusal caller grounds spared =>
      have unlaunched : watch.scene.launcher? (.moves move) = none := by
        refine watch.scene.launcher?_none move fun other answer given => ?_
        have news : watch.scene.controller.newAnswer? (watch.scene.next move).controller =
            some (id, .refused refusal) := Controller.newAnswer?_cons (by rw [spared])
        rw [news] at given
        cases given
        exact ⟨nofun, fun _ => nofun⟩
      have trust := congrArg Controller.needsTrust spared
      have holder := congrArg Controller.holder spared
      exact sound_of_unlaunched sound (.moves move) homemade unlaunched trust (Or.inl holder)
  | holds caller served free held passed trust unanswered =>
      have unlaunched : watch.scene.launcher? (.moves move) = none := by
        refine watch.scene.launcher?_none move fun id answer given => ?_
        rw [unanswered] at given
        cases given
      refine sound_of_unlaunched sound (.moves move) homemade unlaunched trust ?_
      refine Or.inr fun id simulate confirm there => ?_
      have same : some caller = some ⟨id, .start simulate confirm⟩ := held.symm.trans there
      cases same
      exact (Controller.refusal?_none_iff _ _ _).mp (passed simulate confirm rfl)
  | launches id simulate confirm caller passed free trust outcome =>
      refine launch_sound sound move homemade id simulate confirm ?_ passed free trust
      rw [← caller]
      unfold Scene.launcher?
      rcases outcome with ⟨abilities, fits, run, news⟩ | ⟨unfit, fits, news⟩
      · simp only [Scene.after, news]
      · simp only [Scene.after, news]

theorem next_sound {watch : Watch Time} (sound : watch.Sound) (deed : Deed Time)
    (allowed : watch.scene.allowsDeed deed = true) : (watch.next deed).Sound := by
  cases deed with
  | edit draft entries =>
      have unlaunched : watch.scene.launcher? (.edit draft entries) = none := by
        unfold Scene.launcher?
        split <;> first | rfl | contradiction
      exact sound_of_unlaunched sound _ rfl unlaunched rfl (Or.inl rfl)
  | moves move =>
      cases homemade : move.imports with
      | true =>
          obtain ⟨holder, trust⟩ := import_marks watch.scene move homemade
          refine ⟨checked_of_sameHolder sound (.moves move) holder, fun _ => ?_⟩
          simp only [next, Deed.imports, homemade, Bool.true_or]
          exact trust.symm
      | false =>
          exact admits_sound sound move homemade (watch.scene.next_admits move allowed homemade)

end Watch

theorem Vigil.sound {first last : Watch Time} (vigil : Vigil first last) (start : first.Sound) :
    last.Sound := by
  induction vigil with
  | here => exact start
  | next deed allowed _ ih => exact ih (Watch.next_sound start deed allowed)

theorem Watch.opening_sound (arm : Arm Time) (hooks : List Hook) (program : Program)
    (config : Config) (robot : Robot) (nextId : Nat) :
    (Watch.ofScene (.opening arm hooks program config robot nextId)).Sound :=
  ⟨fun _ _ _ held => (nomatch held), fun _ => rfl⟩

/-- Only a move starts a run, and none that brings in a program. -/
theorem Scene.starter?_moves (scene : Scene Time) (deed : Deed Time) (id : Nat)
    (started : scene.controller.starter? (scene.after deed).controller = some id) :
    ∃ move, deed = .moves move ∧ move.imports = false ∧
      scene.controller.newAnswer? (scene.next move).controller = some (id, .started) := by
  have given : scene.controller.newAnswer? (scene.after deed).controller =
      some (id, .started) := Controller.starter?_iff.mp started
  cases deed with
  | edit draft entries =>
      have silent : scene.controller.newAnswer?
          (scene.controller.withDraft draft entries) = none := Controller.newAnswer?_same rfl
      exact absurd (silent.symm.trans given) nofun
  | moves move =>
      refine ⟨move, rfl, ?_, given⟩
      cases move with
      | call errand =>
          cases errand with
          | importBlocks blocks =>
              have silent : scene.controller.newAnswer? (scene.controller.importBlocks blocks) =
                  none := Controller.newAnswer?_same rfl
              exact absurd (silent.symm.trans given) nofun
          | _ => rfl
      | _ => rfl

structure Scene.Launches (scene after : Scene Time) (simulate : Bool) (abilities : Abilities) :
    Prop where
  robot : scene.controller.robot.abilities simulate = .ok abilities
  run : after.controller.cell.run = some (scene.controller.newRun abilities)

/-- Every run is launched for a start, on a robot that is there, with the
program of that moment. If nothing was taken away while the start has waited,
all its conditions still hold, and a program from outside is run only if the
start confirms it. -/
theorem launched_start_meets_conditions (arm : Arm Time) (hooks : List Hook) (program : Program)
    (config : Config) (robot : Robot) (nextId : Nat) {watch : Watch Time}
    (vigil : Vigil (.ofScene (.opening arm hooks program config robot nextId)) watch)
    (deed : Deed Time) (allowed : watch.scene.allowsDeed deed = true) (id : Nat)
    (started : watch.scene.controller.starter? (watch.scene.after deed).controller = some id) :
    ∃ simulate confirm abilities,
      watch.scene.launcher? deed = some ⟨id, .start simulate confirm⟩ ∧
      watch.scene.Launches (watch.scene.after deed) simulate abilities ∧
      watch.scene.controller.robot ≠ .absent ∧
      (watch.disturbed = false →
        watch.scene.controller.Meets simulate confirm ∧
          (watch.tainted = false → watch.untrusted = true → confirm = true)) := by
  have sound := vigil.sound (Watch.opening_sound arm hooks program config robot nextId)
  obtain ⟨move, rfl, homemade, given⟩ := watch.scene.starter?_moves deed id started
  have admits := watch.scene.next_admits move allowed homemade
  cases admits with
  | rests holder trust stopped => cases stopped _ given
  | refuses other simulate confirm refusal caller grounds spared =>
      have news : watch.scene.controller.newAnswer? (watch.scene.next move).controller =
          some (other, .refused refusal) := Controller.newAnswer?_cons (by rw [spared])
      rw [news] at given
      cases given
  | holds caller served free held passed trust unanswered =>
      rw [unanswered] at given
      cases given
  | launches other simulate confirm caller passed free trust outcome =>
      rcases outcome with ⟨abilities, fits, run, news⟩ | ⟨unfit, fits, news⟩
      · rw [news] at given
        cases given
        have present : watch.scene.controller.robot ≠ .absent := by
          intro absent
          rw [absent] at fits
          cases fits
        refine ⟨simulate, confirm, abilities, ?_, ⟨fits, run⟩, present, fun undisturbed => ?_⟩
        · rw [← caller]
          simp only [Scene.launcher?, Scene.after, news]
        · have meets : watch.scene.controller.Meets simulate confirm := by
            rcases passed with passed | held
            · exact (Controller.refusal?_none_iff _ _ _).mp passed
            · exact sound.checked id simulate confirm held undisturbed
          refine ⟨meets, fun untainted untrusted => meets.trust ?_⟩
          rw [← sound.trust untainted]
          exact untrusted
      · rw [news] at given
        cases given

theorem confirmed_import_runs :
    ∃ watch : Watch Float, Nonempty (Vigil
        (.ofScene (.opening (.resting 0 true none) [] .empty .default .arm 0)) watch) ∧
      watch.scene.allowsDeed (.moves (.call (.start false true))) = true ∧
      watch.scene.controller.starter?
        (watch.scene.after (.moves (.call (.start false true)))).controller = some 0 ∧
      watch.untrusted = true ∧
      ∃ simulate confirm, watch.scene.launcher? (.moves (.call (.start false true))) =
          some ⟨0, .start simulate confirm⟩ ∧
        watch.scene.controller.Meets simulate confirm ∧ confirm = true := by
  have reached : ∃ watch : Watch Float, Nonempty (Vigil
        (.ofScene (.opening (.resting 0 true none) [] .empty .default .arm 0)) watch) ∧
      watch.scene.allowsDeed (.moves (.call (.start false true))) = true ∧
      watch.scene.controller.starter?
        (watch.scene.after (.moves (.call (.start false true)))).controller = some 0 ∧
      watch.untrusted = true ∧ watch.disturbed = false ∧ watch.tainted = false :=
    ⟨_, ⟨.next (.moves (.call (.importBlocks
      [⟨"grip", "open_gripper", .empty, none, none⟩]))) rfl <| .here _⟩, rfl, rfl, rfl, rfl, rfl⟩
  obtain ⟨watch, ⟨vigil⟩, allowed, started, untrusted, undisturbed, untainted⟩ := reached
  obtain ⟨simulate, confirm, abilities, launcher, -, -, meets⟩ :=
    launched_start_meets_conditions _ _ _ _ _ _ vigil _ allowed 0 started
  obtain ⟨met, trusted⟩ := meets undisturbed
  exact ⟨watch, ⟨vigil⟩, allowed, started, untrusted, simulate, confirm, launcher, met,
    trusted untainted untrusted⟩

/-- A start that waits is not looked at again. The program comes in from outside
and the robot is disconnected in the meantime; the start confirms nothing, and
still its run is launched and the program counts as trusted. -/
theorem waiting_start_misses_conditions :
    ∃ watch : Watch Float, Nonempty (Vigil
        (.ofScene (.opening (.resting 0 true none) []
          ⟨[⟨"grip", "open_gripper", .empty, none, none⟩]⟩ .default .arm 0)) watch) ∧
      watch.scene.allowsDeed (.moves .resume) = true ∧
      watch.scene.launcher? (.moves .resume) = some ⟨1, .start false false⟩ ∧
      watch.scene.controller.starter? (watch.scene.after (.moves .resume)).controller = some 1 ∧
      watch.untrusted = true ∧
      watch.scene.controller.refusal? false false = some .notConnected ∧
      (watch.scene.after (.moves .resume)).controller.needsTrust = false := by
  refine ⟨_, ⟨.next (.moves (.call (.start false false))) rfl <|
    .next (.moves (.call (.start false false))) rfl <|
    .next (.moves (.call (.importBlocks [⟨"home", "home_robot", .empty, none, none⟩]))) rfl <|
    .next (.moves (.effect .disconnect)) rfl <|
    .next (.moves (.step 0)) rfl <| .next (.moves (.step 0)) rfl <| .here _⟩, ?_⟩
  exact ⟨rfl, rfl, rfl, rfl, rfl, rfl⟩

end ArmProgram
