import ArmProgram.Proofs.Walk.Account

/-!
Accounts along a course. An event pays from a fund for what it spends: every
charge that is granted pays for one list on the stack or for one call of a
block, and what is left of the budget together with the weight of the walk pays
for the moves of the run.
-/

namespace ArmProgram

variable {Time : Type} [TimeScale Time]

namespace Run

def stand? (run : Run Time) : Option Position :=
  match run.activity with
  | .unstarted => some .entry
  | _ => run.position?

def pushes (before after : Run Time) : Nat :=
  match before.stand?, after.stand? with
  | some first, some later => later.frames - first.frames
  | _, _ => 0

def pops (before after : Run Time) : Nat :=
  after.pushes before

def granted (run : Run Time) : Nat :=
  min run.token.steps run.token.maxSteps.toNat

def depth (run : Run Time) : Nat :=
  (run.stand?.map Position.frames).getD 0

def isPaid (run : Run Time) : Bool :=
  run.stand?.any Position.isPaid

def isHoming (run : Run Time) : Bool :=
  run.stand?.any Position.isHoming

def homings (run : Run Time) : Nat :=
  (run.stand?.map Position.homings).getD 0

/-- What any event makes of a run: it stays where it stands, takes one step of
its walk, or ends. -/
inductive Fares (before after : Run Time) (asked : Option Call) : Prop where
  | stays (same : after.stand? = before.stand?) (uncalled : asked = none)
      (steps : after.token.steps = before.token.steps)
  | takes (position : Position) (step : Step) (activity : before.activity = .moving position)
      (taken : position.Takes before.plan before.view step)
      (reached : after.stand? = some step.next) (calls : asked = step.call?)
      (counted : after.token.steps = before.token.steps + step.charges.toNat)
      (within : step.charges = true → (after.token.steps : Int) ≤ before.token.maxSteps)
  | ends (ended : after.stand? = none) (uncalled : asked = none)
      (grown : before.token.steps ≤ after.token.steps)

omit [TimeScale Time] in
theorem stand?_of_isEnded (run : Run Time) (ended : run.isEnded = true) : run.stand? = none := by
  cases activity : run.activity <;> simp_all [isEnded, stand?, position?]

theorem steps_fares {now : Time} {connected : Bool} {run after : Run Time} {asked : Option Call}
    (steps : Steps now connected run after asked) : run.Fares after asked := by
  cases steps with
  | begin activity =>
      exact .stays (by simp [stand?, position?, activity]) rfl (start_keeps now run.token).2
  | silent activity stepped =>
      exact .takes _ _ activity (Position.step?_takes _ _ _ _ stepped) rfl rfl rfl
        (fun charged => by cases charged)
  | cleared activity stepped =>
      exact .takes _ _ activity (Position.step?_takes _ _ _ _ stepped) rfl rfl rfl
        (fun charged => by cases charged)
  | charged activity stepped within =>
      have granted := Token.charge_within now run.token within
      exact .takes _ _ activity (Position.step?_takes _ _ _ _ stepped) rfl rfl
        (Token.charge_steps now run.token) (fun _ => granted)
  | delayed activity stepped =>
      exact .takes _ _ activity (Position.step?_takes _ _ _ _ stepped) rfl rfl rfl
        (fun charged => by cases charged)
  | called activity stepped =>
      exact .takes _ _ activity (Position.step?_takes _ _ _ _ stepped) rfl rfl rfl
        (fun charged => by cases charged)
  | stirred activity | startled turns activity | woken activity | rousing activity =>
      exact .stays (by simp [stand?, position?, activity]) rfl rfl
  | limited =>
      exact .ends rfl rfl (by rw [Token.charge_steps]; exact Nat.le_succ _)
  | complete | misread | halted | lost | refused | overslept | roused =>
      exact .ends rfl rfl (Nat.le_refl _)

end Run

namespace Moment

def asks (moment : Moment Time) : Event Time → Option Call
  | .step => moment.asked?
  | _ => none

def calls (homing : Bool) (moment : Moment Time) (event : Event Time) : Nat :=
  if moment.run.isHoming = homing then (moment.asks event).toList.length else 0

theorem next_fares {before after : Moment Time} {event : Event Time}
    (happens : before.Next event after) :
    before.run.Fares after.run (before.asks event) := by
  cases happens with
  | step ready =>
      simp only [asks, asked?, ready, ↓reduceIte]
      exact Run.steps_fares (Run.step_steps _ _ _ ready)
  | lasts later activity => exact .stays (by simp [Run.stand?, Run.position?, activity]) rfl rfl
  | returns activity =>
      exact .stays (by simp [Run.stand?, Run.position?, Run.resume, activity]) rfl rfl
  | raises => exact .ends rfl rfl (Nat.le_refl _)
  | cancel =>
      refine .ends (Run.stand?_of_isEnded _ (Run.cancel_isEnded _)) rfl ?_
      exact Nat.le_of_eq (congrArg Token.steps (Run.cancel_token _).symm)
  | abort | connection | edit | pass | expire => exact .stays rfl rfl rfl

end Moment

/-! Accounts along a course. -/

namespace Course

def total (amount : Moment Time → Event Time → Moment Time → Nat) {first last : Moment Time} :
    Course first last → Nat
  | .here _ => 0
  | @Course.next _ _ before middle _ event _ rest => amount before event middle + rest.total amount

/-- What every event of a course keeps holds at its end. -/
theorem keeps_along (Inv : Moment Time → Prop) {first last : Moment Time}
    (course : Course first last)
    (kept : ∀ before event after, event ∈ course.events → Moment.Next before event after →
      Inv before → Inv after)
    (start : Inv first) : Inv last := by
  induction course with
  | here => exact start
  | next event happens rest ih =>
      refine ih (fun before other after member => ?_) ?_
      · exact kept before other after (List.mem_cons_of_mem event member)
      · exact kept _ event _ List.mem_cons_self happens start

/-- If every event pays from a fund for what is spent, the course does. -/
theorem balances (Inv : Moment Time → Prop) {fund : Moment Time → Int}
    {spent earned : Moment Time → Event Time → Moment Time → Nat}
    (kept : ∀ before event after, Moment.Next before event after → Inv before → Inv after)
    (paid : ∀ before event after, Moment.Next before event after → Inv before →
      (spent before event after : Int) + fund after ≤ fund before + earned before event after)
    {first last : Moment Time} (course : Course first last) (start : Inv first) :
    (course.total spent : Int) + fund last ≤ fund first + course.total earned := by
  induction course with
  | here => simp [total]
  | next event happens rest ih =>
      have now := paid _ event _ happens start
      have later := ih (kept _ event _ happens start)
      simp only [total]
      omega

theorem total_zero {first last : Moment Time} (course : Course first last) :
    course.total (fun _ _ _ => 0) = 0 := by
  induction course with
  | here => rfl
  | next event happens rest ih => simpa [total] using ih

theorem total_add (one other : Moment Time → Event Time → Moment Time → Nat)
    {first last : Moment Time} (course : Course first last) :
    course.total (fun before event after => one before event after + other before event after) =
      course.total one + course.total other := by
  induction course with
  | here => rfl
  | next event happens rest ih =>
      simp only [total, ih]
      omega

def pushed {first last : Moment Time} (course : Course first last) : Nat :=
  course.total fun before _ after => before.run.pushes after.run

def popped {first last : Moment Time} (course : Course first last) : Nat :=
  course.total fun before _ after => before.run.pops after.run

def blockCalls {first last : Moment Time} (course : Course first last) : Nat :=
  course.total fun before event _ => before.calls false event

def homingCalls {first last : Moment Time} (course : Course first last) : Nat :=
  course.total fun before event _ => before.calls true event

end Course

/-! Charges pay for lists and for calls of blocks. -/

namespace Run

omit [TimeScale Time] in
theorem pushes_stay (before after : Run Time) (same : after.stand? = before.stand?) :
    before.pushes after = 0 := by
  unfold pushes
  rw [same]
  cases before.stand? with
  | none => rfl
  | some position => exact Nat.sub_self _

omit [TimeScale Time] in
theorem pushes_end (before after : Run Time) (ended : after.stand? = none) :
    before.pushes after = 0 := by
  unfold pushes
  rw [ended]
  cases before.stand? <;> rfl

omit [TimeScale Time] in
theorem pushes_reach (before after : Run Time) (position next : Position)
    (there : before.stand? = some position) (reached : after.stand? = some next) :
    before.pushes after = next.frames - position.frames := by
  unfold pushes
  rw [there, reached]

omit [TimeScale Time] in
theorem stand?_of_moving (run : Run Time) (position : Position)
    (activity : run.activity = .moving position) : run.stand? = some position := by
  simp [stand?, position?, activity]

end Run

namespace Moment

def IsNested (moment : Moment Time) : Prop :=
  moment.run.Stands Position.IsNested

theorem next_nested (before : Moment Time) (event : Event Time) (after : Moment Time)
    (happens : before.Next event after) (nested : before.IsNested) : after.IsNested :=
  next_stands True.intro (fun position step => Position.takes_nested _ _ position step) happens
    nested

omit [TimeScale Time] in
theorem accounts_of_moving (moment : Moment Time) (nested : moment.IsNested) (position : Position)
    (step : Step) (activity : moment.run.activity = .moving position)
    (taken : position.Takes moment.run.plan moment.run.view step) : position.Accounts step :=
  Position.takes_accounts _ _ _ _ taken (nested position (by simp [Run.position?, activity]))

def unspent (moment : Moment Time) : Int :=
  moment.run.isPaid.toNat - moment.run.granted

theorem spends_granted (before : Moment Time) (event : Event Time) (after : Moment Time)
    (happens : before.Next event after) (nested : before.IsNested) :
    ((before.run.pushes after.run + before.calls false event : Nat) : Int) + after.unspent ≤
      before.unspent + (0 : Nat) := by
  have terms := next_terms happens
  cases next_fares happens with
  | stays same uncalled steps =>
      have level := Run.pushes_stay _ _ same
      simp only [level, calls, uncalled, unspent, Run.isPaid, Run.granted, same, steps,
        terms.maxSteps, Option.toList_none, List.length_nil, ite_self]
      omega
  | ends ended uncalled grown =>
      have level := Run.pushes_end before.run _ ended
      simp only [level, calls, uncalled, unspent, Run.isPaid, Run.granted, ended,
        terms.maxSteps, Option.toList_none, List.length_nil, ite_self, Option.any_none,
        Bool.toNat_false]
      omega
  | takes position step activity taken reached asked counted within =>
      have there := Run.stand?_of_moving _ _ activity
      have level := Run.pushes_reach _ _ _ _ there reached
      have account := before.accounts_of_moving nested position step activity taken
      simp only [level, calls, asked, unspent, Run.isHoming, Run.isPaid, Run.granted, there,
        reached, counted, terms.maxSteps, Option.any_some]
      cases account with
      | charges charged uncalled level =>
          -- The only fund that grows a debt: one more charge is granted.
          have granted := within charged
          rw [counted, charged] at granted
          have few := step.next.isPaid.toNat_le
          simp only [charged, uncalled, level, Bool.toNat_true, Option.toList_none,
            List.length_nil, ite_self] at granted ⊢
          omega
      | pushes free uncalled paid spent deeper =>
          simp only [free, uncalled, paid, spent, deeper, Option.toList_none, List.length_nil,
            ite_self, Bool.toNat_true, Bool.toNat_false]
          omega
      | pops free uncalled spent shallower =>
          simp only [free, uncalled, spent, shallower, Option.toList_none, List.length_nil,
            ite_self, Bool.toNat_false]
          omega
      | calls call free made unhomed paid spent level =>
          simp only [free, made, unhomed, paid, spent, level, Option.toList_some, List.length_cons,
            List.length_nil, ↓reduceIte, Bool.toNat_true, Bool.toNat_false]
          omega
      | homes free made homing spent level =>
          simp only [free, homing, spent, level, Bool.true_eq_false, ↓reduceIte, Bool.toNat_false]
          omega
      | passes free uncalled spent level =>
          simp only [free, uncalled, spent, level, Option.toList_none, List.length_nil, ite_self,
            Bool.toNat_false]
          omega

theorem spends_depth (before : Moment Time) (event : Event Time) (after : Moment Time)
    (happens : before.Next event after) :
    (before.run.pops after.run : Int) + after.run.depth ≤
      before.run.depth + before.run.pushes after.run := by
  cases next_fares happens with
  | stays same uncalled steps =>
      have up := Run.pushes_stay before.run after.run same
      have down := Run.pushes_stay after.run before.run same.symm
      simp only [Run.pops, up, down, Run.depth, same]
      omega
  | ends ended uncalled grown =>
      have none : after.run.pushes before.run = 0 := by
        unfold Run.pushes
        rw [ended]
      simp only [Run.pops, none, Run.depth, ended, Option.map_none, Option.getD_none]
      omega
  | takes position step activity taken reached asked counted within =>
      have there := Run.stand?_of_moving _ _ activity
      have up := Run.pushes_reach _ _ _ _ there reached
      have down := Run.pushes_reach _ _ _ _ reached there
      simp only [Run.pops, up, down, Run.depth, there, reached, Option.map_some, Option.getD_some]
      omega

theorem spends_homings (before : Moment Time) (event : Event Time) (after : Moment Time)
    (happens : before.Next event after) :
    (before.calls true event : Int) + after.run.homings ≤ before.run.homings + (0 : Nat) := by
  cases next_fares happens with
  | stays same uncalled steps =>
      simp only [calls, uncalled, Run.homings, same, Option.toList_none, List.length_nil, ite_self]
      omega
  | ends ended uncalled grown =>
      simp only [calls, uncalled, Run.homings, ended, Option.map_none, Option.getD_none,
        Option.toList_none, List.length_nil, ite_self]
      omega
  | takes position step activity taken reached asked counted within =>
      have there := Run.stand?_of_moving _ _ activity
      have ahead := Position.takes_homings _ _ _ _ taken
      have few : (before.asks event).toList.length ≤ 1 := Option.length_toList_le
      simp only [calls, Run.isHoming, Run.homings, there, reached, Option.any_some,
        Option.map_some, Option.getD_some]
      split
      · rename_i homing
        rw [homing, Bool.toNat_true] at ahead
        omega
      · omega

end Moment

/-! What is left of the budget, and then the weight of the walk, pays for the
moves of the run. -/

def Event.isMove : Event Time → Bool
  | .step | .returns | .raises _ => true
  | _ => false

namespace Run

/-- What one step of the budget is worth: more than it adds to the weight of
a walk. -/
def stepWorth (blocks : Nat) : Nat :=
  60 * blocks + 101

def worth (blocks : Nat) (run : Run Time) : Nat :=
  run.allowance * stepWorth blocks + run.weight

omit [TimeScale Time] in
theorem worth_of_lighter (blocks : Nat) {after before : Run Time} (lighter : after.Lighter before)
    (same : after.allowance = before.allowance) : 1 + after.worth blocks ≤ before.worth blocks := by
  unfold Lighter at lighter
  rw [Prod.lex_def] at lighter
  simp only [same, Nat.lt_irrefl, true_and, false_or] at lighter
  simp only [worth, same]
  omega

omit [TimeScale Time] in
theorem worth_of_le (blocks : Nat) {after before : Run Time}
    (allowed : after.allowance ≤ before.allowance) (light : 1 + after.weight ≤ before.weight) :
    1 + after.worth blocks ≤ before.worth blocks := by
  have fewer := Nat.mul_le_mul_right (stepWorth blocks) allowed
  simp only [worth]
  omega

theorem charge_worth {now : Time} {run : Run Time} {position next : Position} {notes : List Note}
    (blocks : List Block) (placed : run.plan.index = .ofBlocks blocks)
    (activity : run.activity = .moving position)
    (stepped : position.step? run.plan run.view = some (.ok ⟨notes, some .charge, next⟩))
    (within : (run.token.charge now).2 = none) :
    1 + worth blocks.length { run with token := (run.token.charge now).1, activity := .moving next } ≤
      run.worth blocks.length := by
  have taken := Position.step?_takes _ _ _ _ stepped
  have heavier : next.weight run.plan.index ≤ position.weight run.plan.index + 6 * blocks.length + 10 :=
    Position.charge_weight blocks _ _ _ _ placed taken rfl
  have granted := Token.charge_within now run.token within
  rw [Token.charge_steps] at granted
  have fewer : run.allowance =
      allowance { run with token := (run.token.charge now).1, activity := .moving next } + 1 := by
    simp only [allowance, Token.charge_steps, Token.charge_maxSteps]
    omega
  have worthy : stepWorth blocks.length = 60 * blocks.length + 101 := rfl
  simp only [worth, fewer, Nat.add_mul, Nat.one_mul, weight, activity]
  omega

theorem step_worth (now : Time) (connected : Bool) (run : Run Time) (blocks : List Block)
    (placed : run.plan.index = .ofBlocks blocks) (ready : run.canStep now = true) :
    1 + (run.step now connected).run.worth blocks.length ≤ run.worth blocks.length := by
  have active := active_of_canStep now run ready
  have lighter := step_lighter now connected run active
  have steps := step_steps now connected run ready
  generalize (run.step now connected).run = after at lighter steps
  generalize (run.step now connected).call = asked at steps
  cases steps with
  | charged activity stepped within => exact charge_worth blocks placed activity stepped within
  | limited activity =>
      refine worth_of_le _ ?_ ?_
      · simp only [allowance, Token.charge_steps, Token.charge_maxSteps]
        omega
      · simp only [weight, activity]
        omega
  | begin =>
      have same := start_keeps now run.token
      exact worth_of_lighter _ lighter (by simp only [allowance, same])
  | _ => exact worth_of_lighter _ lighter rfl

end Run

namespace Moment

theorem spends_worth (blocks : List Block) (before : Moment Time) (event : Event Time)
    (after : Moment Time) (happens : before.Next event after)
    (placed : before.run.plan.index = .ofBlocks blocks) :
    (event.isMove.toNat : Int) + after.run.worth blocks.length ≤
      before.run.worth blocks.length + (0 : Nat) := by
  -- Each move of the run pays one. What others do may lower its worth but never raises it.
  cases happens with
  | @step now connected run ready =>
      have paid := Run.step_worth now connected run blocks placed ready
      simp only [Event.isMove, Bool.toNat_true]
      omega
  | @returns now connected run call due next activity =>
      have paid : 1 + (run.resume next).run.worth blocks.length ≤ run.worth blocks.length := by
        refine Run.worth_of_le _ (Nat.le_refl _) ?_
        simp only [Run.resume, Run.weight, activity]
        omega
      simp only [Event.isMove, Bool.toNat_true]
      omega
  | @raises now connected run call due next fault activity =>
      have paid : 1 + (run.fail now fault).run.worth blocks.length ≤ run.worth blocks.length := by
        refine Run.worth_of_le _ (Nat.le_refl _) ?_
        simp only [Run.fail, Run.finish, Run.weight, activity]
        omega
      simp only [Event.isMove, Bool.toNat_true]
      omega
  | @cancel now connected run suspended =>
      have less : run.cancel.worth blocks.length ≤ run.worth blocks.length := by
        cases activity : run.activity <;>
          simp [Run.worth, Run.cancel, Run.allowance, Run.weight, activity]
      simp only [Event.isMove, Bool.toNat_false]
      omega
  | @lasts now connected run call due next later activity =>
      have same : Run.worth blocks.length { run with activity := .calling call (some later) next } =
          run.worth blocks.length := by
        simp [Run.worth, Run.allowance, Run.weight, activity]
      simp only [Event.isMove, Bool.toNat_false, same]
      omega
  | @abort now connected run =>
      have same : run.abort.worth blocks.length = run.worth blocks.length := rfl
      simp only [Event.isMove, Bool.toNat_false, same]
      omega
  | @edit now connected run place parameters =>
      have same : (run.rewrite place parameters).worth blocks.length = run.worth blocks.length :=
        rfl
      simp only [Event.isMove, Bool.toNat_false, same]
      omega
  | connection | pass | expire =>
      simp only [Event.isMove, Bool.toNat_false]
      omega

end Moment

end ArmProgram
