import ArmProgram.Proofs.Decimal.Integer
import ArmProgram.Proofs.Walk.Transitions

/-!
Which parameter values can be read. Whatever is no number and no text of one
falls back, so the only values that fail are integers that no finite double is
near to, and counts whose text has too many digits. A walk fails nowhere else.
-/

namespace ArmProgram

open Decimal (leastInfinite)

theorem toDouble?_none_iff (n : Int) :
    (Number.int n).toDouble? = none ↔ leastInfinite ≤ n.natAbs := by
  rw [← Decimal.isInf_ofInt, Number.toDouble?]
  split
  · rename_i infinite
    simp [infinite]
  · rename_i finite
    simp [finite]

theorem examined_error_iff (n : Int) (fault : CoercionFault) :
    examined n = .error fault ↔ leastInfinite ≤ n.natAbs ∧ fault = .tooLargeForDouble := by
  rw [← toDouble?_none_iff, examined]
  cases (Number.int n).toDouble? with
  | some x => simp
  | none => simp [eq_comm]

theorem waitDuration_error_iff (value : Option Value) (fallback : Number)
    (fault : CoercionFault) :
    waitDuration value fallback = .error fault ↔
      ∃ n, value = some (.number (.int n)) ∧ leastInfinite ≤ n.natAbs ∧
        fault = .tooLargeForDouble := by
  match value with
  | none | some (.flag _) => simp [waitDuration]
  | some (.number (.double x)) =>
      simp only [waitDuration]
      split <;> simp
  | some (.text text) =>
      simp only [waitDuration]
      split
      · split <;> simp
      · simp
  | some (.number (.int n)) =>
      have causes := examined_error_iff n fault
      simp only [waitDuration]
      cases read : examined n with
      | error other => simpa [read, bind, Except.bind] using causes
      | ok m =>
          rw [read] at causes
          simpa [bind, Except.bind, pure, Except.pure] using causes

theorem repeatCount_error_iff (value : Option Value) (fault : CoercionFault) :
    repeatCount value = .error fault ↔
      (∃ n, value = some (.number (.int n)) ∧ leastInfinite ≤ n.natAbs ∧
        fault = .tooLargeForDouble) ∨
      ∃ text leading, value = some (.text text) ∧ Reading.leadingInt? text = some leading ∧
        digitLimit < leading.2.length ∧ fault = .tooManyDigits leading.2.length := by
  match value with
  | none | some (.flag _) => simp [repeatCount]
  | some (.number (.double x)) =>
      simp only [repeatCount]
      split
      · simp
      · split <;> simp
  | some (.text text) =>
      simp only [repeatCount]
      split
      · rename_i negative digits leading
        split
        · rename_i long
          constructor
          · intro failed
            cases failed
            exact Or.inr ⟨text, _, rfl, leading, long, rfl⟩
          · rintro (⟨n, same, -⟩ | ⟨other, found, same, there, -, rfl⟩)
            · cases same
            · cases same
              rw [leading] at there
              cases there
              rfl
        · rename_i short
          split <;> simp [leading, short]
      · rename_i absent
        simp [absent]
  | some (.number (.int n)) =>
      have causes := examined_error_iff n fault
      simp only [repeatCount]
      cases read : examined n with
      | error other => simpa [read, bind, Except.bind] using causes
      | ok m =>
          rw [read] at causes
          simpa [bind, Except.bind, pure, Except.pure] using causes

theorem finiteAngle_error_iff (value : Option Value) (fault : CoercionFault) :
    finiteAngle value = .error fault ↔
      ∃ n, value = some (.number (.int n)) ∧ leastInfinite ≤ n.natAbs ∧
        fault = .tooLargeForDouble := by
  match value with
  | none | some (.flag _) | some (.text _) | some (.number (.double x)) => simp [finiteAngle]
  | some (.number (.int n)) =>
      have causes := toDouble?_none_iff n
      simp only [finiteAngle]
      cases read : (Number.int n).toDouble? with
      | some x =>
          rw [read] at causes
          simp [← causes]
      | none =>
          rw [read] at causes
          simp [← causes, eq_comm]

theorem commandOfMove_error_iff (block : String) (parameters : Parameters)
    (fault : CoercionFault) :
    commandOfMove block parameters = .error fault ↔
      (jointOf (parameters.get? "joint")).isSome ∧
        finiteAngle (parameters.get? "angle") = .error fault := by
  unfold commandOfMove
  split
  · rename_i unknown
    simp [unknown]
  · rename_i joint known
    split <;> rename_i angle
    · simp [known, angle]
    · simp [known, angle]
    · simp [known, angle]

/-! Values that state no number. -/

def StatesNoTime : Option Value → Prop
  | none | some (.flag _) => True
  | some (.number (.int _)) => False
  | some (.number (.double x)) => Decimal.isFinite x = false
  | some (.text text) => ∀ x, Reading.leadingDouble? text = some x → (x == 0) = true

def StatesNoCount : Option Value → Prop
  | none | some (.flag _) => True
  | some (.number _) => False
  | some (.text text) =>
      ∀ leading, Reading.leadingInt? text = some leading → Text.ofDigits leading.2 = 0

def StatesNoAngle : Option Value → Prop
  | some (.number (.int _)) => False
  | some (.number (.double x)) => Decimal.isFinite x = false
  | _ => True

theorem waitDuration_of_noTime (value : Option Value) (fallback : Number)
    (bad : StatesNoTime value) : waitDuration value fallback = .ok fallback := by
  match value with
  | none | some (.flag _) => rfl
  | some (.number (.double x)) =>
      have infinite : Decimal.isFinite x = false := bad
      simp [waitDuration, infinite]
  | some (.text text) =>
      simp only [waitDuration]
      split
      · rename_i x leading
        rw [if_pos (bad x leading)]
      · rfl

theorem repeatCount_of_noCount (value : Option Value) (bad : StatesNoCount value)
    (count : Nat) (counted : repeatCount value = .ok count) : count = 1 := by
  match value with
  | none | some (.flag _) =>
      cases counted
      rfl
  | some (.text text) =>
      simp only [repeatCount] at counted
      split at counted
      · rename_i negative digits leading
        have zero : Text.ofDigits digits = 0 := bad _ leading
        split at counted
        · cases counted
        · cases counted
          rfl
      · cases counted
        rfl

theorem commandOfMove_of_noAngle (block : String) (parameters : Parameters)
    (bad : jointOf (parameters.get? "joint") = none ∨ StatesNoAngle (parameters.get? "angle"))
    (command : Option Command) (remarks : List Remark)
    (made : commandOfMove block parameters = .ok (command, remarks)) : command = none := by
  unfold commandOfMove at made
  split at made
  · cases made
    rfl
  · rename_i joint known
    have unstated : StatesNoAngle (parameters.get? "angle") := by simpa [known] using bad
    generalize parameters.get? "angle" = angle at unstated made
    match angle with
    | none | some (.flag _) | some (.text _) =>
        cases made
        rfl
    | some (.number (.double x)) =>
        have infinite : Decimal.isFinite x = false := unstated
        simp only [finiteAngle, infinite, Bool.false_eq_true, ↓reduceIte] at made
        cases made
        rfl

/-! Values that can be read. -/

/-- Integers that are examined as doubles have a finite one near to them, and a
count in a text is short enough to be converted. -/
def Value.IsReadable (name : String) : Value → Prop
  | .flag _ | .number (.double _) => True
  | .number (.int n) => name ∈ ["seconds", "times", "angle"] → n.natAbs < leastInfinite
  | .text words =>
      name = "times" → ∀ leading, Reading.leadingInt? words = some leading →
        leading.2.length ≤ digitLimit

def Parameters.IsReadable (parameters : Parameters) : Prop :=
  ∀ name value, parameters.get? name = some value → value.IsReadable name

theorem Parameters.isReadable_of_entries {entries : List (String × Value)}
    (readable : ∀ entry ∈ entries, entry.2.IsReadable entry.1) :
    Parameters.IsReadable ⟨entries⟩ := by
  intro name value there
  obtain ⟨before, after, rfl, -⟩ := List.lookup_eq_some_iff.mp there
  exact readable (name, value) (by simp)

def Program.IsReadable (program : Program) : Prop :=
  ∀ block ∈ program.blocks, block.parameters.IsReadable

theorem waitDuration_reads (value : Option Value) (fallback : Number)
    (readable : ∀ known, value = some known → known.IsReadable "seconds") :
    ∃ ms, waitDuration value fallback = .ok ms := by
  cases waited : waitDuration value fallback with
  | ok ms => exact ⟨ms, rfl⟩
  | error fault =>
      obtain ⟨n, rfl, large, -⟩ := (waitDuration_error_iff value fallback fault).mp waited
      have near : n.natAbs < leastInfinite := readable _ rfl (by simp)
      omega

theorem repeatCount_reads (value : Option Value)
    (readable : ∀ known, value = some known → known.IsReadable "times") :
    ∃ count, repeatCount value = .ok count := by
  cases counted : repeatCount value with
  | ok count => exact ⟨count, rfl⟩
  | error fault =>
      rcases (repeatCount_error_iff value fault).mp counted with
        ⟨n, rfl, large, -⟩ | ⟨text, leading, rfl, there, long, -⟩
      · have near : n.natAbs < leastInfinite := readable _ rfl (by simp)
        omega
      · have short : leading.2.length ≤ digitLimit := readable _ rfl rfl leading there
        omega

theorem commandOfMove_reads (block : String) (parameters : Parameters)
    (readable : ∀ known, parameters.get? "angle" = some known → known.IsReadable "angle") :
    ∃ command remarks, commandOfMove block parameters = .ok (command, remarks) := by
  cases made : commandOfMove block parameters with
  | ok pair => exact ⟨pair.1, pair.2, rfl⟩
  | error fault =>
      obtain ⟨-, failed⟩ := (commandOfMove_error_iff block parameters fault).mp made
      obtain ⟨n, there, large, -⟩ := (finiteAngle_error_iff _ fault).mp failed
      have near : n.natAbs < leastInfinite := readable _ there (by simp)
      omega

theorem Walk.leaf_reads (plan : Plan) (node : Placed) (parameters : Parameters)
    (kind : Option Kind) (readable : parameters.IsReadable) (fault : CoercionFault) :
    leaf plan node parameters kind ≠ .error fault := by
  intro failed
  unfold leaf at failed
  split at failed
  · obtain ⟨command, remarks, made⟩ :=
      commandOfMove_reads node.block.id parameters fun known there => readable _ known there
    rw [made] at failed
    cases failed
  · obtain ⟨ms, waited⟩ := waitDuration_reads (parameters.get? "seconds") plan.defaultWait
      fun known there => readable _ known there
    rw [waited] at failed
    cases failed
  all_goals cases failed

/-- No step of a walk fails while all its parameters can be read. -/
theorem Position.step?_reads (plan : Plan) (view : View) (position : Position)
    (readable : ∀ place, (view place).IsReadable) (fault : CoercionFault) :
    position.step? plan view ≠ some (.error fault) := by
  intro stepped
  obtain ⟨node, rest, below, rfl, counts | acts⟩ := step?_fault plan view position fault stepped
  · obtain ⟨count, counted⟩ := repeatCount_reads ((view node.place).get? "times")
      fun known there => readable node.place _ known there
    rw [counted] at counts
    cases counts.2
  · exact Walk.leaf_reads plan node _ _ (readable node.place) fault acts.2

/-! Parameters that are set. -/

theorem Parameters.set_isReadable {parameters : Parameters} (readable : parameters.IsReadable)
    (name : String) (value : Value) (mine : value.IsReadable name) :
    (parameters.set name value).IsReadable := by
  intro other found there
  rw [get?_set] at there
  split at there
  · rename_i same
    cases there
    rw [same]
    exact mine
  · exact readable other found there

end ArmProgram
