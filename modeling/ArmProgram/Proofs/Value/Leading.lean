import ArmProgram.Proofs.Text.Digits
import ArmProgram.Proofs.Value.Waits

/-!
Texts that start with an integer. After blanks and a sign come digits of any
script, up to the first character that is none. A count reads the text as that
integer, and so does a wait if nothing follows that would go on with a decimal, so
both do what they do for the integer itself.
-/

namespace ArmProgram

open Decimal (value? ofInt ofDecimal leastInfinite value?_mul_exact isInf_ofInt
  unpack_of_value? abs_factor_mul magnitude_nonneg roundsTo_self ofDecimal_nearest)

namespace Text

theorem digits_not_blank :
    ∀ start ∈ digitZeros, ∀ digit < 10, isBlank (Char.ofNat (start + digit)) = false := by
  decide +kernel

theorem not_isBlank_of_digit? {c : Char} {digit : Nat} (read : digit? c = some digit) :
    isBlank c = false := by
  obtain ⟨start, found, -⟩ := Option.map_eq_some_iff.mp read
  have within := List.find?_some found
  simp only [Bool.and_eq_true, decide_eq_true_eq] at within
  have apart := digits_not_blank start (List.mem_of_find?_eq_some found) (c.toNat - start) (by omega)
  rwa [Nat.add_sub_cancel' within.1, Char.ofNat_toNat] at apart

end Text

namespace Reading

inductive IsSign : List Char → Bool → Prop where
  | missing : IsSign [] false
  | plus : IsSign ['+'] false
  | minus : IsSign ['-'] true

/-- A text starts with an integer of this sign and these digits, and goes on with something else
than a digit. -/
inductive Leads : List Char → Bool → List Nat → List Char → Prop where
  | intro {blanks signs digits rest : List Char} {negative : Bool} {values : List Nat}
      (blank : ∀ c ∈ blanks, Text.isBlank c = true) (sign : IsSign signs negative)
      (read : digits.map Text.digit? = values.map some) (present : values ≠ [])
      (ends : ∀ c ∈ rest.head?, Text.digit? c = none) :
      Leads (blanks ++ (signs ++ (digits ++ rest))) negative values rest

theorem sign_split (cs : List Char) :
    ∃ signs, IsSign signs (sign cs).1 ∧ cs = signs ++ (sign cs).2 := by
  unfold sign
  split
  · exact ⟨['+'], .plus, rfl⟩
  · exact ⟨['-'], .minus, rfl⟩
  · exact ⟨[], .missing, rfl⟩

/-- A digit is no sign, and neither of them is a blank. -/
theorem sign_append {signs : List Char} {negative : Bool} (signed : IsSign signs negative)
    {c : Char} {digit : Nat} (read : Text.digit? c = some digit) (cs : List Char) :
    (signs ++ c :: cs).dropWhile Text.isBlank = signs ++ c :: cs ∧
      sign (signs ++ c :: cs) = (negative, c :: cs) := by
  cases signed with
  | plus | minus => exact ⟨rfl, rfl⟩
  | missing =>
      have plain : sign (c :: cs) = (false, c :: cs) := by
        unfold sign
        split
        · rename_i same
          cases same
          cases read
        · rename_i same
          cases same
          cases read
        · rfl
      refine ⟨List.dropWhile_cons_of_neg ?_, plain⟩
      rw [Text.not_isBlank_of_digit? read]
      exact Bool.false_ne_true

theorem Leads.present {text rest : List Char} {negative : Bool} {values : List Nat}
    (leads : Leads text negative values rest) : values.isEmpty = false := by
  cases leads with
  | intro _ _ _ present => simpa using present

/-- What the scanners find in a text that starts with an integer. -/
theorem Leads.scans {text rest : List Char} {negative : Bool} {values : List Nat}
    (leads : Leads text negative values rest) :
    (sign (text.dropWhile Text.isBlank)).1 = negative ∧
      Text.spanDigits Text.digit? (sign (text.dropWhile Text.isBlank)).2 = (values, rest) := by
  obtain @⟨blanks, signs, digits, rest, negative, values, blank, signed, read, present, ends⟩ := leads
  have span := Text.spanDigits_values read ends
  cases digits with
  | nil => exact absurd (List.map_eq_nil_iff.mp read.symm) present
  | cons c digits =>
      -- The first digit ends the blanks and the sign, whether or not there is a sign.
      obtain ⟨digit, first⟩ : ∃ digit, Text.digit? c = some digit := by
        have member : Text.digit? c ∈ (c :: digits).map Text.digit? := List.mem_cons_self
        rw [read] at member
        obtain ⟨digit, -, same⟩ := List.mem_map.mp member
        exact ⟨digit, same.symm⟩
      obtain ⟨kept, parted⟩ := sign_append signed first (digits ++ rest)
      rw [List.dropWhile_append_of_pos blank, List.cons_append, kept, parted]
      exact ⟨rfl, span⟩

/-- The scanner of integers finds exactly the integer that a text starts with. -/
theorem leadingInt?_iff (text : String) (negative : Bool) (values : List Nat) :
    leadingInt? text = some (negative, values) ↔
      ∃ rest, Leads text.toList negative values rest := by
  constructor
  · intro found
    simp only [leadingInt?] at found
    split at found
    · cases found
    · rename_i present
      cases found
      obtain ⟨signs, signed, parted⟩ := sign_split (text.toList.dropWhile Text.isBlank)
      obtain ⟨digits, split, read, ends⟩ := Text.spanDigits_split Text.digit?
        (sign (text.toList.dropWhile Text.isBlank)).2
      have blank : ∀ c ∈ text.toList.takeWhile Text.isBlank, Text.isBlank c = true :=
        fun c member => List.mem_takeWhile_imp member
      have leads := Leads.intro blank signed read (by simpa using present) ends
      rw [← split, ← parted, List.takeWhile_append_dropWhile] at leads
      exact ⟨_, leads⟩
  · rintro ⟨rest, leads⟩
    obtain ⟨signed, span⟩ := leads.scans
    simp only [leadingInt?, span, leads.present, signed]
    rfl

def EndsInteger (rest : List Char) : Prop :=
  ∀ c ∈ rest.head?, c ≠ '.' ∧ c ≠ 'e' ∧ c ≠ 'E'

theorem EndsInteger.stops {rest : List Char} (ends : EndsInteger rest) :
    fraction rest = ([], rest) ∧ exponent rest = 0 := by
  cases rest with
  | nil => exact ⟨rfl, rfl⟩
  | cons c rest =>
      obtain ⟨notPoint, notSmall, notLarge⟩ := ends c rfl
      constructor
      · unfold fraction
        split
        · rename_i same
          exact absurd (List.cons.inj same).1 notPoint
        · rfl
      · simp only [exponent, notSmall, notLarge, or_self, ↓reduceIte]

theorem leadingDouble?_of_leads {text : String} {negative : Bool} {values : List Nat}
    {rest : List Char} (leads : Leads text.toList negative values rest)
    (ends : EndsInteger rest) :
    leadingDouble? text = some (ofDecimal negative (Text.ofDigits values) 0) := by
  obtain ⟨signed, span⟩ := leads.scans
  obtain ⟨noFraction, noExponent⟩ := ends.stops
  simp only [leadingDouble?, span, leads.present, signed, noFraction, noExponent,
    List.append_nil, List.length_nil]
  rfl

end Reading

def signedInt (negative : Bool) (values : List Nat) : Int :=
  if negative then -Text.ofDigits values else Text.ofDigits values

theorem signedInt_natAbs (negative : Bool) (values : List Nat) :
    (signedInt negative values).natAbs = Text.ofDigits values := by
  cases negative <;> simp [signedInt]

theorem signedInt_negative {negative : Bool} {values : List Nat}
    (nonzero : signedInt negative values ≠ 0) :
    decide (signedInt negative values < 0) = negative := by
  cases negative with
  | false => simp [signedInt]
  | true =>
      simp only [signedInt, ↓reduceIte] at nonzero ⊢
      exact decide_eq_true (by omega)

theorem examined_small {n : Int} (small : n.natAbs < leastInfinite) : examined n = .ok n := by
  cases read : (Number.int n).toDouble? with
  | none => exact absurd ((toDouble?_none_iff n).mp read) (not_le.mpr small)
  | some x => rw [examined, read]

/-! Counts. -/

theorem repeatCount_int {n : Int} (small : n.natAbs < leastInfinite) :
    repeatCount (some (.number (.int n))) = .ok n.toNat := by
  rw [repeatCount, examined_small small]
  rfl

section

open Reading (Leads)

variable {text : String} {negative : Bool} {values : List Nat} {rest : List Char}
  (leads : Leads text.toList negative values rest)

include leads

theorem repeatCount_of_leads (short : values.length ≤ digitLimit)
    (nonzero : signedInt negative values ≠ 0) :
    repeatCount (some (.text text)) = .ok (signedInt negative values).toNat := by
  have found := (Reading.leadingInt?_iff text negative values).mpr ⟨rest, leads⟩
  have counted : Text.ofDigits values ≠ 0 := by
    rw [← signedInt_natAbs negative]
    exact Int.natAbs_ne_zero.mpr nonzero
  simp only [repeatCount, found, not_lt.mpr short, counted, ↓reduceIte]
  cases negative <;> simp [signedInt]

theorem repeatCount_of_leading_zero (short : values.length ≤ digitLimit)
    (zero : signedInt negative values = 0) : repeatCount (some (.text text)) = .ok 1 := by
  have found := (Reading.leadingInt?_iff text negative values).mpr ⟨rest, leads⟩
  have counted : Text.ofDigits values = 0 := by
    rw [← signedInt_natAbs negative, zero, Int.natAbs_zero]
  simp only [repeatCount, found, not_lt.mpr short, counted, ↓reduceIte]

end

theorem repeatCount_without_integer {text : String}
    (absent : ∀ negative values rest, ¬ Reading.Leads text.toList negative values rest) :
    repeatCount (some (.text text)) = .ok 1 := by
  cases found : Reading.leadingInt? text with
  | none => simp only [repeatCount, found]
  | some leading =>
      obtain ⟨rest, leads⟩ := (Reading.leadingInt?_iff text leading.1 leading.2).mp found
      exact absurd leads (absent _ _ _)

/-! Waits. -/

theorem ofInt_exact {n : Int} (small : n.natAbs < 2 ^ 53) : value? (ofInt n) = some (n : ℚ) := by
  have size : 2 ^ 53 ≤ leastInfinite := by decide +kernel
  have finite : (ofInt n).isInf = false := by
    rw [← Bool.not_eq_true, isInf_ofInt]
    omega
  exact Joint.value?_ofInt_small n finite small

/-- A decimal that is an integer with few bits is read as that integer. -/
theorem ofDecimal_ofInt {n : Int} (nonzero : n ≠ 0) (small : n.natAbs < 2 ^ 53) :
    ofDecimal (decide (n < 0)) n.natAbs 0 = ofInt n := by
  -- The double of the integer has the integer's value, and so it is the nearest one.
  have known := ofInt_exact small
  have present : (n : ℚ) ≠ 0 := by exact_mod_cast nonzero
  obtain ⟨sign, mantissa, exponent, positive, unpacked, same⟩ :=
    (unpack_of_value? known).resolve_left fun ⟨_, _, zero⟩ => present zero
  have magnitude : ((n.natAbs : ℕ) : ℚ) = mantissa * 2 ^ exponent := by
    rw [Nat.cast_natAbs, Int.cast_abs, same, abs_factor_mul sign (magnitude_nonneg _ _)]
  have rounds : Decimal.RoundsTo mantissa exponent ((n.natAbs : ℕ) * 10 ^ (0 : Int)) := by
    rw [zpow_zero, mul_one, magnitude]
    exact roundsTo_self mantissa exponent
  have signed : decide (n < 0) = (sign == .negative) := by
    have above := Decimal.magnitude_positive exponent positive
    cases sign with
    | positive =>
        rw [Decimal.factor, one_mul] at same
        have natural : 0 < n := by exact_mod_cast same ▸ above
        exact decide_eq_false (by omega)
    | negative =>
        rw [Decimal.factor, neg_one_mul] at same
        have below : (n : ℚ) < 0 := by rw [same]; exact neg_neg_of_pos above
        exact decide_eq_true (by exact_mod_cast below)
  rw [signed]
  exact ofDecimal_nearest (ofInt n) unpacked rounds

theorem ofInt_milliseconds {n : Int} (small : n.natAbs < 2 ^ 43) :
    value? (ofInt n * 1000) = some (n * 1000 : ℚ) := by
  have known : value? (ofInt n) = some (n : ℚ) := ofInt_exact (by omega)
  have exactly : value? (ofInt (n * 1000)) = some ((n * 1000 : Int) : ℚ) := ofInt_exact (by omega)
  rw [Int.cast_mul] at exactly
  exact value?_mul_exact known value?_thousand exactly

theorem waitDuration_int {n : Int} (small : n.natAbs < 2 ^ 43) (fallback : Number) :
    ∃ ms, waitDuration (some (.number (.int n))) fallback = .ok ms ∧
      ms.value? = some (max (n * 1000 : ℚ) 0) := by
  have size : 2 ^ 43 ≤ leastInfinite := by decide +kernel
  have product : (Number.int (n * 1000)).value? = some (n * 1000 : ℚ) :=
    congrArg some (Int.cast_mul n 1000)
  refine ⟨(Number.int (n * 1000)).orZero, ?_, orZero_of_value? product⟩
  rw [waitDuration, examined_small (by omega)]
  rfl

theorem waitDuration_of_leads {text : String} {negative : Bool} {values : List Nat}
    {rest : List Char} (leads : Reading.Leads text.toList negative values rest)
    (ends : Reading.EndsInteger rest) (nonzero : signedInt negative values ≠ 0)
    (small : (signedInt negative values).natAbs < 2 ^ 43) (fallback : Number) :
    ∃ ms, waitDuration (some (.text text)) fallback = .ok ms ∧
      ms.value? = some (max (signedInt negative values * 1000 : ℚ) 0) := by
  have found := Reading.leadingDouble?_of_leads leads ends
  have read := ofDecimal_ofInt nonzero (by omega)
  rw [signedInt_negative nonzero, signedInt_natAbs] at read
  rw [read] at found
  generalize signedInt negative values = n at nonzero small found
  have known : value? (ofInt n) = some (n : ℚ) := ofInt_exact (by omega)
  have apart : ¬ (ofInt n == 0) = true := by
    rw [beq_zero_iff, known]
    exact fun zero => nonzero (by exact_mod_cast Option.some.inj zero)
  refine ⟨(Number.double (ofInt n * 1000)).orZero, ?_, orZero_of_value? (ofInt_milliseconds small)⟩
  simp only [waitDuration, found]
  rw [if_neg apart]

/-- A text that starts with an integer counts as often as the integer, and waits as long unless
it goes on as a decimal. A text without an integer, or with a zero, counts once. -/
theorem texts_read_as_integers :
    (∀ (n : Int) (text : String) (negative : Bool) (values : List Nat) (rest : List Char),
      Reading.Leads text.toList negative values rest → signedInt negative values = n → n ≠ 0 →
      (values.length ≤ digitLimit → n.natAbs < 10 ^ 300 →
        ∃ count, repeatCount (some (.text text)) = .ok count ∧
          repeatCount (some (.number (.int n))) = .ok count) ∧
      (Reading.EndsInteger rest → n.natAbs < 2 ^ 43 → ∀ fallback, ∃ spelled given time,
        waitDuration (some (.text text)) fallback = .ok spelled ∧
          waitDuration (some (.number (.int n))) fallback = .ok given ∧
          spelled.value? = some time ∧ given.value? = some time)) ∧
    (∀ text : String,
      (∀ negative values rest, ¬ Reading.Leads text.toList negative values rest) →
        repeatCount (some (.text text)) = .ok 1) ∧
    ∀ (text : String) (negative : Bool) (values : List Nat) (rest : List Char),
      Reading.Leads text.toList negative values rest → values.length ≤ digitLimit →
        signedInt negative values = 0 → repeatCount (some (.text text)) = .ok 1 := by
  refine ⟨?_, fun text absent => repeatCount_without_integer absent,
    fun text negative values rest leads short zero => repeatCount_of_leading_zero leads short zero⟩
  rintro n text negative values rest leads rfl nonzero
  constructor
  · intro short small
    have size : 10 ^ 300 ≤ leastInfinite := by decide +kernel
    exact ⟨_, repeatCount_of_leads leads short nonzero, repeatCount_int (by omega)⟩
  · intro ends small fallback
    obtain ⟨spelled, waits, known⟩ := waitDuration_of_leads leads ends nonzero small fallback
    obtain ⟨given, waits', known'⟩ := waitDuration_int small fallback
    exact ⟨spelled, given, _, waits, waits', known, known'⟩

/-- Forty-two in Arabic digits, with a sign and a zero before. -/
theorem arabic_text_reads_as_integer :
    let text := String.ofList ['\u00a0', '+', '\u0660', '\u0664', '\u0662', ' ', 's']
    Reading.Leads text.toList false [0, 4, 2] [' ', 's'] ∧
      (∃ count, repeatCount (some (.text text)) = .ok count ∧
        repeatCount (some (.number (.int 42))) = .ok count) ∧
      ∃ spelled given time, waitDuration (some (.text text)) (.int 1000) = .ok spelled ∧
        waitDuration (some (.number (.int 42))) (.int 1000) = .ok given ∧
        spelled.value? = some time ∧ given.value? = some time := by
  intro text
  have blank : ∀ c ∈ ['\u00a0'], Text.isBlank c = true := List.forall_mem_singleton.mpr rfl
  have read : ['\u0660', '\u0664', '\u0662'].map Text.digit? = [0, 4, 2].map some := rfl
  have ends : ∀ c ∈ [' ', 's'].head?, Text.digit? c = none := by
    rintro c ⟨⟩
    rfl
  have plain : Reading.EndsInteger [' ', 's'] := by
    rintro c ⟨⟩
    decide
  have leads : Reading.Leads text.toList false [0, 4, 2] [' ', 's'] := by
    rw [String.toList_ofList]
    exact .intro blank .plus read (by decide) ends
  obtain ⟨counts, waits⟩ := texts_read_as_integers.1 42 text _ _ _ leads rfl (by decide)
  exact ⟨leads, counts (by decide) (by decide +kernel), waits plain (by decide) _⟩

end ArmProgram
