import ArmProgram.Proofs.Decimal.Shortest
import ArmProgram.Proofs.Text.Digits
import ArmProgram.Json.Reader
import ArmProgram.Json.Writer

/-!
Numbers in JSON text. An integer is its digits, a finite double always has a
fraction or an exponent, and both read back as what was written.
-/

namespace ArmProgram.Json

open Text (spelled IsDigits EndsDigits)
open Decimal (Digits Layout)

def EndsValue (rest : List Char) : Prop :=
  ∀ c ∈ rest.head?, c = ',' ∨ c = ']' ∨ c = '}'

theorem EndsValue.digits {rest : List Char} (ends : EndsValue rest) : EndsDigits rest := by
  intro c first
  rcases ends c first with rfl | rfl | rfl <;> rfl

structure IsWhole (cs : List Char) : Prop where
  digits : IsDigits cs
  some : cs ≠ []
  lone : cs.head? = .some '0' → cs = ['0']

theorem toDigits_isWhole (n : Nat) : IsWhole (Nat.toDigits 10 n) := by
  by_cases zero : n = 0
  · subst zero
    exact ⟨Text.toDigits_isDigits 0, by decide, fun _ => rfl⟩
  · obtain ⟨c, cs, text, other⟩ := Text.toDigits_head n (by omega)
    refine ⟨Text.toDigits_isDigits n, by simp [text], fun first => ?_⟩
    rw [text, List.head?_cons, Option.some.injEq] at first
    exact absurd first other

theorem readWhole_append {cs rest : List Char} (whole : IsWhole cs) (ends : EndsDigits rest) :
    readWhole (cs ++ rest) = (spelled cs, rest) := by
  obtain ⟨digits, some, lone⟩ := whole
  cases cs with
  | nil => exact absurd rfl some
  | cons c tail =>
      by_cases zero : c = '0'
      · subst zero
        have alone := lone rfl
        rw [alone]
        rfl
      · rw [← Text.spanDigits_append digits ends]
        unfold readWhole
        split
        · rename_i first
          exact absurd (List.cons.inj first).1 zero
        · rfl

theorem readFraction_none {rest : List Char} (other : rest.head? ≠ some '.') :
    readFraction rest = (none, rest) := by
  unfold readFraction
  split
  · exact absurd rfl other
  · rfl

theorem readFraction_some {cs rest : List Char} (digits : IsDigits cs) (some : cs ≠ [])
    (ends : EndsDigits rest) :
    readFraction ('.' :: (cs ++ rest)) = (.some (spelled cs), rest) := by
  have present : (spelled cs).isEmpty = false := by
    simpa [spelled] using some
  simp only [readFraction, Text.spanDigits_append digits ends, present, Bool.false_eq_true,
    ↓reduceIte]

theorem EndsValue.other {rest : List Char} (ends : EndsValue rest) {c : Char}
    (different : c ≠ ',' ∧ c ≠ ']' ∧ c ≠ '}') : rest.head? ≠ some c := by
  intro first
  obtain ⟨comma, bracket, brace⟩ := different
  rcases ends c first with same | same | same
  · exact comma same
  · exact bracket same
  · exact brace same

theorem readExponent_ended {rest : List Char} (ends : EndsValue rest) :
    readExponent rest = (none, rest) := by
  cases rest with
  | nil => rfl
  | cons c rest =>
      have small : c ≠ 'e' := fun same => ends.other (by decide) (congrArg some same)
      have large : c ≠ 'E' := fun same => ends.other (by decide) (congrArg some same)
      simp [readExponent, small, large]

theorem readExponent_some (negative : Bool) (n : Nat) {rest : List Char} (ends : EndsDigits rest) :
    readExponent ('e' :: (if negative then '-' else '+') :: (Nat.toDigits 10 n ++ rest)) =
      (some (if negative then -(n : Int) else n), rest) := by
  have present : (spelled (Nat.toDigits 10 n)).isEmpty = false := by
    simp [spelled]
  have sign : readExponentSign ((if negative then '-' else '+') :: (Nat.toDigits 10 n ++ rest)) =
      (negative, Nat.toDigits 10 n ++ rest) := by
    cases negative <;> rfl
  simp only [readExponent, decide_true, Bool.true_or, ↓reduceIte, sign,
    Text.spanDigits_append (Text.toDigits_isDigits n) ends, present, Text.ofDigits_toDigits,
    Bool.false_eq_true]

theorem exceeds_mono {limit : Option Nat} {size larger : Nat} (less : size ≤ larger)
    (within : exceeds limit larger = false) : exceeds limit size = false := by
  cases limit with
  | none => rfl
  | some most =>
      simp only [exceeds, Option.any_some, decide_eq_false_iff_not] at within ⊢
      omega

/-- Whether a dialect has room for all digits of a double that are written before the point. -/
def Dialect.IsRoomy (dialect : Dialect) : Prop :=
  exceeds dialect.longest 16 = false

/-! Reading numbers by their parts. -/

section Parts

variable {dialect : Dialect} (negative : Bool)

theorem readNumber_int {n : Nat} {rest : List Char} (ends : EndsValue rest)
    (short : exceeds dialect.longest (Nat.toDigits 10 n).length = false) :
    readNumber dialect negative (Nat.toDigits 10 n ++ rest) =
      .ok (.int (if negative then -(n : Int) else n), rest) := by
  have whole := readWhole_append (toDigits_isWhole n) ends.digits
  have fraction : readFraction rest = (none, rest) := by
    apply readFraction_none
    exact ends.other (by decide)
  have exponent := readExponent_ended ends
  have present : (spelled (Nat.toDigits 10 n)).isEmpty = false := by
    simp [spelled]
  have size : (spelled (Nat.toDigits 10 n)).length = (Nat.toDigits 10 n).length := by
    simp [spelled]
  simp only [readNumber, whole, fraction, exponent, present, size, short, Text.ofDigits_toDigits,
    Bool.false_eq_true, ↓reduceIte]

theorem readNumber_placed (roomy : dialect.IsRoomy) {whole fraction rest : List Char}
    (first : IsWhole whole) (digits : IsDigits fraction) (some : fraction ≠ [])
    (short : whole.length ≤ 16) (ends : EndsValue rest) :
    readNumber dialect negative (whole ++ '.' :: (fraction ++ rest)) =
      .ok (.double (Decimal.ofDecimal negative (Text.ofDigits (spelled (whole ++ fraction)))
        (-fraction.length)), rest) := by
  have point : EndsDigits ('.' :: (fraction ++ rest)) := by
    intro c first
    cases first
    rfl
  have exponent := readExponent_ended ends
  have present : (spelled whole).isEmpty = false := by
    simp [spelled, first.some]
  have size : exceeds dialect.longest (spelled whole).length = false := by
    apply exceeds_mono _ roomy
    simpa [spelled] using short
  have joined : spelled (whole ++ fraction) = spelled whole ++ spelled fraction := List.map_append
  have count : (spelled fraction).length = fraction.length := List.length_map _
  simp only [readNumber, readWhole_append first point, readFraction_some digits some ends.digits,
    exponent, present, size, joined, count, Bool.false_eq_true, ↓reduceIte, Bool.false_and,
    Option.getD_some, Option.getD_none, Int.zero_sub]

theorem readNumber_scientific (roomy : dialect.IsRoomy) {c : Char} {fraction rest : List Char}
    (first : c.isDigit = true) (digits : IsDigits fraction) (below : Bool) (n : Nat)
    (ends : EndsValue rest) :
    readNumber dialect negative (c :: ((if fraction.isEmpty then [] else '.' :: fraction) ++
        'e' :: (if below then '-' else '+') :: (Nat.toDigits 10 n ++ rest))) =
      .ok (.double (Decimal.ofDecimal negative (Text.ofDigits (spelled (c :: fraction)))
        ((if below then -(n : Int) else n) - fraction.length)), rest) := by
  have whole : IsWhole [c] := by
    refine ⟨fun other member => ?_, by simp, fun zero => ?_⟩
    · rw [List.mem_singleton.mp member]
      exact first
    · rw [List.head?_cons, Option.some.injEq] at zero
      rw [zero]
  have exponent := readExponent_some below n ends.digits
  have size : exceeds dialect.longest 1 = false := exceeds_mono (by omega) roomy
  generalize tail : (if below then '-' else '+') :: (Nat.toDigits 10 n ++ rest) = signed at *
  have letter : EndsDigits ('e' :: signed) := by
    intro c first
    cases first
    rfl
  cases fraction with
  | nil =>
      have alone : readWhole (c :: 'e' :: signed) = (spelled [c], 'e' :: signed) :=
        readWhole_append whole letter
      have none : readFraction ('e' :: signed) = (none, 'e' :: signed) :=
        readFraction_none (by simp)
      simp [readNumber, alone, none, exponent, spelled, size]
  | cons digit fraction =>
      have point : EndsDigits ('.' :: (digit :: fraction ++ 'e' :: signed)) := by
        intro c first
        cases first
        rfl
      have alone : readWhole (c :: '.' :: (digit :: fraction ++ 'e' :: signed)) =
          (spelled [c], '.' :: (digit :: fraction ++ 'e' :: signed)) :=
        readWhole_append whole point
      have some := readFraction_some digits (List.cons_ne_nil _ _) letter
      simp only [List.isEmpty_cons, Bool.false_eq_true, ↓reduceIte, List.cons_append]
        at alone some ⊢
      simp [readNumber, alone, some, exponent, spelled, size]

end Parts

/-! The text of a double. -/

structure SpellsDouble (dialect : Dialect) (body : List Char) (value : ℚ) : Prop where
  first : ∃ c cs, body = c :: cs ∧ c.isDigit = true
  reads : ∃ (digits : Nat) (power : Int), (digits : ℚ) * 10 ^ power = value ∧
    ∀ (negative : Bool) (rest : List Char), EndsValue rest →
      readNumber dialect negative (body ++ rest) =
        .ok (.double (Decimal.ofDecimal negative digits power), rest)

theorem exponentText_toList (exponent : Int) :
    (Decimal.exponentText 1 exponent).toList =
      'e' :: (if exponent < 0 then '-' else '+') :: Nat.toDigits 10 exponent.natAbs := by
  have some : 1 - (Nat.toDigits 10 exponent.natAbs).length = 0 := by
    have := List.length_pos_iff.mpr (toDigits_isWhole exponent.natAbs).some
    omega
  by_cases negative : exponent < 0 <;>
    simp [Decimal.exponentText, Decimal.digitsText, Decimal.zeros, some, negative,
      String.toList_append]

theorem spells_scientific {dialect : Dialect} (roomy : dialect.IsRoomy) (digits : Nat)
    (first : Int) :
    SpellsDouble dialect
      ((Nat.toDigits 10 digits).take 1 ++
        (if ((Nat.toDigits 10 digits).drop 1).isEmpty then []
          else '.' :: (Nat.toDigits 10 digits).drop 1) ++
        'e' :: (if first < 0 then '-' else '+') :: Nat.toDigits 10 first.natAbs)
      (digits * 10 ^ (first + 1 - (Nat.toDigits 10 digits).length)) := by
  have whole := Text.ofDigits_toDigits digits
  have all := Text.toDigits_isDigits digits
  cases text : Nat.toDigits 10 digits with
  | nil => exact absurd text (toDigits_isWhole digits).some
  | cons c cs =>
      rw [text] at whole all
      have digit := all c List.mem_cons_self
      have rest := fun c member => all c (List.mem_cons_of_mem _ member)
      refine ⟨⟨c, _, rfl, digit⟩, digits, first + 1 - (cs.length + 1 : Nat), rfl, ?_⟩
      intro negative after ends
      have read := readNumber_scientific negative roomy digit rest (decide (first < 0))
        first.natAbs ends
      have power : (if first < 0 then -(first.natAbs : Int) else first.natAbs) - cs.length =
          first + 1 - (cs.length + 1 : Nat) := by
        split <;> omega
      simp only [decide_eq_true_eq, whole, power] at read
      simpa using read

theorem spells_placed {dialect : Dialect} (roomy : dialect.IsRoomy) {whole fraction : List Char}
    (first : IsWhole whole) (digits : IsDigits fraction) (some : fraction ≠ [])
    (short : whole.length ≤ 16) :
    SpellsDouble dialect (whole ++ '.' :: fraction)
      (Text.ofDigits (spelled (whole ++ fraction)) * 10 ^ (-(fraction.length : Int))) := by
  obtain ⟨c, cs, rfl⟩ := List.exists_cons_of_ne_nil first.some
  refine ⟨⟨c, _, rfl, first.digits c List.mem_cons_self⟩, _, _, rfl, ?_⟩
  intro negative rest ends
  have read := readNumber_placed negative roomy first digits some short ends
  simpa using read

theorem IsWhole.of_head {c : Char} {cs : List Char} (digits : IsDigits (c :: cs))
    (other : c ≠ '0') : IsWhole (c :: cs) := by
  refine ⟨digits, List.cons_ne_nil c cs, fun zero => ?_⟩
  rw [List.head?_cons, Option.some.injEq] at zero
  exact absurd zero other

/-- Digits in place, the point behind them and behind zeros. -/
theorem spells_padded {dialect : Dialect} (roomy : dialect.IsRoomy) (digits zeros : Nat)
    (proper : 0 < digits ∨ zeros = 0)
    (short : (Nat.toDigits 10 digits).length + zeros ≤ 16) :
    SpellsDouble dialect
      (Nat.toDigits 10 digits ++ List.replicate zeros '0' ++ '.' :: List.replicate 1 '0')
      (digits * 10 ^ (zeros : Int)) := by
  have padded : IsWhole (Nat.toDigits 10 digits ++ List.replicate zeros '0') := by
    rcases proper with positive | rfl
    · obtain ⟨c, cs, text, other⟩ := Text.toDigits_head digits positive
      have padded := (Text.toDigits_isDigits digits).append (Text.isDigits_zeros zeros)
      rw [text, List.cons_append] at padded ⊢
      exact .of_head padded other
    · rw [List.replicate_zero, List.append_nil]
      exact toDigits_isWhole digits
  have length : (Nat.toDigits 10 digits ++ List.replicate zeros '0').length ≤ 16 := by
    rw [List.length_append, List.length_replicate]
    exact short
  have spells := spells_placed roomy padded (Text.isDigits_zeros 1) (by decide) length
  have power : ((digits * 10 ^ zeros * 10 ^ 1 : Nat) : ℚ) * 10 ^ (-((1 : Nat) : Int)) =
      digits * 10 ^ (zeros : Int) := by
    rw [zpow_natCast, zpow_neg, zpow_natCast]
    push_cast
    field_simp
  rw [Text.ofDigits_zeros_after, Text.ofDigits_zeros_after, Text.ofDigits_toDigits,
    List.length_replicate, power] at spells
  exact spells

/-- Digits in place, the point between them. -/
theorem spells_parted {dialect : Dialect} (roomy : dialect.IsRoomy) (digits places : Nat)
    (positive : 0 < digits) (some : 0 < places) (short : places ≤ 16)
    (more : places < (Nat.toDigits 10 digits).length) :
    SpellsDouble dialect
      ((Nat.toDigits 10 digits).take places ++ '.' :: (Nat.toDigits 10 digits).drop places)
      (digits * 10 ^ ((places : Int) - (Nat.toDigits 10 digits).length)) := by
  have all := Text.toDigits_isDigits digits
  have front : IsWhole ((Nat.toDigits 10 digits).take places) := by
    have front : IsDigits ((Nat.toDigits 10 digits).take places) :=
      fun c member => all c (List.mem_of_mem_take member)
    obtain ⟨count, rfl⟩ := Nat.exists_eq_add_of_lt some
    obtain ⟨c, cs, text, other⟩ := Text.toDigits_head digits positive
    rw [text, List.take_succ_cons] at front ⊢
    exact .of_head front other
  have length : ((Nat.toDigits 10 digits).take places).length ≤ 16 := by
    rw [List.length_take]
    omega
  have behind : (Nat.toDigits 10 digits).drop places ≠ [] := by
    rw [← List.length_pos_iff, List.length_drop]
    omega
  have spells := spells_placed roomy front (fun c member => all c (List.mem_of_mem_drop member))
    behind length
  have power : -(((Nat.toDigits 10 digits).drop places).length : Int) =
      places - (Nat.toDigits 10 digits).length := by
    rw [List.length_drop]
    omega
  rw [List.take_append_drop, Text.ofDigits_toDigits, power] at spells
  exact spells

/-- Digits in place, with zeros after them where the point is further on. -/
theorem spells_whole {dialect : Dialect} (roomy : dialect.IsRoomy) (decimal : Digits) (count : Nat)
    (proper : 0 < decimal.digits ∨ decimal.exponent = 0) (short : count + 1 ≤ 16)
    (first : decimal.exponent + (Nat.toDigits 10 decimal.digits).length - 1 = count) :
    SpellsDouble dialect
      (Decimal.placed doubles (Nat.toDigits 10 decimal.digits) (count + 1)).toList
      (decimal.digits * 10 ^ decimal.exponent) := by
  obtain ⟨digits, exponent⟩ := decimal
  simp only at proper first ⊢
  by_cases further : (Nat.toDigits 10 digits).length ≤ count + 1
  · obtain ⟨zeros, rest⟩ : ∃ zeros, count + 1 = (Nat.toDigits 10 digits).length + zeros :=
      Nat.exists_eq_add_of_le further
    have places : exponent = zeros := by omega
    have length : (Nat.toDigits 10 digits ++ List.replicate zeros '0').length = count + 1 := by
      rw [List.length_append, List.length_replicate, rest]
    have text : (Decimal.placed doubles (Nat.toDigits 10 digits) (count + 1)).toList =
        Nat.toDigits 10 digits ++ List.replicate zeros '0' ++ '.' :: List.replicate 1 '0' := by
      have padding : count + 1 - (Nat.toDigits 10 digits).length = zeros := by omega
      simp only [Decimal.placed, padding]
      rw [List.drop_of_length_le length.le, List.take_of_length_le length.le]
      simp [doubles, String.toList_append]
    rw [text, places]
    exact spells_padded roomy digits zeros (by omega) (by omega)
  · have none : count + 1 - (Nat.toDigits 10 digits).length = 0 := by omega
    have text : (Decimal.placed doubles (Nat.toDigits 10 digits) (count + 1)).toList =
        (Nat.toDigits 10 digits).take (count + 1) ++
          '.' :: (Nat.toDigits 10 digits).drop (count + 1) := by
      have longer : 0 < ((Nat.toDigits 10 digits).drop (count + 1)).length := by
        rw [List.length_drop]
        omega
      obtain ⟨c, cs, behind⟩ := List.exists_cons_of_length_pos longer
      simp only [Decimal.placed, none, List.replicate_zero, List.append_nil, behind]
      simp [String.toList_append]
    have places : exponent = (count + 1 : Nat) - (Nat.toDigits 10 digits).length := by omega
    have positive : 0 < digits := by
      apply proper.resolve_right
      omega
    rw [text, places]
    exact spells_parted roomy digits (count + 1) positive (Nat.succ_pos count) short (by omega)

theorem spells_fraction {dialect : Dialect} (roomy : dialect.IsRoomy) (decimal : Digits) (gap : Nat)
    (first : decimal.exponent + (Nat.toDigits 10 decimal.digits).length - 1 = Int.negSucc gap) :
    SpellsDouble dialect
      ("0." ++ Decimal.zeros gap ++ String.ofList (Nat.toDigits 10 decimal.digits)).toList
      (decimal.digits * 10 ^ decimal.exponent) := by
  have some := (toDigits_isWhole decimal.digits).some
  have spells := spells_placed roomy (toDigits_isWhole 0)
    ((Text.isDigits_zeros gap).append (Text.toDigits_isDigits decimal.digits))
    (fun nothing => some (List.append_eq_nil_iff.mp nothing).2) (by decide)
  have zero : Nat.toDigits 10 0 = ['0'] := rfl
  have alone : Text.ofDigits (spelled ('0' :: (List.replicate gap '0' ++
      Nat.toDigits 10 decimal.digits))) = decimal.digits := by
    rw [← List.cons_append, ← List.replicate_succ, Text.ofDigits_zeros_before,
      Text.ofDigits_toDigits]
  have power : -((List.replicate gap '0' ++ Nat.toDigits 10 decimal.digits).length : Int) =
      decimal.exponent := by
    rw [List.length_append, List.length_replicate]
    omega
  rw [zero, power, List.singleton_append, List.singleton_append, alone] at spells
  simpa [Decimal.zeros, String.toList_append] using spells

theorem write_spells {dialect : Dialect} (roomy : dialect.IsRoomy) (negative : Bool)
    (decimal : Digits) (proper : 0 < decimal.digits ∨ decimal.exponent = 0) :
    ∃ body, (doubles.write negative decimal).toList = (if negative then ['-'] else []) ++ body ∧
      SpellsDouble dialect body (decimal.digits * 10 ^ decimal.exponent) := by
  have sign : (Decimal.signText negative).toList = if negative then ['-'] else [] := by
    cases negative <;> rfl
  unfold Layout.write
  simp only [String.toList_append, sign]
  refine ⟨_, rfl, ?_⟩
  split
  · rename_i far
    have spells := spells_scientific roomy decimal.digits
      (decimal.exponent + (Nat.toDigits 10 decimal.digits).length - 1)
    rw [Int.sub_add_cancel, Int.add_sub_cancel] at spells
    simp only [doubles, String.toList_append, exponentText_toList]
    convert spells using 2
    split <;> simp_all [String.toList_append]
  · rename_i near
    split
    · rename_i count same
      rw [Int.ofNat_eq_natCast] at same
      simp only [doubles] at near
      exact spells_whole roomy decimal count proper (by omega) same
    · rename_i gap same
      exact spells_fraction roomy decimal gap same

/-! Scalars. -/

theorem readLiteral?_none {cs : List Char}
    (apart : ∀ word ∈ ["null", "true", "false", "NaN", "Infinity", "-Infinity"],
      word.toList.isPrefixOf cs = false) : readLiteral? cs = none := by
  unfold readLiteral?
  rw [List.findSome?_eq_none_iff]
  intro word member
  have name : word.1 ∈ literals.map Prod.fst := List.mem_map_of_mem member
  simp only [afterWord, apart word.1 name, Bool.false_eq_true, ↓reduceIte, Option.map_none]

theorem readLiteral?_digit {c : Char} (rest : List Char) (digit : c.isDigit = true) :
    readLiteral? (c :: rest) = none ∧ readLiteral? ('-' :: c :: rest) = none := by
  have other : ∀ letter : Char, letter.isDigit = false → (letter == c) = false := by
    intro letter none
    apply beq_false_of_ne
    rintro rfl
    rw [digit] at none
    cases none
  constructor
  · apply readLiteral?_none
    simp [List.isPrefixOf, other]
  · apply readLiteral?_none
    simp [List.isPrefixOf, other]

theorem readScalar_number {dialect : Dialect} {negative : Bool} {c : Char} {cs rest : List Char}
    {number : Number} (digit : c.isDigit = true)
    (read : readNumber dialect negative (c :: cs ++ rest) = .ok (number, rest)) :
    readScalar dialect ((if negative then ['-'] else []) ++ c :: cs ++ rest) =
      .ok (.number number, rest) := by
  obtain ⟨plain, signed⟩ := readLiteral?_digit (cs ++ rest) digit
  rw [List.cons_append] at read
  cases negative with
  | false =>
      have quote : c ≠ '"' := by
        rintro rfl
        cases digit
      have sign : c ≠ '-' := by
        rintro rfl
        cases digit
      simp [readScalar, plain, quote, sign, read, Except.map]
  | true =>
      simp [readScalar, signed, read, Except.map]

theorem readScalar_int {dialect : Dialect} (n : Int) {rest : List Char} (ends : EndsValue rest)
    (short : exceeds dialect.longest (Nat.toDigits 10 n.natAbs).length = false) :
    readScalar dialect ((toString n).toList ++ rest) = .ok (.number (.int n), rest) := by
  have read := readNumber_int (decide (n < 0)) ends short
  have signed : (if decide (n < 0) then -(n.natAbs : Int) else n.natAbs) = n := by
    simp only [decide_eq_true_eq]
    split <;> omega
  rw [signed] at read
  rw [Text.toString_toList]
  obtain ⟨c, cs, text⟩ := List.exists_cons_of_ne_nil (toDigits_isWhole n.natAbs).some
  have digit := Text.toDigits_isDigits n.natAbs c (text ▸ List.mem_cons_self)
  rw [text] at read ⊢
  exact readScalar_number digit read

theorem readScalar_double {dialect : Dialect} (roomy : dialect.IsRoomy) (x : Float)
    (finite : Decimal.isFinite x = true) {rest : List Char} (ends : EndsValue rest) :
    readScalar dialect ((doubles.show x).toList ++ rest) = .ok (.double x, rest) := by
  obtain ⟨negative, decimal, text, proper, nearest⟩ := Decimal.show_nearest doubles x finite
  obtain ⟨body, written, ⟨⟨c, cs, rfl, digit⟩, digits, power, value, reads⟩⟩ :=
    write_spells roomy negative decimal proper
  have read := reads negative rest ends
  rw [nearest digits power value] at read
  rw [text, written]
  exact readScalar_number digit read

end ArmProgram.Json
