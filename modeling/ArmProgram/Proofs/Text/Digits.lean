import ArmProgram.Text.Classes
import Mathlib.Tactic.Ring

/-!
Decimal digits read and written. The digits that write a number are read back
as that number, up to the first character that is none.
-/

namespace ArmProgram.Text

def spelled (cs : List Char) : List Nat :=
  cs.map fun c => c.toNat - 0x30

def IsDigits (cs : List Char) : Prop :=
  ∀ c ∈ cs, c.isDigit = true

def EndsDigits (rest : List Char) : Prop :=
  ∀ c ∈ rest.head?, c.isDigit = false

theorem IsDigits.append {left right : List Char} (digits : IsDigits left) (more : IsDigits right) :
    IsDigits (left ++ right) := by
  intro c member
  rcases List.mem_append.mp member with first | second
  · exact digits c first
  · exact more c second

theorem isDigits_zeros (count : Nat) : IsDigits (List.replicate count '0') := by
  intro c member
  rw [List.eq_of_mem_replicate member]
  rfl

theorem asciiDigit?_eq (c : Char) :
    asciiDigit? c = if c.isDigit then some (c.toNat - 0x30) else none := by
  have same : ('0' ≤ c ∧ c ≤ '9') ↔ c.isDigit = true := by
    simp only [Char.isDigit, Bool.and_eq_true, decide_eq_true_eq, Char.le_def]
  unfold asciiDigit?
  simp only [same]

theorem spanDigits_values {value : Char → Option Nat} {cs rest : List Char} {values : List Nat}
    (read : cs.map value = values.map some) (ends : ∀ c ∈ rest.head?, value c = none) :
    spanDigits value (cs ++ rest) = (values, rest) := by
  induction cs generalizing values with
  | nil =>
      rw [List.map_nil, eq_comm, List.map_eq_nil_iff] at read
      subst read
      cases rest with
      | nil => rfl
      | cons c rest => simp only [List.nil_append, spanDigits, ends c rfl]
  | cons c cs ih =>
      cases values with
      | nil => cases read
      | cons digit values =>
          obtain ⟨first, tail⟩ := List.cons_eq_cons.mp read
          simp only [List.cons_append, spanDigits, first, ih tail]

theorem spanDigits_split (value : Char → Option Nat) (cs : List Char) :
    ∃ digits, cs = digits ++ (spanDigits value cs).2 ∧
      digits.map value = (spanDigits value cs).1.map some ∧
      ∀ c ∈ (spanDigits value cs).2.head?, value c = none := by
  induction cs with
  | nil => exact ⟨[], rfl, rfl, nofun⟩
  | cons c cs ih =>
      cases known : value c with
      | none =>
          simp only [spanDigits, known]
          refine ⟨[], rfl, rfl, ?_⟩
          rintro first ⟨⟩
          exact known
      | some digit =>
          obtain ⟨digits, split, read, ends⟩ := ih
          simp only [spanDigits, known]
          refine ⟨c :: digits, ?_, ?_, ends⟩
          · rw [List.cons_append, ← split]
          · rw [List.map_cons, List.map_cons, known, read]

theorem spanDigits_append {cs rest : List Char} (digits : IsDigits cs) (ends : EndsDigits rest) :
    spanDigits asciiDigit? (cs ++ rest) = (spelled cs, rest) := by
  apply spanDigits_values
  · rw [spelled, List.map_map]
    apply List.map_congr_left
    intro c member
    rw [asciiDigit?_eq, if_pos (digits c member)]
    rfl
  · intro c head
    rw [asciiDigit?_eq, ends c head]
    rfl

theorem ofDigits_foldl (start : Nat) (digits : List Nat) :
    digits.foldl (fun total digit => 10 * total + digit) start =
      start * 10 ^ digits.length + ofDigits digits := by
  unfold ofDigits
  induction digits generalizing start with
  | nil => simp
  | cons digit rest ih =>
      rw [List.foldl_cons, List.foldl_cons, ih, ih (10 * 0 + digit), List.length_cons]
      ring

theorem ofDigits_append (left right : List Nat) :
    ofDigits (left ++ right) = ofDigits left * 10 ^ right.length + ofDigits right := by
  rw [← ofDigits_foldl]
  exact List.foldl_append

theorem ofDigits_zeros (count : Nat) : ofDigits (List.replicate count 0) = 0 := by
  induction count with
  | zero => rfl
  | succ count ih => simpa [ofDigits, List.replicate_succ] using ih

theorem spelled_zeros (count : Nat) :
    spelled (List.replicate count '0') = List.replicate count 0 :=
  List.map_replicate

theorem spelled_append (left right : List Char) :
    spelled (left ++ right) = spelled left ++ spelled right :=
  List.map_append

/-- Zeros after digits multiply the number and zeros before them are nothing. -/
theorem ofDigits_zeros_after (cs : List Char) (count : Nat) :
    ofDigits (spelled (cs ++ List.replicate count '0')) = ofDigits (spelled cs) * 10 ^ count := by
  rw [spelled_append, ofDigits_append, spelled_zeros, ofDigits_zeros, List.length_replicate,
    Nat.add_zero]

theorem ofDigits_zeros_before (count : Nat) (cs : List Char) :
    ofDigits (spelled (List.replicate count '0' ++ cs)) = ofDigits (spelled cs) := by
  rw [spelled_append, ofDigits_append, spelled_zeros, ofDigits_zeros, Nat.zero_mul, Nat.zero_add]

theorem spelled_digitChar {digit : Nat} (small : digit < 10) :
    spelled [digit.digitChar] = [digit] := by
  revert digit
  decide

theorem ofDigits_toDigits (n : Nat) : ofDigits (spelled (Nat.toDigits 10 n)) = n := by
  induction n using Nat.strongRecOn with
  | ind n ih =>
      rw [Nat.toDigits_eq_if (by decide)]
      split
      · rename_i small
        rw [spelled_digitChar small]
        simp [ofDigits]
      · rename_i large
        have rest := ih (n / 10) (by omega)
        have last := spelled_digitChar (Nat.mod_lt n (by decide : 10 > 0))
        rw [spelled_append, last, ofDigits_append, rest]
        simp only [List.length_singleton, ofDigits, List.foldl_cons, List.foldl_nil]
        omega

theorem toDigits_isDigits (n : Nat) : IsDigits (Nat.toDigits 10 n) :=
  fun _ member => Nat.isDigit_of_mem_toDigits (by decide) (by decide) member

theorem toDigits_length_iff {n count : Nat} (some : 0 < count) :
    (Nat.toDigits 10 n).length ≤ count ↔ n < 10 ^ count :=
  Nat.length_toDigits_le_iff (by decide) some

/-- Only zero is written with a leading zero. -/
theorem toDigits_head (n : Nat) (positive : 0 < n) :
    ∃ c cs, Nat.toDigits 10 n = c :: cs ∧ c ≠ '0' := by
  induction n using Nat.strongRecOn with
  | ind n ih =>
      rw [Nat.toDigits_eq_if (by decide)]
      split
      · rename_i small
        have nonzero : ∀ digit < 10, 0 < digit → digit.digitChar ≠ '0' := by decide
        exact ⟨_, _, rfl, nonzero n small positive⟩
      · rename_i large
        obtain ⟨c, cs, text, other⟩ := ih (n / 10) (by omega) (by omega)
        exact ⟨c, _, by rw [text]; rfl, other⟩

theorem toString_toList (n : Int) :
    (toString n).toList =
      (if decide (n < 0) then ['-'] else []) ++ Nat.toDigits 10 n.natAbs := by
  cases n with
  | ofNat n =>
    show (Nat.repr n).toList = _
    simp [Nat.repr]
  | negSucc n =>
    show ("-" ++ Nat.repr (n + 1)).toList = _
    simp [Nat.repr, String.toList_append]

end ArmProgram.Text
