import ArmProgram.Proofs.Json.RoundTrip

/-!
What is read. A reader gives only values that its own dialect takes on, so that
what came in as text can be sent out and come in again. A field that is given
twice counts once, which changes nothing in a value that has no such field.
-/

namespace ArmProgram

namespace Text

theorem ofDigits_cons (digit : Nat) (digits : List Nat) :
    ofDigits (digit :: digits) = digit * 10 ^ digits.length + ofDigits digits := by
  have folded := ofDigits_foldl digit digits
  unfold ofDigits at folded ⊢
  rw [List.foldl_cons, Nat.mul_zero, Nat.zero_add]
  exact folded

theorem spanDigits_small (cs : List Char) :
    ∀ digit ∈ (spanDigits asciiDigit? cs).1, digit < 10 := by
  induction cs with
  | nil => nofun
  | cons c rest ih =>
      intro digit member
      unfold spanDigits at member
      cases found : asciiDigit? c with
      | none => simp [found] at member
      | some first =>
          simp only [found, List.mem_cons] at member
          rcases member with same | later
          · subst same
            rw [asciiDigit?_eq] at found
            split at found
            · rename_i decimal
              cases found
              have bound : c.toNat ≤ 57 := (Char.isDigit_iff_toNat.mp decimal).2
              omega
            · cases found
          · exact ih digit later

theorem ofDigits_lt (digits : List Nat) (small : ∀ digit ∈ digits, digit < 10) :
    ofDigits digits < 10 ^ digits.length := by
  induction digits with
  | nil => decide
  | cons digit digits ih =>
      have first := small digit List.mem_cons_self
      have rest := ih fun other member => small other (List.mem_cons_of_mem digit member)
      calc ofDigits (digit :: digits)
          = digit * 10 ^ digits.length + ofDigits digits := ofDigits_cons digit digits
        _ < digit * 10 ^ digits.length + 10 ^ digits.length := Nat.add_lt_add_left rest _
        _ = (digit + 1) * 10 ^ digits.length := (Nat.succ_mul _ _).symm
        _ ≤ 10 * 10 ^ digits.length := Nat.mul_le_mul_right _ first
        _ = 10 ^ (digit :: digits).length := (Nat.pow_succ').symm

end Text

namespace Json

variable {dialect : Dialect}

/-! Numbers. -/

theorem readWhole_small (cs : List Char) : ∀ digit ∈ (readWhole cs).1, digit < 10 := by
  unfold readWhole
  split
  · simp
  · exact Text.spanDigits_small cs

theorem readNumber_takes {negative : Bool} {cs rest : List Char} {number : Number}
    (found : readNumber dialect negative cs = .ok (number, rest)) (depth : Nat) :
    Takes dialect depth (.number number) := by
  unfold readNumber at found
  simp only at found
  split at found
  · cases found
  · rename_i some
    split at found
    · -- An integer is at most as long as the digits that were read.
      split at found
      · cases found
      · rename_i fits
        cases found
        have digits : 0 < (readWhole cs).1.length :=
          List.length_pos_iff.mpr fun none => some (by simp [none])
        have short := (Text.toDigits_length_iff digits).mpr
          (Text.ofDigits_lt _ (readWhole_small cs))
        have same : (if negative then -(Text.ofDigits (readWhole cs).1 : Int)
            else Text.ofDigits (readWhole cs).1).natAbs = Text.ofDigits (readWhole cs).1 := by
          split <;> simp
        rw [Takes, same]
        exact exceeds_mono short (by simpa using fits)
    · split at found <;> cases found
      exact True.intro

theorem readLiteral?_takes {cs rest : List Char} {json : Json}
    (found : readLiteral? cs = some (json, rest)) (depth : Nat) : Takes dialect depth json := by
  obtain ⟨word, listed, taken⟩ := List.exists_of_findSome?_eq_some found
  obtain ⟨after, -, same⟩ := Option.map_eq_some_iff.mp taken
  cases same
  have each : ∀ word ∈ literals, Takes dialect depth word.2 := by
    simp [literals, Takes, Json.double]
  exact each word listed

theorem readScalar_takes {cs rest : List Char} {json : Json}
    (found : readScalar dialect cs = .ok (json, rest)) (depth : Nat) :
    Takes dialect depth json := by
  -- A number after its sign, if it has one.
  have number {negative : Bool} {cs : List Char}
      (read : ((readNumber dialect negative cs).map fun found =>
        (Json.number found.1, found.2)) = .ok (json, rest)) : Takes dialect depth json := by
    cases read' : readNumber dialect negative cs with
    | error unreadable => rw [read'] at read; cases read
    | ok outcome =>
        rw [read'] at read
        cases read
        exact readNumber_takes read' depth
  unfold readScalar at found
  split at found
  · rename_i literal
    cases found
    exact readLiteral?_takes literal depth
  · split at found
    · rename_i text _
      cases read : readText dialect text with
      | error unreadable => rw [read] at found; cases found
      | ok outcome =>
          rw [read] at found
          cases found
          exact True.intro
    · exact number found
    · exact number found

/-! Values. -/

structure ReadsTaken (dialect : Dialect) (fuel : Nat) : Prop where
  value : ∀ depth cs json rest, readValue dialect fuel depth cs = .ok (json, rest) →
    Takes dialect depth json
  items : ∀ depth cs items rest, readItems dialect fuel depth cs = .ok (items, rest) →
    TakesItems dialect depth items
  fields : ∀ depth cs fields rest, readFields dialect fuel depth cs = .ok (fields, rest) →
    TakesFields dialect depth fields

theorem ReadsTaken.value_next {fuel : Nat} (reads : ReadsTaken dialect fuel)
    (counts : dialect.countsEmpty = true) (depth : Nat) (cs : List Char) (json : Json)
    (rest : List Char) (found : readValue dialect (fuel + 1) depth cs = .ok (json, rest)) :
    Takes dialect depth json := by
  rw [readValue.eq_def] at found
  simp only at found
  split at found
  · split at found
    · split at found
      · cases found
      · rename_i shallow
        cases found
        exact ⟨by simpa [counts] using shallow, True.intro⟩
    · rename_i text _ _ _
      split at found
      · cases found
      · rename_i shallow
        cases read : readItems dialect fuel (depth + 1) text with
        | error unreadable => rw [read] at found; cases found
        | ok outcome =>
            rw [read] at found
            cases found
            exact ⟨by simpa using shallow, reads.items _ _ _ _ read⟩
  · split at found
    · split at found
      · cases found
      · rename_i shallow
        cases found
        exact ⟨by simpa [counts] using shallow, True.intro⟩
    · rename_i text _ _ _
      split at found
      · cases found
      · rename_i shallow
        cases read : readFields dialect fuel (depth + 1) text with
        | error unreadable => rw [read] at found; cases found
        | ok outcome =>
            rw [read] at found
            cases found
            exact ⟨by simpa using shallow, reads.fields _ _ _ _ read⟩
  · exact readScalar_takes found depth

theorem ReadsTaken.items_next {fuel : Nat} (reads : ReadsTaken dialect fuel) (depth : Nat)
    (cs : List Char) (items : List Json) (rest : List Char)
    (found : readItems dialect (fuel + 1) depth cs = .ok (items, rest)) :
    TakesItems dialect depth items := by
  rw [readItems.eq_def] at found
  simp only at found
  split at found
  · cases found
  · rename_i item after first
    have taken := reads.value _ _ _ _ first
    split at found
    · rename_i text _
      cases read : readItems dialect fuel depth text with
      | error unreadable => rw [read] at found; cases found
      | ok outcome =>
          rw [read] at found
          cases found
          exact ⟨taken, reads.items _ _ _ _ read⟩
    · cases found
      exact ⟨taken, True.intro⟩
    · cases found

theorem ReadsTaken.fields_next {fuel : Nat} (reads : ReadsTaken dialect fuel) (depth : Nat)
    (cs : List Char) (fields : List (String × Json)) (rest : List Char)
    (found : readFields dialect (fuel + 1) depth cs = .ok (fields, rest)) :
    TakesFields dialect depth fields := by
  rw [readFields.eq_def] at found
  simp only at found
  split at found
  · split at found
    · cases found
    · split at found
      · split at found
        · cases found
        · rename_i value after first
          have taken := reads.value _ _ _ _ first
          split at found
          · rename_i text _
            cases read : readFields dialect fuel depth text with
            | error unreadable => rw [read] at found; cases found
            | ok outcome =>
                rw [read] at found
                cases found
                exact ⟨taken, reads.fields _ _ _ _ read⟩
          · cases found
            exact ⟨taken, True.intro⟩
          · cases found
      · cases found
  · cases found

theorem readsTaken (counts : dialect.countsEmpty = true) (fuel : Nat) :
    ReadsTaken dialect fuel := by
  induction fuel with
  | zero =>
      constructor
      · intro depth cs json rest found
        rw [readValue] at found
        cases found
      · intro depth cs items rest found
        rw [readItems] at found
        cases found
      · intro depth cs fields rest found
        rw [readFields] at found
        cases found
  | succ fuel ih =>
      constructor
      · exact ih.value_next counts
      · exact ih.items_next
      · exact ih.fields_next

theorem readChars_takes (counts : dialect.countsEmpty = true) {cs : List Char} {json : Json}
    (found : readChars dialect cs = .ok json) : Takes dialect 0 json := by
  unfold readChars at found
  cases read : readValue dialect (cs.length + 1) 0 cs with
  | error unreadable => rw [read] at found; cases found
  | ok outcome =>
      rw [read] at found
      simp only [bind, Except.bind] at found
      split at found
      · cases found
        exact (readsTaken counts _).value _ _ _ _ read
      · cases found

/-! Fields that are given again. -/

theorem takesFields_iff {depth : Nat} {fields : List (String × Json)} :
    TakesFields dialect depth fields ↔ ∀ field ∈ fields, Takes dialect depth field.2 := by
  refine ⟨fun takes => ?_, takesFields_of_forall⟩
  induction fields with
  | nil => nofun
  | cons field fields ih =>
      exact List.forall_mem_cons.mpr ⟨takes.1, ih takes.2⟩

mutual

theorem merged_takes (json : Json) (depth : Nat) (takes : Takes dialect depth json) :
    Takes dialect depth json.merged := by
  cases json with
  | list items => exact ⟨takes.1, mergedItems_takes items (depth + 1) takes.2⟩
  | object fields =>
      refine ⟨takes.1, takesFields_iff.mpr fun field member => ?_⟩
      have merged := mergedFields_takes fields (depth + 1) takes.2
      rcases Keyed.mem_putAll member with given | known
      · exact takesFields_iff.mp merged field given
      · cases known
  | null | flag b | number n | text s => exact takes

theorem mergedItems_takes (items : List Json) (depth : Nat)
    (takes : TakesItems dialect depth items) : TakesItems dialect depth (mergedItems items) := by
  cases items with
  | nil => exact True.intro
  | cons item rest => exact ⟨merged_takes item depth takes.1, mergedItems_takes rest depth takes.2⟩

theorem mergedFields_takes (fields : List (String × Json)) (depth : Nat)
    (takes : TakesFields dialect depth fields) :
    TakesFields dialect depth (mergedFields fields) := by
  cases fields with
  | nil => exact True.intro
  | cons field rest =>
      obtain ⟨name, value⟩ := field
      exact ⟨merged_takes value depth takes.1, mergedFields_takes rest depth takes.2⟩

end

theorem mergedItems_eq (items : List Json) : mergedItems items = items.map merged := by
  induction items with
  | nil => rfl
  | cons item items ih => rw [mergedItems, ih, List.map_cons]

theorem mergedFields_eq (fields : List (String × Json)) :
    mergedFields fields = fields.map fun field => (field.1, merged field.2) := by
  induction fields with
  | nil => rfl
  | cons field fields ih =>
      obtain ⟨name, value⟩ := field
      rw [mergedFields, ih, List.map_cons]

theorem merged_object {fields : List (String × Json)} (distinct : (fields.map Prod.fst).Nodup)
    (same : ∀ field ∈ fields, field.2.merged = field.2) :
    (Json.object fields).merged = .object fields := by
  have each : (fields.map fun field => (field.1, merged field.2)) = fields := by
    refine (List.map_congr_left fun field member => ?_).trans (List.map_id fields)
    rw [same field member]
    rfl
  rw [merged, mergedFields_eq, each, Keyed.putAll_distinct fields [] distinct, List.nil_append]

theorem merged_list {items : List Json} (same : ∀ item ∈ items, item.merged = item) :
    (Json.list items).merged = .list items := by
  rw [merged, mergedItems_eq]
  exact congrArg Json.list ((List.map_congr_left same).trans (List.map_id items))

/-! Writing puts null for doubles that are not finite anyway. -/

theorem writeItems_next (item second : Json) (rest : List Json) :
    writeItems (item :: second :: rest) = write item ++ "," ++ writeItems (second :: rest) := by
  rw [writeItems]
  exact List.cons_ne_nil _ _

theorem writeFields_next (name : String) (value : Json) (second : String × Json)
    (rest : List (String × Json)) :
    writeFields ((name, value) :: second :: rest) =
      writeText name ++ ":" ++ write value ++ "," ++ writeFields (second :: rest) := by
  rw [writeFields]
  exact List.cons_ne_nil _ _

mutual

theorem write_nullNonFinite (json : Json) : write (nullNonFinite json) = write json := by
  cases json with
  | number n =>
      cases n with
      | int n => rfl
      | double x =>
          by_cases finite : Decimal.isFinite x = true
          · simp only [nullNonFinite, finite, ↓reduceIte]
            rfl
          · simp only [nullNonFinite, finite, Bool.false_eq_true, ↓reduceIte, write, writeNumber]
  | list items => rw [nullNonFinite, write, write, writeItems_nullNonFinite items]
  | object fields => rw [nullNonFinite, write, write, writeFields_nullNonFinite fields]
  | null | flag b | text s => rfl

theorem writeItems_nullNonFinite (items : List Json) :
    writeItems (nullNonFiniteItems items) = writeItems items := by
  cases items with
  | nil => rfl
  | cons item rest =>
      have later := writeItems_nullNonFinite rest
      cases rest with
      | nil => exact write_nullNonFinite item
      | cons second rest =>
          simp only [nullNonFiniteItems] at later ⊢
          rw [writeItems_next, writeItems_next, write_nullNonFinite item, later]

theorem writeFields_nullNonFinite (fields : List (String × Json)) :
    writeFields (nullNonFiniteFields fields) = writeFields fields := by
  cases fields with
  | nil => rfl
  | cons field rest =>
      obtain ⟨name, value⟩ := field
      have later := writeFields_nullNonFinite rest
      cases rest with
      | nil =>
          simp only [nullNonFiniteFields, writeFields]
          rw [write_nullNonFinite value]
      | cons second rest =>
          simp only [nullNonFiniteFields] at later ⊢
          rw [writeFields_next, writeFields_next, write_nullNonFinite value, later]

end

end Json

end ArmProgram
