import ArmProgram.Proofs.Json.Numbers

namespace ArmProgram.Json

variable {dialect : Dialect}

abbrev after (c : Char) (reading : Except Unreadable (List Char × List Char)) :
    Except Unreadable (List Char × List Char) :=
  reading.map fun found => (c :: found.1, found.2)

theorem readText_plain {c : Char} (rest : List Char) (quote : c ≠ '"') (slash : c ≠ '\\')
    (printable : ¬ c.toNat < 0x20) :
    readText dialect (c :: rest) = after c (readText dialect rest) := by
  rw [readText.eq_def]
  split
  case h_1 same => cases same
  case h_2 same => exact absurd (List.cons.inj same).1 quote
  case h_3 same => exact absurd (List.cons.inj same).1 slash
  case h_4 same => exact absurd (List.cons.inj same).1 slash
  case h_5 same => exact absurd (List.cons.inj same).1 slash
  case h_6 same =>
    cases same
    rw [if_neg printable]
    cases readText dialect rest <;> rfl

theorem readText_short {c d : Char} (rest : List Char) (other : c ≠ 'u')
    (escape : shortEscape c = .ok d) :
    readText dialect ('\\' :: c :: rest) = after d (readText dialect rest) := by
  rw [readText.eq_def]
  split
  case h_1 same => cases same
  case h_2 same => cases same
  case h_3 same => exact absurd (List.cons.inj (List.cons.inj same).2).1 other
  case h_4 same => exact absurd (List.cons.inj (List.cons.inj same).2).1 other
  case h_5 same =>
    cases same
    rw [escape]
    cases readText dialect rest <;> rfl
  case h_6 _ unescaped same =>
    cases same
    exact absurd rfl (unescaped c rest rfl)

theorem readText_bad {e f g h : Char} {unreadable : Unreadable} (rest : List Char)
    (bad : hexUnit e f g h = .error unreadable) :
    readText dialect ('\\' :: 'u' :: e :: f :: g :: h :: rest) = .error unreadable := by
  rw [readText.eq_def]
  split
  case h_1 same => cases same
  case h_2 same => cases same
  case h_3 same =>
    cases same
    rw [bad]
    rfl
  case h_4 same =>
    cases same
    rw [bad]
    rfl
  case h_5 _ longer same =>
    cases same
    exact absurd rfl (longer e f g h rest rfl)
  case h_6 _ unescaped same =>
    cases same
    exact absurd rfl (unescaped 'u' _ rfl)

/-- An escaped unit that is no surrogate stands for its character, whatever follows. -/
theorem readText_unit {c x y z w : Char} {unit : Nat} (rest : List Char)
    (spelled : hexUnit x y z w = .ok unit) (high : Text.isHighSurrogate unit = false)
    (found : Text.charOfUnit? unit = some c) :
    readText dialect ('\\' :: 'u' :: x :: y :: z :: w :: rest) =
      after c (readText dialect rest) := by
  have lone : loneUnit dialect unit = .ok c := by
    simp [loneUnit, Text.loneChar?, found]
  rw [readText.eq_def]
  split
  case h_1 same => cases same
  case h_2 same => cases same
  case h_3 e f g h rest same =>
    cases same
    rw [spelled]
    cases next : hexUnit e f g h with
    | error unreadable =>
        rw [readText_bad rest next]
        rfl
    | ok second =>
        have alone : Text.charOfPair? unit second = none := by
          simp [Text.charOfPair?, high]
        simp only [bind, Except.bind, alone, lone]
        cases readText dialect ('\\' :: 'u' :: e :: f :: g :: h :: rest) <;> rfl
  case h_4 same =>
    cases same
    rw [spelled]
    simp only [bind, Except.bind, lone]
    cases readText dialect rest <;> rfl
  case h_5 _ longer same =>
    cases same
    exact absurd rfl (longer x y z w rest rfl)
  case h_6 _ unescaped same =>
    cases same
    exact absurd rfl (unescaped 'u' _ rfl)

theorem hexDigit?_digitChar : ∀ digit < 16, Text.hexDigit? digit.digitChar = some digit := by
  decide

theorem hexText_control {unit : Nat} (control : unit < 0x20) :
    ∃ x y z w, (Text.hexText 4 unit).toList = [x, y, z, w] ∧ hexUnit x y z w = .ok unit := by
  have zero : Text.hexDigit? '0' = some 0 := rfl
  by_cases short : unit < 16
  · refine ⟨'0', '0', '0', unit.digitChar, ?_, ?_⟩
    · simp [Text.hexText, Nat.toDigits_eq_if, short, List.replicate]
    · simp [hexUnit, zero, hexDigit?_digitChar unit short]
  · have first : unit / 16 = 1 := by omega
    have last := hexDigit?_digitChar (unit % 16) (by omega)
    have one : Text.hexDigit? '1' = some 1 := rfl
    refine ⟨'0', '0', '1', (unit % 16).digitChar, ?_, ?_⟩
    · simp [Text.hexText, Nat.toDigits_eq_if, short, first, List.replicate]
    · simp only [hexUnit, zero, one, last]
      congr 1
      omega

/-- A character that is written escaped where needed reads back. -/
theorem readText_escaped (c : Char) (rest : List Char) :
    readText dialect (escaped c ++ rest) = after c (readText dialect rest) := by
  unfold escaped
  -- The characters that are escaped by a letter or by themselves.
  iterate 7
    split
    · subst_vars
      exact readText_short rest (by decide) rfl
  split
  · rename_i control
    obtain ⟨x, y, z, w, text, unit⟩ := hexText_control control
    rw [text]
    apply readText_unit rest unit
    · simp [Text.isHighSurrogate]
      omega
    · have high : Text.isHighSurrogate c.toNat = false := by
        simp [Text.isHighSurrogate]
        omega
      have low : Text.isLowSurrogate c.toNat = false := by
        simp [Text.isLowSurrogate]
        omega
      simp [Text.charOfUnit?, high, low, Char.ofNat_toNat]
  · rename_i quote slash _ _ _ _ _ printable
    exact readText_plain rest quote slash printable

theorem readText_flatMap (cs rest : List Char) :
    readText dialect (cs.flatMap escaped ++ '"' :: rest) = .ok (cs, rest) := by
  induction cs with
  | nil => rfl
  | cons c cs ih =>
      rw [List.flatMap_cons, List.append_assoc, readText_escaped, ih]
      rfl

/-! Values. -/

mutual

def Takes (dialect : Dialect) : Nat → Json → Prop
  | _, .number (.int n) => exceeds dialect.longest (Nat.toDigits 10 n.natAbs).length = false
  | depth, .list items =>
      exceeds dialect.deepest (depth + 1) = false ∧ TakesItems dialect (depth + 1) items
  | depth, .object fields =>
      exceeds dialect.deepest (depth + 1) = false ∧ TakesFields dialect (depth + 1) fields
  | _, _ => True

def TakesItems (dialect : Dialect) : Nat → List Json → Prop
  | _, [] => True
  | depth, item :: rest => Takes dialect depth item ∧ TakesItems dialect depth rest

def TakesFields (dialect : Dialect) : Nat → List (String × Json) → Prop
  | _, [] => True
  | depth, (_, value) :: rest => Takes dialect depth value ∧ TakesFields dialect depth rest

end

theorem takesItems_of_forall {dialect : Dialect} {depth : Nat} {items : List Json}
    (each : ∀ item ∈ items, Takes dialect depth item) : TakesItems dialect depth items := by
  induction items with
  | nil => exact True.intro
  | cons item items ih =>
      exact ⟨each item List.mem_cons_self,
        ih fun other member => each other (List.mem_cons_of_mem item member)⟩

theorem takesFields_of_forall {dialect : Dialect} {depth : Nat} {fields : List (String × Json)}
    (each : ∀ field ∈ fields, Takes dialect depth field.2) : TakesFields dialect depth fields := by
  induction fields with
  | nil => exact True.intro
  | cons field fields ih =>
      exact ⟨each field List.mem_cons_self,
        ih fun other member => each other (List.mem_cons_of_mem field member)⟩

theorem skipSpace_cons {c : Char} (rest : List Char) (solid : isSpace c = false) :
    skipSpace (c :: rest) = c :: rest := by
  simp [skipSpace, solid]

theorem readValue_scalar (fuel depth : Nat) {c : Char} (rest : List Char)
    (solid : isSpace c = false) (list : c ≠ '[') (object : c ≠ '{') :
    readValue dialect (fuel + 1) depth (c :: rest) = readScalar dialect (c :: rest) := by
  rw [readValue.eq_def]
  simp only [skipSpace_cons rest solid]
  split
  case h_1 same => exact absurd (List.cons.inj same).1 list
  case h_2 same => exact absurd (List.cons.inj same).1 object
  case h_3 => rfl

theorem readScalar_null (rest : List Char) :
    readScalar dialect ('n' :: 'u' :: 'l' :: 'l' :: rest) = .ok (.null, rest) :=
  rfl

theorem readScalar_flag (dialect : Dialect) (b : Bool) (rest : List Char) :
    readScalar dialect ((write (.flag b)).toList ++ rest) = .ok (.flag b, rest) := by
  cases b <;> rfl

theorem writeText_append (s : String) (rest : List Char) :
    (writeText s).toList ++ rest = '"' :: (s.toList.flatMap escaped ++ '"' :: rest) := by
  simp [writeText]

theorem readScalar_text (dialect : Dialect) (s : String) (rest : List Char) :
    readScalar dialect ((writeText s).toList ++ rest) = .ok (.text s, rest) := by
  have none : readLiteral? ('"' :: (s.toList.flatMap escaped ++ '"' :: rest)) = none :=
    readLiteral?_none (by simp [List.isPrefixOf])
  rw [writeText_append]
  simp [readScalar, none, readText_flatMap, Except.map]

theorem readScalar_written (roomy : dialect.IsRoomy) {depth : Nat} (number : Number)
    (takes : Takes dialect depth (.number number)) {rest : List Char} (ends : EndsValue rest) :
    readScalar dialect ((writeNumber number).toList ++ rest) =
      .ok (nullNonFinite (.number number), rest) := by
  cases number with
  | int n =>
      rw [Takes] at takes
      exact readScalar_int n ends takes
  | double x =>
      by_cases finite : Decimal.isFinite x = true
      · simp only [writeNumber, finite, ↓reduceIte, nullNonFinite]
        exact readScalar_double roomy x finite ends
      · simp only [writeNumber, finite, nullNonFinite, Bool.false_eq_true, ↓reduceIte]
        exact readScalar_null rest

def BeginsScalar (c : Char) : Prop :=
  c.isDigit = true ∨ c ∈ ['-', '"', 'n', 't', 'f']

theorem BeginsScalar.solid {c : Char} (begins : BeginsScalar c) :
    isSpace c = false ∧ c ≠ '[' ∧ c ≠ '{' ∧ c ≠ ']' := by
  rcases begins with digit | letter
  · have other : ∀ letter : Char, letter.isDigit = false → c ≠ letter := by
      rintro letter none rfl
      rw [digit] at none
      cases none
    refine ⟨?_, other _ rfl, other _ rfl, other _ rfl⟩
    simp [isSpace, other]
  · simp only [List.mem_cons, List.not_mem_nil, or_false] at letter
    rcases letter with rfl | rfl | rfl | rfl | rfl <;> decide

theorem signed_begins {negative : Bool} {c : Char} (digit : c.isDigit = true) (cs : List Char) :
    ∃ d ds, (if negative then ['-'] else []) ++ c :: cs = d :: ds ∧ BeginsScalar d := by
  cases negative
  · exact ⟨c, cs, rfl, Or.inl digit⟩
  · exact ⟨'-', c :: cs, rfl, Or.inr (by decide)⟩

theorem writeNumber_begins (number : Number) :
    ∃ c cs, (writeNumber number).toList = c :: cs ∧ BeginsScalar c := by
  cases number with
  | int n =>
      obtain ⟨c, cs, text⟩ := List.exists_cons_of_ne_nil (toDigits_isWhole n.natAbs).some
      have digit := Text.toDigits_isDigits n.natAbs c (text ▸ List.mem_cons_self)
      simp only [writeNumber, Text.toString_toList, text]
      exact signed_begins digit cs
  | double x =>
      by_cases finite : Decimal.isFinite x = true
      · obtain ⟨negative, decimal, text, proper, -⟩ := Decimal.show_nearest doubles x finite
        obtain ⟨body, written, ⟨⟨c, cs, rfl, digit⟩, -⟩⟩ :=
          write_spells (show Dialect.boundless.IsRoomy from rfl) negative decimal proper
        simp only [writeNumber, finite, ↓reduceIte, text, written]
        exact signed_begins digit cs
      · simp only [writeNumber, finite, Bool.false_eq_true, ↓reduceIte]
        exact ⟨'n', _, rfl, Or.inr (by decide)⟩

theorem write_begins (json : Json) :
    ∃ c cs, (write json).toList = c :: cs ∧ isSpace c = false ∧ c ≠ ']' := by
  cases json with
  | null => exact ⟨'n', _, rfl, rfl, by decide⟩
  | flag b => cases b <;> exact ⟨_, _, rfl, rfl, by decide⟩
  | number n =>
      obtain ⟨c, cs, text, begins⟩ := writeNumber_begins n
      exact ⟨c, cs, by rw [write, text], begins.solid.1, begins.solid.2.2.2⟩
  | text s => exact ⟨'"', _, by rw [write, writeText, String.toList_ofList], rfl, by decide⟩
  | list items =>
      refine ⟨'[', (writeItems items).toList ++ [']'], ?_, rfl, by decide⟩
      simp [write, String.toList_append]
  | object fields =>
      refine ⟨'{', (writeFields fields).toList ++ ['}'], ?_, rfl, by decide⟩
      simp [write, String.toList_append]

theorem writeItems_begins (item : Json) (items : List Json) :
    ∃ c cs, (writeItems (item :: items)).toList = c :: cs ∧ isSpace c = false ∧ c ≠ ']' := by
  obtain ⟨c, cs, text, begins⟩ := write_begins item
  cases items with
  | nil => exact ⟨c, cs, by rw [writeItems, text], begins⟩
  | cons next items =>
      refine ⟨c, cs ++ ',' :: (writeItems (next :: items)).toList, ?_, begins⟩
      simp [writeItems, String.toList_append, text]

theorem writeFields_begins (name : String) (value : Json) (fields : List (String × Json)) :
    ∃ cs, (writeFields ((name, value) :: fields)).toList = '"' :: cs := by
  cases fields <;> simp [writeFields, String.toList_append, writeText]

theorem readValue_text (fuel depth : Nat) (s : String) (rest : List Char) :
    readValue dialect (fuel + 1) depth ((writeText s).toList ++ rest) = .ok (.text s, rest) := by
  have scalar := readScalar_text dialect s rest
  rw [writeText_append] at scalar ⊢
  rw [readValue_scalar fuel depth _ rfl (by decide) (by decide), scalar]

/-! One step of the readers. -/

section Steps

variable {fuel depth : Nat} (deep : exceeds dialect.deepest (depth + 1) = false)

include deep

theorem readValue_empty (rest : List Char) :
    readValue dialect (fuel + 1) depth ('[' :: ']' :: rest) = .ok (.list [], rest) ∧
      readValue dialect (fuel + 1) depth ('{' :: '}' :: rest) = .ok (.object [], rest) := by
  constructor <;> simp [readValue, skipSpace, isSpace, deep]

theorem readValue_items {c : Char} (cs : List Char) (solid : isSpace c = false) (more : c ≠ ']') :
    readValue dialect (fuel + 1) depth ('[' :: c :: cs) =
      (readItems dialect fuel (depth + 1) (c :: cs)).map fun found => (.list found.1, found.2) := by
  simp [readValue, skipSpace_cons cs solid, skipSpace_cons (c := '[') (c :: cs) rfl, deep, more]

theorem readValue_fields (cs : List Char) :
    readValue dialect (fuel + 1) depth ('{' :: '"' :: cs) =
      (readFields dialect fuel (depth + 1) ('"' :: cs)).map fun found =>
        (.object found.1, found.2) := by
  simp [readValue, skipSpace_cons (c := '{') ('"' :: cs) rfl, skipSpace_cons (c := '"') cs rfl,
    deep]

theorem readValue_named (name : String) (cs : List Char) :
    readValue dialect (fuel + 1) depth ('{' :: ((writeText name).toList ++ cs)) =
      (readFields dialect fuel (depth + 1) ((writeText name).toList ++ cs)).map fun found =>
        (.object found.1, found.2) := by
  rw [writeText_append, readValue_fields deep]

end Steps

section Steps

variable {fuel depth : Nat} {item : Json} {cs rest : List Char}

theorem readItems_last (read : readValue dialect fuel depth cs = .ok (item, ']' :: rest)) :
    readItems dialect (fuel + 1) depth cs = .ok ([item], rest) := by
  rw [readItems.eq_def]
  simp only [read, skipSpace_cons (c := ']') rest rfl]

theorem readItems_next (read : readValue dialect fuel depth cs = .ok (item, ',' :: rest)) :
    readItems dialect (fuel + 1) depth cs =
      (readItems dialect fuel depth rest).map fun found => (item :: found.1, found.2) := by
  rw [readItems.eq_def]
  simp only [read, skipSpace_cons (c := ',') rest rfl]

theorem readFields_last (name : String)
    (read : readValue dialect fuel depth cs = .ok (item, '}' :: rest)) :
    readFields dialect (fuel + 1) depth ((writeText name).toList ++ ':' :: cs) =
      .ok ([(name, item)], rest) := by
  rw [writeText_append, readFields.eq_def]
  simp only [skipSpace_cons (c := '"') _ rfl, readText_flatMap, skipSpace_cons (c := ':') _ rfl,
    read, skipSpace_cons (c := '}') rest rfl, String.ofList_toList]

theorem readFields_next (name : String)
    (read : readValue dialect fuel depth cs = .ok (item, ',' :: rest)) :
    readFields dialect (fuel + 1) depth ((writeText name).toList ++ ':' :: cs) =
      (readFields dialect fuel depth rest).map fun found => ((name, item) :: found.1, found.2) := by
  rw [writeText_append, readFields.eq_def]
  simp only [skipSpace_cons (c := '"') _ rfl, readText_flatMap, skipSpace_cons (c := ':') _ rfl,
    read, skipSpace_cons (c := ',') rest rfl, String.ofList_toList]

theorem readFields_next_text (fuel depth : Nat) (name s : String) (rest : List Char) :
    readFields dialect (fuel + 2) depth
      ((writeText name).toList ++ ':' :: ((writeText s).toList ++ ',' :: rest)) =
        (readFields dialect (fuel + 1) depth rest).map fun found =>
          ((name, .text s) :: found.1, found.2) :=
  readFields_next name (readValue_text fuel depth s (',' :: rest))

end Steps

theorem ends_comma (rest : List Char) : EndsValue (',' :: rest) := by
  intro c first
  cases first
  exact Or.inl rfl

theorem ends_bracket (rest : List Char) : EndsValue (']' :: rest) := by
  intro c first
  cases first
  exact Or.inr (Or.inl rfl)

theorem ends_brace (rest : List Char) : EndsValue ('}' :: rest) := by
  intro c first
  cases first
  exact Or.inr (Or.inr rfl)

/-- What is written reads back with this fuel if it is short enough for it. Null stands for doubles
that are not finite. -/
structure ReadsBack (dialect : Dialect) (fuel : Nat) : Prop where
  value : ∀ (json : Json) (depth : Nat) (rest : List Char), Takes dialect depth json →
    EndsValue rest → (write json).toList.length < fuel →
      readValue dialect fuel depth ((write json).toList ++ rest) = .ok (nullNonFinite json, rest)
  items : ∀ (item : Json) (items : List Json) (depth : Nat) (rest : List Char),
    TakesItems dialect depth (item :: items) →
    (writeItems (item :: items)).toList.length + 1 < fuel →
      readItems dialect fuel depth ((writeItems (item :: items)).toList ++ ']' :: rest) =
        .ok (nullNonFiniteItems (item :: items), rest)
  fields : ∀ (name : String) (value : Json) (fields : List (String × Json)) (depth : Nat)
    (rest : List Char), TakesFields dialect depth ((name, value) :: fields) →
    (writeFields ((name, value) :: fields)).toList.length + 1 < fuel →
      readFields dialect fuel depth
        ((writeFields ((name, value) :: fields)).toList ++ '}' :: rest) =
          .ok (nullNonFiniteFields ((name, value) :: fields), rest)

theorem ReadsBack.list {fuel : Nat} (reads : ReadsBack dialect fuel) (items : List Json)
    (depth : Nat) (rest : List Char) (takes : Takes dialect depth (.list items))
    (enough : (write (.list items)).toList.length < fuel + 1) :
    readValue dialect (fuel + 1) depth ((write (.list items)).toList ++ rest) =
      .ok (nullNonFinite (.list items), rest) := by
  rw [Takes] at takes
  obtain ⟨deep, takes⟩ := takes
  cases items with
  | nil =>
      simp only [write, writeItems]
      exact (readValue_empty deep rest).1
  | cons item items =>
      have text : (write (.list (item :: items))).toList =
          '[' :: ((writeItems (item :: items)).toList ++ [']']) := by
        simp [write, String.toList_append]
      rw [text] at enough
      simp only [List.length_cons, List.length_append, List.length_nil] at enough
      have read := reads.items item items (depth + 1) rest takes (by omega)
      obtain ⟨c, cs, first, solid, more⟩ := writeItems_begins item items
      rw [first, List.cons_append] at read
      rw [text, first, List.cons_append, List.append_assoc, List.cons_append,
        List.singleton_append, readValue_items deep _ solid more, read]
      rfl

theorem ReadsBack.object {fuel : Nat} (reads : ReadsBack dialect fuel)
    (fields : List (String × Json)) (depth : Nat) (rest : List Char)
    (takes : Takes dialect depth (.object fields))
    (enough : (write (.object fields)).toList.length < fuel + 1) :
    readValue dialect (fuel + 1) depth ((write (.object fields)).toList ++ rest) =
      .ok (nullNonFinite (.object fields), rest) := by
  rw [Takes] at takes
  obtain ⟨deep, takes⟩ := takes
  cases fields with
  | nil =>
      simp only [write, writeFields]
      exact (readValue_empty deep rest).2
  | cons field fields =>
      obtain ⟨name, value⟩ := field
      have text : (write (.object ((name, value) :: fields))).toList =
          '{' :: ((writeFields ((name, value) :: fields)).toList ++ ['}']) := by
        simp [write, String.toList_append]
      rw [text] at enough
      simp only [List.length_cons, List.length_append, List.length_nil] at enough
      have read := reads.fields name value fields (depth + 1) rest takes (by omega)
      obtain ⟨cs, first⟩ := writeFields_begins name value fields
      rw [first, List.cons_append] at read
      rw [text, first, List.cons_append, List.append_assoc, List.cons_append,
        List.singleton_append, readValue_fields deep, read]
      rfl

theorem ReadsBack.value_next {fuel : Nat} (roomy : dialect.IsRoomy)
    (reads : ReadsBack dialect fuel) (json : Json) (depth : Nat) (rest : List Char)
    (takes : Takes dialect depth json) (ends : EndsValue rest)
    (enough : (write json).toList.length < fuel + 1) :
    readValue dialect (fuel + 1) depth ((write json).toList ++ rest) =
      .ok (nullNonFinite json, rest) := by
  cases json with
  | null => exact readValue_scalar fuel depth _ rfl (by decide) (by decide)
  | flag b =>
      have scalar := readScalar_flag dialect b rest
      cases b <;> exact (readValue_scalar fuel depth _ rfl (by decide) (by decide)).trans scalar
  | number n =>
      obtain ⟨c, cs, text, begins⟩ := writeNumber_begins n
      obtain ⟨solid, list, object, -⟩ := begins.solid
      have scalar := readScalar_written roomy n takes ends
      rw [text, List.cons_append] at scalar
      rw [write, text, List.cons_append, readValue_scalar fuel depth _ solid list object, scalar]
  | text s => exact readValue_text fuel depth s rest
  | list items => exact reads.list items depth rest takes enough
  | object fields => exact reads.object fields depth rest takes enough

theorem ReadsBack.items_next {fuel : Nat} (reads : ReadsBack dialect fuel) (item : Json)
    (items : List Json) (depth : Nat) (rest : List Char)
    (takes : TakesItems dialect depth (item :: items))
    (enough : (writeItems (item :: items)).toList.length < fuel) :
    readItems dialect (fuel + 1) depth ((writeItems (item :: items)).toList ++ ']' :: rest) =
      .ok (nullNonFiniteItems (item :: items), rest) := by
  rw [TakesItems] at takes
  obtain ⟨first, others⟩ := takes
  cases items with
  | nil =>
      rw [writeItems] at enough ⊢
      exact readItems_last (reads.value item depth _ first (ends_bracket rest) (by omega))
  | cons next items =>
      have text : (writeItems (item :: next :: items)).toList =
          (write item).toList ++ ',' :: (writeItems (next :: items)).toList := by
        simp [writeItems, String.toList_append]
      rw [text] at enough ⊢
      rw [List.length_append, List.length_cons] at enough
      have head := reads.value item depth
        (',' :: ((writeItems (next :: items)).toList ++ ']' :: rest)) first (ends_comma _)
        (by omega)
      have tail := reads.items next items depth rest others (by omega)
      rw [List.append_assoc, List.cons_append, readItems_next head, tail]
      rfl

theorem ReadsBack.fields_next {fuel : Nat} (reads : ReadsBack dialect fuel) (name : String)
    (value : Json) (fields : List (String × Json)) (depth : Nat) (rest : List Char)
    (takes : TakesFields dialect depth ((name, value) :: fields))
    (enough : (writeFields ((name, value) :: fields)).toList.length < fuel) :
    readFields dialect (fuel + 1) depth
      ((writeFields ((name, value) :: fields)).toList ++ '}' :: rest) =
        .ok (nullNonFiniteFields ((name, value) :: fields), rest) := by
  rw [TakesFields] at takes
  obtain ⟨first, others⟩ := takes
  cases fields with
  | nil =>
      have text : (writeFields [(name, value)]).toList =
          (writeText name).toList ++ ':' :: (write value).toList := by
        simp [writeFields, String.toList_append]
      rw [text] at enough ⊢
      rw [List.length_append, List.length_cons] at enough
      have head := reads.value value depth ('}' :: rest) first (ends_brace rest) (by omega)
      rw [List.append_assoc, List.cons_append, readFields_last name head]
      rfl
  | cons next fields =>
      obtain ⟨other, second⟩ := next
      have text : (writeFields ((name, value) :: (other, second) :: fields)).toList =
          (writeText name).toList ++ ':' :: ((write value).toList ++
            ',' :: (writeFields ((other, second) :: fields)).toList) := by
        simp [writeFields, String.toList_append]
      rw [text] at enough ⊢
      simp only [List.length_append, List.length_cons] at enough
      have head := reads.value value depth
        (',' :: ((writeFields ((other, second) :: fields)).toList ++ '}' :: rest)) first
        (ends_comma _) (by omega)
      have tail := reads.fields other second fields depth rest others (by omega)
      rw [List.append_assoc, List.cons_append, List.append_assoc, List.cons_append,
        readFields_next name head, tail]
      rfl

theorem readsBack (roomy : dialect.IsRoomy) (fuel : Nat) : ReadsBack dialect fuel := by
  -- Going into a value, an item or a field costs one unit of fuel, and at least one character.
  induction fuel with
  | zero =>
      constructor
      case value => exact fun _ _ _ _ _ enough => absurd enough (Nat.not_lt_zero _)
      case items => exact fun _ _ _ _ _ enough => absurd enough (Nat.not_lt_zero _)
      case fields => exact fun _ _ _ _ _ _ enough => absurd enough (Nat.not_lt_zero _)
  | succ fuel ih =>
      constructor
      case value => exact ih.value_next roomy
      case items =>
        intro item items depth rest takes enough
        exact ih.items_next item items depth rest takes (Nat.lt_of_succ_lt_succ enough)
      case fields =>
        intro name value fields depth rest takes enough
        exact ih.fields_next name value fields depth rest takes (Nat.lt_of_succ_lt_succ enough)

/-- Text that was written is read as what it was written from, except that null stands for doubles
that are not finite. -/
theorem read_write (roomy : dialect.IsRoomy) (json : Json) (takes : Takes dialect 0 json) :
    read dialect (write json) = .ok (nullNonFinite json) := by
  have ends : EndsValue [] := fun c first => nomatch first
  have found := (readsBack roomy _).value json 0 [] takes ends (Nat.lt_succ_self _)
  rw [List.append_nil] at found
  unfold read readChars
  rw [found]
  rfl

end ArmProgram.Json
