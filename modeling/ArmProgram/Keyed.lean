/-!
Lists of pairs with distinct keys, in the order in which the keys were first
put. Putting a key again changes its value in place.
-/

namespace ArmProgram.Keyed

universe u v
variable {Key : Type u} {Value : Type v} [DecidableEq Key]

def put (key : Key) (value : Value) : List (Key × Value) → List (Key × Value)
  | [] => [(key, value)]
  | (first, old) :: rest =>
      if first = key then (key, value) :: rest else (first, old) :: put key value rest

def putAll (entries : List (Key × Value)) (known : List (Key × Value)) : List (Key × Value) :=
  entries.foldl (fun current entry => put entry.1 entry.2 current) known

theorem lookup_put (entries : List (Key × Value)) (key other : Key) (value : Value) :
    (put key value entries).lookup other =
      if other = key then some value else entries.lookup other := by
  induction entries with
  | nil => by_cases hit : other = key <;> simp [put, hit]
  | cons entry rest ih =>
      obtain ⟨first, old⟩ := entry
      by_cases same : first = key
      · subst key
        by_cases hit : other = first
        · simp [put, hit]
        · have miss : (other == first) = false := by simpa using hit
          simp [put, hit, List.lookup_cons, miss]
      · by_cases hit : other = first
        · simp [put, same, hit]
        · have miss : (other == first) = false := by simpa using hit
          simp [put, same, List.lookup_cons, miss, ih]

theorem keys_put (entries : List (Key × Value)) (key : Key) (value : Value) :
    (put key value entries).map Prod.fst =
      if key ∈ entries.map Prod.fst then entries.map Prod.fst
      else entries.map Prod.fst ++ [key] := by
  induction entries with
  | nil => simp [put]
  | cons entry rest ih =>
      obtain ⟨first, old⟩ := entry
      by_cases same : first = key
      · subst key; simp [put]
      · have other : ¬ key = first := fun hit => same hit.symm
        simp only [put, same, ↓reduceIte, List.map_cons, ih, List.mem_cons, other, false_or]
        split <;> simp

theorem put_absent (entries : List (Key × Value)) (key : Key) (value : Value)
    (absent : key ∉ entries.map Prod.fst) : put key value entries = entries ++ [(key, value)] := by
  induction entries with
  | nil => rfl
  | cons entry rest ih =>
      obtain ⟨first, old⟩ := entry
      simp only [List.map_cons, List.mem_cons, not_or] at absent
      have other : ¬ first = key := fun same => absent.1 same.symm
      simp only [put, other, ↓reduceIte, ih absent.2, List.cons_append]

theorem putAll_distinct (entries known : List (Key × Value))
    (distinct : ((known ++ entries).map Prod.fst).Nodup) :
    putAll entries known = known ++ entries := by
  unfold putAll
  induction entries generalizing known with
  | nil => simp
  | cons entry rest ih =>
      obtain ⟨key, value⟩ := entry
      have absent : key ∉ known.map Prod.fst := by
        rw [List.map_append, List.nodup_append] at distinct
        intro member
        exact distinct.2.2 key member key List.mem_cons_self rfl
      rw [List.foldl_cons, put_absent known key value absent, ih]
      · rw [List.append_assoc, List.singleton_append]
      · rwa [List.append_assoc, List.singleton_append]

theorem nodup_putAll (entries known : List (Key × Value)) (distinct : (known.map Prod.fst).Nodup) :
    ((putAll entries known).map Prod.fst).Nodup := by
  unfold putAll
  induction entries generalizing known with
  | nil => exact distinct
  | cons entry rest ih =>
      rw [List.foldl_cons]
      apply ih
      rw [keys_put]
      split
      · exact distinct
      · rename_i absent
        refine List.nodup_append.mpr ⟨distinct, by simp, ?_⟩
        intro key member other same
        rw [List.mem_singleton.mp same]
        rintro rfl
        exact absent member

theorem mem_put {entries : List (Key × Value)} {key : Key} {value : Value} {entry : Key × Value}
    (member : entry ∈ put key value entries) : entry = (key, value) ∨ entry ∈ entries := by
  induction entries with
  | nil => exact Or.inl (List.mem_singleton.mp member)
  | cons first rest ih =>
      obtain ⟨name, old⟩ := first
      unfold put at member
      split at member
      · rcases List.mem_cons.mp member with new | later
        · exact Or.inl new
        · exact Or.inr (List.mem_cons_of_mem _ later)
      · rcases List.mem_cons.mp member with same | later
        · exact Or.inr (same ▸ List.mem_cons_self)
        · exact (ih later).imp_right (List.mem_cons_of_mem _)

theorem mem_putAll {entries known : List (Key × Value)} {entry : Key × Value}
    (member : entry ∈ putAll entries known) : entry ∈ entries ∨ entry ∈ known := by
  unfold putAll at member
  induction entries generalizing known with
  | nil => exact Or.inr member
  | cons first rest ih =>
      rcases ih member with later | before
      · exact Or.inl (List.mem_cons_of_mem _ later)
      · rcases mem_put before with new | old
        · exact Or.inl (new ▸ List.mem_cons_self)
        · exact Or.inr old

end ArmProgram.Keyed
