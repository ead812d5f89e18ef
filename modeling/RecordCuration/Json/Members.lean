/-!
Members by name in a list that keeps their order: writing one, taking one out.
-/

namespace RecordCuration.Members

variable {α : Type}

/-- Writes a member: in place when the name is there, else at the end. -/
def insert (name : String) (v : α) : List (String × α) → List (String × α)
  | [] => [(name, v)]
  | (k, w) :: ms => if k = name then (k, v) :: ms else (k, w) :: insert name v ms

/-- Takes a member out; the last member moves into its place. -/
def remove (name : String) : List (String × α) → List (String × α)
  | [] => []
  | (k, w) :: ms =>
    if k = name then ms.getLast?.toList ++ ms.dropLast else (k, w) :: remove name ms

/-- Members in the order of their first writing, each with the last value written. -/
def ofWrites (writes : List (String × α)) : List (String × α) :=
  writes.foldl (fun ms m => insert m.1 m.2 ms) []

theorem lookup_map {β : Type} (g : α → β) (name : String) (ms : List (String × α)) :
    (ms.map fun m => (m.1, g m.2)).lookup name = (ms.lookup name).map g := by
  induction ms with
  | nil => rfl
  | cons m ms ih =>
    obtain ⟨k, a⟩ := m
    by_cases h : name = k
    · simp [h]
    · simp [List.lookup_cons, beq_false_of_ne h, ih]

theorem lookup_insert_self (name : String) (v : α) (ms : List (String × α)) :
    (insert name v ms).lookup name = some v := by
  induction ms with
  | nil => simp [insert]
  | cons m ms ih =>
    obtain ⟨k, w⟩ := m
    by_cases h : k = name
    · subst h; simp [insert]
    · simp [insert, h, List.lookup_cons, beq_false_of_ne (Ne.symm h), ih]

theorem lookup_insert_of_ne {name other : String} (h : other ≠ name) (v : α)
    (ms : List (String × α)) : (insert name v ms).lookup other = ms.lookup other := by
  induction ms with
  | nil => simp [insert, h]
  | cons m ms ih =>
    obtain ⟨k, w⟩ := m
    by_cases hk : k = name
    · subst hk; simp [insert, List.lookup_cons, beq_false_of_ne h]
    · simp [insert, hk, List.lookup_cons, ih]

/-- Writing what a name has changes nothing. -/
theorem insert_of_lookup {name : String} {v : α} {ms : List (String × α)}
    (h : ms.lookup name = some v) : insert name v ms = ms := by
  induction ms with
  | nil => cases h
  | cons m ms ih =>
    obtain ⟨k, w⟩ := m
    by_cases hk : k = name
    · subst hk
      simp only [List.lookup_cons_self, Option.some.injEq] at h
      simp [insert, h]
    · rw [List.lookup_cons, beq_false_of_ne (Ne.symm hk)] at h
      rw [insert, if_neg hk, ih h]

/-- The second of two writes of a name wins. -/
theorem insert_insert (name : String) (a b : α) (ms : List (String × α)) :
    insert name b (insert name a ms) = insert name b ms := by
  induction ms with
  | nil => simp [insert]
  | cons m ms ih =>
    obtain ⟨k, w⟩ := m
    by_cases hk : k = name
    · simp [insert, hk]
    · simp [insert, hk, ih]

/-- The members of other names are as they were. -/
theorem filter_insert (name : String) (v : α) (ms : List (String × α)) :
    (insert name v ms).filter (·.1 ≠ name) = ms.filter (·.1 ≠ name) := by
  induction ms with
  | nil => simp [insert]
  | cons m ms ih =>
    obtain ⟨k, w⟩ := m
    by_cases hk : k = name
    · simp [insert, hk]
    · simpa [insert, hk] using ih

theorem keys_insert (name : String) (v : α) (ms : List (String × α)) :
    (insert name v ms).map Prod.fst =
      if name ∈ ms.map Prod.fst then ms.map Prod.fst else ms.map Prod.fst ++ [name] := by
  induction ms with
  | nil => simp [insert]
  | cons m ms ih =>
    obtain ⟨k, w⟩ := m
    by_cases hk : k = name
    · subst hk; simp [insert]
    · have hk' : ¬ name = k := fun h => hk h.symm
      simp only [insert, hk, ↓reduceIte, List.map_cons, ih, List.mem_cons, hk', false_or]
      split <;> simp

end RecordCuration.Members
