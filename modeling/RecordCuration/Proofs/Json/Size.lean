import RecordCuration.Proofs.Path.Pointer

/-!
The number of values in a document, which bounds what its arrays and objects hold, and how many
containers are nested.
-/

namespace RecordCuration.Json

lemma one_le_size (v : Json) : 1 ≤ v.size := by
  cases v <;> simp [size]

lemma size_le_sizeItems {x : Json} {xs : List Json} (h : x ∈ xs) : x.size ≤ sizeItems xs := by
  induction xs with
  | nil => cases h
  | cons y ys ih =>
    rw [sizeItems]
    rcases List.mem_cons.mp h with rfl | h
    · exact Nat.le_add_right _ _
    · have := ih h; omega

lemma length_le_sizeItems (xs : List Json) : xs.length ≤ sizeItems xs := by
  induction xs with
  | nil => exact Nat.zero_le _
  | cons x xs ih =>
    have := x.one_le_size
    rw [sizeItems, List.length_cons]
    omega

lemma sizeMembers_eq (ms : List (String × Json)) :
    sizeMembers ms = sizeItems (ms.map Prod.snd) := by
  induction ms with
  | nil => rfl
  | cons m ms ih => obtain ⟨k, v⟩ := m; rw [sizeMembers, ih, List.map_cons, sizeItems]

lemma size_le_sizeMembers {m : String × Json} {ms : List (String × Json)} (h : m ∈ ms) :
    m.2.size ≤ sizeMembers ms :=
  sizeMembers_eq ms ▸ size_le_sizeItems (List.mem_map_of_mem h)

lemma length_le_sizeMembers (ms : List (String × Json)) : ms.length ≤ sizeMembers ms := by
  rw [sizeMembers_eq]
  simpa using length_le_sizeItems (ms.map Prod.snd)

lemma size_child_le {s : Segment} {v w : Json} (h : v.child? s = some w) : w.size ≤ v.size := by
  cases v with
  | obj ms =>
    have hw : w.size ≤ sizeMembers ms := size_le_sizeMembers (mem_of_lookup h)
    rw [size]; omega
  | arr xs =>
    obtain ⟨i, -, hi⟩ := Option.bind_eq_some_iff.mp h
    have := size_le_sizeItems (List.mem_of_getElem? hi)
    rw [size]; omega
  | _ => cases h

lemma size_place_le {p : Path} {v w : Json} (h : v.place? p = some w) : w.size ≤ v.size := by
  induction p generalizing v with
  | nil => cases h; exact le_rfl
  | cons s p ih =>
    obtain ⟨x, hx, hw⟩ := place?_cons.mp h
    exact (ih hw).trans (size_child_le hx)

/-- Documents with no more values than pointers have positions are addressable. -/
lemma addressable_of_size_le {doc : Json} (h : doc.size ≤ indexBound) : doc.Addressable := by
  intro p xs hp
  have hsize := size_place_le hp
  have := length_le_sizeItems xs
  rw [size] at hsize
  omega

/-! ### Nesting -/

lemma depth_arr_le_iff {xs : List Json} {room : ℕ} :
    (Json.arr xs).depth ≤ room + 1 ↔ ∀ x ∈ xs, x.depth ≤ room := by
  have hitems : depthItems xs ≤ room ↔ ∀ x ∈ xs, x.depth ≤ room := by
    induction xs with
    | nil => simp [depthItems]
    | cons x xs ih => simp [depthItems, ih]
  rw [← hitems, depth, Nat.add_le_add_iff_right]

lemma depth_obj_le_iff {ms : List (String × Json)} {room : ℕ} :
    (Json.obj ms).depth ≤ room + 1 ↔ ∀ m ∈ ms, m.2.depth ≤ room := by
  have hmembers : depthMembers ms ≤ room ↔ ∀ m ∈ ms, m.2.depth ≤ room := by
    induction ms with
    | nil => simp [depthMembers]
    | cons m ms ih => obtain ⟨k, v⟩ := m; simp [depthMembers, ih]
  rw [← hmembers, depth, Nat.add_le_add_iff_right]

lemma depth_lt_of_item {xs : List Json} {x : Json} (h : x ∈ xs) :
    x.depth < (Json.arr xs).depth := by
  have hle : x.depth ≤ depthItems xs := depth_arr_le_iff.mp (by rw [depth]) x h
  rw [depth]; omega

lemma depth_lt_of_member {ms : List (String × Json)} {m : String × Json} (h : m ∈ ms) :
    m.2.depth < (Json.obj ms).depth := by
  have hle : m.2.depth ≤ depthMembers ms := depth_obj_le_iff.mp (by rw [depth]) m h
  rw [depth]; omega

end RecordCuration.Json
