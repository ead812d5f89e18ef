import RecordCuration.Annotation
import RecordCuration.Proofs.Json.WellFormed

/-!
What annotation leaves as it was.

Without its `@type` members, at every level, an annotated value is the value that it was without
them. A second annotation changes nothing. An object that is annotated keeps its members in their
order, and a type that it had none of comes last.
-/

namespace RecordCuration

namespace Json

mutual
/-- The value without types: no object has a `@type` member, at any level. -/
def untyped : Json → Json
  | .arr xs => .arr (untypedItems xs)
  | .obj ms => .obj (untypedMembers ms)
  | v => v
def untypedItems : List Json → List Json
  | [] => []
  | x :: xs => untyped x :: untypedItems xs
def untypedMembers : List (String × Json) → List (String × Json)
  | [] => []
  | (k, v) :: ms => if k = typeKey then untypedMembers ms else (k, untyped v) :: untypedMembers ms
end

variable {type name : String} {v w x : Json} {ms : List (String × Json)} {p : Path} {s : Segment}

lemma untypedItems_eq_map (xs : List Json) : untypedItems xs = xs.map untyped := by
  induction xs with
  | nil => rfl
  | cons x xs ih => rw [untypedItems, ih, List.map_cons]

lemma untypedMembers_eq_map (ms : List (String × Json)) :
    untypedMembers ms = (ms.filter (·.1 ≠ typeKey)).map fun m => (m.1, untyped m.2) := by
  induction ms with
  | nil => rfl
  | cons m ms ih =>
    obtain ⟨k, v⟩ := m
    by_cases hk : k = typeKey <;> simp [untypedMembers, hk, ih]

lemma untypedMembers_insert (v : Json) (ms : List (String × Json)) :
    untypedMembers (Members.insert typeKey v ms) = untypedMembers ms := by
  rw [untypedMembers_eq_map, Members.filter_insert, untypedMembers_eq_map]

lemma untypedMembers_annotateMembers
    (h : ∀ m ∈ ms, ∀ name, (annotateUnder name m.2).untyped = m.2.untyped) :
    untypedMembers (annotateMembers ms) = untypedMembers ms := by
  induction ms with
  | nil => rfl
  | cons m ms ih =>
    obtain ⟨k, v⟩ := m
    obtain ⟨hv, hms⟩ := List.forall_mem_cons.mp h
    by_cases hk : k = typeKey
    · simp [annotateMembers, untypedMembers, hk, ih hms]
    · simp [annotateMembers, untypedMembers, hk, hv, ih hms]

lemma untyped_annotate_of (h : (annotateUnder name v).untyped = v.untyped) :
    (annotate name v).untyped = v.untyped := by
  rcases annotate_cases name v with he | ⟨_, _, he⟩
  · rw [he, h]
  · rw [he]

/-- Annotation shows in types alone. -/
lemma untyped_annotateUnder (name : String) (v : Json) :
    (annotateUnder name v).untyped = v.untyped := by
  induction v generalizing name with
  | arr xs ih =>
    rw [annotateUnder, untyped, untyped, untypedItems_eq_map, untypedItems_eq_map,
      annotateItems_eq_map, List.map_map]
    exact congrArg Json.arr (List.map_congr_left fun x hx => untyped_annotate_of (ih x hx name))
  | obj ms ih =>
    rw [annotateUnder, untyped, untyped, untypedMembers_insert,
      untypedMembers_annotateMembers fun m hm name => ih m hm name]
  | _ => rfl

/-! ### A second annotation -/

lemma annotateMembers_insert (v : Json) (ms : List (String × Json)) :
    annotateMembers (Members.insert typeKey v ms) =
      Members.insert typeKey v (annotateMembers ms) := by
  induction ms with
  | nil => simp [Members.insert, annotateMembers]
  | cons m ms ih =>
    obtain ⟨k, w⟩ := m
    by_cases hk : k = typeKey
    · simp [Members.insert, annotateMembers, hk]
    · simp [Members.insert, annotateMembers, hk, ih]

lemma annotateMembers_twice
    (h : ∀ m ∈ ms, ∀ name, annotateUnder name (annotateUnder name m.2) = annotateUnder name m.2) :
    annotateMembers (annotateMembers ms) = annotateMembers ms := by
  induction ms with
  | nil => rfl
  | cons m ms ih =>
    obtain ⟨k, v⟩ := m
    obtain ⟨hv, hms⟩ := List.forall_mem_cons.mp h
    by_cases hk : k = typeKey
    · simp [annotateMembers, hk, ih hms]
    · simp [annotateMembers, hk, hv, ih hms]

lemma annotate_twice_of (h : annotateUnder name (annotateUnder name v) = annotateUnder name v) :
    annotate name (annotate name v) = annotate name v := by
  rcases annotate_cases name v with he | ⟨_, _, he⟩
  · rw [he]
    rcases annotate_cases name (annotateUnder name v) with he' | ⟨_, _, he'⟩
    · rw [he', h]
    · exact he'
  · rw [he, he]

lemma annotateUnder_twice (name : String) (v : Json) :
    annotateUnder name (annotateUnder name v) = annotateUnder name v := by
  induction v generalizing name with
  | arr xs ih =>
    rw [annotateUnder, annotateUnder, annotateItems_eq_map, annotateItems_eq_map, List.map_map]
    exact congrArg Json.arr (List.map_congr_left fun x hx => annotate_twice_of (ih x hx name))
  | obj ms ih =>
    rw [annotateUnder, annotateUnder, annotateMembers_insert,
      annotateMembers_twice fun m hm name => ih m hm name, Members.insert_insert]
  | _ => rfl

/-! ### Objects in their places -/

/-- The members of an object have the names that they had, in that order, or, when none was a
type, a type after them. -/
def NamesKept (ms ms' : List (String × Json)) : Prop :=
  ms'.map Prod.fst = ms.map Prod.fst ∨
    typeKey ∉ ms.map Prod.fst ∧ ms'.map Prod.fst = ms.map Prod.fst ++ [typeKey]

/-- The path leads through a type that is a text. -/
def Retyped (doc : Json) (p : Path) : Prop :=
  ∃ before s after name, p = before ++ s :: after ∧ s.token = typeKey ∧
    doc.place? (before ++ [s]) = some (.str name)

/-- The second value is the first, annotated or as it was. -/
def Annotated (v w : Json) : Prop := w = v ∨ ∃ name, w = annotateUnder name v

lemma annotated_annotate (name : String) (v : Json) : Annotated v (annotate name v) :=
  (annotate_cases name v).symm.imp (fun ⟨_, _, he⟩ => he) fun he => ⟨name, he⟩

lemma names_annotateMembers (ms : List (String × Json)) :
    (annotateMembers ms).map Prod.fst = ms.map Prod.fst := by
  rw [annotateMembers_eq_map, List.map_map]
  rfl

/-- An object stays an object of these names. -/
lemma Annotated.exists_obj (h : Annotated (.obj ms) w) :
    ∃ ms', w = .obj ms' ∧ NamesKept ms ms' := by
  rcases h with rfl | ⟨name, rfl⟩
  · exact ⟨ms, rfl, .inl rfl⟩
  · refine ⟨_, rfl, ?_⟩
    rw [NamesKept, Members.keys_insert, names_annotateMembers]
    split_ifs with hmem
    · exact .inl rfl
    · exact .inr ⟨hmem, rfl⟩

lemma lookup_annotateMembers {key : String} (hkey : key ≠ typeKey) (ms : List (String × Json)) :
    (annotateMembers ms).lookup key = (ms.lookup key).map (annotateUnder key) := by
  induction ms with
  | nil => rfl
  | cons m ms ih =>
    obtain ⟨k, v⟩ := m
    by_cases hk : key = k
    · subst hk
      simp [annotateMembers, hkey]
    · simp [annotateMembers, List.lookup_cons, beq_false_of_ne hk, ih]

/-- A step that leads to a part leads to the part, annotated or as it was, or to the text of a
type. -/
lemma Annotated.child (h : Annotated v w) (hx : v.child? s = some x) :
    (∃ y, w.child? s = some y ∧ Annotated x y) ∨
      s.token = typeKey ∧ ∃ name, w.child? s = some (.str name) := by
  rcases h with rfl | ⟨name, rfl⟩
  · exact .inl ⟨x, hx, .inl rfl⟩
  cases v with
  | arr xs =>
    obtain ⟨i, hi, hxi⟩ := Option.bind_eq_some_iff.mp hx
    refine .inl ⟨annotate name x, ?_, annotated_annotate name x⟩
    rw [annotateUnder, annotateItems_eq_map, child?_arr, hi]
    simp [hxi]
  | obj ms =>
    rw [annotateUnder, child?_obj]
    by_cases hs : s.token = typeKey
    · exact .inr ⟨hs, name, hs ▸ Members.lookup_insert_self _ _ _⟩
    · refine .inl ⟨annotateUnder s.token x, ?_, .inr ⟨_, rfl⟩⟩
      rw [child?_obj] at hx
      rw [Members.lookup_insert_of_ne hs, lookup_annotateMembers hs, hx, Option.map_some]
  | _ => cases hx

/-- So does a path, unless it goes through such a type. -/
lemma Annotated.place (h : Annotated v w) (hx : v.place? p = some x) :
    (∃ y, w.place? p = some y ∧ Annotated x y) ∨ w.Retyped p := by
  induction p generalizing v w with
  | nil =>
    cases hx
    exact .inl ⟨w, rfl, h⟩
  | cons s p ih =>
    obtain ⟨a, ha, hx⟩ := place?_cons.mp hx
    rcases h.child ha with ⟨b, hb, hab⟩ | ⟨hs, name, hname⟩
    · rcases ih hab hx with ⟨y, hy, hxy⟩ | ⟨before, u, after, name, rfl, hu, hname⟩
      · exact .inl ⟨y, place?_cons.mpr ⟨b, hb, hy⟩, hxy⟩
      · exact .inr ⟨s :: before, u, after, name, rfl, hu, place?_cons.mpr ⟨b, hb, hname⟩⟩
    · exact .inr ⟨[], s, p, name, rfl, hs, place?_cons.mpr ⟨_, hname, rfl⟩⟩

/-- **Annotation adds types and nothing else, once.** Without types, the annotated document is the
document, its members in the same order. Annotated again it stays as it is. Wherever the document
has an object, the annotated one has an object with the same member names in the same order, a type
among them in its place, or with a type after them when there was none; only what stood under a
type is gone where that type is a text now. -/
theorem annotate_adds_types (type : String) (doc : Json) :
    (doc.annotate type).untyped = doc.untyped ∧
      (doc.annotate type).annotate type = doc.annotate type ∧
      ∀ p ms, doc.place? p = some (.obj ms) →
        (∃ ms', (doc.annotate type).place? p = some (.obj ms') ∧ NamesKept ms ms') ∨
          (doc.annotate type).Retyped p := by
  refine ⟨untyped_annotate_of (untyped_annotateUnder type doc),
    annotate_twice_of (annotateUnder_twice type doc), fun p ms hobj => ?_⟩
  refine ((annotated_annotate type doc).place hobj).imp_left ?_
  rintro ⟨y, hy, hms⟩
  obtain ⟨ms', rfl, hnames⟩ := hms.exists_obj
  exact ⟨ms', hy, hnames⟩

/-- A mission with an orbit whose type is an object, and a probe without a type. -/
def typedOrbit : Json :=
  .obj [("Orbit", .obj [("@type", .obj []), ("Perigee", .int 1)]),
    ("Probe", .arr [.obj [("Name", .str "Voyager")]])]

/-- The probe has a type then, after its name. -/
theorem probe_annotate_adds_types :
    typedOrbit.place? [.key "Probe", .index 0] = some (.obj [("Name", .str "Voyager")]) ∧
      (typedOrbit.annotate "Mission").untyped = typedOrbit.untyped ∧
      ∃ ms', (typedOrbit.annotate "Mission").place? [.key "Probe", .index 0] = some (.obj ms') ∧
        NamesKept [("Name", .str "Voyager")] ms' := by
  obtain ⟨huntyped, -, hplaces⟩ := annotate_adds_types "Mission" typedOrbit
  refine ⟨rfl, huntyped, (hplaces _ _ rfl).resolve_right ?_⟩
  rintro ⟨before, s, after, name, hp, hs, -⟩
  have hmem : s ∈ ([.key "Probe", .index 0] : Path) := hp ▸ List.mem_append_cons_self
  rcases List.mem_pair.mp hmem with rfl | rfl
  · exact absurd hs (by decide)
  · exact absurd hs (by decide)

end Json

end RecordCuration
