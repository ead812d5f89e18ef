import RecordCuration.Annotation
import RecordCuration.Proofs.Json.WellFormed

/-!
Which objects of an annotated document say what they are.

A value stands under the name of the member nearest above it, the whole document under its type.
Annotation goes from an object to its members and from a list to its items, but not into a list
that is itself an item. So every object is typed by its name except in a list in a list, and what
is there stays as it was.
-/

namespace RecordCuration

namespace Json

/-- The document holds the value under the name: that of the nearest member above it, or the type
of the document when it is under no member. What is under `@type` does not count. -/
inductive Contains (type : String) (doc : Json) : String → Json → Prop where
  | whole : Contains type doc type doc
  | item {name : String} {xs : List Json} {x : Json} (h : Contains type doc name (.arr xs))
    (hx : x ∈ xs) : Contains type doc name x
  | member {name key : String} {ms : List (String × Json)} {v : Json}
    (h : Contains type doc name (.obj ms)) (hv : (key, v) ∈ ms) (hkey : key ≠ typeKey) :
    Contains type doc key v

/-- Every object has the name that it stands under for its type. -/
def Typed (type : String) (doc : Json) : Prop :=
  ∀ name ms, Contains type doc name (.obj ms) → ms.lookup typeKey = some (.str name)

/-- The document holds a list of these items as an item of a list. -/
def Nested (type : String) (doc : Json) (name : String) (xs : List Json) : Prop :=
  ∃ outer, Contains type doc name (.arr outer) ∧ .arr xs ∈ outer

variable {type name : String} {doc v w : Json} {ms : List (String × Json)} {xs : List Json}

lemma Contains.trans {name' : String} (h : Contains type doc name v)
    (hw : Contains name v name' w) : Contains type doc name' w := by
  induction hw with
  | whole => exact h
  | item _ hx ih => exact ih.item hx
  | member _ hv hkey ih => exact ih.member hv hkey

/-- Annotated members, their own types aside. -/
lemma mem_annotated_iff {key : String} (hkey : key ≠ typeKey) :
    (key, w) ∈ Members.insert typeKey (.str name) (annotateMembers ms) ↔
      ∃ v, (key, v) ∈ ms ∧ annotateUnder key v = w := by
  have hfilter : ∀ ns : List (String × Json),
      (key, w) ∈ ns ↔ (key, w) ∈ ns.filter (·.1 ≠ typeKey) := by
    simp [hkey]
  rw [hfilter, Members.filter_insert, ← hfilter, annotateMembers_eq_map, List.mem_map]
  constructor
  · rintro ⟨⟨k, v⟩, hv, he⟩
    cases he
    exact ⟨v, hv, (if_neg hkey).symm⟩
  · rintro ⟨v, hv, rfl⟩
    exact ⟨(key, v), hv, Prod.ext rfl (if_neg hkey)⟩

/-! ### From the document to the annotated one -/

/-- What a document holds is held by the annotated one, annotated or as it was. -/
lemma contains_annotateUnder (h : Contains type doc name v) :
    Contains type (annotateUnder type doc) name (annotateUnder name v) ∨
      Contains type (annotateUnder type doc) name v := by
  induction h with
  | whole => exact .inl .whole
  | @item name xs x _ hx ih =>
    rcases ih with ih | ih
    · rw [annotateUnder, annotateItems_eq_map] at ih
      have hitem := ih.item (List.mem_map_of_mem hx)
      rcases annotate_cases name x with he | ⟨_, _, he⟩
      · exact .inl (he ▸ hitem)
      · exact .inr (he ▸ hitem)
    · exact .inr (ih.item hx)
  | @member name key ms x _ hx hkey ih =>
    rcases ih with ih | ih
    · rw [annotateUnder] at ih
      exact .inl (ih.member ((mem_annotated_iff hkey).mpr ⟨x, hx, rfl⟩) hkey)
    · exact .inr (ih.member hx hkey)

/-- A list in a list stays as it was. -/
lemma Nested.contains_annotateUnder (h : Nested type doc name xs) :
    Contains type (annotateUnder type doc) name (.arr xs) := by
  obtain ⟨outer, houter, hxs⟩ := h
  rcases Json.contains_annotateUnder houter with hmap | hkept
  · rw [annotateUnder, annotateItems_eq_map] at hmap
    exact hmap.item (List.mem_map.mpr ⟨.arr xs, hxs, rfl⟩)
  · exact hkept.item hxs

/-! ### Back from the annotated document -/

/-- What the annotated document holds is annotated, or is held by a list in a list. -/
lemma exists_of_contains_annotateUnder (h : Contains type (annotateUnder type doc) name w) :
    (∃ v, Contains type doc name v ∧ w = annotateUnder name v) ∨
      ∃ outer xs, Nested type doc outer xs ∧ Contains outer (.arr xs) name w := by
  induction h with
  | whole => exact .inl ⟨doc, .whole, rfl⟩
  | @item name ys y _ hy ih =>
    rcases ih with ⟨v, hv, hys⟩ | ⟨outer, xs, hnested, hin⟩
    · cases v with
      | arr xs =>
        rw [annotateUnder, annotateItems_eq_map] at hys
        cases hys
        obtain ⟨x, hx, rfl⟩ := List.mem_map.mp hy
        rcases annotate_cases name x with he | ⟨zs, rfl, he⟩
        · exact .inl ⟨x, hv.item hx, he⟩
        · -- here annotation stops
          exact .inr ⟨name, zs, ⟨xs, hv, hx⟩, he ▸ .whole⟩
      | _ => cases hys
    · exact .inr ⟨outer, xs, hnested, hin.item hy⟩
  | @member name key ns y _ hy hkey ih =>
    rcases ih with ⟨v, hv, hns⟩ | ⟨outer, xs, hnested, hin⟩
    · cases v with
      | obj ms =>
        rw [annotateUnder] at hns
        cases hns
        obtain ⟨x, hx, he⟩ := (mem_annotated_iff hkey).mp hy
        exact .inl ⟨x, hv.member hx hkey, he.symm⟩
      | _ => cases hns
    · exact .inr ⟨outer, xs, hnested, hin.member hy hkey⟩

lemma lookup_of_annotateUnder {ns : List (String × Json)}
    (h : .obj ns = annotateUnder name v) : ns.lookup typeKey = some (.str name) := by
  cases v with
  | obj ms =>
    cases h
    exact Members.lookup_insert_self _ _ _
  | _ => cases h

/-- **Every object is typed by its name, but for lists in lists.** The annotated object is of the
given type. An object in it is of the name that it stands under, unless a list that the document
holds as an item of a list holds that very object. So all are typed exactly when, in every list in
a list, all were typed before. -/
theorem annotated_typed_iff (type : String) (ms : List (String × Json)) :
    ((Json.obj ms).annotate type).member? typeKey = some (.str type) ∧
      (∀ name ns, Contains type ((Json.obj ms).annotate type) name (.obj ns) →
        ns.lookup typeKey = some (.str name) ∨
          ∃ outer xs, Nested type (.obj ms) outer xs ∧ Contains outer (.arr xs) name (.obj ns)) ∧
      (Typed type ((Json.obj ms).annotate type) ↔
        ∀ name xs, Nested type (.obj ms) name xs → Typed name (.arr xs)) := by
  have hdoc : (Json.obj ms).annotate type = annotateUnder type (.obj ms) := rfl
  have hcases : ∀ name ns, Contains type ((Json.obj ms).annotate type) name (.obj ns) →
      ns.lookup typeKey = some (.str name) ∨
        ∃ outer xs, Nested type (.obj ms) outer xs ∧ Contains outer (.arr xs) name (.obj ns) := by
    intro name ns hin
    refine (exists_of_contains_annotateUnder (hdoc ▸ hin)).imp_left ?_
    rintro ⟨v, -, hns⟩
    exact lookup_of_annotateUnder hns
  refine ⟨Members.lookup_insert_self _ _ _, hcases, fun htyped name xs hnested => ?_,
    fun hnested name ns hin => ?_⟩
  · intro name' ns hin
    exact htyped name' ns ((hdoc ▸ hnested.contains_annotateUnder).trans hin)
  · rcases hcases name ns hin with htyped | ⟨outer, xs, hxs, hin⟩
    · exact htyped
    · exact hnested outer xs hxs name ns hin

/-- An orbit given as a list of a list. -/
def nestedOrbit : List (String × Json) :=
  [("Orbit", .arr [.arr [.obj [("Perigee", .int 1)]]])]

lemma contains_nestedOrbit : Contains "Mission" ((Json.obj nestedOrbit).annotate "Mission") "Orbit"
    (.obj [("Perigee", .int 1)]) :=
  .item (.item (.member .whole List.mem_cons_self (by decide)) List.mem_cons_self)
    List.mem_cons_self

/-- The mission is typed, and the object in the inner list stays as it was. -/
theorem nested_orbit_kept :
    ((Json.obj nestedOrbit).annotate "Mission").member? typeKey = some (.str "Mission") ∧
      Contains "Mission" ((Json.obj nestedOrbit).annotate "Mission") "Orbit"
        (.obj [("Perigee", .int 1)]) ∧
      ∃ outer xs, Nested "Mission" (.obj nestedOrbit) outer xs ∧
        Contains outer (.arr xs) "Orbit" (.obj [("Perigee", .int 1)]) := by
  obtain ⟨hmission, hcases, -⟩ := annotated_typed_iff "Mission" nestedOrbit
  exact ⟨hmission, contains_nestedOrbit,
    (hcases _ _ contains_nestedOrbit).resolve_left fun hlookup => by cases hlookup⟩

/-- So not every object is typed. -/
theorem nested_orbit_untyped :
    ¬ Typed "Mission" ((Json.obj nestedOrbit).annotate "Mission") := fun htyped => by
  have hlookup := htyped _ _ contains_nestedOrbit
  cases hlookup

end Json

end RecordCuration
