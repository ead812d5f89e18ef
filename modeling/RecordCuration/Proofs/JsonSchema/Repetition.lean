import RecordCuration.Proofs.JsonSchema.Conformance
import RecordCuration.Proofs.JsonSchema.Reference
import RecordCuration.Proofs.Path.Place

/-!
Fields that repeat, in documents that a schema accepts.

In an accepted document every object that is typed by a container has its due fields, and those
that repeat hold arrays. Nothing is said of the length of an array: a list that should have one
element or more may lose all of them wherever it stands, and the document is still accepted.
-/

namespace RecordCuration

open Draft7 JsonSchema Json

namespace Model

/-- The places of a document that are typed by containers: the document itself, and the values and
the items of values that fields hold whose elements stand for containers. -/
inductive Types (m : Model) (container : String) (doc : Json) : Path → String → Prop where
  | root : Types m container doc [] container
  | field {p : Path} {name element other : String} (h : Types m container doc p name)
    (hel : element ∈ m.subElements name) (hmean : m.Means element (.classRef other))
    (hrep : ¬ m.Repeats name element) (hv : (doc.place? (p ++ [.key element])).isSome) :
    Types m container doc (p ++ [.key element]) other
  | item {p : Path} {name element other : String} {i : ℕ} (h : Types m container doc p name)
    (hel : element ∈ m.subElements name) (hmean : m.Means element (.classRef other))
    (hrep : m.Repeats name element)
    (hv : (doc.place? (p ++ [.key element, .index i])).isSome) :
    Types m container doc (p ++ [.key element, .index i]) other

section Fields

variable {m : Model} {formats : Bool} {name element other : String}
  {ms : List (String × Json)} {v w : Json}

lemma fits_classRef_iff (hmean : m.Means element (.classRef other)) :
    m.Fits formats element v ↔ m.Conforms formats other v := by
  constructor
  · rintro (⟨hs, -⟩ | ⟨hs, -⟩ | ⟨hs, hv⟩) <;> cases hmean.unique hs
    exact hv
  · exact .container hmean

lemma Holds.fits (h : m.Holds formats name element v) (hrep : ¬ m.Repeats name element) :
    m.Fits formats element v := by
  cases h with
  | one _ hv => exact hv
  | list h _ => exact absurd h hrep

lemma Holds.exists_items (h : m.Holds formats name element v) (hrep : m.Repeats name element) :
    ∃ xs, v = .arr xs ∧ ∀ x ∈ xs, m.Fits formats element x := by
  cases h with
  | one h _ => exact absurd hrep h
  | list _ hv => exact ⟨_, rfl, hv⟩

lemma Conforms.holds_of_lookup (h : m.Conforms formats name (.obj ms))
    (hv : ms.lookup element = some v) : m.Holds formats name element v := by
  obtain ⟨-, -, hheld⟩ := h
  exact hheld _ (Json.mem_of_lookup hv)

/-- Another value that a field may hold can be written. -/
lemma Conforms.insert (h : m.Conforms formats name (.obj ms)) (hel : element ∈ m.subElements name)
    (hw : m.Holds formats name element w) :
    m.Conforms formats name (.obj (Members.insert element w ms)) := by
  obtain ⟨hknown, hdue, hheld⟩ := h
  refine .object (fun p hp => ?_) (fun due hsub hreq => ?_) (fun p hp => ?_)
  · rcases Json.mem_insert hp with rfl | hp
    · exact hel
    · exact hknown p hp
  · obtain ⟨v, hv⟩ := hdue due hsub hreq
    have hkey : due ∈ (Members.insert element w ms).map Prod.fst := by
      rw [Members.keys_insert]
      have hold : due ∈ ms.map Prod.fst := List.mem_map.mpr ⟨_, hv, rfl⟩
      split_ifs
      · exact hold
      · exact List.mem_append_left _ hold
    obtain ⟨⟨_, u⟩, hu, rfl⟩ := List.mem_map.mp hkey
    exact ⟨u, hu⟩
  · rcases Json.mem_insert hp with rfl | hp
    · exact hw
    · exact hheld p hp

/-- A due field of an object that conforms is there. -/
lemma Conforms.exists_due (h : m.Conforms formats name (.obj ms))
    (hel : element ∈ m.subElements name) (hdue : m.IsDue name element) :
    ∃ v, ms.lookup element = some v := by
  obtain ⟨-, hdues, -⟩ := h
  obtain ⟨v, hv⟩ := hdues element hel hdue
  exact Option.isSome_iff_exists.mp
    (Json.lookup_isSome_iff.mpr (List.mem_map.mpr ⟨_, hv, rfl⟩))

lemma Conforms.exists_members (h : m.Conforms formats name v) : ∃ ms, v = .obj ms := by
  cases h
  exact ⟨_, rfl⟩

end Fields

/-! ### Typed places -/

/-- A place holds an object that conforms, and the document conforms with any other such value
there. -/
structure Replaceable (m : Model) (formats : Bool) (container : String) (doc : Json) (p : Path)
    (name : String) (ms : List (String × Json)) : Prop where
  found : doc.place? p = some (.obj ms)
  conforms : m.Conforms formats name (.obj ms)
  replace : ∀ w, m.Conforms formats name w → m.Conforms formats container (put p w doc)

section Places

variable {m : Model} {formats : Bool} {container name element : String} {doc v : Json}
  {ms : List (String × Json)} {p : Path}

lemma Replaceable.lookup_of_place (h : m.Replaceable formats container doc p name ms) {q : Path}
    (hv : doc.place? (p ++ .key element :: q) = some v) :
    ∃ u, ms.lookup element = some u ∧ u.place? q = some v := by
  obtain ⟨o, ho, hrest⟩ := place?_append.mp hv
  rw [h.found] at ho
  cases ho
  exact place?_cons.mp hrest

/-- A field that is there can hold whatever it may. -/
lemma Replaceable.put_field (h : m.Replaceable formats container doc p name ms) {u w : Json}
    (hu : ms.lookup element = some u) (hel : element ∈ m.subElements name)
    (hw : m.Holds formats name element w) :
    m.Conforms formats container (put (p ++ [.key element]) w doc) := by
  have hchild : (Json.obj ms).child? (.key element) = some u := hu
  rw [put_append h.found, put_cons hchild]
  exact h.replace _ (h.conforms.insert hel hw)

/-- **Typed places are replaceable**, by induction on how they are reached: an object that conforms
can change one field, and a field one item. -/
theorem Types.exists_replaceable (h : m.Types container doc p name)
    (hdoc : m.Conforms formats container doc) :
    ∃ ms, m.Replaceable formats container doc p name ms := by
  induction h with
  | root =>
    obtain ⟨ms, rfl⟩ := hdoc.exists_members
    exact ⟨ms, rfl, hdoc, fun w hw => hw⟩
  | field _ hel hmean hrep hv ih =>
    obtain ⟨ms, hr⟩ := ih
    obtain ⟨v, hv⟩ := Option.isSome_iff_exists.mp hv
    obtain ⟨_, hu, ⟨⟩⟩ := hr.lookup_of_place hv
    have hfits := (hr.conforms.holds_of_lookup hu).fits hrep
    have hconforms := (fits_classRef_iff hmean).mp hfits
    obtain ⟨ns, rfl⟩ := hconforms.exists_members
    exact ⟨ns, hv, hconforms, fun w hw =>
      hr.put_field hu hel (.one hrep ((fits_classRef_iff hmean).mpr hw))⟩
  | @item p name element other i _ hel hmean hrep hv ih =>
    obtain ⟨ms, hr⟩ := ih
    obtain ⟨v, hv⟩ := Option.isSome_iff_exists.mp hv
    obtain ⟨u, hu, hitem⟩ := hr.lookup_of_place hv
    obtain ⟨xs, rfl, hfits⟩ := (hr.conforms.holds_of_lookup hu).exists_items hrep
    obtain ⟨x, hx, ⟨⟩⟩ := place?_cons.mp hitem
    have hxs : xs[i]? = some v := hx
    have hconforms := (fits_classRef_iff hmean).mp (hfits v (List.mem_of_getElem? hxs))
    obtain ⟨ns, rfl⟩ := hconforms.exists_members
    refine ⟨ns, hv, hconforms, fun w hw => ?_⟩
    -- the array is written with the one item changed
    have hlist : doc.place? (p ++ [.key element]) = some (.arr xs) :=
      place?_append.mpr ⟨_, hr.found, place?_cons.mpr ⟨_, hu, rfl⟩⟩
    have hput : put (p ++ [.key element, .index i]) w doc =
        put (p ++ [.key element]) (.arr (xs.set i w)) doc := by
      rw [List.append_cons, put_append hlist, put_cons hx]
      rfl
    rw [hput]
    refine hr.put_field hu hel (.list hrep fun y hy => ?_)
    rcases List.mem_or_eq_of_mem_set hy with hy | rfl
    · exact hfits y hy
    · exact (fits_classRef_iff hmean).mpr hw

end Places

end Model

/-! ### Emptied lists -/

section Emptied

variable {m : Model} {context : GraphContext} {g : GraphSchema} {container : String}

/-- **An array is all that is asked of a list.** In a document that the schema of a container
accepts, at every place typed by a container, each field that is marked as a list of one or more
holds an array of what its element stands for; with an empty array in its place the document is
accepted as well. -/
theorem emptied_list_accepted (h : GraphSchema.ofModel m context = .ok g)
    (hc : container ∈ m.containers) :
    ∃ source, g.schemaForClass container = .ok source ∧
      ∀ formats doc, Accepts formats source doc → ∀ p name, m.Types container doc p name →
        ∀ element ∈ m.subElements name, m.marker? name element = some "+" →
          (∃ xs, doc.place? (p ++ [.key element]) = some (.arr xs) ∧
            ∀ x ∈ xs, m.Fits formats element x) ∧
          Accepts formats source (put (p ++ [.key element]) (.arr []) doc) := by
  obtain ⟨source, root, he⟩ := exists_emitted h hc
  refine ⟨source, he.schema, fun formats doc hdoc p name hp element hel hmark => ?_⟩
  rw [he.accepts_iff h hc] at hdoc ⊢
  obtain ⟨ms, hr⟩ := hp.exists_replaceable hdoc
  have hrep : m.Repeats name element := Or.inr hmark
  obtain ⟨v, hv⟩ := hr.conforms.exists_due hel (Or.inr hmark)
  obtain ⟨xs, rfl, hfits⟩ := (hr.conforms.holds_of_lookup hv).exists_items hrep
  refine ⟨⟨xs, place?_append.mpr ⟨_, hr.found, place?_cons.mpr ⟨_, hv, rfl⟩⟩, hfits⟩, ?_⟩
  exact hr.put_field hv hel (.list hrep fun x hx => absurd hx List.not_mem_nil)

end Emptied

/-- A mission without time spans. -/
def spanless : Json := .obj [("Name", .str "Voyager"), ("TimeSpan", .arr [])]

/-- The schema of missions takes each mission with its spans left out. -/
theorem mission_emptied_list_accepted :
    "Mission" ∈ sampleModel.containers ∧
      ∃ source, sampleGraph.schemaForClass "Mission" = .ok source ∧
        ∀ formats doc, Accepts formats source doc → ∀ p name,
          sampleModel.Types "Mission" doc p name → ∀ element ∈ sampleModel.subElements name,
            sampleModel.marker? name element = some "+" →
              (∃ xs, doc.place? (p ++ [.key element]) = some (.arr xs) ∧
                ∀ x ∈ xs, sampleModel.Fits formats element x) ∧
              Accepts formats source (put (p ++ [.key element]) (.arr []) doc) :=
  ⟨by decide, emptied_list_accepted sample_accepted (by decide)⟩

/-- A mission must have one time span or more, and the schema of missions accepts one that has
none. -/
theorem spanless_accepted :
    GraphSchema.ofModel sampleModel .standard = .ok sampleGraph ∧
      sampleGraph.schemaForClass "Mission" = .ok sampleSource ∧
      Engine.compile sampleSource .standard = .ok sampleEngine ∧
      sampleModel.marker? "Mission" "TimeSpan" = some "+" ∧
      Cardinality.ofMarker? "+" = some .list ∧
      sampleModel.Types "Mission" spanless [] "Mission" ∧
      spanless.place? [.key "TimeSpan"] = some (.arr []) ∧
      Accepts true sampleSource spanless ∧ sampleEngine.isValid spanless = true := by
  refine ⟨sample_accepted, sampleSource_emitted, sampleEngine_compiled, by decide, rfl, .root, rfl,
    ?_, ?_⟩
  · exact List.isEmpty_iff.mp (by decide +kernel)
  · rw [Engine.isValid, sampleEngine_faults]
    decide +kernel

end RecordCuration
