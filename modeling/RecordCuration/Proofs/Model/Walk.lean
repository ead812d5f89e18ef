import RecordCuration.Proofs.Json.WellFormed
import RecordCuration.Proofs.Outcome
import RecordCuration.Model.Walk

/-!
What a successful walk over a model gives.

Every dictionary entry has a type; the containers stand in the order of the dictionary; the fields
of a container are its elements in order, each once, with the type of the element and the
cardinality of its marker.
-/

namespace RecordCuration

namespace Table

variable {α : Type} {t : Table α} {name : String} {a : α}

lemma get?_eq_some_iff : t.get? name = some a ↔ (name, a) ∈ t.entries :=
  ⟨Json.mem_of_lookup, Json.lookup_of_mem t.nodup⟩

lemma mem_names : name ∈ t.names ↔ ∃ a, t.get? name = some a := by
  rw [names, ← Json.lookup_isSome_iff, Option.isSome_iff_exists]
  rfl

end Table

namespace Walk

variable {d : Dictionary} {o : Ontology} {w : Walk}

/-- A walk fails or has all of its parts. -/
lemma build_eq_ok_iff :
    build d o = .ok w ↔ ∃ types cs, resolveAll d = .ok types ∧ checkOntology d o = .ok () ∧
      (d.entries.filter (·.2.isContainer)).mapM (fun e => container d o types e.1 e.2) = .ok cs ∧
      w = ⟨cs, (d.entries.filter (·.2.isEnumeration)).map
          (fun e => ⟨e.1, e.2.definition, e.2.allowedValues⟩),
        d.entries.map (fun e => (e.1, e.2.definition)), types⟩ := by
  unfold build
  simp only [bind_eq_ok_iff, pure, Except.pure, Except.ok.injEq]
  constructor
  · rintro ⟨types, ht, ⟨⟩, hc, cs, hcs, rfl⟩; exact ⟨types, cs, ht, hc, hcs, rfl⟩
  · rintro ⟨types, cs, ht, hc, hcs, rfl⟩; exact ⟨types, ht, (), hc, cs, hcs, rfl⟩

/-- The types that a walk records are those of the entries. -/
lemma resolve_of_types {types : List (String × Target)} (h : resolveAll d = .ok types)
    {name : String} {e : TypeEntry} {target : Target} (he : d.get? name = some e)
    (ht : types.lookup name = some target) : resolve d name e = .ok target := by
  obtain ⟨⟨name', e'⟩, hmem, hr⟩ := (exists_of_mapM_ok h).2 _ (Json.mem_of_lookup ht)
  obtain ⟨target', hr, hpair⟩ := map_eq_ok_iff.mp hr
  cases hpair
  obtain rfl : e' = e := Option.some.inj ((Table.get?_eq_some_iff.mpr hmem).symm.trans he)
  exact hr

/-- Every entry has a type, in the order of the dictionary. -/
lemma names_of_types {types : List (String × Target)} (h : resolveAll d = .ok types) :
    types.map Prod.fst = d.names :=
  map_eq_of_mapM (fun _ _ hok => by obtain ⟨target, -, rfl⟩ := map_eq_ok_iff.mp hok; rfl) h

lemma names_of_containers {types : List (String × Target)} {es : List (String × TypeEntry)}
    {cs : List Container} (h : es.mapM (fun e => container d o types e.1 e.2) = .ok cs) :
    cs.map Container.name = es.map Prod.fst :=
  map_eq_of_mapM (fun _ _ hok => by obtain ⟨fs, -, rfl⟩ := map_eq_ok_iff.mp hok; rfl) h

/-- A container of a walk is made of its entry. -/
lemma exists_entry_of_container {types : List (String × Target)} {cs : List Container}
    (h : (d.entries.filter (·.2.isContainer)).mapM (fun e => container d o types e.1 e.2) = .ok cs)
    {c : Container} (hc : c ∈ cs) : ∃ e, d.get? c.name = some e ∧ e.tag = .container ∧
      c.definition = e.definition ∧
      fields d types (o.get? c.name) c.name [] e.subElements = .ok c.fields := by
  obtain ⟨⟨name, e⟩, hmem, hok⟩ := (exists_of_mapM_ok h).2 c hc
  obtain ⟨hmem, htag⟩ := List.mem_filter.mp hmem
  obtain ⟨fs, hfs, rfl⟩ := map_eq_ok_iff.mp hok
  exact ⟨e, Table.get?_eq_some_iff.mpr hmem, of_decide_eq_true htag, rfl, hfs⟩

/-- Every container of a dictionary is made. -/
lemma exists_fields_of_container {types : List (String × Target)} {cs : List Container}
    (h : (d.entries.filter (·.2.isContainer)).mapM (fun e => container d o types e.1 e.2) = .ok cs)
    {name : String} {e : TypeEntry} (he : d.get? name = some e) (ht : e.tag = .container) :
    ∃ fs, ⟨name, e.definition, fs⟩ ∈ cs ∧
      fields d types (o.get? name) name [] e.subElements = .ok fs := by
  have hmem : (name, e) ∈ d.entries.filter (·.2.isContainer) :=
    List.mem_filter.mpr ⟨Table.get?_eq_some_iff.mp he, decide_eq_true ht⟩
  obtain ⟨c, hc, hok⟩ := (exists_of_mapM_ok h).1 _ hmem
  obtain ⟨fs, hfs, rfl⟩ := map_eq_ok_iff.mp hok
  exact ⟨fs, hc, hfs⟩

/-- What a walk knows of a field of a container. -/
structure Resolved (d : Dictionary) (uses : Option (Table FieldUse))
    (types : List (String × Target)) (f : Field) : Prop where
  type : ∃ e, d.get? f.name = some e ∧ types.lookup f.name = some f.target
  marker : ∃ use, (uses >>= (·.get? f.name)) = some use ∧
    Cardinality.ofMarker? use.occurrence = some f.cardinality

section Fields

variable {types : List (String × Target)} {uses : Option (Table FieldUse)} {name element : String}

/-- A field needs an entry with a type, and a marker that means something. -/
lemma field_eq_ok_iff {f : Field} : field d types uses name element = .ok f ↔
    ∃ e target use c, d.get? element = some e ∧ types.lookup element = some target ∧
      (uses >>= (·.get? element)) = some use ∧ Cardinality.ofMarker? use.occurrence = some c ∧
      f = ⟨element, target, c, isContainerName d target, e.definition⟩ := by
  unfold field
  cases he : d.get? element with
  | none => simp
  | some e =>
    cases ht : types.lookup element with
    | none => simp
    | some target =>
      cases huse : (uses >>= (·.get? element)) with
      | none => simp
      | some use =>
        cases hc : Cardinality.ofMarker? use.occurrence <;>
          simp [cardinality, hc, Except.mapError, bind, Except.bind, pure, Except.pure, eq_comm]

lemma field_resolved {f : Field} (h : field d types uses name element = .ok f) :
    f.name = element ∧ Resolved d uses types f := by
  obtain ⟨e, target, use, c, he, ht, huse, hc, rfl⟩ := field_eq_ok_iff.mp h
  exact ⟨rfl, ⟨e, he, ht⟩, use, huse, hc⟩

/-- The fields of distinct elements are made one by one. -/
lemma fields_eq_ok_iff {seen elements : List String} {fs : List Field} :
    fields d types uses name seen elements = .ok fs ↔ elements.Nodup ∧
      (∀ e ∈ elements, e ∉ seen) ∧ elements.mapM (field d types uses name) = .ok fs := by
  induction elements generalizing seen fs with
  | nil => simp [fields, pure, Except.pure]
  | cons element rest ih =>
    rw [fields]
    split_ifs with hseen
    · exact iff_of_false (by simp) fun ⟨_, hnot, _⟩ => hnot element (by simp) hseen
    simp only [List.mapM_cons, bind_eq_ok_iff, ih]
    constructor
    · rintro ⟨f, hf, fs, ⟨hn, hnot, hfs⟩, h⟩
      refine ⟨List.nodup_cons.mpr ⟨fun hm => hnot _ hm (by simp), hn⟩, ?_, f, hf, fs, hfs, h⟩
      exact List.forall_mem_cons.mpr ⟨hseen, fun e he hs => hnot e he (by simp [hs])⟩
    · rintro ⟨hn, hnot, f, hf, fs, hfs, h⟩
      obtain ⟨helement, hn⟩ := List.nodup_cons.mp hn
      refine ⟨f, hf, fs, ⟨hn, fun e he hs => ?_, hfs⟩, h⟩
      rcases List.mem_cons.mp hs with rfl | hs
      · exact helement he
      · exact hnot e (by simp [he]) hs

/-- The fields of a container are its elements in order, each once. -/
lemma fields_resolved {seen elements : List String} {fs : List Field}
    (h : fields d types uses name seen elements = .ok fs) :
    fs.map (·.name) = elements ∧ elements.Nodup ∧ ∀ f ∈ fs, Resolved d uses types f := by
  obtain ⟨hn, -, hfs⟩ := fields_eq_ok_iff.mp h
  refine ⟨?_, hn, fun f hf => ?_⟩
  · have hnames : fs.map (·.name) = elements.map id :=
      map_eq_of_mapM (fun _ _ hok => (field_resolved hok).1) hfs
    rwa [List.map_id] at hnames
  · obtain ⟨e, -, hok⟩ := (exists_of_mapM_ok hfs).2 f hf
    exact (field_resolved hok).2

end Fields

end Walk

end RecordCuration
