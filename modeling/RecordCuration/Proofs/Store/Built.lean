import RecordCuration.Proofs.Store.Insert

/-!
Stores that come about by inserts, and what they hold.

A stored document is accounted for: it is stored under the type that it was found to name, and
under the id that it names or one that was given out for its type. Ids that are given out never
meet one another, so that a document without an id is refused only for an id that some document
named.
-/

namespace RecordCuration

/-- The document is an object and its type is a text, the one given. -/
def Json.IsOf (doc : Json) (type : String) : Prop :=
  ∃ ms, doc = .obj ms ∧ ms.lookup typeKey = some (.str type)

namespace Store

variable {s s' : Store} {doc : Json} {type : String} {d : StoredDocument}
  {result : Except StoreFault String}

/-- The stores that can come about. -/
inductive Built : Store → Prop where
  | empty : Built empty
  | insert {s s' : Store} {doc : Json} {type : String} {result : Except StoreFault String}
    (h : Built s) (hi : s.insert doc type = (s', result)) : Built s'

/-- The ids in use are those of the stored documents. -/
lemma Built.ids (h : Built s) : s.ids = (s.documents.map StoredDocument.id).reverse := by
  induction h with
  | empty => rfl
  | insert _ hi ih =>
    cases inserts_of_insert hi with
    | mismatched => exact ih
    | duplicate => simpa using ih
    | stored => simp [ih]

lemma Built.mem_ids (h : Built s) {id : String} : id ∈ s.ids ↔ ∃ d ∈ s.documents, d.id = id := by
  rw [h.ids, List.mem_reverse, List.mem_map]

/-! ### Stored documents -/

/-- The document is stored under the type that it was found to name, and under the id that it names
or one that was given out for its type. -/
structure Accounts (s : Store) (d : StoredDocument) : Prop where
  type : namedType d.document = d.type
  id : namedId? d.document = some d.id ∨
    namedId? d.document = none ∧ ∃ n ≤ s.counter d.type, d.id = assignedId d.type n

lemma counter_le_counted (other : String) :
    s.counter other ≤ (s.counted doc type).counter other := by
  rw [counter_counted]
  exact Nat.le_add_right _ _

lemma Accounts.mono (h : s.Accounts d) (hle : ∀ type, s.counter type ≤ s'.counter type) :
    s'.Accounts d where
  type := h.type
  id := h.id.imp_right fun ⟨hnone, n, hn, hid⟩ => ⟨hnone, n, hn.trans (hle _), hid⟩

/-- The document that is put in is accounted for. -/
lemma accounts_idFor (htype : namedType doc = type) :
    (s.counted doc type).Accounts ⟨s.idFor doc type, type, doc⟩ := by
  refine ⟨htype, ?_⟩
  rcases hid : namedId? doc with _ | id
  · refine Or.inr ⟨rfl, s.counter type + 1, ?_, idFor_of_unnamed ⟨htype, hid⟩⟩
    rw [counter_counted, if_pos ⟨rfl, htype, hid⟩]
  · exact Or.inl (by simp [hid, idFor])

lemma accounts_insert (hi : s.insert doc type = (s', result))
    (hs : ∀ d ∈ s.documents, s.Accounts d) : ∀ d ∈ s'.documents, s'.Accounts d := by
  cases inserts_of_insert hi with
  | mismatched => exact hs
  | duplicate => exact fun d hd => (hs d (by simpa using hd)).mono counter_le_counted
  | stored htype _ =>
    refine List.forall_mem_append.mpr ⟨fun d hd => (hs d hd).mono counter_le_counted, ?_⟩
    exact List.forall_mem_singleton.mpr ((accounts_idFor htype).mono fun _ => le_rfl)

/-- **Every stored document is accounted for.** -/
theorem Built.accounts (h : Built s) : ∀ d ∈ s.documents, s.Accounts d := by
  induction h with
  | empty => exact fun d hd => absurd hd List.not_mem_nil
  | insert _ hi ih => exact accounts_insert hi ih

/-! ### Types -/

/-- A document is found to name a type when that is its type, or when the type is the word for a
type that is missing or no text, and the document's is. -/
lemma namedType_eq_iff : namedType doc = type ↔ doc.IsOf type ∨
    type = "<none>" ∧ doc.member? typeKey = none ∨
    type = "<non-string>" ∧ ∃ v, doc.member? typeKey = some v ∧ v.string? = none := by
  have hof : doc.IsOf type ↔ doc.member? typeKey = some (.str type) := by
    cases doc <;> simp [Json.IsOf, Json.member?]
  rw [hof, namedType]
  rcases doc.member? typeKey with _ | v
  · simp [eq_comm]
  · cases v <;> simp [Json.string?, eq_comm]

/-- **What can be stored under a type**: the objects of that type, and nothing else unless the type
is one of two words, which take the documents that have no type or one that is no text. -/
theorem storable_iff (doc : Json) (type : String) :
    (∃ s, Built s ∧ ∃ d ∈ s.documents, d.document = doc ∧ d.type = type) ↔
      doc.IsOf type ∨ type = "<none>" ∧ doc.member? typeKey = none ∨
        type = "<non-string>" ∧ ∃ v, doc.member? typeKey = some v ∧ v.string? = none := by
  rw [← namedType_eq_iff]
  constructor
  · rintro ⟨s, hs, d, hd, rfl, rfl⟩
    exact (hs.accounts d hd).type
  · intro htype
    have hi : empty.insert doc type = ((empty.insert doc type).1, (empty.insert doc type).2) := rfl
    refine ⟨_, .insert .empty hi, ?_⟩
    rw [insert_of_type htype, insertAs, if_neg (by simp [empty])]
    exact ⟨_, List.mem_append_right _ (List.mem_singleton.mpr rfl), rfl, rfl⟩

/-- A null is stored under the word for a missing type, and an object with a number for its type
under the word for a type that is no text. -/
theorem untyped_stored :
    (∃ s, Built s ∧ ∃ d ∈ s.documents, ¬ d.document.IsOf d.type ∧ d.document = .null) ∧
      ∃ s, Built s ∧ ∃ d ∈ s.documents, ¬ d.document.IsOf d.type ∧
        d.document = .obj [("@type", .int 7)] := by
  have hnull : empty.insert .null "<none>" =
      ((empty.insert .null "<none>").1, .ok "<none>/1") := rfl
  have hnumber : empty.insert (.obj [("@type", .int 7)]) "<non-string>" =
      ((empty.insert (.obj [("@type", .int 7)]) "<non-string>").1, .ok "<non-string>/1") := rfl
  refine ⟨⟨_, .insert .empty hnull, _, List.mem_singleton.mpr rfl, ?_, rfl⟩,
    _, .insert .empty hnumber, _, List.mem_singleton.mpr rfl, ?_, rfl⟩
  · rintro ⟨ms, hobj, -⟩
    cases hobj
  · rintro ⟨ms, hobj, htype⟩
    cases hobj
    cases htype

/-! ### Documents without an id -/

/-- An id that is given out next is in use only by name. -/
lemma Built.mem_ids_next (h : Built s) :
    assignedId type (s.counter type + 1) ∈ s.ids ↔
      ∃ d ∈ s.documents, namedId? d.document = some (assignedId type (s.counter type + 1)) := by
  rw [h.mem_ids]
  refine exists_congr fun d => and_congr_right fun hd => ?_
  rcases (h.accounts d hd).id with hid | ⟨hnone, n, hn, hid⟩
  · rw [hid, Option.some.injEq]
  · -- ids of a type that were given out have lower numbers
    have hne : assignedId d.type n ≠ assignedId type (s.counter type + 1) := by
      rw [Ne, assignedId_inj]
      rintro ⟨rfl, rfl⟩
      omega
    simp [hid, hnone, hne]

/-- **Only an id that some document named is in the way.** A document of a type that names no id is
stored under the next id of the type, which no document had, unless a stored document names that
id; then, and only then, it is refused, as a duplicate of that id. -/
theorem unnamed_refused_iff (hs : Built s) (h : Unnamed doc type) :
    let id := assignedId type (s.counter type + 1)
    ((s.insert doc type).2 = .ok id ↔ ∀ d ∈ s.documents, namedId? d.document ≠ some id) ∧
      ((s.insert doc type).2 = .error (.duplicate id) ↔
        ∃ d ∈ s.documents, namedId? d.document = some id) ∧
      ((s.insert doc type).2 = .ok id → ∀ d ∈ s.documents, d.id ≠ id) := by
  intro id
  have hmem : id ∈ s.ids ↔ ∃ d ∈ s.documents, namedId? d.document = some id := hs.mem_ids_next
  have hanswer : (s.insert doc type).2 = if id ∈ s.ids then .error (.duplicate id) else .ok id := by
    rw [answer_of_type h.1, idFor_of_unnamed h]
  have hok : (s.insert doc type).2 = .ok id ↔ id ∉ s.ids := by
    rw [hanswer]
    split_ifs <;> simp_all
  refine ⟨?_, ?_, fun hstored d hd hid => ?_⟩
  · rw [hok, hmem]
    push Not
    rfl
  · rw [hanswer, ← hmem]
    split_ifs <;> simp_all
  · exact hok.mp hstored (hs.mem_ids.mpr ⟨d, hd, hid⟩)

lemma namedStore_built : Built namedStore :=
  .insert .empty (show empty.insert personNamed "Person" = (namedStore, .ok "Person/1") from rfl)

/-- After a refusal the person is given the next id, which is not in use. -/
theorem person_stored_after_refusal :
    Unnamed person "Person" ∧ ∃ s, Built s ∧
      namedStore.insert person "Person" = (s, .error (.duplicate "Person/1")) ∧
      (s.insert person "Person").2 = .ok "Person/2" ∧ ∀ d ∈ s.documents, d.id ≠ "Person/2" := by
  have hu : Unnamed person "Person" := by decide
  have hi : namedStore.insert person "Person" =
      ((namedStore.insert person "Person").1, .error (.duplicate "Person/1")) := rfl
  have hs : Built (namedStore.insert person "Person").1 := namedStore_built.insert hi
  have hnext := unnamed_refused_iff hs hu
  have hstored := hnext.1.mpr (by decide +kernel)
  exact ⟨hu, _, hs, hi, hstored, hnext.2.2 hstored⟩

/-- A person has a type and no id, and is refused for an id. -/
theorem person_refused :
    Built namedStore ∧ person.member? typeKey = some (.str "Person") ∧
      person.member? "@id" = none ∧
      (namedStore.insert person "Person").2 = .error (.duplicate "Person/1") :=
  ⟨namedStore_built, rfl, rfl, rfl⟩

end Store

end RecordCuration
