import RecordCuration.Proofs.Outcome
import RecordCuration.Proofs.Store.Built

/-!
The books of a store: its documents, the ids in use and the counts by type, over all inserts.

Every insert that is answered by an id adds one row, under that id, and no insert changes a row
that is there. So the ids are distinct, and each leads back to the document that it was given for.
While no document names an id, the ids of each type are numbered from one in the order of its
inserts, and none is refused as a duplicate, whatever the types are called.
-/

namespace RecordCuration

namespace Store

variable {s s' : Store} {doc : Json} {type id : String} {d : StoredDocument} {offers : List Offer}
  {result : Except StoreFault String} {results : List (Except StoreFault String)}

/-! ### Rows -/

/-- A row for every insert that was answered by an id, in the order of the inserts. -/
def storedBy (offers : List Offer) (results : List (Except StoreFault String)) :
    List StoredDocument :=
  (offers.zip results).filterMap fun (offer, result) =>
    result.toOption.map (⟨·, offer.type, offer.document⟩)

lemma mem_storedBy : d ∈ storedBy offers results ↔
    ∃ offer, (offer, .ok d.id) ∈ offers.zip results ∧ d = ⟨d.id, offer.type, offer.document⟩ := by
  simp only [storedBy, List.mem_filterMap, Prod.exists, Option.map_eq_some_iff,
    toOption_eq_some_iff]
  constructor
  · rintro ⟨offer, result, hmem, id, rfl, rfl⟩
    exact ⟨offer, hmem, rfl⟩
  · rintro ⟨offer, hmem, hd⟩
    exact ⟨offer, _, hmem, d.id, rfl, hd.symm⟩

/-- A run of inserts is the first one and a run from there. -/
lemma exists_of_insertAll_cons {offer : Offer} (h : s.insertAll (offer :: offers) = (s', results)) :
    ∃ next result rest, s.insert offer.document offer.type = (next, result) ∧
      next.insertAll offers = (s', rest) ∧ results = result :: rest := by
  cases h
  exact ⟨_, _, _, rfl, rfl, rfl⟩

lemma documents_insert (h : s.insert doc type = (s', result)) :
    s'.documents = s.documents ++ storedBy [⟨doc, type⟩] [result] := by
  cases inserts_of_insert h with
  | mismatched => simp [storedBy, Except.toOption]
  | duplicate => simp [storedBy, Except.toOption]
  | stored => simp [storedBy, Except.toOption]

/-- Inserts add a row each, or none, and leave those that are there. -/
lemma documents_insertAll (h : s.insertAll offers = (s', results)) :
    results.length = offers.length ∧ s'.documents = s.documents ++ storedBy offers results := by
  induction offers generalizing s results with
  | nil =>
    cases h
    exact ⟨rfl, (List.append_nil _).symm⟩
  | cons offer offers ih =>
    obtain ⟨next, result, rest, hi, hrest, rfl⟩ := exists_of_insertAll_cons h
    obtain ⟨hlength, hdocs⟩ := ih hrest
    refine ⟨congrArg Nat.succ hlength, ?_⟩
    have hrows : storedBy (offer :: offers) (result :: rest) =
        storedBy [offer] [result] ++ storedBy offers rest := by
      rw [storedBy, List.zip_cons_cons, ← List.singleton_append, List.filterMap_append]
      rfl
    rw [hdocs, documents_insert hi, List.append_assoc, hrows]

/-- Later inserts take nothing back from the answers to earlier ones. -/
lemma insertAll_append (s : Store) (offers more : List Offer) :
    s.insertAll (offers ++ more) = (((s.insertAll offers).1.insertAll more).1,
      (s.insertAll offers).2 ++ ((s.insertAll offers).1.insertAll more).2) := by
  induction offers generalizing s with
  | nil => rfl
  | cons offer offers ih => simp only [List.cons_append, insertAll, ih]

/-! ### Ids -/

lemma Built.insertAll (hs : Built s) (h : s.insertAll offers = (s', results)) : Built s' := by
  induction offers generalizing s results with
  | nil =>
    cases h
    exact hs
  | cons offer offers ih =>
    obtain ⟨next, result, rest, hi, hrest, rfl⟩ := exists_of_insertAll_cons h
    exact ih (hs.insert hi) hrest

/-- No two documents have one id. -/
lemma Built.nodup_ids (h : Built s) : (s.documents.map StoredDocument.id).Nodup := by
  rw [← List.nodup_reverse, ← h.ids]
  induction h with
  | empty => exact List.nodup_nil
  | insert _ hi ih =>
    cases inserts_of_insert hi with
    | mismatched => exact ih
    | duplicate => exact ids_counted.symm ▸ ih
    | stored _ hnew => exact List.nodup_cons.mpr ⟨hnew, ih⟩

lemma Built.get?_eq_some_iff (h : Built s) : s.get? id = some d ↔ d ∈ s.documents ∧ d.id = id := by
  constructor
  · intro hd
    exact ⟨List.mem_of_find?_eq_some hd, by simpa using List.find?_some hd⟩
  · rintro ⟨hmem, rfl⟩
    obtain ⟨d', hd'⟩ : ∃ d', s.get? d.id = some d' :=
      Option.isSome_iff_exists.mp (List.find?_isSome.mpr ⟨d, hmem, beq_self_eq_true _⟩)
    have hid : d'.id = d.id := by simpa using List.find?_some hd'
    rw [hd', List.inj_on_of_nodup_map h.nodup_ids (List.mem_of_find?_eq_some hd') hmem hid]

/-! ### Numbers -/

/-- The ids of each type are those that were given out for it, from the first on. -/
def Numbered (s : Store) : Prop := ∀ type,
  (s.ofType type).map StoredDocument.id =
    (List.range (s.counter type)).map fun n => assignedId type (n + 1)

lemma numbered_empty : Numbered empty := fun _ => rfl

/-- The next id of a type is not in use, and no other type's looks like it. -/
lemma Numbered.next_not_mem (h : Numbered s) (hs : Built s) (type : String) :
    assignedId type (s.counter type + 1) ∉ s.ids := by
  intro hused
  obtain ⟨d, hd, hid⟩ := hs.mem_ids.mp hused
  have hmem : d.id ∈ (s.ofType d.type).map StoredDocument.id :=
    List.mem_map_of_mem (List.mem_filter.mpr ⟨hd, beq_self_eq_true _⟩)
  rw [h d.type] at hmem
  obtain ⟨n, hn, hnumber⟩ := List.mem_map.mp hmem
  obtain ⟨htype, heq⟩ := assignedId_inj.mp (hnumber.trans hid)
  rw [List.mem_range, htype] at hn
  omega

/-- An insert of a document that names no id keeps the ids numbered, and is no duplicate. -/
lemma Numbered.insert (h : Numbered s) (hs : Built s) (hnone : namedId? doc = none)
    (hi : s.insert doc type = (s', result)) :
    Numbered s' ∧ ∀ id, result ≠ .error (.duplicate id) := by
  cases inserts_of_insert hi with
  | mismatched => exact ⟨h, fun _ => by simp⟩
  | duplicate htype hused =>
    rw [idFor_of_unnamed ⟨htype, hnone⟩] at hused
    exact absurd hused (h.next_not_mem hs type)
  | stored htype hnew =>
    have hu : Unnamed doc type := ⟨htype, hnone⟩
    refine ⟨fun other => ?_, fun _ => by simp⟩
    -- the count and the rows of the type go up by one together; other types see neither
    have hother := h other
    rw [ofType] at hother ⊢
    rw [List.filter_append, List.map_append, hother]
    show _ = (List.range ((s.counted doc type).counter other)).map _
    rw [counter_counted, idFor_of_unnamed hu]
    by_cases hname : other = type
    · subst hname
      simp [hu, List.range_succ]
    · simp [hname, Ne.symm hname]

lemma Numbered.insertAll (h : Numbered s) (hs : Built s)
    (hnone : ∀ offer ∈ offers, namedId? offer.document = none)
    (hall : s.insertAll offers = (s', results)) :
    Numbered s' ∧ ∀ id, .error (.duplicate id) ∉ results := by
  induction offers generalizing s results with
  | nil =>
    cases hall
    exact ⟨h, fun _ => List.not_mem_nil⟩
  | cons offer offers ih =>
    obtain ⟨next, result, rest, hi, hrest, rfl⟩ := exists_of_insertAll_cons hall
    obtain ⟨hoffer, hoffers⟩ := List.forall_mem_cons.mp hnone
    obtain ⟨hnext, hresult⟩ := h.insert hs hoffer hi
    obtain ⟨hlast, hresults⟩ := ih hnext (hs.insert hi) hoffers hrest
    refine ⟨hlast, fun id hmem => ?_⟩
    rcases List.mem_cons.mp hmem with heq | hmem
    · exact hresult id heq.symm
    · exact hresults id hmem

/-- **The books are kept.** After any inserts, refused or not, the ids of the documents are
distinct, and they are the ids in use. The rows are those of the inserts that were answered by an
id, in their order, and whatever is put in later changes neither these answers nor these rows. An
id finds the document that was put in by the insert that it answered, and nothing else. If no
document named an id, the ids of each type are its name and a number, from one on in the order of
the inserts, and no insert was refused as a duplicate. -/
theorem inserts_keep_books (h : empty.insertAll offers = (s, results)) :
    ((s.documents.map StoredDocument.id).Nodup ∧
        ∀ id, id ∈ s.ids ↔ id ∈ s.documents.map StoredDocument.id) ∧
      (results.length = offers.length ∧ s.documents = storedBy offers results ∧
        ∀ more, empty.insertAll (offers ++ more) =
            ((s.insertAll more).1, results ++ (s.insertAll more).2) ∧
          s.documents <+: (s.insertAll more).1.documents) ∧
      (∀ id d, s.get? id = some d ↔
        ∃ offer, (offer, .ok id) ∈ offers.zip results ∧ d = ⟨id, offer.type, offer.document⟩) ∧
      ((∀ offer ∈ offers, namedId? offer.document = none) →
        (∀ type, ∃ k, ((storedBy offers results).filter (·.type == type)).map StoredDocument.id =
          (List.range k).map fun n => assignedId type (n + 1)) ∧
        ∀ id, .error (.duplicate id) ∉ results) := by
  have hs : Built s := Built.empty.insertAll h
  obtain ⟨hlength, hdocs⟩ := documents_insertAll h
  replace hdocs : s.documents = storedBy offers results := hdocs
  refine ⟨⟨hs.nodup_ids, fun id => ?_⟩, ⟨hlength, hdocs, fun more => ⟨?_, ?_⟩⟩, fun id d => ?_,
    fun hnone => ?_⟩
  · rw [hs.ids, List.mem_reverse]
  · rw [insertAll_append, h]
  · have hmore : s.insertAll more = ((s.insertAll more).1, (s.insertAll more).2) := rfl
    rw [(documents_insertAll hmore).2]
    exact List.prefix_append _ _
  · rw [hs.get?_eq_some_iff, hdocs, mem_storedBy]
    constructor
    · rintro ⟨hd, rfl⟩
      exact hd
    · rintro ⟨offer, hmem, rfl⟩
      exact ⟨⟨offer, hmem, rfl⟩, rfl⟩
  · obtain ⟨hnumbered, hresults⟩ := numbered_empty.insertAll .empty hnone h
    exact ⟨fun type => ⟨s.counter type, hdocs ▸ hnumbered type⟩, hresults⟩

/-- Two people, between them a document of a type that is called like the id of the first, and a
document that is offered as of another type. -/
def peopleOffers : List Offer :=
  [⟨person, "Person"⟩, ⟨.obj [("@type", .str "Person/1")], "Person/1"⟩, ⟨person, "Probe"⟩,
    ⟨person, "Person"⟩]

/-- The people are numbered in turn, and their ids are theirs alone. -/
theorem people_inserts_keep_books : ∃ s results, empty.insertAll peopleOffers = (s, results) ∧
    (∀ offer ∈ peopleOffers, namedId? offer.document = none) ∧
    results = [.ok "Person/1", .ok "Person/1/1", .error (.typeMismatch "Probe" "Person"),
      .ok "Person/2"] ∧
    (s.documents.map StoredDocument.id).Nodup ∧
    (∃ k, ((storedBy peopleOffers results).filter (·.type == "Person")).map StoredDocument.id =
      (List.range k).map fun n => assignedId "Person" (n + 1)) ∧
    ∀ id, .error (.duplicate id) ∉ results := by
  have h : empty.insertAll peopleOffers = ((empty.insertAll peopleOffers).1,
      [.ok "Person/1", .ok "Person/1/1", .error (.typeMismatch "Probe" "Person"),
        .ok "Person/2"]) := rfl
  have hnone : ∀ offer ∈ peopleOffers, namedId? offer.document = none := by decide
  obtain ⟨⟨hnodup, -⟩, -, -, hnumbered⟩ := inserts_keep_books h
  exact ⟨_, _, h, hnone, rfl, hnodup, (hnumbered hnone).1 "Person", (hnumbered hnone).2⟩

end Store

end RecordCuration
