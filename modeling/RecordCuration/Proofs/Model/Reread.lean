import RecordCuration.Proofs.Json.Reread
import RecordCuration.Proofs.Model.Written

/-!
Models written and read again.

A record is written by members, those without a value left out, and what is left out is read as the
value that stands for it. The type of an entry passes through its name; what is read is never a
named type with the name of another one, and such models are those that are read from their text as
they were.
-/

namespace RecordCuration

open Json

/-! ### Types by name -/

namespace TypeTag

/-- The tag is not a named type under the name of another tag. -/
def Canonical (t : TypeTag) : Prop := ofName t.name = t

lemma name_ofName (n : String) : (ofName n).name = n := by
  unfold ofName
  split <;> rfl

lemma canonical_ofName (n : String) : (ofName n).Canonical := congrArg ofName (name_ofName n)

end TypeTag

/-- Every entry has a canonical tag. -/
def Model.Canonical (m : Model) : Prop := ∀ e ∈ m.dictionary.entries, e.2.tag.Canonical

/-! ### Written values as trees -/

namespace Json

lemma itemSources_eq_map (xs : List Json) : itemSources xs = xs.map source := by
  induction xs with
  | nil => rfl
  | cons x xs ih => rw [itemSources, ih, List.map_cons]

namespace Source

@[simp] lemma text_str (s : String) : Notation.text (Json.str s).source = .ok s := by
  show modelText (.text (pieces s)) = _
  simp [modelText, text?_pieces]

@[simp] lemma isNull_str (s : String) : Notation.isNull (Json.str s).source = false := rfl

/-- The members of a written object are read under their names. -/
@[simp] lemma members?_obj (ms : List (String × Json)) :
    Notation.members? (Json.obj ms).source = some (ms.map fun m => (m.1, m.2.source)) := by
  show (memberSources ms).mapM (fun m => (text? m.1).map (·, m.2)) = _
  induction ms with
  | nil => rfl
  | cons m ms ih => simp [memberSources, text?_pieces, ih]

end Source

end Json

namespace Model

/-! ### Reading what was written -/

/-- A table reads back when its entries do. -/
lemma table_toJson {α : Type} {read : Source → Except ShapeFault α} {write : α → Json}
    {t : Table α} (h : ∀ e ∈ t.entries, read (write e.2).source = .ok e.2) :
    table read (t.toJson write).source = .ok t := by
  rw [table_eq_ok_iff]
  refine ⟨_, Source.members?_obj _, ?_⟩
  rw [List.map_map, List.forall₂_map_left_iff, List.forall₂_same]
  exact fun e he => ⟨rfl, h e he⟩

lemma texts_strings (ss : List String) : texts (Json.strings ss).source = .ok ss := by
  show (itemSources (ss.map Json.str)).mapM Notation.text = .ok ss
  rw [itemSources_eq_map, mapM_eq_ok_iff, List.map_map, List.forall₂_map_left_iff,
    List.forall₂_same]
  exact fun s _ => Source.text_str s

lemma fill_none {α : Type} {name : String} {read : Source → Except ShapeFault α} {v : Source}
    {x : α} (h : read v = .ok x) : fill name none read v = .ok (some x) := by
  rw [fill, h]
  rfl

lemma entry_toJson {e : TypeEntry} (h : e.tag.Canonical) : entry e.toJson.source = .ok e := by
  obtain ⟨tag, definition, subElements, allowedValues⟩ := e
  have htag : TypeTag.ofName tag.name = tag := h
  cases subElements <;> cases allowedValues <;>
    simp [entry, TypeEntry.toJson, record, nonemptyStrings, entryOfMembers, entryMember, need,
      fill_none (Source.text_str _), fill_none (texts_strings _), htag, Except.map, bind,
      Except.bind, pure, Except.pure]

lemma use_toJson (f : FieldUse) : use f.toJson.source = .ok f := by
  simp [use, FieldUse.toJson, record, useOfMembers, useMember, need,
    fill_none (Source.text_str _), Except.map, bind, Except.bind, pure, Except.pure]

/-- What is written of a canonical model is read as the model. -/
lemma read_toJson {m : Model} (h : m.Canonical) : read m.toJson.source = .ok m := by
  obtain ⟨version, dictionary, ontology⟩ := m
  have hdictionary : dictionaryOf (dictionary.toJson TypeEntry.toJson).source = .ok dictionary :=
    table_toJson fun e he => entry_toJson (h e he)
  have hontology : ontologyOf (ontology.toJson (Table.toJson FieldUse.toJson)).source =
      .ok ontology :=
    table_toJson fun fields _ => table_toJson fun f _ => use_toJson f.2
  cases version with
  | none =>
    simp [read, toJson, record, ofMembers, modelMember, need, fill_none hdictionary,
      fill_none hontology, Except.map, bind, Except.bind, pure, Except.pure]
  | some version =>
    have hversion : optionalText (Json.str version).source = .ok (some version) := by
      simp [optionalText, Except.map]
    simp [read, toJson, record, ofMembers, modelMember, need, fill_none hversion,
      fill_none hdictionary, fill_none hontology, Except.map, bind, Except.bind, pure, Except.pure]

/-! ### What is read is canonical -/

section Readers

variable {σ : Type} [Notation σ] {v : σ}

lemma WritesEntry.canonical {e : TypeEntry} (h : WritesEntry v e) : e.tag.Canonical := by
  obtain ⟨name, -, htag⟩ := h.2.tag
  rw [htag]
  exact TypeTag.canonical_ofName name

/-- A model that was read is canonical. -/
lemma canonical_of_read {m : Model} (h : Model.read v = .ok m) : m.Canonical := by
  obtain ⟨-, hfrom⟩ := read_eq_ok_iff.mp h
  obtain ⟨d, -, ⟨ms, -, hentries⟩, -⟩ := List.forall₂_cons_right_iff.mp hfrom.dictionary
  intro e he
  obtain ⟨m, -, -, hentry⟩ := (exists_of_forall₂ hentries).2 e he
  exact hentry.canonical

end Readers

/-! ### Texts -/

lemma measureless_table {α : Type} {write : α → Json} (h : ∀ x, (write x).Measureless)
    (t : Table α) : (t.toJson write).Measureless := by
  refine measureless_obj_iff.mpr fun m hm => ?_
  obtain ⟨e, -, rfl⟩ := List.mem_map.mp hm
  exact h e.2

lemma measureless_toJson (m : Model) : m.toJson.Measureless := by
  have hentry : ∀ e : TypeEntry, e.toJson.Measureless := by
    rintro ⟨tag, definition, subElements, allowedValues⟩
    cases subElements <;> cases allowedValues <;> simp [TypeEntry.toJson, nonemptyStrings]
  have huse : ∀ f : FieldUse, f.toJson.Measureless := fun f => by simp [FieldUse.toJson]
  obtain ⟨version, dictionary, ontology⟩ := m
  cases version <;> simp [toJson, measureless_table hentry,
    measureless_table fun fields => measureless_table huse fields]

lemma ofJsonText_eq_ok_iff {text : String} {m : Model} :
    ofJsonText text = .ok m ↔ ∃ v, Source.ofString? text = some v ∧ Model.read v = .ok m := by
  unfold ofJsonText
  split
  · simp [*]
  · rename_i v hv
    simp only [hv, Option.some.injEq, exists_eq_left']
    split
    · simp [*]
    · split_ifs <;> simp [*]

lemma ofYamlText_eq_ok_iff {text : String} {m : Model} :
    ofYamlText text = .ok m ↔ ∃ v, Yaml.Node.ofString? text = some v ∧ Model.read v = .ok m := by
  unfold ofYamlText
  split
  · simp [*]
  · rename_i v hv
    simp only [hv, mapError_eq_ok_iff, Option.some.injEq, exists_eq_left']

/-- **Models read back exactly if they are canonical.** -/
theorem reads_back_iff_canonical {m : Model} :
    ofJsonText m.toJson.compact = .ok m ↔ m.Canonical := by
  rw [ofJsonText_eq_ok_iff, Source.ofString?_compact m.measureless_toJson.legible]
  constructor
  · rintro ⟨v, -, h⟩
    exact canonical_of_read h
  · exact fun h => ⟨_, rfl, read_toJson h⟩

/-- **Written models read back.** A model that was read from a text, in either notation, is read
from its own text as it was, with all its entries, fields and lists in their order. -/
theorem read_model_reads_back {text : String} {m : Model}
    (h : ofJsonText text = .ok m ∨ ofYamlText text = .ok m) :
    ofJsonText m.toJson.compact = .ok m := by
  rw [reads_back_iff_canonical]
  rcases h with h | h
  · obtain ⟨v, -, hv⟩ := ofJsonText_eq_ok_iff.mp h
    exact canonical_of_read hv
  · obtain ⟨v, -, hv⟩ := ofYamlText_eq_ok_iff.mp h
    exact canonical_of_read hv

/-- A document of a model with what a written one leaves out, and records in both forms. -/
def crewDocument : Json := .obj [("version", .null),
  ("dictionary", .obj [
    ("Name", .arr [.str "Text", .str "as on the list"]),
    ("Crew", .obj [("subElements", strings ["Name", "Rank"]), ("type", .str "Container")]),
    ("Rank", .obj [("type", .str "Text"), ("definition", .str ""), ("allowedValues", .arr [])])]),
  ("ontology", .obj [("Crew", .obj [
    ("Rank", .obj [("occurrence", .str "*"), ("object", .str "Rank")]),
    ("Name", .arr [.str "Name", .str "1"])])])]

def crewModel : Model where
  version := none
  dictionary := ⟨[("Name", ⟨.named "Text", "as on the list", [], []⟩),
    ("Crew", ⟨.container, "", ["Name", "Rank"], []⟩),
    ("Rank", ⟨.named "Text", "", [], []⟩)], by decide⟩
  ontology := ⟨[("Crew", ⟨[("Rank", ⟨"Rank", "*"⟩), ("Name", ⟨"Name", "1"⟩)], by decide⟩)],
    by decide⟩

theorem crewModel_reads_back : ofJsonText crewDocument.compact = .ok crewModel ∧
    ofJsonText crewModel.toJson.compact = .ok crewModel := by
  have hmeasureless : crewDocument.Measureless := by simp [crewDocument]
  have hread : ofJsonText crewDocument.compact = .ok crewModel :=
    ofJsonText_eq_ok_iff.mpr
      ⟨_, Source.ofString?_compact hmeasureless.legible, rfl⟩
  exact ⟨hread, read_model_reads_back (Or.inl hread)⟩

end Model

end RecordCuration
