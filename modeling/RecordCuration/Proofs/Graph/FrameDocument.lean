import RecordCuration.Proofs.Frame
import RecordCuration.Proofs.Outcome

/-!
Class documents read as frames.

The document of a class is read in two ways: as an entry of a graph schema, whose fields name their
types, and as a frame, whose fields may have enumerations written out. An entry stands for the frame
in which every name is that of a class. Member by member the readers come to fields that stand for
each other, and an inline enumeration is all that one of them reads and the other does not.
-/

namespace RecordCuration

/-! ### The frame that an entry stands for -/

/-- The type that a target is where no name is known to be an enumeration. -/
def FrameType.ofTarget : Target → FrameType
  | .scalar s => .scalar s
  | .reference name => .classRef name

@[simp] lemma FrameType.target_ofTarget (t : Target) : (ofTarget t).target = t := by
  cases t <;> rfl

lemma FrameType.ofTarget_inj {t u : Target} : ofTarget t = ofTarget u ↔ t = u :=
  ⟨fun h => by rw [← target_ofTarget t, h, target_ofTarget], fun h => h ▸ rfl⟩

/-- Every type but an enumeration comes from its target. -/
lemma FrameType.ofTarget_target_iff {type : FrameType} :
    ofTarget type.target = type ↔ ∀ id values, type ≠ .enumeration id values := by
  cases type <;> simp [target, ofTarget]

def ClassField.toFrameField (f : ClassField) : FrameField :=
  ⟨f.name, .ofTarget f.target, f.cardinality⟩

def ClassEntry.toFrame (c : ClassEntry) : Frame :=
  ⟨c.id, c.comment, c.properties, c.fields.map ClassField.toFrameField⟩

/-- The class field of a frame field, an enumeration by its name. -/
def FrameField.toClassField (f : FrameField) : ClassField := ⟨f.name, f.type.target, f.cardinality⟩

def Frame.toClassEntry (fr : Frame) : ClassEntry :=
  ⟨fr.name, fr.comment, fr.properties, fr.fields.map FrameField.toClassField⟩

/-- No field of the frame is an enumeration. -/
def Frame.NamesTypes (fr : Frame) : Prop :=
  ∀ f ∈ fr.fields, ∀ id values, f.type ≠ .enumeration id values

lemma Frame.toFrame_toClassEntry {fr : Frame} (h : fr.NamesTypes) :
    fr.toClassEntry.toFrame = fr := by
  have hfields : fr.fields.map (ClassField.toFrameField ∘ FrameField.toClassField) = fr.fields := by
    refine (List.map_congr_left fun f hf => ?_).trans (List.map_id _)
    have htype := FrameType.ofTarget_target_iff.mpr (h f hf)
    show (⟨f.name, .ofTarget f.type.target, f.cardinality⟩ : FrameField) = f
    rw [htype]
  rw [toClassEntry, ClassEntry.toFrame, List.map_map, hfields]

lemma ClassEntry.namesTypes_toFrame (c : ClassEntry) : c.toFrame.NamesTypes := by
  intro f hf
  obtain ⟨g, -, rfl⟩ := List.mem_map.mp hf
  refine FrameType.ofTarget_target_iff.mp ?_
  rw [ClassField.toFrameField, FrameType.target_ofTarget]

/-! ### Types and fields -/

namespace Frame

variable {owner name : String} {v : Json} {t : Target} {m : String × Json} {f : ClassField}

lemma readType_str (type : String) :
    readType owner name (.str type) = .ok (.ofTarget (.ofGraphName type)) := by
  rw [readType]
  cases Target.ofGraphName type <;> rfl

/-- Only a name is read as a type that is no enumeration. -/
lemma readType_eq_ofTarget_iff : readType owner name v = .ok (.ofTarget t) ↔
    ∃ type, v = .str type ∧ .ofGraphName type = t := by
  cases v with
  | str type => simp [readType_str, FrameType.ofTarget_inj]
  | obj ms =>
    refine iff_of_false (fun h => ?_) (by simp)
    rw [readType] at h
    split_ifs at h
    obtain ⟨id, -, h⟩ := bind_eq_ok_iff.mp h
    obtain ⟨values, -, h⟩ := bind_eq_ok_iff.mp h
    cases t <;> cases h
  | _ => simp [readType]

/-- A field has the type that a name stands for exactly if that name is written. -/
lemma map_readType_eq_ok_iff {c : Cardinality} :
    (readType owner name v).map (⟨name, ·, c⟩) = .ok f.toFrameField ↔
      ∃ type, v = .str type ∧ ⟨name, .ofGraphName type, c⟩ = f := by
  rw [map_eq_ok_iff]
  constructor
  · rintro ⟨type, htype, h⟩
    obtain ⟨rfl, rfl, rfl⟩ := FrameField.mk.inj h
    obtain ⟨written, rfl, htarget⟩ := readType_eq_ofTarget_iff.mp htype
    exact ⟨written, rfl, by rw [htarget]⟩
  · rintro ⟨type, rfl, rfl⟩
    exact ⟨_, readType_str type, rfl⟩

lemma readField_enum (h : isEnumDocument v = true) :
    readField owner (name, v) = (readType owner name v).map (⟨name, ·, .required⟩) := by
  cases v with
  | obj ms => simp only [readField, h, ↓reduceIte]
  | _ => rfl

lemma readField_wrapped_iff {ms : List (String × Json)} {g : FrameField}
    (h : isEnumDocument (.obj ms) = false) : readField owner (name, .obj ms) = .ok g ↔
      ∃ c, GraphSchema.wrapperCardinality owner name (.obj ms) = .ok c ∧
        ∃ inner, ms.lookup "@class" = some inner ∧
          (readType owner name inner).map (⟨name, ·, c⟩) = .ok g := by
  simp only [readField, h, Bool.false_eq_true, ↓reduceIte, bind_eq_ok_iff]
  refine exists_congr fun c => and_congr_right fun _ => ?_
  cases ms.lookup "@class" with
  | none => simp
  | some inner => simp

/-- A member is a field of a class exactly if it is read as the frame field that this stands for. -/
lemma readField_iff : GraphSchema.readField owner m = .ok f ↔
    readField owner m = .ok f.toFrameField := by
  obtain ⟨name, v⟩ := m
  cases v with
  | str type =>
    have hframe : readField owner (name, .str type) =
        (readType owner name (.str type)).map (⟨name, ·, .required⟩) := rfl
    rw [hframe, map_readType_eq_ok_iff]
    simp [GraphSchema.readField]
  | obj ms =>
    cases henum : isEnumDocument (.obj ms) with
    | true =>
      -- Written out in place of a type: only the frame reader takes it, and as an enumeration.
      have hwrapper : (Json.obj ms).stringOr "@type" = "Enum" := by
        simpa [isEnumDocument] using henum
      rw [readField_enum henum, map_readType_eq_ok_iff]
      simp [GraphSchema.readField, GraphSchema.wrapperCardinality, hwrapper, Cardinality.ofWrapper?,
        bind_eq_ok_iff]
    | false =>
      rw [readField_wrapped_iff henum, GraphSchema.readField, bind_eq_ok_iff]
      refine exists_congr fun c => and_congr_right fun _ => ?_
      simp only [map_readType_eq_ok_iff]
      cases ms.lookup "@class" with
      | none => simp
      | some inner => cases inner <;> simp [pure, Except.pure]
  | _ => simp [GraphSchema.readField, readField, readType, Except.map]

lemma readFields_iff {members : List (String × Json)} {fields : List ClassField} :
    members.mapM (GraphSchema.readField owner) = .ok fields ↔
      members.mapM (readField owner) = .ok (fields.map ClassField.toFrameField) := by
  rw [mapM_eq_ok_iff, mapM_eq_ok_iff, List.forall₂_map_right_iff]
  simp only [readField_iff]

end Frame

/-! ### Documents -/

namespace GraphSchema

variable {ms : List (String × Json)} {id : String} {c : ClassEntry} {fr : Frame}

/-- The documentation that both readers take, unless it is a list of records. -/
lemma documentation_eq (h : ∀ records, ms.lookup "@documentation" ≠ some (.arr records)) :
    Frame.documentation ms = (ms.lookup "@documentation").getD .null := by
  unfold Frame.documentation
  split
  · rename_i records hrecords
    exact absurd hrecords (h records)
  · rename_i hv
    rw [hv]
    rfl
  · rename_i hnone
    rw [hnone]
    rfl

/-- A document is that of an entry exactly if it is that of the frame that the entry stands for. -/
lemma readClass_eq_ok_iff (hid : ms.lookup "@id" = some (.str id))
    (hdoc : ∀ records, ms.lookup "@documentation" ≠ some (.arr records)) :
    readClass (.obj ms) = .ok c ↔ Frame.ofJson id (.obj ms) = .ok c.toFrame := by
  have hdocument : documentId (.obj ms) = .ok id := by
    rw [documentId, Json.member?, hid]
  -- Both readers put the fields of the same members beside the same texts.
  set documentation := (ms.lookup "@documentation").getD .null with hdocumentation
  have hclass : readClass (.obj ms) = ((fieldMembers ms).mapM (readField id)).map
      (⟨id, documentation.stringOr "@comment", documentedProperties documentation, ·⟩) := by
    unfold readClass
    rw [hdocument]
    rfl
  have hframe : Frame.ofJson id (.obj ms) = ((fieldMembers ms).mapM (Frame.readField id)).map
      (⟨id, documentation.stringOr "@comment", documentedProperties documentation, ·⟩) := by
    rw [hdocumentation, ← documentation_eq hdoc]
    rfl
  rw [hclass, hframe, map_eq_ok_iff, map_eq_ok_iff]
  constructor
  · rintro ⟨fields, hfields, rfl⟩
    exact ⟨_, Frame.readFields_iff.mp hfields, rfl⟩
  · rintro ⟨fields, hfields, h⟩
    obtain ⟨rfl, hcomment, hproperties, rfl⟩ := Frame.mk.inj h
    exact ⟨_, Frame.readFields_iff.mpr hfields, by rw [hcomment, hproperties]⟩

/-- **The readers of class documents agree.** A document with an id, and documented in one record if
at all, is read as an entry exactly if it is read, under that id, as the frame that the entry stands
for: with the comment, the documented fields and the fields of the entry in their order, their
cardinalities and scalars, and a class under each other name. A document that is read as a frame is
that of no entry exactly if one of its fields has an enumeration written out. -/
theorem readers_agree (hid : ms.lookup "@id" = some (.str id))
    (hdoc : ∀ records, ms.lookup "@documentation" ≠ some (.arr records)) :
    (∀ c, readClass (.obj ms) = .ok c ↔ Frame.ofJson id (.obj ms) = .ok c.toFrame) ∧
      ∀ fr, Frame.ofJson id (.obj ms) = .ok fr →
        ((∃ c, readClass (.obj ms) = .ok c) ↔ fr.NamesTypes) := by
  refine ⟨fun c => readClass_eq_ok_iff hid hdoc, fun fr hfr => ⟨?_, fun h => ?_⟩⟩
  · rintro ⟨c, hc⟩
    rw [readClass_eq_ok_iff hid hdoc, hfr] at hc
    cases hc
    exact c.namesTypes_toFrame
  · refine ⟨fr.toClassEntry, (readClass_eq_ok_iff hid hdoc).mpr ?_⟩
    rw [Frame.toFrame_toClassEntry h, hfr]

/-- A time span: when it starts, what it is a part of, and remarks. -/
def spanDocument : List (String × Json) :=
  [("@type", .str "Class"), ("StartDate", .str "xsd:dateTime"), ("@id", .str "TimeSpan"),
    ("Mission", .obj [("@class", .str "Mission"), ("@type", .str "Optional")]),
    ("@documentation", .obj [("@properties", .obj [("StartDate", .str "The first day.")])]),
    ("Note", .obj [("@type", .str "List"), ("@class", .str "xsd:string")])]

def spanEntry : ClassEntry := ⟨"TimeSpan", "", [("StartDate", "The first day.")],
  [⟨"StartDate", .scalar .timestamp, .required⟩, ⟨"Mission", .reference "Mission", .optional⟩,
    ⟨"Note", .scalar .string, .list⟩]⟩

/-- A time span with its kind, whose values are written out. -/
def kindDocument : List (String × Json) :=
  [("@id", .str "TimeSpan"), ("Kind", .obj [("@type", .str "Optional"), ("@class",
    .obj [("@type", .str "Enum"), ("@id", .str "SpanKind"), ("@values", .arr [.str "Orbit"])])])]

/-- The time span is read in both ways, and the one with its kind as a frame alone. -/
theorem span_readers_agree : spanDocument.lookup "@id" = some (.str "TimeSpan") ∧
    (∀ records, spanDocument.lookup "@documentation" ≠ some (.arr records)) ∧
    readClass (.obj spanDocument) = .ok spanEntry ∧
    Frame.ofJson "TimeSpan" (.obj spanDocument) = .ok spanEntry.toFrame ∧
    ∃ fr, Frame.ofJson "TimeSpan" (.obj kindDocument) = .ok fr ∧
      ¬ ∃ c, readClass (.obj kindDocument) = .ok c := by
  have hspan : readClass (.obj spanDocument) = .ok spanEntry := by decide +kernel
  have hkind : Frame.ofJson "TimeSpan" (.obj kindDocument) =
      .ok ⟨"TimeSpan", "", [], [⟨"Kind", .enumeration "SpanKind" ["Orbit"], .optional⟩]⟩ := by
    decide +kernel
  have hspanId : spanDocument.lookup "@id" = some (.str "TimeSpan") := rfl
  have hkindId : kindDocument.lookup "@id" = some (.str "TimeSpan") := rfl
  have hspanDoc : ∀ records, spanDocument.lookup "@documentation" ≠ some (.arr records) := by
    rintro _ ⟨⟩
  obtain ⟨hentry, -⟩ := readers_agree hspanId hspanDoc
  obtain ⟨-, hinline⟩ := readers_agree hkindId (by rintro _ ⟨⟩)
  refine ⟨hspanId, hspanDoc, hspan, (hentry _).mp hspan, _, hkind, fun h => ?_⟩
  exact (hinline _ hkind).mp h _ (List.mem_singleton_self _) _ _ rfl

end GraphSchema

end RecordCuration
