import RecordCuration.Proofs.Graph.OfModel
import RecordCuration.Proofs.JsonSchema.Faults
import RecordCuration.Proofs.JsonSchema.Pool

/-!
The schemas that an accepted model emits.

Every container has one: the shallow schema of its frame after the definitions of all containers
that it leads to. The definitions alone serve the frame.
-/

namespace RecordCuration

open Draft7 JsonSchema

/-- The definitions of a schema. -/
def definitionsOf (source : Json) : List (String × Json) :=
  ((source.member? "definitions") >>= Json.members?).getD []

/-- The definitions of a schema, each for the references that name it. -/
def definitionLibrary (source : Json) : Library :=
  (definitionsOf source).map fun m => (target m.1, Schema.ofJson "$ref" m.2)

namespace JsonSchema

lemma target_inj {a b : String} : target a = target b ↔ a = b := by
  show "#/definitions/" ++ a = "#/definitions/" ++ b ↔ a = b
  simp

lemma lookup_definitionLibrary (source : Json) (name : String) :
    (definitionLibrary source).lookup (target name) =
      ((definitionsOf source).lookup name).map (Schema.ofJson "$ref") := by
  unfold definitionLibrary
  induction definitionsOf source with
  | nil => rfl
  | cons m ms ih =>
    obtain ⟨k, body⟩ := m
    rw [List.map_cons, List.lookup_cons, List.lookup_cons, ih]
    by_cases h : name = k
    · simp [h]
    · simp [beq_false_of_ne h, beq_false_of_ne fun he => h (target_inj.mp he)]

end JsonSchema

/-- The schema that a model emits for a container, taken apart. -/
structure Emitted (g : GraphSchema) (container : String) (source : Json) (root : Frame) :
    Prop where
  schema : g.schemaForClass container = .ok source
  frame : g.frame container = .ok root
  read : ∀ place, Schema.ofJson place source = classSchema root
  pooled : Pooled g.frame root (definitionsOf source)

section Emission

variable {m : Model} {context : GraphContext} {g : GraphSchema} {container : String}

lemma closed_containers (h : GraphSchema.ofModel m context = .ok g) :
    Closed g.frame m.containers := by
  intro name hn
  obtain ⟨fr, hfr, hd⟩ := GraphSchema.exists_frame h hn
  refine ⟨fr, hfr, fun other ⟨f, hf, ht⟩ => ?_⟩
  have hmean := hd.means f hf
  rw [ht] at hmean
  exact hmean.mem_containers

/-- **Every container has a schema**, which its frame and the frames that it leads to describe. -/
theorem exists_emitted (h : GraphSchema.ofModel m context = .ok g) (hc : container ∈ m.containers) :
    ∃ source root, Emitted g container source root := by
  obtain ⟨root, hroot, hd⟩ := GraphSchema.exists_frame h hc
  obtain ⟨definitions, hrun, hp⟩ := exists_ofClass (closed_containers h) hc
    ((GraphSchema.length_containers_le h).trans (Nat.le_succ _)) hroot hd.name
  refine ⟨_, root, hrun, hroot, fun place => ?_, hp⟩
  rw [ofJson_definitions, ofJson_shallow place hd.nodup]

lemma emitted_of_schema (h : GraphSchema.ofModel m context = .ok g) (hc : container ∈ m.containers)
    {source : Json} (hsource : g.schemaForClass container = .ok source) :
    ∃ root, Emitted g container source root := by
  obtain ⟨source', root, he⟩ := exists_emitted h hc
  obtain rfl : source' = source := Except.ok.inj (he.schema.symm.trans hsource)
  exact ⟨root, he⟩

/-- A schema's own definitions serve the frame that it is for. -/
lemma Emitted.served (h : GraphSchema.ofModel m context = .ok g) {source : Json} {root : Frame}
    (he : Emitted g container source root) : Served (definitionLibrary source) g.frame root := by
  have hlookup : ∀ name, (∃ b, (definitionsOf source).lookup name = some b) →
      ((definitionLibrary source).lookup (target name)).isSome := by
    rintro name ⟨b, hb⟩
    simp [lookup_definitionLibrary, hb]
  refine ⟨fun name hn => hlookup name (he.pooled.root name hn), fun name s hs => ?_⟩
  rw [lookup_definitionLibrary] at hs
  obtain ⟨b, hb, rfl⟩ := Option.map_eq_some_iff.mp hs
  obtain ⟨fr, hfr, rfl, hnames⟩ := he.pooled.body name b hb
  obtain ⟨-, hd⟩ := GraphSchema.describes_of_frame h hfr
  exact ⟨fr, hfr, ofJson_shallow "$ref" hd.nodup, fun other ho => hlookup other (hnames other ho)⟩

end Emission

end RecordCuration
