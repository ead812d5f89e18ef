import RecordCuration.Engine
import RecordCuration.Proofs.Draft7.Library
import RecordCuration.Proofs.Json.Size
import RecordCuration.Proofs.JsonSchema.Emission

/-!
Engines for emitted schemas.

When every reference of an emitted schema resolves to the definition under the name that it gives,
a compiled engine finds in every document the faults that the frames say.
-/

namespace RecordCuration

open Draft7 JsonSchema

/-- References to definitions resolve to the definitions of their names. -/
def ResolvesByName (source : Json) : Prop :=
  ∀ name body, (definitionsOf source).lookup name = some body →
    Reference.resolve source (target name) = .ok body

namespace JsonSchema

/-! ### Needs -/

lemma mem_needsUnder {formats : Bool} {need : Schema.Need} {listed : List (String × Schema)} :
    need ∈ Schema.needsUnder formats listed ↔ ∃ p ∈ listed, need ∈ p.2.needs formats := by
  induction listed with
  | nil => simp [Schema.needsUnder]
  | cons p ps ih => obtain ⟨k, s⟩ := p; simp [Schema.needsUnder, ih]

lemma mem_needs_slotSchema {formats array : Bool} {need : Schema.Need} {t : FrameType} :
    need ∈ (slotSchema array t).needs formats ↔
      ∃ name, t = .classRef name ∧ need = .target (target name) := by
  have htype : need ∈ (typeSchema t).needs formats ↔
      ∃ name, t = .classRef name ∧ need = .target (target name) := by
    cases t with
    | scalar s => cases s <;> simp [typeSchema, Schema.needs, Schema.needsIn]
    | enumeration id values => simp [typeSchema, Schema.needs, Schema.needsIn]
    | classRef name => simp [typeSchema, Schema.needs, target]
  rw [← htype]
  cases array <;> simp [slotSchema, Schema.needs, Schema.needsIn]

/-- A class needs the classes of its fields. -/
lemma mem_needs_classSchema {formats : Bool} {u : String} {fr : Frame} :
    .target u ∈ (classSchema fr).needs formats ↔ ∃ name, fr.Names name ∧ u = target name := by
  have hneeds : (classSchema fr).needs formats = Schema.needsUnder formats (listed fr) := by
    simp [classSchema, Schema.needs, Schema.needsIn]
  simp only [hneeds, mem_needsUnder, listed, List.mem_map, Frame.Names]
  constructor
  · rintro ⟨-, ⟨f, hf, rfl⟩, hp⟩
    obtain ⟨name, ht, hu⟩ := mem_needs_slotSchema.mp hp
    exact ⟨name, ⟨f, hf, ht⟩, by simpa using hu⟩
  · rintro ⟨name, ⟨f, hf, ht⟩, rfl⟩
    exact ⟨_, ⟨f, hf, rfl⟩, mem_needs_slotSchema.mpr ⟨name, ht, rfl⟩⟩

/-! ### Sizes -/

lemma length_definitionsOf_le (source : Json) : (definitionsOf source).length ≤ source.size := by
  unfold definitionsOf
  cases hd : (source.member? "definitions") >>= Json.members? with
  | none => simp
  | some definitions =>
    obtain ⟨v, hv, hm⟩ := Option.bind_eq_some_iff.mp hd
    obtain ⟨ms, rfl⟩ : ∃ ms, source = .obj ms := by cases source <;> simp_all [Json.member?]
    obtain rfl : v = .obj definitions := by cases v <;> simp_all [Json.members?]
    have hsize := Json.size_le_sizeMembers (Json.mem_of_lookup hv)
    have hlen := Json.length_le_sizeMembers definitions
    rw [Json.size] at hsize ⊢
    show definitions.length ≤ _
    omega

end JsonSchema

/-! ### Compiled engines -/

section Compiled

variable {m : Model} {context : GraphContext} {g : GraphSchema} {container : String}
  {source : Json} {root : Frame} {config : ValidationConfig} {e : Engine}

/-- The references to the definitions of a schema. -/
def targetsOf (source : Json) : List String := (definitionsOf source).map fun p => target p.1

lemma mem_targetsOf {name : String} {body : Json}
    (h : (definitionsOf source).lookup name = some body) : target name ∈ targetsOf source :=
  List.mem_map.mpr ⟨_, Json.mem_of_lookup h, rfl⟩

lemma schemaAt_of_lookup (h : GraphSchema.ofModel m context = .ok g)
    (he : Emitted g container source root) (hr : ResolvesByName source) {name : String}
    {body : Json} (hb : (definitionsOf source).lookup name = some body) :
    ∃ fr, g.frame name = .ok fr ∧
      Reference.schemaAt source (target name) = .ok (classSchema fr) ∧
      ∀ other, fr.Names other → ∃ b, (definitionsOf source).lookup other = some b := by
  obtain ⟨fr, hfr, rfl, hnames⟩ := he.pooled.body name body hb
  obtain ⟨-, hd⟩ := GraphSchema.describes_of_frame h hfr
  refine ⟨fr, hfr, ?_, hnames⟩
  rw [Reference.schemaAt, hr name _ hb, Except.map, ofJson_shallow "$ref" hd.nodup]

lemma exists_of_mem_targetsOf {t : String} (ht : t ∈ targetsOf source) :
    ∃ name body, t = target name ∧ (definitionsOf source).lookup name = some body := by
  obtain ⟨p, hp, rfl⟩ := List.mem_map.mp ht
  have hsome := Json.lookup_isSome_iff.mpr (List.mem_map.mpr ⟨p, hp, rfl⟩)
  obtain ⟨body, hb⟩ := Option.isSome_iff_exists.mp hsome
  exact ⟨p.1, body, rfl, hb⟩

lemma closedUnder_targetsOf (h : GraphSchema.ofModel m context = .ok g)
    (he : Emitted g container source root) (hr : ResolvesByName source) (formats : Bool) :
    Library.ClosedUnder formats source (targetsOf source) := by
  intro t ht s hs u hu
  obtain ⟨name, body, rfl, hb⟩ := exists_of_mem_targetsOf ht
  obtain ⟨fr, -, hat, hnames⟩ := schemaAt_of_lookup h he hr hb
  rw [hs] at hat
  cases hat
  obtain ⟨other, hother, rfl⟩ := mem_needs_classSchema.mp hu
  obtain ⟨b, hb'⟩ := hnames other hother
  exact mem_targetsOf hb'

/-- The library of a compiled engine serves the frame that its schema is for. -/
lemma served_of_ofSchema (h : GraphSchema.ofModel m context = .ok g)
    (he : Emitted g container source root) (hr : ResolvesByName source) {formats : Bool}
    {lib : Library} (hlib : Library.ofSchema formats source (classSchema root) = .ok lib) :
    Served lib g.frame root := by
  have hc := closedUnder_targetsOf h he hr formats
  have hneeds : ∀ u, Schema.Need.target u ∈ (classSchema root).needs formats →
      u ∈ targetsOf source := by
    intro u hu
    obtain ⟨name, hn, rfl⟩ := mem_needs_classSchema.mp hu
    obtain ⟨b, hb⟩ := he.pooled.root name hn
    exact mem_targetsOf hb
  have hroom : (targetsOf source).length < source.size + 1 + ([] : Library).length := by
    have := length_definitionsOf_le source
    simp only [targetsOf, List.length_map, List.length_nil]
    omega
  obtain ⟨hp, hg, hm⟩ := Library.collects hc _ _ hneeds ⟨by simp, by simp, by simp⟩ hroom hlib
  refine ⟨fun name hn => hm _ (mem_needs_classSchema.mpr ⟨name, hn, rfl⟩), fun name s hs => ?_⟩
  have hmem := Json.mem_of_lookup hs
  obtain ⟨name', body, htarget, hb⟩ :=
    exists_of_mem_targetsOf (hp.subset (List.mem_map.mpr ⟨_, hmem, rfl⟩))
  obtain rfl : name = name' := target_inj.mp htarget
  obtain ⟨fr, hfr, hat, -⟩ := schemaAt_of_lookup h he hr hb
  have hs' : Reference.schemaAt source (target name) = .ok s :=
    hp.entry (target name, s) hmem
  rw [hat] at hs'
  cases hs'
  exact ⟨fr, hfr, rfl, fun other ho =>
    hg.closed _ _ hs rfl _ (mem_needs_classSchema.mpr ⟨other, ho, rfl⟩)⟩

/-- **Compiled schemas**: an engine for the schema of a container finds in every document the
faults that the frames say. -/
theorem faults_of_compile (h : GraphSchema.ofModel m context = .ok g)
    (he : Emitted g container source root) (hr : ResolvesByName source)
    (hcompile : Engine.compile source config = .ok e) :
    e.config = config ∧ ∀ doc,
      e.faults doc = slotFaults config.formats g.frame false (.classRef container) [] doc := by
  obtain ⟨lib, hlib, rfl⟩ := Engine.parts_of_compile hcompile
  rw [he.read] at hlib
  refine ⟨rfl, fun doc => ?_⟩
  unfold Engine.faults
  rw [he.read]
  exact faults_of_served (served_of_ofSchema h he hr hlib) he.frame doc

end Compiled

end RecordCuration
