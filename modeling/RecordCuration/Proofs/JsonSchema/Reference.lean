import RecordCuration.Proofs.Draft7.MetaSchema
import RecordCuration.Proofs.JsonSchema.Compile
import RecordCuration.Proofs.Path.Pointer
import RecordCuration.Proofs.Sample

/-!
References to plain names.

A name without percent signs, slashes and tildes reads the same after decoding, splitting and
unescaping, so that a reference to it leads to the definition that is kept under it.
-/

namespace RecordCuration

open JsonSchema

namespace Draft7.Reference

/-! ### Decoding -/

lemma toList_loop (bytes : ByteArray) (i : ℕ) (read : List UInt8) :
    ByteArray.toList.loop bytes i read = read.reverse ++ bytes.data.toList.drop i := by
  fun_induction ByteArray.toList.loop bytes i read with
  | case1 i read h ih =>
    have hi : i < bytes.data.toList.length := h
    have hget : bytes.get! i = bytes.data.toList[i] := getElem!_pos bytes.data i h
    rw [ih, hget, List.reverse_cons, List.append_assoc, List.drop_eq_getElem_cons hi]
    rfl
  | case2 i read h =>
    have hi : bytes.data.toList.length ≤ i := Nat.le_of_not_lt h
    rw [List.drop_eq_nil_of_le hi, List.append_nil]

lemma toList_toUTF8_singleton (c : Char) :
    (String.singleton c).toUTF8.toList = String.utf8EncodeChar c := by
  rw [ByteArray.toList, toList_loop, List.drop_zero, List.reverse_nil, List.nil_append,
    String.toUTF8_eq_toByteArray, String.toByteArray_singleton, List.utf8Encode_singleton,
    List.toList_data_toByteArray]

lemma decodeBytes_of_plain {cs : List Char} (h : '%' ∉ cs) :
    decodeBytes cs = cs.flatMap String.utf8EncodeChar := by
  fun_induction decodeBytes cs with
  | case1 => rfl
  | case2 | case3 => simp at h
  | case4 c cs _ ih =>
    rw [toList_toUTF8_singleton, List.flatMap_cons, ih fun hc => h (List.mem_cons_of_mem _ hc)]

/-- Characters that encode nothing stay. -/
lemma percentDecode?_of_plain {cs : List Char} (h : '%' ∉ cs) : percentDecode? cs = some cs := by
  have hbytes : (⟨(decodeBytes cs).toArray⟩ : ByteArray) = (String.ofList cs).toByteArray := by
    rw [decodeBytes_of_plain h, String.toByteArray_ofList, List.utf8Encode]
    exact ByteArray.ext (List.data_toByteArray).symm
  unfold percentDecode?
  rw [hbytes, String.fromUTF8?, dif_pos (String.isValidUTF8 _), Option.map_some, Option.some_inj]
  exact String.toList_ofList

lemma unescape_of_plain {cs : List Char} (h : '~' ∉ cs) : unescape cs = cs := by
  fun_induction unescape cs <;> simp_all

/-! ### Steps -/

lemma step_of_member {pointer : String} {v w : Json} {name : String} (h : '~' ∉ name.toList)
    (hw : v.member? name = some w) : step pointer v name.toList = .ok w := by
  have hname : String.ofList (unescape name.toList) = name := by
    rw [unescape_of_plain h, String.ofList_toList]
  cases v <;> simp_all [step, Json.member?]

end Draft7.Reference

open Draft7

/-- Names that mean themselves in references. -/
def PlainName (name : String) : Prop := ∀ c ∈ name.toList, c ≠ '%' ∧ c ≠ '/' ∧ c ≠ '~'

instance (name : String) : Decidable (PlainName name) :=
  List.decidableBAll _ _

lemma member?_of_lookup {source : Json} {name : String} {body : Json}
    (h : (definitionsOf source).lookup name = some body) :
    ∃ definitions, source.member? "definitions" = some definitions ∧
      definitions.member? name = some body := by
  unfold definitionsOf at h
  cases hd : source.member? "definitions" with
  | none => simp [hd] at h
  | some definitions =>
    refine ⟨definitions, rfl, ?_⟩
    cases definitions with
    | obj ms => rwa [hd] at h
    | _ => rw [hd] at h; cases h

lemma toList_target (name : String) : (target name).toList =
    '#' :: '/' :: ("definitions".toList ++ '/' :: name.toList) := by
  show ("#/definitions/" ++ name).toList = _
  rw [String.toList_append]
  rfl

/-- **Plain names resolve**: a reference to a plain name gives the definition under that name. -/
theorem resolve_of_plain {source : Json} {name : String} (hname : PlainName name) {body : Json}
    (h : (definitionsOf source).lookup name = some body) :
    Reference.resolve source (target name) = .ok body := by
  have hpercent : '%' ∉ name.toList := fun hc => (hname _ hc).1 rfl
  have hslash : '/' ∉ name.toList := fun hc => (hname _ hc).2.1 rfl
  have htilde : '~' ∉ name.toList := fun hc => (hname _ hc).2.2 rfl
  obtain ⟨definitions, hd, hbody⟩ := member?_of_lookup h
  have hdecoded : '%' ∉ "definitions".toList ++ '/' :: name.toList := by
    simp [hpercent]
  simp only [Reference.resolve, toList_target, Reference.percentDecode?_of_plain hdecoded]
  rw [Text.split_append (by simp), Text.split_of_not_mem hslash, List.foldlM_cons,
    Reference.step_of_member (by simp) hd]
  exact bind_eq_ok_iff.mpr ⟨definitions, rfl, bind_eq_ok_iff.mpr
    ⟨body, Reference.step_of_member htilde hbody, rfl⟩⟩

/-- References of an emitted schema resolve by name when the containers of its model have plain
names. -/
theorem resolvesByName_of_plain {m : Model} {context : GraphContext} {g : GraphSchema}
    (hg : GraphSchema.ofModel m context = .ok g) {container : String} {source : Json}
    {root : Frame} (he : Emitted g container source root)
    (hplain : ∀ name ∈ m.containers, PlainName name) : ResolvesByName source := by
  intro name body hb
  obtain ⟨fr, hfr, -, -⟩ := he.pooled.body name body hb
  obtain ⟨hmem, -⟩ := GraphSchema.describes_of_frame hg hfr
  exact resolve_of_plain (hplain name hmem) hb

/-! ### The sample -/

/-- The schema of missions. -/
def sampleSource : Json :=
  match sampleGraph.schemaForClass "Mission" with
  | .ok source => source
  | .error _ => .null

lemma sampleSource_emitted : sampleGraph.schemaForClass "Mission" = .ok sampleSource := by
  rfl

lemma exists_sample_emitted : ∃ root, Emitted sampleGraph "Mission" sampleSource root :=
  emitted_of_schema sample_accepted (by decide) sampleSource_emitted

lemma sampleSource_resolves : ResolvesByName sampleSource := by
  obtain ⟨root, he⟩ := exists_sample_emitted
  exact resolvesByName_of_plain sample_accepted he (by decide)

lemma sampleSource_compiles : (Engine.compile sampleSource .standard).toOption.isSome := by
  rw [Engine.compile_of_admits (by decide +kernel)]
  decide +kernel

def sampleEngine : Engine :=
  (Engine.compile sampleSource .standard).toOption.get sampleSource_compiles

lemma sampleEngine_compiled : Engine.compile sampleSource .standard = .ok sampleEngine :=
  eq_ok_of_isSome sampleSource_compiles

/-- The sample engine says what the frames say. -/
lemma sampleEngine_faults (doc : Json) : sampleEngine.faults doc =
    slotFaults true sampleGraph.frame false (.classRef "Mission") [] doc := by
  obtain ⟨root, he⟩ := exists_sample_emitted
  exact (faults_of_compile sample_accepted he sampleSource_resolves sampleEngine_compiled).2 doc

/-- It keeps every issue. -/
lemma sampleEngine_validate (doc : Json) : sampleEngine.validate doc = sampleEngine.issues doc := by
  obtain ⟨root, he⟩ := exists_sample_emitted
  have hconfig :=
    (faults_of_compile sample_accepted he sampleSource_resolves sampleEngine_compiled).1
  exact Engine.validate_of_unlimited (by rw [hconfig]; rfl) doc

end RecordCuration
