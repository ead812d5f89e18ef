import RecordCuration.Proofs.Draft7.Emitted
import RecordCuration.Proofs.JsonSchema.Pool
import RecordCuration.Proofs.Sample

/-!
The definitions of a schema and the classes that its frame leads to.

Definitions are made while fields are visited: a class that is known is passed over, one in
progress is finished later, and the root is added at the end if it was referred to. None of that
shows in the result. The definitions are those of the classes that occur in the root or in a frame
reached from it, each the shallow schema of its class.
-/

namespace RecordCuration

open JsonSchema

/-- The frames reached from a root by way of the classes that occur in frames. -/
inductive Frame.Reaches (resolver : Resolver) (root : Frame) : Frame → Prop where
  | root : Reaches resolver root root
  | step {fr next : Frame} {name : String} (h : Reaches resolver root fr) (hn : fr.Names name)
    (hnext : resolver name = .ok next) : Reaches resolver root next

/-- A class occurs in the root or in a frame reached from it. -/
def Frame.LeadsTo (resolver : Resolver) (root : Frame) (name : String) : Prop :=
  ∃ fr, root.Reaches resolver fr ∧ fr.Names name

lemma Frame.LeadsTo.step {resolver : Resolver} {root fr : Frame} {name other : String}
    (h : root.LeadsTo resolver name) (hfr : resolver name = .ok fr) (hn : fr.Names other) :
    root.LeadsTo resolver other :=
  have ⟨_, hr, ho⟩ := h
  ⟨fr, hr.step ho hfr, hn⟩

namespace JsonSchema

/-- The frames that a build goes by: the class of the root has the root itself, whatever else the
resolver would answer. -/
def rooted (resolver : Resolver) (root : Frame) : Resolver := fun name =>
  if name = root.name then .ok root else resolver name

lemma rooted_self {resolver : Resolver} {root : Frame} :
    rooted resolver root root.name = .ok root := if_pos rfl

lemma rooted_eq {resolver : Resolver} {root : Frame} (h : resolver root.name = .ok root) :
    rooted resolver root = resolver := by
  funext name
  unfold rooted
  split_ifs with hn
  · rw [hn, h]
  · rfl

/-! ### Nothing beside the reached -/

/-- A pool has definitions, each name once, and references for classes of one kind only. -/
structure Pool.Within (S : String → Prop) (p : Pool) : Prop where
  nodup : (p.definitions.map Prod.fst).Nodup
  defined : ∀ name ∈ p.definitions.map Prod.fst, S name
  referred : ∀ name ∈ p.referenced, S name

section Within

variable {S : String → Prop} {resolver : Resolver} {name : String} {p p' : Pool}

lemma Pool.Within.refer (h : p.Within S) (hn : S name) : (p.refer name).Within S :=
  ⟨h.nodup, h.defined, List.forall_mem_cons.mpr ⟨hn, h.referred⟩⟩

lemma Pool.Within.leave (h : p.Within S) (hn : S name) (body : Json) :
    (p.leave name body).Within S := by
  have hkeys : (p.leave name body).definitions.map Prod.fst =
      if name ∈ p.definitions.map Prod.fst then p.definitions.map Prod.fst
      else p.definitions.map Prod.fst ++ [name] := Members.keys_insert _ _ _
  refine ⟨?_, ?_, h.referred⟩ <;> rw [hkeys]
  · split_ifs with hmem
    · exact h.nodup
    · exact List.nodup_append.mpr ⟨h.nodup, List.nodup_singleton name, by
        rintro a ha b hb rfl
        exact hmem (List.mem_singleton.mp hb ▸ ha)⟩
  · split_ifs
    · exact h.defined
    · exact fun n hm => (List.mem_append.mp hm).elim (h.defined n) fun hn' =>
        List.mem_singleton.mp hn' ▸ hn

lemma Pool.Within.visits {make : String → Build Unit}
    (hmake : ∀ {name : String} {p p' : Pool}, S name → p.Within S → make name p = .ok () p' →
      p'.Within S) {fs : List FrameField} (hfs : ∀ f ∈ fs, ∀ name, f.type = .classRef name → S name)
    (hp : p.Within S) (h : fs.forM (visitField make) p = .ok () p') : p'.Within S := by
  induction fs generalizing p with
  | nil =>
    obtain rfl : p = p' := (pure_eq_ok.mp h).2
    exact hp
  | cons f fs ih =>
    obtain ⟨hf, hfs⟩ := List.forall_mem_cons.mp hfs
    obtain ⟨q, hq, hrest⟩ := visits_cons_eq_ok_iff.mp h
    rcases visitField_eq_ok_iff.mp hq with ⟨name, r, ht, hr, rfl⟩ | ⟨-, rfl⟩
    · exact ih hfs ((hmake (hf name ht) hp hr).refer (hf name ht)) hrest
    · exact ih hfs hp hrest

/-- Making a definition stays within the classes that the frames of its class lead to. -/
theorem within_define (hS : ∀ name fr, S name → resolver name = .ok fr →
    ∀ other, fr.Names other → S other) (budget : ℕ) {name : String} {p p' : Pool} (hn : S name)
    (hp : p.Within S) (h : define resolver budget name p = .ok () p') : p'.Within S := by
  induction budget generalizing name p p' with
  | zero => cases h
  | succ budget ih =>
    by_cases hk : p.isKnown name = true
    · rw [define_of_known hk] at h
      cases h; exact hp
    · obtain ⟨fr, q, hfr, hq, rfl⟩ := (define_eq_ok_iff hk).mp h
      have henter : (p.enter name).Within S := ⟨hp.nodup, hp.defined, hp.referred⟩
      have hq' : q.Within S := henter.visits (fun h1 h2 h3 => ih h1 h2 h3)
        (fun f hf other ht => hS name fr hn hfr other ⟨f, hf, ht⟩) hq
      exact hq'.leave hn _

end Within

/-! ### The root stands for its class -/

section Agreeing

variable {resolver other : Resolver} {root : String} {p p' : Pool}

lemma visits_agree {budget : ℕ}
    (hmake : ∀ {name : String} {p p' : Pool}, p.Sound resolver → root ∈ p.inProgress →
      define resolver budget name p = .ok () p' → define other budget name p = .ok () p')
    {fs : List FrameField} (hp : p.Sound resolver) (hroot : root ∈ p.inProgress)
    (h : fs.forM (visitField (define resolver budget)) p = .ok () p') :
    fs.forM (visitField (define other budget)) p = .ok () p' := by
  induction fs generalizing p with
  | nil => exact h
  | cons f fs ih =>
    obtain ⟨q, hq, hrest⟩ := visits_cons_eq_ok_iff.mp h
    refine visits_cons_eq_ok_iff.mpr ⟨q, visitField_eq_ok_iff.mpr ?_, ?_⟩
    · exact (visitField_eq_ok_iff.mp hq).imp_left fun ⟨name, r, ht, hr, he⟩ =>
        ⟨name, r, ht, hmake hp hroot hr, he⟩
    · rcases visitField_eq_ok_iff.mp hq with ⟨name, r, -, hr, rfl⟩ | ⟨-, rfl⟩
      · obtain ⟨hs, he, hk⟩ := keeps_define resolver budget hp hr
        refine ih (hs.refer hk) ?_ hrest
        show root ∈ r.inProgress
        rwa [he.inProgress]
      · exact ih hp hroot hrest

/-- A class in progress is never asked for, so it does not matter what the answer would be. -/
theorem define_agree (hagree : ∀ name ≠ root, resolver name = other name) (budget : ℕ)
    {name : String} (hp : p.Sound resolver) (hroot : root ∈ p.inProgress)
    (h : define resolver budget name p = .ok () p') : define other budget name p = .ok () p' := by
  induction budget generalizing name p p' with
  | zero => cases h
  | succ budget ih =>
    by_cases hk : p.isKnown name = true
    · rw [define_of_known hk] at h ⊢
      exact h
    · obtain ⟨fr, q, hfr, hq, rfl⟩ := (define_eq_ok_iff hk).mp h
      have hne : name ≠ root := by
        rintro rfl
        exact hk (Pool.isKnown_iff.mpr (Or.inr hroot))
      refine (define_eq_ok_iff hk).mpr ⟨fr, q, hagree name hne ▸ hfr, ?_, rfl⟩
      exact visits_agree (fun h1 h2 h3 => ih h1 h2 h3) hp.enter (List.mem_cons_of_mem _ hroot) hq

end Agreeing

/-! ### Whole schemas -/

section Whole

variable {resolver : Resolver} {budget : ℕ} {root : Frame} {schema : Json} {p p' : Pool}

/-- The pool at the end, when the fields of the root have been visited. -/
def Pool.finish (root : Frame) (q : Pool) : Pool :=
  if root.name ∈ q.referenced then q.leave root.name (.obj (shallow root)) else q.stop root.name

/-- The schema of a frame comes from visiting its fields. -/
lemma ofFrame_eq_ok_iff : ofFrame resolver budget root p = .ok schema p' ↔
    ∃ q, root.fields.forM (visitField (define resolver budget)) (p.start root.name) = .ok () q ∧
      schema = .obj (("definitions", .obj p'.definitions) :: shallow root) ∧
      p' = q.finish root := by
  unfold ofFrame objectSchema Pool.finish
  simp only [bind_eq_ok, modify_eq_ok, get_eq_ok, pure_eq_ok]
  constructor
  · rintro ⟨u, p1, rfl, body, q, ⟨v, q', hq, rfl, rfl⟩, w, p2, rfl, p3, p4, ⟨rfl, rfl⟩, hr⟩
    refine ⟨_, hq, ?_⟩
    by_cases href : root.name ∈ q'.referenced
    · rw [if_pos (show root.name ∈ (q'.stop root.name).referenced from href)] at hr
      rw [if_pos href]
      cases hr; exact ⟨rfl, rfl⟩
    · rw [if_neg (show root.name ∉ (q'.stop root.name).referenced from href)] at hr
      rw [if_neg href]
      cases hr; exact ⟨rfl, rfl⟩
  · rintro ⟨q, hq, rfl, rfl⟩
    refine ⟨(), _, rfl, _, _, ⟨(), q, hq, rfl, rfl⟩, (), _, rfl, _, _, ⟨rfl, rfl⟩, ?_⟩
    by_cases href : root.name ∈ q.referenced
    · rw [if_pos (show root.name ∈ (q.stop root.name).referenced from href), if_pos href]
      rfl
    · rw [if_neg (show root.name ∉ (q.stop root.name).referenced from href), if_neg href]
      rfl

lemma definitions_finish (q : Pool) : (q.finish root).definitions =
    if root.name ∈ q.referenced then (q.leave root.name (.obj (shallow root))).definitions
    else q.definitions := by
  unfold Pool.finish
  split_ifs <;> rfl

/-- A pool before the first class. -/
structure Pool.Fresh (p : Pool) : Prop where
  definitions : p.definitions = []
  inProgress : p.inProgress = []
  referenced : p.referenced = []

lemma Pool.Fresh.sound (hp : p.Fresh) (name : String) : (p.start name).Sound resolver :=
  ⟨fun n b hb => by simp [Pool.start, hp.definitions] at hb,
    fun n hn => by simp [Pool.start, hp.referenced] at hn⟩

lemma Pool.Fresh.within (hp : p.Fresh) (name : String) (S : String → Prop) :
    (p.start name).Within S :=
  ⟨by simp [Pool.start, hp.definitions], fun n hn => by simp [Pool.start, hp.definitions] at hn,
    fun n hn => by simp [Pool.start, hp.referenced] at hn⟩

/-- While the root is in progress its class stands for the root. -/
lemma visits_rooted_iff (hp : p.Fresh) {q : Pool} :
    root.fields.forM (visitField (define resolver budget)) (p.start root.name) = .ok () q ↔
      root.fields.forM (visitField (define (rooted resolver root) budget)) (p.start root.name) =
        .ok () q := by
  have hagree : ∀ name ≠ root.name, resolver name = rooted resolver root name :=
    fun name hne => (if_neg hne).symm
  have hstart : root.name ∈ (p.start root.name).inProgress := List.mem_cons_self
  exact ⟨visits_agree (fun h1 h2 h3 => define_agree hagree budget h1 h2 h3) (hp.sound _) hstart,
    visits_agree (fun h1 h2 h3 => define_agree (fun n hn => (hagree n hn).symm) budget h1 h2 h3)
      (hp.sound _) hstart⟩

/-- The definitions of a schema are closed, and made for classes that the root leads to. -/
theorem definitions_of_ofFrame (hp : p.Fresh) (h : ofFrame resolver budget root p = .ok schema p') :
    schema = .obj (("definitions", .obj p'.definitions) :: shallow root) ∧
      Pooled (rooted resolver root) root p'.definitions ∧
      p'.Within (root.LeadsTo (rooted resolver root)) := by
  obtain ⟨q, hq, hschema, rfl⟩ := ofFrame_eq_ok_iff.mp h
  have hstart : (p.start root.name).inProgress = [root.name] := by
    simp [Pool.start, hp.inProgress]
  have hq' := (visits_rooted_iff hp).mp hq
  have hwithin : q.Within (root.LeadsTo (rooted resolver root)) :=
    (hp.within root.name _).visits
      (fun h1 h2 h3 => within_define (fun _ _ hn hfr _ ho => hn.step hfr ho) budget h1 h2 h3)
      (fun f hf name ht => ⟨root, .root, f, hf, ht⟩) hq'
  refine ⟨hschema, ?_, ?_⟩
  · rw [definitions_finish]
    exact pooled_of_visits rooted_self (hp.sound root.name) hstart hq'
  · unfold Pool.finish
    split_ifs with href
    · exact hwithin.leave (hwithin.referred _ href) _
    · exact ⟨hwithin.nodup, hwithin.defined, hwithin.referred⟩

/-- All classes that a frame leads to are among closed definitions. -/
lemma Pooled.exists_of_leadsTo {definitions : List (String × Json)}
    (hp : Pooled resolver root definitions) {name : String} (h : root.LeadsTo resolver name) :
    ∃ b, definitions.lookup name = some b := by
  obtain ⟨fr, hr, hn⟩ := h
  induction hr generalizing name with
  | root => exact hp.root name hn
  | step _ hother hnext ih =>
    obtain ⟨b, hb⟩ := ih hother
    obtain ⟨fr, hfr, -, hnames⟩ := hp.body _ b hb
    rw [hnext] at hfr
    cases hfr
    exact hnames name hn

lemma mem_keys_iff_leadsTo {p : Pool} (hp : Pooled resolver root p.definitions)
    (hw : p.Within (root.LeadsTo resolver)) {name : String} :
    name ∈ p.definitions.map Prod.fst ↔ root.LeadsTo resolver name := by
  refine ⟨hw.defined name, fun h => ?_⟩
  rw [← Json.lookup_isSome_iff, Option.isSome_iff_exists]
  exact hp.exists_of_leadsTo h

open Classical in
/-- **Building succeeds** on a frame that leads to finitely many classes, given room for them,
exactly when the resolver answers for each. -/
theorem exists_ofFrame_iff {names : List String} (hp : p.Fresh)
    (hnames : ∀ name, root.LeadsTo (rooted resolver root) name → name ∈ names)
    (hb : names.length < budget) : (∃ schema p', ofFrame resolver budget root p = .ok schema p') ↔
      ∀ name, root.LeadsTo (rooted resolver root) name →
        ∃ fr, rooted resolver root name = .ok fr := by
  constructor
  · rintro ⟨schema, p', h⟩ name hl
    obtain ⟨-, hpool, -⟩ := definitions_of_ofFrame hp h
    obtain ⟨b, hlook⟩ := hpool.exists_of_leadsTo hl
    obtain ⟨fr, hfr, -⟩ := hpool.body name b hlook
    exact ⟨fr, hfr⟩
  · intro hall
    -- the root and the classes that it leads to are a closed set
    let reached := root.name :: names.filter (root.LeadsTo (rooted resolver root))
    have hmem : ∀ name, root.LeadsTo (rooted resolver root) name → name ∈ reached := fun name hl =>
      List.mem_cons_of_mem _ (List.mem_filter.mpr ⟨hnames name hl, decide_eq_true hl⟩)
    have hclosed : Closed (rooted resolver root) reached := by
      refine List.forall_mem_cons.mpr ⟨⟨root, rooted_self, fun other ho => ?_⟩, fun name hn => ?_⟩
      · exact hmem other ⟨root, .root, ho⟩
      · have hl := of_decide_eq_true (List.mem_filter.mp hn).2
        obtain ⟨fr, hfr⟩ := hall name hl
        exact ⟨fr, hfr, fun other ho => hmem other (hl.step hfr ho)⟩
    have hroom : (p.start root.name).Room reached budget := by
      have hstart : (p.start root.name).inProgress = [root.name] := by
        simp [Pool.start, hp.inProgress]
      have hle := List.length_filter_le (root.LeadsTo (rooted resolver root) ·) names
      refine ⟨hstart ▸ List.nodup_singleton _, hstart ▸ by simp [reached], ?_⟩
      rw [hstart, List.length_singleton, List.length_cons]
      omega
    obtain ⟨q, hq⟩ := exists_visits (fun h1 h2 h3 => exists_define hclosed h1 h2 h3)
      (fun f hf name ht => hmem name ⟨root, .root, f, hf, ht⟩) (hp.sound root.name) hroom
    exact ⟨_, _, ofFrame_eq_ok_iff.mpr ⟨q, (visits_rooted_iff hp).mpr hq, rfl, rfl⟩⟩

lemma finish_eq_ok_iff {build : Build Json} :
    (finish build).1 = .ok schema ↔ ∃ p, build Pool.empty = .ok schema p := by
  unfold finish EStateM.run
  cases build Pool.empty <;> simp

/-- What a schema that is built from nothing consists of. -/
lemma parts_of_ofFrame (hp : p.Fresh) (h : ofFrame resolver budget root p = .ok schema p') :
    ∃ definitions, schema = .obj (("definitions", .obj definitions) :: shallow root) ∧
      (definitions.map Prod.fst).Nodup ∧
      (∀ name, name ∈ definitions.map Prod.fst ↔ root.LeadsTo (rooted resolver root) name) ∧
      ∀ name body, (name, body) ∈ definitions →
        ∃ fr, rooted resolver root name = .ok fr ∧ body = .obj (shallow fr) := by
  obtain ⟨hschema, hpool, hwithin⟩ := definitions_of_ofFrame hp h
  refine ⟨p'.definitions, hschema, hwithin.nodup, fun name => mem_keys_iff_leadsTo hpool hwithin,
    fun name body hmem => ?_⟩
  obtain ⟨fr, hfr, rfl, -⟩ := hpool.body name body (Json.lookup_of_mem hwithin.nodup hmem)
  exact ⟨fr, hfr, rfl⟩

/-- The schema of a field of a frame: a reference to the class by name, or the fragment of the
scalar or enumeration, and an array of that for a field that repeats. -/
lemma fieldFragment_parts (f : FrameField) :
    (∀ name, f.type = .classRef name →
      typeFragment f.type = .obj [("$ref", .str ("#/definitions/" ++ name))]) ∧
    (f.cardinality.isArray = true → fieldFragment f =
      .obj [("type", .str "array"), ("items", typeFragment f.type)]) ∧
    (f.cardinality.isArray = false → fieldFragment f = typeFragment f.type) := by
  refine ⟨fun name hf => ?_, fun harray => ?_, fun hone => ?_⟩
  · rw [hf]
    rfl
  · rw [fieldFragment, repeated, if_pos harray]
  · rw [fieldFragment, repeated, hone]
    rfl

/-- **The parts of a shallow schema.** It is an object schema of four keywords: the properties are
the fields of the frame in their order, each with the schema of its field; the required ones are
those that must be there, in the same order; and no others are allowed. -/
theorem shallow_parts {fr : Frame} (hfields : (fr.fields.map (·.name)).Nodup) :
    (shallow fr).map Prod.fst = ["type", "properties", "required", "additionalProperties"] ∧
    (shallow fr).lookup "type" = some (.str "object") ∧
    (shallow fr).lookup "properties" =
      some (.obj (fr.fields.map fun f => (f.name, fieldFragment f))) ∧
    (shallow fr).lookup "required" = some (Json.strings
      ((fr.fields.filter (·.cardinality.isRequired)).map (·.name))) ∧
    (shallow fr).lookup "additionalProperties" = some (.bool false) := by
  refine ⟨rfl, rfl, ?_, rfl, rfl⟩
  rw [← ofWrites_fragments hfields]
  rfl

/-- **Definitions are the classes reached**: whatever was in progress when a definition was made,
a schema that is built has one for every class that occurs in the root or in a frame reached from
it, and no others. Each is the shallow schema of its class, without definitions of its own, and so
is the rest of the whole. -/
theorem definitions_reachable (h : (finish (ofFrame resolver budget root)).1 = .ok schema) :
    ∃ definitions, schema = .obj (("definitions", .obj definitions) :: shallow root) ∧
      (definitions.map Prod.fst).Nodup ∧
      (∀ name, name ∈ definitions.map Prod.fst ↔ root.LeadsTo (rooted resolver root) name) ∧
      ∀ name body, (name, body) ∈ definitions → body.member? "definitions" = none ∧
        ∃ fr, rooted resolver root name = .ok fr ∧ body = .obj (shallow fr) := by
  obtain ⟨p, hp⟩ := finish_eq_ok_iff.mp h
  obtain ⟨definitions, hschema, hnodup, hkeys, hbodies⟩ := parts_of_ofFrame ⟨rfl, rfl, rfl⟩ hp
  refine ⟨definitions, hschema, hnodup, hkeys, fun name body hmem => ?_⟩
  obtain ⟨fr, hfr, rfl⟩ := hbodies name body hmem
  exact ⟨rfl, fr, hfr, rfl⟩

end Whole

end JsonSchema

/-! ### The sample -/

/-- The frame of missions, which name time spans, which name missions. -/
def missionFrame : Frame :=
  match sampleGraph.frame "Mission" with
  | .ok fr => fr
  | .error _ => ⟨"Mission", "", [], []⟩

def missionSchema : Json :=
  match (finish (ofFrame sampleGraph.frame 3 missionFrame)).1 with
  | .ok schema => schema
  | .error _ => .null

lemma missionSchema_built :
    (finish (ofFrame sampleGraph.frame 3 missionFrame)).1 = .ok missionSchema := rfl

/-- Missions are among the definitions of their own schema, since time spans name them. -/
theorem mission_definitions_reachable :
    (finish (ofFrame sampleGraph.frame 3 missionFrame)).1 = .ok missionSchema ∧
      ∃ definitions, missionSchema = .obj (("definitions", .obj definitions) ::
          shallow missionFrame) ∧
        (definitions.map Prod.fst).Nodup ∧
        (∀ name, name ∈ definitions.map Prod.fst ↔
          missionFrame.LeadsTo (rooted sampleGraph.frame missionFrame) name) ∧
        ∀ name body, (name, body) ∈ definitions → body.member? "definitions" = none ∧
          ∃ fr, rooted sampleGraph.frame missionFrame name = .ok fr ∧ body = .obj (shallow fr) :=
  ⟨missionSchema_built, definitions_reachable missionSchema_built⟩

end RecordCuration
