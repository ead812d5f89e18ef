import RecordCuration.Frame
import RecordCuration.Proofs.Model.Walk

/-!
Graph schemas and the ids of their entries.

A graph schema comes about from an empty one by pushes, and its context may be set. So the ids that
are taken are those of the entries, each once, and a name finds the one entry that has it, which
decides what a field that refers to the name is of. Entries of distinct ids can be pushed one after
the other; the entries of a walked model are such.
-/

namespace RecordCuration

namespace GraphSchema

/-- The graph schemas that can come about. -/
inductive Built : GraphSchema → Prop where
  | empty (context : GraphContext) : Built (empty context)
  | push {g g' : GraphSchema} {entry : GraphEntry} (h : Built g) (hp : g.push entry = .ok g') :
    Built g'
  | context {g : GraphSchema} (h : Built g) (context : GraphContext) :
    Built { g with context := context }

/-- An entry is refused, and nothing is changed, or it is added with its id. -/
lemma add_eq (g : GraphSchema) (entry : GraphEntry) : g.add entry =
    if entry.id ∈ g.ids then (g, .error (.duplicateId entry.id))
    else ({ g with entries := g.entries ++ [entry], ids := g.ids ++ [entry.id] }, .ok ()) := by
  unfold add takeId
  split_ifs <;> rfl

lemma push_eq_ok_iff {g g' : GraphSchema} {entry : GraphEntry} : g.push entry = .ok g' ↔
    entry.id ∉ g.ids ∧
      { g with entries := g.entries ++ [entry], ids := g.ids ++ [entry.id] } = g' := by
  rw [push, add_eq]
  split_ifs with h <;> simp [h]

/-! ### Ids -/

section Ids

variable {g : GraphSchema} {name : String}

/-- The ids taken are those of the entries, each once. -/
lemma Built.ids (h : Built g) : g.ids = g.entries.map GraphEntry.id ∧ g.ids.Nodup := by
  induction h with
  | empty => exact ⟨rfl, List.nodup_nil⟩
  | push _ hp ih =>
    obtain ⟨hnot, rfl⟩ := push_eq_ok_iff.mp hp
    obtain ⟨hids, hnodup⟩ := ih
    refine ⟨by simp [hids], ?_⟩
    rw [List.nodup_append]
    refine ⟨hnodup, List.nodup_singleton _, ?_⟩
    rintro a ha b hb rfl
    exact hnot (List.mem_singleton.mp hb ▸ ha)
  | context _ _ ih => exact ih

lemma Built.eq_of_id (h : Built g) {e e' : GraphEntry} (he : e ∈ g.entries)
    (he' : e' ∈ g.entries) (hid : e.id = e'.id) : e = e' :=
  have ⟨hids, hnodup⟩ := h.ids
  List.inj_on_of_nodup_map (hids ▸ hnodup) he he' hid

lemma enumeration?_eq_some {e : EnumEntry} (he : g.enumeration? name = some e) :
    e.id = name ∧ .enumEntry e ∈ g.entries := by
  obtain ⟨entry, hm, hs⟩ := List.exists_of_findSome?_eq_some he
  cases entry with
  | enumEntry e' =>
    simp only [GraphEntry.enum?] at hs
    split_ifs at hs with hid
    cases hs; exact ⟨hid, hm⟩
  | classEntry c => cases hs

lemma class?_eq_some {c : ClassEntry} (hc : g.class? name = some c) :
    c.id = name ∧ .classEntry c ∈ g.entries := by
  obtain ⟨entry, hm, hs⟩ := List.exists_of_findSome?_eq_some hc
  cases entry with
  | enumEntry e => cases hs
  | classEntry c' =>
    simp only [GraphEntry.class?] at hs
    split_ifs at hs with hid
    cases hs; exact ⟨hid, hm⟩

lemma Built.class?_eq_some_iff (h : Built g) {c : ClassEntry} :
    g.class? name = some c ↔ c.id = name ∧ .classEntry c ∈ g.entries := by
  refine ⟨class?_eq_some, fun ⟨hid, hm⟩ => ?_⟩
  cases hf : g.class? name with
  | none =>
    have := List.findSome?_eq_none_iff.mp hf _ hm
    simp [GraphEntry.class?, hid] at this
  | some c' =>
    obtain ⟨hid', hm'⟩ := class?_eq_some hf
    cases h.eq_of_id hm' hm (hid'.trans hid.symm)
    rfl

lemma Built.enumeration?_eq_some_iff (h : Built g) {e : EnumEntry} :
    g.enumeration? name = some e ↔ e.id = name ∧ .enumEntry e ∈ g.entries := by
  refine ⟨enumeration?_eq_some, fun ⟨hid, hm⟩ => ?_⟩
  cases hf : g.enumeration? name with
  | none =>
    have := List.findSome?_eq_none_iff.mp hf _ hm
    simp [GraphEntry.enum?, hid] at this
  | some e' =>
    obtain ⟨hid', hm'⟩ := enumeration?_eq_some hf
    cases h.eq_of_id hm' hm (hid'.trans hid.symm)
    rfl

/-- No enumeration has the id of a class. -/
lemma Built.enumeration?_of_class (h : Built g) {c : ClassEntry}
    (hc : .classEntry c ∈ g.entries) : g.enumeration? c.id = none := by
  refine Option.eq_none_iff_forall_ne_some.mpr fun e he => ?_
  obtain ⟨hid, hm⟩ := enumeration?_eq_some he
  cases h.eq_of_id hm hc hid

end Ids

/-! ### Types of fields -/

section Types

variable {g : GraphSchema} {c : ClassEntry} {name : String}

lemma Built.frameType_of_enumeration (h : g.Built) (owner field : String) {e : EnumEntry}
    (he : .enumEntry e ∈ g.entries) :
    g.frameType owner field (.reference e.id) = .ok (.enumeration e.id e.values) := by
  simp [frameType, h.enumeration?_eq_some_iff.mpr ⟨rfl, he⟩]

lemma Built.frameType_of_class (h : g.Built) (owner field : String)
    (hc : .classEntry c ∈ g.entries) :
    g.frameType owner field (.reference c.id) = .ok (.classRef c.id) := by
  simp [frameType, h.enumeration?_of_class hc, h.class?_eq_some_iff.mpr ⟨rfl, hc⟩]

/-- A target stands for something unless it refers to what is no entry. -/
lemma Built.exists_frameType_iff (h : g.Built) {owner field : String} {target : Target} :
    (∃ t, g.frameType owner field target = .ok t) ↔
      ∀ name, target = .reference name → ∃ e ∈ g.entries, e.id = name := by
  cases target with
  | scalar s => simp [frameType]
  | reference name =>
    constructor
    · rintro ⟨t, ht⟩ other ⟨⟩
      simp only [frameType] at ht
      split at ht
      · rename_i e he
        obtain ⟨hid, hm⟩ := enumeration?_eq_some he
        exact ⟨_, hm, hid⟩
      · rename_i c _ hc
        obtain ⟨hid, hm⟩ := class?_eq_some hc
        exact ⟨_, hm, hid⟩
      · cases ht
    · intro hall
      obtain ⟨e, hm, rfl⟩ := hall name rfl
      cases e with
      | enumEntry e => exact ⟨_, h.frameType_of_enumeration owner field hm⟩
      | classEntry c => exact ⟨_, h.frameType_of_class owner field hm⟩

/-- A field is of a class when it refers to one. -/
lemma Built.frameType_eq_classRef_iff (h : g.Built) {owner field : String} {target : Target} :
    g.frameType owner field target = .ok (.classRef name) ↔
      target = .reference name ∧ ∃ c, .classEntry c ∈ g.entries ∧ c.id = name := by
  constructor
  · intro ht
    unfold frameType at ht
    split at ht
    · cases ht
    · split at ht
      · cases ht
      · rename_i c _ hc
        cases ht
        obtain ⟨hid, hm⟩ := class?_eq_some hc
        exact ⟨rfl, c, hm, hid⟩
      · cases ht
  · rintro ⟨rfl, c, hc, rfl⟩
    exact h.frameType_of_class owner field hc

end Types

/-! ### Pushes in turn -/

/-- Entries whose ids are distinct and free are added at the end. -/
lemma pushes_eq {es : List GraphEntry} {g : GraphSchema} (hn : (es.map GraphEntry.id).Nodup)
    (hfree : ∀ e ∈ es, e.id ∉ g.ids) : es.foldlM push g =
      .ok { g with entries := g.entries ++ es, ids := g.ids ++ es.map GraphEntry.id } := by
  induction es generalizing g with
  | nil => simp [pure, Except.pure]
  | cons e es ih =>
    obtain ⟨he, hn⟩ := List.nodup_cons.mp hn
    obtain ⟨hf, hfree⟩ := List.forall_mem_cons.mp hfree
    have hrest : ∀ e' ∈ es, e'.id ∉ g.ids ++ [e.id] := by
      intro e' he' hm
      rcases List.mem_append.mp hm with hm | hm
      · exact hfree e' he' hm
      · exact he (List.mem_map.mpr ⟨e', he', List.mem_singleton.mp hm⟩)
    rw [List.foldlM_cons, push_eq_ok_iff.mpr ⟨hf, rfl⟩]
    refine (ih hn (g := { g with entries := g.entries ++ [e], ids := g.ids ++ [e.id] }) hrest).trans
      ?_
    simp

/-! ### Documents and models -/

lemma built_of_readDocument {g g' : GraphSchema} {doc : Json} (h : Built g)
    (hd : g.readDocument doc = .ok g') : Built g' := by
  unfold readDocument at hd
  split at hd
  · cases hd; exact h.context _
  · obtain ⟨id, -, hd⟩ := bind_eq_ok_iff.mp hd
    obtain ⟨values, -, hd⟩ := bind_eq_ok_iff.mp hd
    exact h.push hd
  · obtain ⟨c, -, hd⟩ := bind_eq_ok_iff.mp hd
    exact h.push hd
  · cases hd

/-- What is read from documents can come about. -/
theorem built_ofJson {v : Json} {g : GraphSchema} (h : ofJson v = .ok g) : Built g := by
  cases v with
  | arr docs => exact foldlM_keeps (fun _ _ _ _ => built_of_readDocument) (.empty _) h
  | _ => cases h

/-- What a model emits can come about. -/
theorem built_ofModel {m : Model} {context : GraphContext} {g : GraphSchema}
    (h : ofModel m context = .ok g) : Built g := by
  obtain ⟨w, -, hg⟩ := bind_eq_ok_iff.mp h
  exact foldlM_keeps (fun _ _ _ _ => Built.push) (.empty context) hg

section Walked

variable {d : Dictionary} {o : Ontology} {w : Walk} {context : GraphContext}

/-- The enumerations and the containers of a walk have distinct names: both are entries of the
dictionary, and no entry is of both kinds. -/
lemma nodup_ids_of_build (h : Walk.build d o = .ok w) :
    ((w.enumerations.map ofEnumeration ++ w.containers.map ofContainer).map
      GraphEntry.id).Nodup := by
  obtain ⟨types, cs, -, -, hcs, rfl⟩ := Walk.build_eq_ok_iff.mp h
  have hids : ((((d.entries.filter (·.2.isEnumeration)).map
      fun e => (⟨e.1, e.2.definition, e.2.allowedValues⟩ : Enumeration)).map ofEnumeration ++
        cs.map ofContainer).map GraphEntry.id) =
      (d.entries.filter (·.2.isEnumeration)).map Prod.fst ++
        (d.entries.filter (·.2.isContainer)).map Prod.fst := by
    rw [← Walk.names_of_containers hcs]
    simp [Function.comp_def, ofEnumeration, ofContainer, GraphEntry.id]
  have hsub : ∀ keep : String × TypeEntry → Bool, ((d.entries.filter keep).map Prod.fst).Nodup :=
    fun keep => d.nodup.sublist (List.filter_sublist.map Prod.fst)
  rw [hids, List.nodup_append]
  refine ⟨hsub _, hsub _, ?_⟩
  rintro a ha b hb rfl
  obtain ⟨⟨name, e⟩, he, rfl⟩ := List.mem_map.mp ha
  obtain ⟨⟨name', e'⟩, he', hname⟩ := List.mem_map.mp hb
  obtain ⟨hm, ht⟩ := List.mem_filter.mp he
  obtain ⟨hm', ht'⟩ := List.mem_filter.mp he'
  cases List.inj_on_of_nodup_map d.nodup hm' hm hname
  simp only [TypeEntry.isEnumeration, TypeEntry.isContainer, decide_eq_true_eq] at ht ht'
  rw [ht] at ht'
  cases ht'

lemma ofWalk_eq (h : Walk.build d o = .ok w) : ofWalk w context =
    .ok ⟨context, w.enumerations.map ofEnumeration ++ w.containers.map ofContainer,
      (w.enumerations.map ofEnumeration ++ w.containers.map ofContainer).map GraphEntry.id⟩ :=
  pushes_eq (nodup_ids_of_build h) fun _ _ => List.not_mem_nil

end Walked

/-- **A model has a graph schema exactly when it can be walked**; otherwise the error is the
walk's. -/
theorem exists_ofModel_iff {m : Model} {context : GraphContext} :
    (∃ g, ofModel m context = .ok g) ↔ ∃ w, Walk.build m.dictionary m.ontology = .ok w := by
  constructor
  · rintro ⟨g, h⟩
    obtain ⟨w, hw, -⟩ := bind_eq_ok_iff.mp h
    exact ⟨w, mapError_eq_ok_iff.mp hw⟩
  · rintro ⟨w, hw⟩
    exact ⟨_, bind_eq_ok_iff.mpr ⟨w, mapError_eq_ok_iff.mpr hw, ofWalk_eq hw⟩⟩

lemma ofModel_eq_error {m : Model} {context : GraphContext} {e : GraphError}
    (h : ofModel m context = .error e) : ∃ fault, e = .model fault := by
  cases hw : Walk.build m.dictionary m.ontology with
  | error fault =>
    refine ⟨fault, ?_⟩
    unfold ofModel at h
    rw [hw] at h
    cases h; rfl
  | ok w =>
    obtain ⟨g, hg⟩ := exists_ofModel_iff.mpr ⟨w, hw⟩
    rw [hg] at h
    cases h

end GraphSchema

end RecordCuration
