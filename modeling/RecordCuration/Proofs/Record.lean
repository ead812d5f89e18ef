import RecordCuration.Proofs.Json.Number
import RecordCuration.Record

/-!
What a record keeps of the document that it is read from.

The body of a record is a value in its envelope, or the document without a member. So it is
well-formed as the document is, and holds none but the numbers of the document. A document that has
no envelope, and no member that could be one, is a body as it stands.
-/

namespace RecordCuration

open Json

namespace Members

variable {α : Type} {name : String} {ms : List (String × α)}

lemma perm_remove (name : String) (ms : List (String × α)) :
    (remove name ms).Perm (ms.eraseP (·.1 = name)) := by
  induction ms with
  | nil => exact .refl _
  | cons m ms ih =>
    obtain ⟨k, a⟩ := m
    by_cases hk : k = name
    · simp only [remove, hk, ↓reduceIte, decide_true, List.eraseP_cons_of_pos]
      cases hlast : ms.getLast? with
      | none => simp [List.getLast?_eq_none_iff.mp hlast]
      | some last =>
        obtain ⟨init, rfl⟩ := List.getLast?_eq_some_iff.mp hlast
        simpa using (List.perm_append_singleton last init).symm
    · simpa [remove, hk] using ih

lemma nodup_remove (name : String) (h : (ms.map Prod.fst).Nodup) :
    ((remove name ms).map Prod.fst).Nodup :=
  ((perm_remove name ms).map Prod.fst).nodup_iff.mpr (h.sublist (List.eraseP_sublist.map Prod.fst))

lemma mem_of_mem_remove {m : String × α} (h : m ∈ remove name ms) : m ∈ ms :=
  List.mem_of_mem_eraseP ((perm_remove name ms).mem_iff.mp h)

lemma remove_of_not_mem (h : ms.lookup name = none) : remove name ms = ms := by
  induction ms with
  | nil => rfl
  | cons m ms ih =>
    obtain ⟨k, a⟩ := m
    have hk : k ≠ name := by
      rintro rfl
      simp at h
    rw [List.lookup_cons, beq_false_of_ne (Ne.symm hk)] at h
    rw [remove, if_neg hk, ih h]

end Members

lemma Json.wellFormed_remove {name : String} {ms : List (String × Json)}
    (h : (Json.obj ms).WellFormed) : (Json.obj (Members.remove name ms)).WellFormed := by
  obtain ⟨hnames, hparts⟩ := wellFormed_obj.mp h
  exact wellFormed_obj.mpr
    ⟨Members.nodup_remove name hnames, fun m hm => hparts m (Members.mem_of_mem_remove hm)⟩

lemma Json.wellFormed_part {v w : Json} (h : Part w v) (hv : v.WellFormed) : w.WellFormed := by
  induction h with
  | self => exact hv
  | item hx _ ih => exact ih (wellFormed_arr.mp hv _ hx)
  | member hm _ ih => exact ih ((wellFormed_obj.mp hv).2 _ hm)

namespace Record

variable {doc w : Json} {className : Option String} {r : Record}

/-- What an envelope gives is one of its members, the named one if one is named. -/
lemma exists_of_ofEnvelope {envelope : List (String × Json)}
    (h : ofEnvelope envelope className = .ok r) :
    ∃ name, (∀ c, className = some c → name = c) ∧ (name, r.body) ∈ envelope ∧
      r.resourceType = some name := by
  unfold ofEnvelope at h
  extract_lets version resources found at h
  have hfound : ∀ name, found name = .ok r →
      (name, r.body) ∈ envelope ∧ r.resourceType = some name := by
    intro name h
    unfold found at h
    split at h
    · cases h
    · rename_i body hbody
      cases h
      exact ⟨Members.mem_of_mem_remove (mem_of_lookup hbody), rfl⟩
  cases className with
  | some name => exact ⟨name, fun c hc => Option.some.inj hc, hfound name h⟩
  | none =>
    obtain ⟨name, -, h⟩ := bind_eq_ok_iff.mp h
    exact ⟨name, by simp, hfound name h⟩

/-- A body is a value in the envelope, or the document without a member of that name. -/
lemma body_of_read (h : read doc className = .ok r) :
    Part r.body doc ∨ ∃ outer, doc = .obj outer ∧ r.body = .obj (Members.remove "Spase" outer) := by
  unfold read at h
  split at h
  · split at h
    · rename_i outer _ envelope henvelope
      obtain ⟨name, -, hbody, -⟩ := exists_of_ofEnvelope h
      exact Or.inl (Part.trans (.member hbody .self) (.of_member henvelope))
    · split at h <;> cases h
      exact Or.inr ⟨_, rfl, rfl⟩
  · cases h

lemma wellFormed_of_read (hdoc : doc.WellFormed) (h : read doc className = .ok r) :
    r.body.WellFormed := by
  rcases body_of_read h with hpart | ⟨outer, rfl, hbody⟩
  · exact wellFormed_part hpart hdoc
  · rw [hbody]
    exact wellFormed_remove hdoc

/-- The numbers of a record are some of those of its document. -/
lemma part_of_read (h : read doc className = .ok r) (hw : w.IsNumber) (hpart : Part w r.body) :
    Part w doc := by
  rcases body_of_read h with hbody | ⟨outer, rfl, hbody⟩
  · exact hpart.trans hbody
  · rw [hbody] at hpart
    obtain ⟨m, hm, hpart⟩ := hw.part_obj.mp hpart
    exact .member (Members.mem_of_mem_remove hm) hpart

/-- A record that was read has a class, the named one if one is named. -/
lemma resourceType_of_read (h : read doc className = .ok r) :
    ∃ name, r.resourceType = some name ∧ ∀ c, className = some c → name = c := by
  unfold read at h
  split at h
  · split at h
    · obtain ⟨name, hname, -, htype⟩ := exists_of_ofEnvelope h
      exact ⟨name, htype, hname⟩
    · split at h <;> cases h
      exact ⟨_, rfl, fun c hc => Option.some.inj hc⟩
  · cases h

/-- A bare body is read as it stands. -/
lemma read_bare {ms : List (String × Json)} (h : ms.lookup "Spase" = none) (name : String) :
    read (.obj ms) (some name) = .ok ⟨.obj ms, some name, none, none⟩ := by
  unfold read
  simp only [h, Members.remove_of_not_mem h]

end Record

end RecordCuration
