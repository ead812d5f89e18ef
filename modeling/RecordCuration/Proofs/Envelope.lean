import RecordCuration.Proofs.Record

/-!
Which record a document is taken for.

The member that an envelope would stand in is taken out before it is known to be one, and so is the
version before a resource is looked for; each time the last member moves into the place. In an
envelope this does not show: a resource is found by its name, and what is found is a member of the
envelope as it was. A bare body shows it, unless the document has no such member at all.
-/

namespace RecordCuration

open Json

/-! ### Members that are taken out -/

namespace Members

variable {α : Type} {name : String} {v : α} {before after ms : List (String × α)} {m : String × α}

lemma mem_remove (h : (ms.map Prod.fst).Nodup) : m ∈ remove name ms ↔ m ∈ ms ∧ m.1 ≠ name := by
  rw [(perm_remove name ms).mem_iff]
  induction ms with
  | nil => simp
  | cons n ms ih =>
    obtain ⟨hn, hms⟩ := List.nodup_cons.mp h
    by_cases hname : n.1 = name
    · rw [List.eraseP_cons_of_pos (by simpa using hname), List.mem_cons]
      constructor
      · intro hm
        exact ⟨Or.inr hm, fun hk => hn (hname.trans hk.symm ▸ List.mem_map_of_mem hm)⟩
      · rintro ⟨rfl | hm, hk⟩
        · exact absurd hname hk
        · exact hm
    · rw [List.eraseP_cons_of_neg (by simpa using hname), List.mem_cons, List.mem_cons, ih hms]
      constructor
      · rintro (rfl | ⟨hm, hk⟩)
        · exact ⟨Or.inl rfl, hname⟩
        · exact ⟨Or.inr hm, hk⟩
      · rintro ⟨rfl | hm, hk⟩
        · exact Or.inl rfl
        · exact Or.inr ⟨hm, hk⟩

lemma lookup_remove_eq_some_iff (h : (ms.map Prod.fst).Nodup) {other : String} :
    (remove name ms).lookup other = some v ↔ other ≠ name ∧ (other, v) ∈ ms := by
  have hmem : (remove name ms).lookup other = some v ↔ (other, v) ∈ remove name ms :=
    ⟨mem_of_lookup, lookup_of_mem (nodup_remove name h)⟩
  rw [hmem, mem_remove h, and_comm]

/-- The last member stands where the one was that is gone. -/
lemma remove_append (h : name ∉ before.map Prod.fst) :
    remove name (before ++ (name, v) :: after) =
      before ++ (after.getLast?.toList ++ after.dropLast) := by
  induction before with
  | nil => simp [remove]
  | cons m before ih =>
    rw [List.map_cons, List.mem_cons, not_or] at h
    rw [List.cons_append, remove, if_neg (Ne.symm h.1), ih h.2, List.cons_append]

lemma remove_eq_self_iff : remove name ms = ms ↔ ms.lookup name = none := by
  refine ⟨fun h => ?_, remove_of_not_mem⟩
  by_contra hsome
  obtain ⟨v, hv⟩ := Option.ne_none_iff_exists'.mp hsome
  have hmem := mem_of_lookup hv
  have hlength : ms.length = (ms.eraseP (·.1 = name)).length := by
    rw [← (perm_remove name ms).length_eq, h]
  rw [List.length_eraseP_of_mem hmem (by simp)] at hlength
  have := List.length_pos_of_mem hmem
  omega

end Members

namespace Record

variable {outer envelope : List (String × Json)} {name : String} {m : String × Json} {r : Record}

/-! ### Bare bodies -/

/-- Without an envelope, what is named is the document less the member of an envelope. -/
lemma read_of_bare (h : ∀ envelope, outer.lookup "Spase" ≠ some (.obj envelope)) (name : String) :
    read (.obj outer) (some name) =
      .ok ⟨.obj (Members.remove "Spase" outer), some name, none, none⟩ := by
  simp only [read]

/-- **A bare body is whole but for one member.** A document without an envelope is taken, under
whatever name, for a body of that class and of no version. The body is the document with its members
in their order exactly if none of them has the name of an envelope; one that has, being none, is
lost, and the last member stands in its place. -/
theorem bare_body_whole_iff (hdoc : (Json.obj outer).WellFormed)
    (hbare : ∀ envelope, outer.lookup "Spase" ≠ some (.obj envelope)) (name : String) :
    ∃ r, read (.obj outer) (some name) = .ok r ∧ r.resourceType = some name ∧ r.version = none ∧
      (r.body = .obj outer ↔ outer.lookup "Spase" = none) ∧
      ∀ before v after, outer = before ++ ("Spase", v) :: after →
        r.body = .obj (before ++ (after.getLast?.toList ++ after.dropLast)) := by
  refine ⟨_, read_of_bare hbare name, rfl, rfl, ?_, ?_⟩
  · rw [Json.obj.injEq, Members.remove_eq_self_iff]
  · rintro before v after rfl
    have hnames := (wellFormed_obj.mp hdoc).1
    rw [List.map_append, List.map_cons, List.nodup_append] at hnames
    have hbefore : "Spase" ∉ before.map Prod.fst := fun hmem =>
      hnames.2.2 _ hmem _ List.mem_cons_self rfl
    rw [Members.remove_append hbefore]

/-- A mission without an envelope, stamped with the release that it follows. -/
def stampedMission : List (String × Json) :=
  [("Spase", .str "2.6.0"), ("Name", .str "Voyager"), ("Kind", .str "Rocket")]

lemma stampedMission_bare : (Json.obj stampedMission).WellFormed ∧
    ∀ envelope, stampedMission.lookup "Spase" ≠ some (.obj envelope) :=
  ⟨by simp [stampedMission, WellFormed, WellFormedMembers], by rintro _ ⟨⟩⟩

/-- The mission is taken for a body without its stamp. -/
theorem stampedMission_not_whole : (Json.obj stampedMission).WellFormed ∧
    (∀ envelope, stampedMission.lookup "Spase" ≠ some (.obj envelope)) ∧
    ∃ r, read (.obj stampedMission) (some "Mission") = .ok r ∧ r.resourceType = some "Mission" ∧
      r.version = none ∧ r.body ≠ .obj stampedMission ∧
      r.body = .obj [("Kind", .str "Rocket"), ("Name", .str "Voyager")] := by
  obtain ⟨hwell, hbare⟩ := stampedMission_bare
  obtain ⟨r, hread, htype, hversion, hwhole, hbody⟩ := bare_body_whole_iff hwell hbare "Mission"
  refine ⟨hwell, hbare, r, hread, htype, hversion, fun h => ?_, hbody [] _ _ rfl⟩
  cases hwhole.mp h

/-- Not every document without an envelope is a body as it stands. -/
theorem stamp_lost : (∀ envelope, stampedMission.lookup "Spase" ≠ some (.obj envelope)) ∧
    ¬ ∃ r, read (.obj stampedMission) (some "Mission") = .ok r ∧ r.body = .obj stampedMission := by
  have hread : read (.obj stampedMission) (some "Mission") = .ok
    ⟨.obj [("Kind", .str "Rocket"), ("Name", .str "Voyager")], some "Mission", none, none⟩ := rfl
  refine ⟨stampedMission_bare.2, ?_⟩
  rintro ⟨r, hr, hbody⟩
  rw [hread] at hr
  cases hr
  simp [stampedMission] at hbody

/-! ### Envelopes -/

/-- A member of an envelope that can be its resource. -/
structure Resource (envelope : List (String × Json)) (m : String × Json) : Prop where
  mem : m ∈ envelope
  notVersion : m.1 ≠ "version"
  unmarked : m.1.startsWith "@" = false
  object : ∃ body, m.2 = .obj body

lemma isResource_iff : isResource m = true ↔
    m.1.startsWith "@" = false ∧ ∃ body, m.2 = .obj body := by
  obtain ⟨name, v⟩ := m
  cases v <;> simp [isResource, members?]

lemma mem_resources (h : (envelope.map Prod.fst).Nodup) :
    m ∈ (Members.remove "version" envelope).filter isResource ↔ Resource envelope m := by
  rw [List.mem_filter, Members.mem_remove h, isResource_iff]
  exact ⟨fun ⟨⟨hmem, hname⟩, hmark, hbody⟩ => ⟨hmem, hname, hmark, hbody⟩,
    fun h => ⟨⟨h.mem, h.notVersion⟩, h.unmarked, h.object⟩⟩

/-- A class is inferred exactly if it is the name of the one resource. -/
lemma onlyResource_eq_ok_iff (h : (envelope.map Prod.fst).Nodup) :
    onlyResource (Members.remove "version" envelope) = .ok name ↔
      ∃ body, ∀ m, Resource envelope m ↔ m = (name, body) := by
  have honly : onlyResource (Members.remove "version" envelope) = .ok name ↔
      ∃ body, (Members.remove "version" envelope).filter isResource = [(name, body)] := by
    unfold onlyResource
    split
    · rename_i hnone
      simp [hnone]
    · rename_i found body hone
      simp [hone]
    · rename_i hmany
      exact iff_of_false (by simp) fun ⟨body, hone⟩ => hmany name body hone
  have hnodup : ((Members.remove "version" envelope).filter isResource).Nodup :=
    (Members.nodup_remove "version" h).of_map.filter _
  rw [honly]
  refine exists_congr fun body => ?_
  rw [← List.perm_singleton, List.perm_ext_iff_of_nodup hnodup (List.nodup_singleton _)]
  refine forall_congr' fun m => ?_
  rw [mem_resources h, List.mem_singleton]

/-- The record that a member of an envelope is taken out as. -/
def taken (envelope : List (String × Json)) (m : String × Json) : Record :=
  ⟨m.2, some m.1, none, envelope.lookup "version" >>= Json.string?⟩

lemma version_taken (h : (envelope.map Prod.fst).Nodup) {version : String} :
    (taken envelope m).version = some version ↔ ("version", .str version) ∈ envelope := by
  have hversion : (taken envelope m).version = some version ↔
      ∃ v, envelope.lookup "version" = some v ∧ v.string? = some version := Option.bind_eq_some_iff
  rw [hversion]
  constructor
  · rintro ⟨v, hv, hstring⟩
    cases v with
    | str text =>
      obtain rfl : text = version := by simpa [string?] using hstring
      exact mem_of_lookup hv
    | _ => cases hstring
  · exact fun hmem => ⟨_, lookup_of_mem h hmem, rfl⟩

/-- What a name takes out of an envelope. -/
lemma ofEnvelope_eq_ok_iff (h : (envelope.map Prod.fst).Nodup) :
    ofEnvelope envelope (some name) = .ok r ↔
      name ≠ "version" ∧ ∃ v, (name, v) ∈ envelope ∧ r = taken envelope (name, v) := by
  have hfound : ofEnvelope envelope (some name) = .ok r ↔ ∃ v,
      (Members.remove "version" envelope).lookup name = some v ∧ r = taken envelope (name, v) := by
    simp only [ofEnvelope, taken, pure_bind]
    cases (Members.remove "version" envelope).lookup name with
    | none => simp
    | some v => simp [eq_comm]
  simp only [hfound, Members.lookup_remove_eq_some_iff h, and_assoc, exists_and_left]

/-- Without a name, the one resource is taken out. -/
lemma ofEnvelope_none_eq_ok_iff (h : (envelope.map Prod.fst).Nodup) :
    ofEnvelope envelope none = .ok r ↔
      ∃ m, (∀ m', Resource envelope m' ↔ m' = m) ∧ r = taken envelope m := by
  have hinferred : ofEnvelope envelope none = .ok r ↔
      ∃ name, onlyResource (Members.remove "version" envelope) = .ok name ∧
        ofEnvelope envelope (some name) = .ok r := bind_eq_ok_iff
  simp only [hinferred, onlyResource_eq_ok_iff h, ofEnvelope_eq_ok_iff h]
  constructor
  · rintro ⟨name, ⟨body, honly⟩, -, v, hv, rfl⟩
    have hbody := lookup_of_mem h ((honly _).mpr rfl).mem
    obtain rfl : body = v := Option.some.inj (hbody.symm.trans (lookup_of_mem h hv))
    exact ⟨_, honly, rfl⟩
  · rintro ⟨m, honly, rfl⟩
    have hm := (honly m).mpr rfl
    exact ⟨m.1, ⟨m.2, honly⟩, hm.notVersion, m.2, hm.mem, rfl⟩

/-- With an envelope, only the envelope counts. -/
lemma read_of_envelope (h : outer.lookup "Spase" = some (.obj envelope)) (name : Option String) :
    read (.obj outer) name = ofEnvelope envelope name := by
  simp only [read, h]

/-- **Inferring a class agrees with naming it.** Without a name, a record is taken out of an
envelope exactly if the envelope has one resource. It is then the record that the name of this
resource takes out: the resource as it stands in the envelope, of the version that the envelope
states as a text, and of none where it states none. A name takes out a record exactly if it is that
of a member other than the version. -/
theorem inference_agrees (hdoc : (Json.obj outer).WellFormed)
    (henvelope : outer.lookup "Spase" = some (.obj envelope)) :
    ((∃ r, read (.obj outer) none = .ok r) ↔ ∃! m, Resource envelope m) ∧
      (∀ m r, Resource envelope m → read (.obj outer) none = .ok r →
        read (.obj outer) (some m.1) = .ok r ∧ r.body = m.2 ∧ r.resourceType = some m.1 ∧
          ∀ version, r.version = some version ↔ ("version", .str version) ∈ envelope) ∧
      ∀ name, (∃ r, read (.obj outer) (some name) = .ok r) ↔
        name ≠ "version" ∧ ∃ v, (name, v) ∈ envelope := by
  have hnames : (envelope.map Prod.fst).Nodup :=
    (wellFormed_obj.mp (wellFormed_member hdoc henvelope)).1
  simp only [read_of_envelope henvelope, ofEnvelope_none_eq_ok_iff hnames,
    ofEnvelope_eq_ok_iff hnames]
  refine ⟨⟨?_, ?_⟩, ?_, fun name => ⟨?_, ?_⟩⟩
  · rintro ⟨r, m, honly, -⟩
    exact ⟨m, (honly m).mpr rfl, fun m' => (honly m').mp⟩
  · rintro ⟨m, hm, hunique⟩
    exact ⟨_, m, fun m' => ⟨hunique m', fun h => h ▸ hm⟩, rfl⟩
  · rintro m' r hm' ⟨m, honly, rfl⟩
    obtain rfl := (honly m').mp hm'
    exact ⟨⟨hm'.notVersion, m'.2, hm'.mem, rfl⟩, rfl, rfl, fun _ => version_taken hnames⟩
  · rintro ⟨r, hname, v, hv, -⟩
    exact ⟨hname, v, hv⟩
  · rintro ⟨hname, v, hv⟩
    exact ⟨_, hname, v, hv, rfl⟩

def missionResource : String × Json :=
  ("Mission", .obj [("Name", .str "Voyager"), ("Kind", .str "Rocket")])

/-- The mission in an envelope with a context, a version and a remark. -/
def missionEnvelope : List (String × Json) :=
  [("@context", .obj []), ("version", .str "2.6.0"), ("Note", .str "A draft."), missionResource]

def envelopedMission : List (String × Json) :=
  [("Spase", .obj missionEnvelope), ("Source", .str "archive")]

/-- The mission is inferred, and taken out as it is by name; the remark can be named, the version
cannot. -/
theorem mission_inference_agrees : (Json.obj envelopedMission).WellFormed ∧
    envelopedMission.lookup "Spase" = some (.obj missionEnvelope) ∧
    (∃! m, Resource missionEnvelope m) ∧
    (∃ r, read (.obj envelopedMission) none = .ok r ∧
      read (.obj envelopedMission) (some "Mission") = .ok r ∧ r.version = some "2.6.0" ∧
      r.body = missionResource.2) ∧
    (∃ r, read (.obj envelopedMission) (some "Note") = .ok r) ∧
    ¬ ∃ r, read (.obj envelopedMission) (some "version") = .ok r := by
  have hwell : (Json.obj envelopedMission).WellFormed := by
    simp [envelopedMission, missionEnvelope, missionResource, WellFormed, WellFormedMembers]
  obtain ⟨hunique, hagrees, hnamed⟩ := inference_agrees hwell rfl
  have hresource : Resource missionEnvelope missionResource :=
    ⟨by simp [missionEnvelope, missionResource], by decide, by decide +kernel, _, rfl⟩
  have honly : ∃! m, Resource missionEnvelope m := by
    refine ⟨missionResource, hresource, fun m hm => ?_⟩
    obtain ⟨hmem, hversion, hmark, body, hbody⟩ := hm
    simp only [missionEnvelope, List.mem_cons, List.not_mem_nil, or_false] at hmem
    rcases hmem with rfl | rfl | rfl | rfl
    · exact absurd hmark (by decide +kernel)
    · exact absurd rfl hversion
    · cases hbody
    · rfl
  obtain ⟨r, hr⟩ := hunique.mpr honly
  obtain ⟨hname, hbody, -, hversion⟩ := hagrees _ r hresource hr
  refine ⟨hwell, rfl, honly, ⟨r, hr, hname, (hversion _).mpr ?_, hbody⟩, ?_, fun h => ?_⟩
  · simp [missionEnvelope]
  · exact (hnamed "Note").mpr ⟨by decide, _, List.mem_of_getElem? (i := 2) rfl⟩
  · exact ((hnamed "version").mp h).1 rfl

end Record

end RecordCuration
