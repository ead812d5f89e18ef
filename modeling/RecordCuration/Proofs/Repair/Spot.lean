import RecordCuration.Proofs.JsonSchema.Faults
import RecordCuration.Proofs.Path.Pointer
import RecordCuration.Proofs.Repair.Mend

/-!
Where in a document a standard rule can do something.

A spot is a place with the slot that it fills. Every fault stands at a spot, and when a rule mends
the value there it does what `Mends` allows for the slot. Mending one spot leaves every other spot
a spot of the same slot, where the value stays or is mended itself.
-/

namespace RecordCuration

open Json Draft7 JsonSchema

/-- One place of a value in a slot is mended; a text only if it should be a time and is none. -/
inductive Mends (formats : Bool) (resolver : Resolver) :
    Bool → FrameType → Json → Json → Prop where
  | wrap {t : FrameType} {v : Json} (h : v.items? = none) :
    Mends formats resolver true t v (.arr [v])
  | first {t : FrameType} {x : Json} {xs : List Json} :
    Mends formats resolver false t (.arr (x :: xs)) (.str (Rule.asText x))
  | utc {text : String} (hformats : formats = true)
    (hbad : FormatName.dateTime.admits text = false) (hz : text.toList.getLast? ≠ some 'Z') :
    Mends formats resolver false (.scalar .timestamp) (.str text) (.str (text ++ "Z"))
  | stopDate {name : String} {fr : Frame} {f : FrameField} {ms : List (String × Json)}
    {start : Json} (hname : resolver name = .ok fr) (hf : fr.field? "StopDate" = some f)
    (hstop : ms.lookup "StopDate" = none) (hstart : ms.lookup "StartDate" = some start) :
    Mends formats resolver false (.classRef name) (.obj ms)
      (.obj (Members.insert "StopDate" start ms))
  | item {t : FrameType} {xs : List Json} {i : ℕ} {x y : Json} (hx : xs[i]? = some x)
    (h : Mends formats resolver false t x y) :
    Mends formats resolver true t (.arr xs) (.arr (xs.set i y))
  | member {name k : String} {fr : Frame} {f : FrameField} {ms : List (String × Json)} {v w : Json}
    (hname : resolver name = .ok fr) (hf : fr.field? k = some f) (hv : ms.lookup k = some v)
    (h : Mends formats resolver f.cardinality.isArray f.type v w) :
    Mends formats resolver false (.classRef name) (.obj ms) (.obj (Members.insert k w ms))

/-- A path leads from a value in a slot to a value in a slot, by the fields of the classes and the
items of the lists between. -/
inductive Spot (resolver : Resolver) (array : Bool) (t : FrameType) (u : Json) :
    Bool → FrameType → Path → Json → Prop where
  | here : Spot resolver array t u array t [] u
  | item {t' : FrameType} {p : Path} {xs : List Json} {i : ℕ} {x : Json} (hx : xs[i]? = some x)
    (h : Spot resolver array t u false t' p x) :
    Spot resolver array t u true t' (.index i :: p) (.arr xs)
  | member {name k : String} {p : Path} {fr : Frame} {f : FrameField} {ms : List (String × Json)}
    {v : Json} (hname : resolver name = .ok fr) (hf : fr.field? k = some f)
    (hv : ms.lookup k = some v) (h : Spot resolver array t u f.cardinality.isArray f.type p v) :
    Spot resolver array t u false (.classRef name) (.key k :: p) (.obj ms)

namespace Spot

variable {formats array array' : Bool} {resolver : Resolver} {t t' : FrameType} {p : Path}
  {u v w : Json}

lemma place? (h : Spot resolver array t u array' t' p v) : v.place? p = some u := by
  induction h with
  | here => rfl
  | item hx _ ih => exact place?_cons.mpr ⟨_, by simpa [child?, Segment.asIndex] using hx, ih⟩
  | member _ _ hv _ ih => exact place?_cons.mpr ⟨_, hv, ih⟩

/-- What is done at a spot is done to the whole. -/
lemma mends (h : Spot resolver array t u array' t' p v) (hm : Mends formats resolver array t u w) :
    Mends formats resolver array' t' v (put p w v) := by
  induction h with
  | here => exact hm
  | @item t' p xs i x hx _ ih =>
    have hchild : (Json.arr xs).child? (.index i) = some x := by
      simpa [child?, Segment.asIndex] using hx
    rw [put_cons hchild]
    exact .item hx ih
  | @member name k p fr f ms v hname hf hv _ ih =>
    have hchild : (Json.obj ms).child? (.key k) = some v := hv
    rw [put_cons hchild]
    exact .member hname hf hv ih

/-- A spot stays one when something is mended, and what is there stays or is mended. -/
lemma of_mends (h : Spot resolver array t u array' t' p v)
    (hm : Mends formats resolver array' t' v w) :
    ∃ u', Spot resolver array t u' array' t' p w ∧
      (u' = u ∨ Mends formats resolver array t u u') := by
  induction h generalizing w with
  | here => exact ⟨w, .here, Or.inr hm⟩
  | @item t' p xs i x hx h ih =>
    cases hm with
    | wrap hnone => simp [items?] at hnone
    | @item _ _ j y z hy hyz =>
      by_cases hij : j = i
      · subst hij
        obtain rfl : x = y := Option.some.inj (hx.symm.trans hy)
        obtain ⟨u', hu', hmend⟩ := ih hyz
        have hlt : j < xs.length := (List.getElem?_eq_some_iff.mp hx).1
        exact ⟨u', .item (by simp [hlt]) hu', hmend⟩
      · exact ⟨u, .item (by rw [List.getElem?_set_ne hij]; exact hx) h, Or.inl rfl⟩
  | @member name k p fr f ms v hname hf hv h ih =>
    cases hm with
    | stopDate hname' hf' hstop hstart =>
      refine ⟨u, .member hname hf ?_ h, Or.inl rfl⟩
      rw [Members.lookup_insert_of_ne _ _ _]
      · exact hv
      · rintro rfl; rw [hv] at hstop; cases hstop
    | @member _ l _ f' _ x y hname' hf' hx hxy =>
      obtain rfl := Except.ok.inj (hname.symm.trans hname')
      by_cases hkl : k = l
      · subst hkl
        obtain rfl : v = x := Option.some.inj (hv.symm.trans hx)
        obtain rfl : f = f' := Option.some.inj (hf.symm.trans hf')
        obtain ⟨u', hu', hmend⟩ := ih hxy
        exact ⟨u', .member hname hf (Members.lookup_insert_self _ _ _) hu', hmend⟩
      · exact ⟨u, .member hname hf (by rw [Members.lookup_insert_of_ne hkl]; exact hv) h,
          Or.inl rfl⟩

end Spot

/-! ### Faults -/

/-- What can be wrong with a value at a spot, apart from its parts. -/
inductive Wrong (formats : Bool) (resolver : Resolver) :
    Bool → FrameType → Json → Violation → Prop where
  | lone {t : FrameType} {u : Json} (h : u.items? = none) :
    Wrong formats resolver true t u (.wrongType [.array])
  | leaf {t : FrameType} {u : Json} {violation : Violation}
    (h : violation ∈ leafViolations formats u t) : Wrong formats resolver false t u violation
  | missing {name k : String} {fr : Frame} {u : Json} (hname : resolver name = .ok fr)
    (h : k ∈ fr.due) : Wrong formats resolver false (.classRef name) u (.missing k)
  | stray {t : FrameType} {u : Json} {names : List String} :
    Wrong formats resolver false t u (.unexpected names)

section Faults

variable {formats array : Bool} {resolver : Resolver} {t : FrameType} {path : Path} {v : Json}
  {fault : Fault}

/-- A fault that stands at a spot of a value, where something is wrong. -/
def Stands (formats : Bool) (resolver : Resolver) (array : Bool) (t : FrameType) (path : Path)
    (v : Json) (fault : Fault) : Prop :=
  ∃ array' t' p, fault.path = path ++ p ∧ Spot resolver array' t' fault.found array t p v ∧
    Wrong formats resolver array' t' fault.found fault.violation

lemma stands_here {violation : Violation} (h : Wrong formats resolver array t v violation) :
    Stands formats resolver array t path v ⟨path, v, violation⟩ :=
  ⟨array, t, [], by simp, .here, h⟩

lemma stands_item {xs : List Json} {i : ℕ} {x : Json} (hx : xs[i]? = some x)
    (h : Stands formats resolver false t (path ++ [.index i]) x fault) :
    Stands formats resolver true t path (.arr xs) fault := by
  obtain ⟨array', t', p, hp, hs, hw⟩ := h
  exact ⟨array', t', .index i :: p, by rw [hp, List.append_assoc]; rfl, .item hx hs, hw⟩

lemma stands_member {name k : String} {fr : Frame} {f : FrameField} {ms : List (String × Json)}
    (hname : resolver name = .ok fr) (hf : fr.field? k = some f) (hv : ms.lookup k = some v)
    (h : Stands formats resolver f.cardinality.isArray f.type (path ++ [.key k]) v fault) :
    Stands formats resolver false (.classRef name) path (.obj ms) fault := by
  obtain ⟨array', t', p, hp, hs, hw⟩ := h
  exact ⟨array', t', .key k :: p, by rw [hp, List.append_assoc]; rfl, .member hname hf hv hs, hw⟩

lemma stands_of_mem_required {name : String} {fr : Frame} {ms : List (String × Json)}
    (hname : resolver name = .ok fr) (h : fault ∈ Check.required fr.due path (.obj ms)) :
    Stands formats resolver false (.classRef name) path (.obj ms) fault := by
  obtain ⟨k, hk, hf⟩ := List.mem_flatMap.mp h
  split at hf
  · cases hf
  · rw [Check.fault, List.mem_singleton] at hf
    subst hf
    exact stands_here (.missing hname hk)

lemma stands_of_mem_stray {fr : Frame} {ms : List (String × Json)}
    (h : fault ∈ strayFaults fr path ms) :
    Stands formats resolver false t path (.obj ms) fault := by
  unfold strayFaults Check.stray at h
  split at h
  · cases h
  · rw [Check.fault, List.mem_singleton] at h
    subst h
    exact stands_here .stray

lemma stands_of_mem_lone (hv : v.items? = none)
    (h : fault ∈ slotFaults formats resolver true t path v) :
    Stands formats resolver true t path v fault := by
  rw [slotFaults_lone hv, List.mem_singleton] at h
  subst h
  exact stands_here (.lone hv)

lemma stands_of_mem_other (hv : ∀ name, t = .classRef name → v.members? = none)
    (h : fault ∈ slotFaults formats resolver false t path v) :
    Stands formats resolver false t path v fault := by
  rw [slotFaults_leaf hv] at h
  obtain ⟨violation, hm, rfl⟩ := List.mem_map.mp h
  exact stands_here (.leaf hm)

/-- A fault of an object stands there or in a member. -/
lemma stands_of_mem_class {name : String} {ms : List (String × Json)}
    (hn : (ms.map Prod.fst).Nodup)
    (ih : ∀ m ∈ ms, ∀ {array t path}, fault ∈ slotFaults formats resolver array t path m.2 →
      Stands formats resolver array t path m.2 fault)
    (h : fault ∈ slotFaults formats resolver false (.classRef name) path (.obj ms)) :
    Stands formats resolver false (.classRef name) path (.obj ms) fault := by
  cases hname : resolver name with
  | error e => simp [slotFaults, hname] at h
  | ok fr =>
    rw [slotFaults_class hname, List.mem_append, List.mem_append, memberFaults_eq] at h
    rcases h with h | h | h
    · exact stands_of_mem_required hname h
    · obtain ⟨m, hm, hf⟩ := List.mem_flatMap.mp h
      cases hfield : fr.field? m.1 with
      | none => simp [hfield] at hf
      | some f =>
        simp only [hfield] at hf
        exact stands_member hname hfield (lookup_of_mem hn hm) (ih m hm hf)
    · exact stands_of_mem_stray h

/-- **Faults stand at spots**: every fault of a value in a slot. -/
theorem stands_of_mem (hv : v.WellFormed) (h : fault ∈ slotFaults formats resolver array t path v) :
    Stands formats resolver array t path v fault := by
  induction v generalizing array t path with
  | arr xs ih =>
    cases array with
    | true =>
      rw [slotFaults_list, itemFaults_eq] at h
      obtain ⟨⟨x, i⟩, hm, hf⟩ := List.mem_flatMap.mp h
      have hx : xs[i]? = some x := List.mk_mem_zipIdx_iff_getElem?.mp hm
      have hmem := List.mem_of_getElem? hx
      exact stands_item hx (ih x hmem (wellFormed_arr.mp hv x hmem) hf)
    | false => exact stands_of_mem_other (fun _ _ => rfl) h
  | obj ms ih =>
    obtain ⟨hn, hw⟩ := wellFormed_obj.mp hv
    cases array with
    | true => exact stands_of_mem_lone rfl h
    | false =>
      cases t with
      | classRef name => exact stands_of_mem_class hn (fun m hm => ih m hm (hw m hm)) h
      | _ => exact stands_of_mem_other (by simp) h
  | _ =>
    cases array with
    | true => exact stands_of_mem_lone rfl h
    | false => exact stands_of_mem_other (fun _ _ => rfl) h

lemma typeList_singleton (type : TypeName) : Violation.typeList [type] = type.name := by
  cases type <;> rfl

lemma mem_demand {ok : Bool} {violation violation' : Violation}
    (h : violation ∈ demand ok violation') : violation = violation' := by
  unfold demand at h
  split at h
  · cases h
  · exact List.mem_singleton.mp h

lemma leaf_cases {violation : Violation} (h : violation ∈ leafViolations formats v t) :
    (∃ type, type ≠ .array ∧ violation = .wrongType [type]) ∨
      (∃ format, violation = .wrongFormat format) ∨ ∃ options, violation = .notAmong options := by
  have htype : ∀ type, type ≠ .array → violation ∈ ofType type v →
      ∃ type, type ≠ .array ∧ violation = .wrongType [type] :=
    fun type hne h => ⟨type, hne, mem_demand h⟩
  cases t with
  | scalar s =>
    cases s with
    | string => exact Or.inl (htype _ (by simp) h)
    | float => exact Or.inl (htype _ (by simp) h)
    | integer => exact Or.inl (htype _ (by simp) h)
    | timestamp =>
      rcases List.mem_append.mp h with h | h
      · exact Or.inl (htype _ (by simp) h)
      · exact Or.inr (Or.inl ⟨_, mem_demand h⟩)
    | duration =>
      rcases List.mem_append.mp h with h | h
      · exact Or.inl (htype _ (by simp) h)
      · exact Or.inr (Or.inl ⟨_, mem_demand h⟩)
  | enumeration id values =>
    rcases List.mem_append.mp h with h | h
    · exact Or.inl (htype _ (by simp) h)
    · exact Or.inr (Or.inr ⟨_, mem_demand h⟩)
  | classRef name => exact Or.inl (htype _ (by simp) h)

/-- Only a text that is no time breaks the format of times, in a slot for one. -/
lemma timestamp_of_leaf {violation : Violation} {found : Json}
    (h : violation ∈ leafViolations formats v t)
    (hk : violation.kind found = .formatViolation "date-time") :
    t = .scalar .timestamp ∧ formats = true ∧ FormatName.dateTime.admitsValue v = false := by
  obtain ⟨format, rfl⟩ : ∃ format, violation = .wrongFormat format := by
    rcases leaf_cases h with ⟨type, -, rfl⟩ | hformat | ⟨options, rfl⟩
    · cases hk
    · exact hformat
    · cases hk
  obtain rfl : format = .dateTime := by
    cases format <;> simp_all [Violation.kind, FormatName.name]
  rcases t with (_ | _ | _ | _ | _) | name | ⟨id, values⟩ <;>
    simp_all [leafViolations, ofType, ofFormat, demand]

/-- A standard rule that answers a fault of a leaf mends a text, or a list where one is wanted. -/
lemma mends_of_leaf {violation : Violation} {found u w : Json}
    (h : violation ∈ leafViolations formats found t) (hs : u.same found = true)
    (hm : Mend (violation.kind found) u w) : Mends formats resolver false t u w := by
  generalize hk : violation.kind found = kind at hm
  cases hm with
  | wrap _ =>
    rcases leaf_cases h with ⟨type, hne, rfl⟩ | ⟨format, rfl⟩ | ⟨options, rfl⟩
    · rw [Violation.kind, typeList_singleton] at hk
      cases type <;> simp_all [TypeName.name]
    · cases hk
    · cases hk
  | stopDate _ _ =>
    rcases leaf_cases h with ⟨type, hne, rfl⟩ | ⟨format, rfl⟩ | ⟨options, rfl⟩ <;> cases hk
  | utc hz =>
    obtain ⟨rfl, hformats, hbad⟩ := timestamp_of_leaf h hk
    cases found <;> simp only [same, Bool.false_eq_true, beq_iff_eq] at hs
    subst hs
    exact .utc hformats hbad hz
  | first => exact .first

/-- What a standard rule does about a fault is what the slot of its spot allows, while the value is
the one that was found. -/
theorem mends_of_wrong {violation : Violation} {found u w : Json}
    (h : Wrong formats resolver array t found violation) (hs : u.same found = true)
    (hm : Mend (violation.kind found) u w) : Mends formats resolver array t u w := by
  cases h with
  | lone hv =>
    generalize hk : (Violation.wrongType [.array]).kind found = kind at hm
    rw [Violation.kind, typeList_singleton] at hk
    cases hm with
    | wrap hu => exact .wrap hu
    | first => simp [TypeName.name] at hk
    | stopDate _ _ => cases hk
    | utc _ => cases hk
  | leaf h => exact mends_of_leaf h hs hm
  | @missing name k fr u hname hk =>
    cases hm with
    | stopDate hstop hstart =>
      obtain ⟨f, hf, hn, -⟩ := Frame.mem_due.mp hk
      obtain ⟨f', hf'⟩ := Frame.exists_field?_iff.mpr (List.mem_map.mpr ⟨f, hf, hn⟩)
      exact .stopDate hname hf' hstop hstart
  | stray => cases hm

end Faults

end RecordCuration
