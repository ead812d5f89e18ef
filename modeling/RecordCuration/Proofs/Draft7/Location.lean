import RecordCuration.Engine
import RecordCuration.Proofs.Path.Pointer

/-!
Where faults stand, for any schema.

Every fault stands at a place of the document and shows the value there, with one exception: an
object that may have no members is reported with its first member. So the value at the path of an
issue is the one that the issue was raised for, that one kind aside.
-/

namespace RecordCuration

open Json

namespace Draft7

/-- A fault shows a value, or the first member of an object that may have none. -/
def Fault.Shows (f : Fault) (v : Json) : Prop :=
  f.found = v ∨ f.violation = .never "additionalProperties" ∧
    ∃ name rest, v = .obj ((name, f.found) :: rest)

/-- A fault below a path shows what the rest of its path leads to. -/
def Fault.LiesIn (f : Fault) (path : Path) (v : Json) : Prop :=
  ∃ p w, f.path = path ++ p ∧ v.place? p = some w ∧ f.Shows w

lemma Fault.LiesIn.below {f : Fault} {path : Path} {s : Segment} {v w : Json}
    (hw : v.child? s = some w) (h : f.LiesIn (path ++ [s]) w) : f.LiesIn path v := by
  obtain ⟨p, x, hp, hx, hs⟩ := h
  exact ⟨s :: p, x, by simp [hp], place?_cons.mpr ⟨w, hw, hx⟩, hs⟩

/-- A check whose faults all lie in the value that it is made on. -/
def Check.Locates (c : Check) : Prop :=
  ∀ path v, v.WellFormed → ∀ f ∈ c path v, f.LiesIn path v

/-- Rules by which references lead to such checks. -/
structure Rules.Locates (r : Rules) : Prop where
  follow : ∀ target, (r.follow target).Locates
  step : ∀ target, (r.step target).Locates

lemma Rules.Locates.inside {r : Rules} (h : r.Locates) : r.inside.Locates := ⟨h.step, h.step⟩

/-! ### Checks -/

namespace Check

variable {c : Check} {cs : List Check} {listed : List (String × Check)}

lemma locates_nothing : Locates fun _ _ => [] := fun _ _ _ _ hf => by cases hf

/-- A check that only reports the value that it is made on. -/
lemma locates_of_own (h : ∀ path v, ∀ f ∈ c path v, f.path = path ∧ f.found = v) : c.Locates := by
  intro path v _ f hf
  obtain ⟨hp, hv⟩ := h path v f hf
  exact ⟨[], v, by simp [hp], rfl, Or.inl hv⟩

lemma own_of_mem_fault {violation : Violation} {path : Path} {v : Json} {f : Fault}
    (h : f ∈ fault violation path v) : f.path = path ∧ f.found = v := by
  obtain rfl := List.mem_singleton.mp h
  exact ⟨rfl, rfl⟩

lemma locates_never (violation : Violation) : (fault violation).Locates :=
  locates_of_own fun _ _ _ => own_of_mem_fault

lemma locates_test (ok : Json → Bool) (violation : Violation) : (test ok violation).Locates := by
  refine locates_of_own fun path v f hf => ?_
  unfold test at hf
  split at hf
  · cases hf
  · exact own_of_mem_fault hf

lemma locates_required (names : List String) : (required names).Locates := by
  refine locates_of_own fun path v f hf => ?_
  unfold required at hf
  split at hf
  · obtain ⟨name, -, hf⟩ := List.mem_flatMap.mp hf
    split at hf
    · cases hf
    · exact own_of_mem_fault hf
  · cases hf

lemma locates_every (h : ∀ c ∈ cs, c.Locates) : (every cs).Locates := by
  intro path v hv f hf
  obtain ⟨c, hc, hf⟩ := List.mem_flatMap.mp hf
  exact h c hc path v hv f hf

lemma liesIn_member {ms : List (String × Json)} {m : String × Json} (hc : c.Locates)
    (hv : (Json.obj ms).WellFormed) (hm : m ∈ ms) {path : Path} {f : Fault}
    (hf : f ∈ c (path ++ [.key m.1]) m.2) : f.LiesIn path (.obj ms) := by
  obtain ⟨hnodup, hall⟩ := wellFormed_obj.mp hv
  have hchild : (Json.obj ms).child? (.key m.1) = some m.2 := lookup_of_mem hnodup hm
  exact .below hchild (hc _ _ (hall m hm) f hf)

lemma liesIn_item {xs : List Json} {i : ℕ} {x : Json} (hc : c.Locates)
    (hv : (Json.arr xs).WellFormed) (hx : xs[i]? = some x) {path : Path} {f : Fault}
    (hf : f ∈ c (path ++ [.index i]) x) : f.LiesIn path (.arr xs) := by
  have hchild : (Json.arr xs).child? (.index i) = some x := by
    simpa [child?, Segment.asIndex] using hx
  exact .below hchild (hc _ _ (wellFormed_arr.mp hv x (List.mem_of_getElem? hx)) f hf)

lemma locates_properties (h : ∀ p ∈ listed, p.2.Locates) : (properties listed).Locates := by
  intro path v hv f hf
  unfold properties at hf
  split at hf
  · obtain ⟨p, hp, hf⟩ := List.mem_flatMap.mp hf
    split at hf
    · rename_i ms _ w hw
      exact liesIn_member (m := (p.1, w)) (h p hp) hv (mem_of_lookup hw) hf
    · cases hf
  · cases hf

lemma locates_stray (names : List String) : (stray names).Locates := by
  refine locates_of_own fun path v f hf => ?_
  unfold stray at hf
  split at hf
  · cases hf
  · exact own_of_mem_fault hf

lemma locates_closed (h : ∀ p ∈ listed, p.2.Locates) : (closed listed).Locates := by
  intro path v hv f hf
  unfold closed at hf
  split at hf
  · rcases List.mem_append.mp hf with hf | hf
    · obtain ⟨m, hm, hf⟩ := List.mem_flatMap.mp hf
      unfold ifListed at hf
      split at hf
      · rename_i c hc
        exact liesIn_member (h _ (mem_of_lookup hc)) hv hm hf
      · cases hf
    · exact locates_stray _ path _ hv f hf
  · cases hf

lemma locates_others (h : ∀ p ∈ listed, p.2.Locates) (hc : c.Locates) :
    (others listed c).Locates := by
  intro path v hv f hf
  unfold others at hf
  split at hf
  · obtain ⟨m, hm, hf⟩ := List.mem_flatMap.mp hf
    cases hl : listed.lookup m.1 with
    | none => rw [hl] at hf; exact liesIn_member hc hv hm hf
    | some d => rw [hl] at hf; exact liesIn_member (h _ (mem_of_lookup hl)) hv hm hf
  · cases hf

/-- The one check that reports another value than it is made on. -/
lemma locates_noMembers : noMembers.Locates := by
  intro path v _ f hf
  unfold noMembers at hf
  split at hf
  · obtain rfl := List.mem_singleton.mp hf
    exact ⟨[], _, by simp, rfl, Or.inr ⟨rfl, _, _, rfl⟩⟩
  · cases hf

lemma locates_items (hc : c.Locates) : (items c).Locates := by
  intro path v hv f hf
  unfold items at hf
  split at hf
  · obtain ⟨x, hx, hf⟩ := List.mem_flatMap.mp hf
    exact liesIn_item hc hv (List.mem_zipIdx_iff_getElem?.mp hx) hf
  · cases hf

lemma locates_itemsInTurn (h : ∀ c ∈ cs, c.Locates) : (itemsInTurn cs).Locates := by
  intro path v hv f hf
  unfold itemsInTurn at hf
  split at hf
  · obtain ⟨⟨⟨d, x⟩, i⟩, hx, hf⟩ := List.mem_flatMap.mp hf
    have hzip := List.mem_zipIdx_iff_getElem?.mp hx
    obtain ⟨hd, hx⟩ := List.getElem?_zip_eq_some.mp hzip
    exact liesIn_item (h d (List.mem_of_getElem? hd)) hv hx hf
  · cases hf

end Check

/-! ### Schemas -/

namespace Schema

open Check

lemma locates_anyOf (cs : List Check) : (anyOfCheck cs).Locates := by
  refine locates_of_own fun path v f hf => ?_
  unfold anyOfCheck at hf
  split at hf
  · cases hf
  · exact own_of_mem_fault hf

lemma locates_oneOf (cs : List Check) : (oneOfCheck cs).Locates := by
  refine locates_of_own fun path v f hf => ?_
  unfold oneOfCheck at hf
  split at hf
  · exact own_of_mem_fault hf
  · cases hf
  · exact own_of_mem_fault hf

lemma locates_not (c : Check) (source : Json) : (notCheck c source).Locates := by
  refine locates_of_own fun path v f hf => ?_
  unfold notCheck at hf
  split at hf
  · exact own_of_mem_fault hf
  · cases hf

mutual
/-- The check of a schema, when references lead to such checks. -/
theorem locates_check {r : Rules} (hr : r.Locates) : ∀ s : Schema, (s.check r).Locates
  | .all ss => locates_every (locates_checks hr ss)
  | .never _ => locates_never _
  | .reference target => hr.follow target
  | .misfit _ => Check.locates_nothing
  | .type _ => locates_test _ _
  | .required names => locates_required names
  | .properties ps => locates_properties (locates_namedChecks hr.inside ps)
  | .closed ps => locates_closed (locates_namedChecks hr.inside ps)
  | .others ps rest =>
    locates_others (locates_namedChecks hr.inside ps) (locates_check hr.inside rest)
  | .noMembers => locates_noMembers
  | .items s => locates_items (locates_check hr.inside s)
  | .itemsInTurn ss => locates_itemsInTurn (locates_checks hr.inside ss)
  | .enum _ => locates_test _ _
  | .const _ => locates_test _ _
  | .format _ => locates_test _ _
  | .atLeast _ _ => locates_test _ _
  | .atMost _ _ => locates_test _ _
  | .bound _ _ => locates_test _ _
  | .unique => locates_test _ _
  | .not _ source => locates_not _ source
  | .anyOf _ => locates_anyOf _
  | .oneOf _ => locates_oneOf _
theorem locates_checks {r : Rules} (hr : r.Locates) :
    ∀ ss : List Schema, ∀ c ∈ checks r ss, c.Locates
  | [] => by simp [checks]
  | s :: ss => List.forall_mem_cons.mpr ⟨locates_check hr s, locates_checks hr ss⟩
theorem locates_namedChecks {r : Rules} (hr : r.Locates) :
    ∀ ps : List (String × Schema), ∀ p ∈ namedChecks r ps, p.2.Locates
  | [] => by simp [namedChecks]
  | (_, s) :: ps => List.forall_mem_cons.mpr ⟨locates_check hr s, locates_namedChecks hr ps⟩
end

end Schema

namespace Library

variable (lib : Library) (formats : Bool)

lemma locates_followFrom {step : String → Check} (hstep : ∀ target, (step target).Locates)
    (hops : ℕ) (target : String) : (lib.followFrom formats step hops target).Locates := by
  induction hops generalizing target with
  | zero => exact Check.locates_nothing
  | succ hops ih =>
    unfold followFrom
    split
    · exact Check.locates_nothing
    · exact Schema.locates_check ⟨ih, hstep⟩ _

lemma locates_follow (levels : ℕ) (target : String) :
    (lib.follow formats levels target).Locates := by
  induction levels generalizing target with
  | zero => exact Check.locates_nothing
  | succ levels ih => exact lib.locates_followFrom formats ih _ target

lemma locates_rules (levels : ℕ) : (lib.rules formats levels).Locates :=
  ⟨lib.locates_follow formats _, lib.locates_follow formats _⟩

end Library

end Draft7

/-! ### Issues -/

namespace Engine

open Draft7

variable {e : Engine} {doc : Json}

lemma mem_issues_of_mem_validate {i : Issue} (h : i ∈ e.validate doc) : i ∈ e.issues doc :=
  Validator.mem_issues_of_mem_validate h

/-- **Faults show what stands at their place**, for every schema. -/
theorem place_of_mem_faults (hdoc : doc.WellFormed) {f : Fault} (hf : f ∈ e.faults doc) :
    ∃ v, doc.place? f.path = some v ∧ f.Shows v := by
  have hrules := e.library.locates_rules e.config.formats doc.depth
  have hlocates := Schema.locates_check hrules e.schema
  obtain ⟨p, v, hp, hv, hs⟩ := hlocates [] doc hdoc f hf
  exact ⟨v, by simpa [hp] using hv, hs⟩

end Engine

end RecordCuration
