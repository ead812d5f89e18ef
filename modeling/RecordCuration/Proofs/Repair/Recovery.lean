import RecordCuration.Proofs.Repair.Convergence
import RecordCuration.Proofs.Repair.Course

/-!
Repairs as mends, one after the other.

The issues of a validation stand at spots, and a fix is written only while the spot holds the value
that was found there. So whatever the order of the issues, what passes do to a document is to mend
it, one place after the other, and only where the document was wrong.
-/

namespace RecordCuration

open Json Draft7 JsonSchema

/-- One mend after the other, from a document to another. -/
abbrev Recovers (formats : Bool) (resolver : Resolver) (array : Bool) (t : FrameType) :
    Json → Json → Prop := Relation.ReflTransGen (Mends formats resolver array t)

/-- If a fix was written, it mended the document, and nothing but mends came after it. -/
def Treated.Mended (formats : Bool) (resolver : Resolver) (array : Bool) (t : FrameType)
    (last : Json) (r : Treated) : Prop :=
  ∀ fix, r.fix = some fix → ∃ next, Catalogue.standard.treat r.before r.issue = .fixed fix next ∧
    Mends formats resolver array t r.before next ∧ Recovers formats resolver array t next last

section Passes

variable {formats array : Bool} {resolver : Resolver} {t : FrameType} {doc mid last : Json}
  {ts : List Treated}

lemma Treated.Mended.trans {r : Treated} (h : r.Mended formats resolver array t mid)
    (hlast : Recovers formats resolver array t mid last) : r.Mended formats resolver array t last :=
  fun fix hfix =>
    have ⟨next, ht, hmend, hrest⟩ := h fix hfix
    ⟨next, ht, hmend, hrest.trans hlast⟩

/-- **Passes mend**: treatments of issues that are located, in whatever order. -/
theorem treats_mend (h : Catalogue.standard.Treats doc ts last) (hdoc : doc.WellFormed)
    (hts : ∀ r ∈ ts, Located formats resolver array t doc r.issue) :
    last.WellFormed ∧ Recovers formats resolver array t doc last ∧
      ∀ r ∈ ts, r.Mended formats resolver array t last := by
  induction h with
  | done doc => exact ⟨hdoc, .refl, by simp⟩
  | left h _ ih =>
    obtain ⟨-, hrest⟩ := List.forall_mem_cons.mp hts
    obtain ⟨hlast, hall, hmended⟩ := ih hdoc hrest
    exact ⟨hlast, hall, List.forall_mem_cons.mpr ⟨fun fix hfix => (by cases hfix), hmended⟩⟩
  | @fixed i doc next last fix ts h _ ih =>
    obtain ⟨hi, hrest⟩ := List.forall_mem_cons.mp hts
    rcases treat_mends hi hdoc with hleft | ⟨fix', next', hfixed, hnext, hm⟩
    · rw [hleft] at h
      cases h
    obtain ⟨rfl, rfl⟩ := Treatment.fixed.inj (hfixed.symm.trans h)
    obtain ⟨hlast, hall, hmended⟩ := ih hnext fun r hr => (hrest r hr).of_mends hm
    refine ⟨hlast, .head hm hall, List.forall_mem_cons.mpr ⟨fun fix' hfix => ?_, hmended⟩⟩
    cases hfix
    exact ⟨_, h, hm, hall⟩

/-- **Courses mend**: passes over issues of validations. -/
theorem course_mends {engine : Engine} (hfaults : ∀ doc, engine.faults doc =
      slotFaults formats resolver array t [] doc)
    (h : Repairer.Course engine .standard doc ts last) (hdoc : doc.WellFormed) :
    Recovers formats resolver array t doc last ∧
      ∀ r ∈ ts, r.Mended formats resolver array t last := by
  induction h with
  | done doc => exact ⟨.refl, by simp⟩
  | @pass doc mid last ts us hts hissues _ ih =>
    have hlocated : ∀ r ∈ ts, Located formats resolver array t doc r.issue := by
      intro r hr
      obtain ⟨fault, hf, hi⟩ := List.mem_map.mp (hissues r hr)
      rw [hfaults] at hf
      exact hi ▸ located_of_mem hdoc hf
    obtain ⟨hmid, hfirst, hmended⟩ := treats_mend hts hdoc hlocated
    obtain ⟨hrest, hmended'⟩ := ih hmid
    exact ⟨hfirst.trans hrest, List.forall_mem_append.mpr
      ⟨fun r hr => (hmended r hr).trans hrest, hmended'⟩⟩

end Passes

end RecordCuration
