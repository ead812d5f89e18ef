import RecordCuration.Proofs.Json.Number
import RecordCuration.Proofs.Repair.Ending

/-!
Repairs write no numbers of their own.

A rule wraps a value, copies one that stands beside, or writes a text. So every number of a repaired
document stood in the document before, at whatever place.
-/

namespace RecordCuration

open Json

variable {doc next v w x : Json}

lemma Mend.part_of_part {kind : IssueKind} (h : Mend kind v w) (hx : x.IsNumber)
    (hp : Part x w) : Part x v := by
  cases h with
  | wrap _ =>
    obtain ⟨y, hy, hp⟩ := hx.part_arr.mp hp
    exact List.mem_singleton.mp hy ▸ hp
  | stopDate _ hstart =>
    rcases hx.part_insert hp with hp | hp
    · exact .member (mem_of_lookup hstart) hp
    · exact hp
  | utc _ => cases hp; cases hx
  | first => cases hp; cases hx

namespace Catalogue

variable {is : List Issue} {i : Issue} {fix : AppliedFix} {p : Pass}

lemma part_of_treat (hdoc : doc.WellFormed) (h : standard.treat doc i = .fixed fix next)
    (hx : x.IsNumber) (hp : Part x next) : Part x doc := by
  rcases treat_cases hdoc i with ⟨hleft, -⟩ | ⟨v, w, _, hv, -, hmend, hfixed⟩
  · rw [hleft] at h
    cases h
  · rw [hfixed] at h
    cases h
    rcases hx.part_put hp with hp | hp
    · exact (hmend.part_of_part hx hp).trans (.of_place hv)
    · exact hp

lemma part_of_pass (hdoc : doc.WellFormed) (h : standard.pass is doc = (next, .ok p))
    (hx : x.IsNumber) (hp : Part x next) : Part x doc := by
  induction is generalizing doc p with
  | nil => cases h; exact hp
  | cons i is ih =>
    rcases pass_cons_eq_ok h with ⟨-, q, hq, -⟩ | ⟨fix, mid, ht, q, hq, -⟩
    · exact ih hdoc hq
    · exact part_of_treat hdoc ht hx
        (ih (wellFormed_of_treat (standard_writesWellFormed _) hdoc ht) hq)

end Catalogue

/-- **Repairs keep to the numbers that are there.** -/
theorem Repairer.Runs.part_of_part {validator : Validator} {left : ℕ} {r : RepairRun}
    (h : Runs validator .standard left doc r) (hdoc : doc.WellFormed) (hx : x.IsNumber)
    (hp : Part x r.document) : Part x doc := by
  induction h with
  | applied hpass _ _ ih =>
    have hnext := Catalogue.wellFormed_of_pass
      (fun i _ => Catalogue.standard_writesWellFormed i) hdoc hpass
    exact Catalogue.part_of_pass hdoc hpass hx (ih hnext hp)
  | _ => exact hp

end RecordCuration
