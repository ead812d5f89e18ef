import RecordCuration.Proofs.Repair.Mend

/-!
Passes over issues below one step.

When all issues of a pass stand below one step into a document, the pass does to the value there
what it would do to it alone.
-/

namespace RecordCuration

open Json

/-- An issue of a part as one of the whole; `s` is the step to the part. -/
def Issue.under (s : Segment) (i : Issue) : Issue := { i with path := s :: i.path }

namespace Catalogue

variable {s : Segment} {doc v : Json}

/-- A treatment below a step does to the part what it does to the part alone. -/
lemma treat_under (hdoc : doc.WellFormed) (hv : doc.child? s = some v) (i : Issue) :
    (standard.treat v i = .outstanding ∧ standard.treat doc (i.under s) = .outstanding) ∨
    ∃ fix fix' w, standard.treat v i = .fixed fix w ∧ w.WellFormed ∧
      standard.treat doc (i.under s) = .fixed fix' (setChild s w doc) := by
  have hwf := wellFormed_child hdoc hv
  have hplace : ∀ x, doc.place? (s :: i.path) = some x ↔ v.place? i.path = some x := by
    intro x
    rw [place?_cons]
    exact ⟨fun ⟨y, hy, hx⟩ => by rwa [Option.some.inj (hv.symm.trans hy)], fun hx => ⟨v, hv, hx⟩⟩
  rcases treat_cases hwf i with ⟨hout, hno⟩ | ⟨x, y, fix, hx, hs, hm, hfix⟩
  · rcases treat_cases hdoc (i.under s) with ⟨hout', -⟩ | ⟨x, y, fix, hx, hs, hm, -⟩
    · exact Or.inl ⟨hout, hout'⟩
    · exact absurd hm (hno x y ((hplace x).mp hx) hs)
  · rcases treat_cases hdoc (i.under s) with ⟨-, hno⟩ | ⟨x', y', fix', hx', -, hm', hfix'⟩
    · exact absurd hm (hno x y ((hplace x).mpr hx) hs)
    · obtain rfl : x = x' := Option.some.inj (hx.symm.trans ((hplace x').mp hx'))
      obtain rfl := hm.unique hm'
      refine Or.inr ⟨fix, fix', _, hfix, wellFormed_put _ ?_ hwf, ?_⟩
      · exact hm.wellFormed (wellFormed_place hwf hx)
      · rw [hfix']
        exact congrArg (Treatment.fixed fix') (put_cons hv _ _)

/-- **A pass below a step** is a pass over the part. -/
theorem pass_under {issues : List Issue} {v' : Json} {p : Pass} (hdoc : doc.WellFormed)
    (hv : doc.child? s = some v) (hp : standard.pass issues v = (v', .ok p)) :
    ∃ p', standard.pass (issues.map (Issue.under s)) doc = (setChild s v' doc, .ok p') ∧
      (p'.fixes = [] ↔ p.fixes = []) := by
  induction issues generalizing doc v p with
  | nil =>
    cases hp
    exact ⟨⟨false, [], []⟩, by rw [setChild_self hv]; rfl, Iff.rfl⟩
  | cons i is ih =>
    rw [List.map_cons]
    rcases treat_under hdoc hv i with ⟨hout, hout'⟩ | ⟨fix, fix', w, hfix, hw, hfix'⟩
    · obtain ⟨q, hq, rfl⟩ := (pass_outstanding_iff hout).mp hp
      obtain ⟨q', hq', hiff⟩ := ih hdoc hv hq
      exact ⟨_, (pass_outstanding_iff hout').mpr ⟨q', hq', rfl⟩, hiff⟩
    · obtain ⟨q, hq, rfl⟩ := (pass_fixed_iff hfix).mp hp
      obtain ⟨q', hq', -⟩ := ih (wellFormed_setChild s hw hdoc) (child?_setChild w hv) hq
      rw [setChild_setChild] at hq'
      exact ⟨_, (pass_fixed_iff hfix').mpr ⟨q', hq', rfl⟩, by simp⟩

lemma pass_append {c : Catalogue} {is js : List Issue} {mid last : Json} {p q : Pass}
    (hp : c.pass is doc = (mid, .ok p)) (hq : c.pass js mid = (last, .ok q)) :
    ∃ r, c.pass (is ++ js) doc = (last, .ok r) ∧ (r.fixes = [] ↔ p.fixes = [] ∧ q.fixes = []) := by
  induction is generalizing doc p with
  | nil =>
    cases hp
    exact ⟨q, hq, by simp⟩
  | cons i is ih =>
    rw [List.cons_append]
    cases ht : c.treat doc i with
    | outstanding =>
      obtain ⟨p', hp', rfl⟩ := (pass_outstanding_iff ht).mp hp
      obtain ⟨r, hr, hiff⟩ := ih hp'
      exact ⟨_, (pass_outstanding_iff ht).mpr ⟨r, hr, rfl⟩, hiff⟩
    | fixed fix next =>
      obtain ⟨p', hp', rfl⟩ := (pass_fixed_iff ht).mp hp
      obtain ⟨r, hr, -⟩ := ih hp'
      exact ⟨_, (pass_fixed_iff ht).mpr ⟨r, hr, rfl⟩, by simp⟩
    | failed fault next => simp [pass, ht] at hp

/-- A pass over the issues of a part and then over others. -/
lemma pass_part {issues others : List Issue} {v' last : Json} {p q : Pass} (hdoc : doc.WellFormed)
    (hv : doc.child? s = some v) (hp : standard.pass issues v = (v', .ok p))
    (hq : standard.pass others (setChild s v' doc) = (last, .ok q)) :
    ∃ r, standard.pass (issues.map (Issue.under s) ++ others) doc = (last, .ok r) ∧
      (r.fixes = [] ↔ p.fixes = [] ∧ q.fixes = []) := by
  obtain ⟨p', hp', hpf⟩ := pass_under hdoc hv hp
  obtain ⟨r, hr, hrf⟩ := pass_append hp' hq
  exact ⟨r, hr, by rw [hrf, hpf]⟩

end Catalogue

end RecordCuration
