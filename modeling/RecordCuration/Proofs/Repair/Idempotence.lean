import RecordCuration.Proofs.Repair.Mend

/-!
A pass of the standard rules settles the issues of one validation.

A place is fresh while it holds what the validated document has there. A fix is written at a fresh
place, and it changes the value there, so the place and all places on the way to it are stale from
then on; no fix makes a stale place fresh again. So an issue that was fixed, or was left because
its place was stale, is left by every later pass, and one that no rule mends stays so.
-/

namespace RecordCuration

open Json

/-- A place that holds in `now` what it holds in `start`. -/
def Fresh (start now : Json) (p : Path) : Prop :=
  ∃ v w, now.place? p = some v ∧ start.place? p = some w ∧ v.same w = true

namespace Fresh

variable {start now y z new : Json} {r : Path}

/-- The place of a write, and every place on the way to it, is stale after the write. -/
lemma stale_of_put (hr : now.place? r = some y) (hz : start.place? r = some z)
    (hne : ¬ new.same z = true) : ¬ Fresh start (put r new now) r := by
  rintro ⟨v, w, hv, hw, hs⟩
  rw [place?_put new hr] at hv
  obtain rfl : new = v := Option.some.inj hv
  obtain rfl : z = w := Option.some.inj (hz.symm.trans hw)
  exact hne hs

/-- A write that changes the value of a fresh place makes no place fresh. -/
theorem of_put (hstart : start.WellFormed) (hnow : now.WellFormed)
    (hr : now.place? r = some y) (hz : start.place? r = some z) (hyz : y.same z = true)
    (hne : ¬ new.same z = true) {q : Path} (h : Fresh start (put r new now) q) :
    Fresh start now q := by
  induction r generalizing start now q with
  | nil =>
    -- the documents agree, so every place of `start` is fresh
    obtain rfl : now = y := Option.some.inj hr
    obtain rfl : start = z := Option.some.inj hz
    obtain ⟨-, w, -, hw, -⟩ := h
    obtain ⟨v, hv, hvw⟩ := place?_of_same (same_symm hnow hstart hyz) hw
    exact ⟨v, w, hv, hw, same_symm (wellFormed_place hstart hw) (wellFormed_place hnow hv) hvw⟩
  | cons s r ih =>
    obtain ⟨x, hx, hxy⟩ := place?_cons.mp hr
    obtain ⟨c, hc, hcz⟩ := place?_cons.mp hz
    obtain ⟨v, w, hv, hw, hvw⟩ := h
    rw [put_cons hx] at hv
    cases q with
    | nil =>
      -- an ancestor of the place of the write has changed with it
      obtain rfl : setChild s (put r new x) now = v := Option.some.inj hv
      obtain rfl : start = w := Option.some.inj hw
      obtain ⟨c', hc', hpc⟩ := child?_of_same hvw (child?_setChild _ hx)
      obtain rfl : c = c' := Option.some.inj (hc.symm.trans hc')
      obtain ⟨z', hz', hnz⟩ := place?_of_same hpc (place?_put new hxy)
      obtain rfl : z = z' := Option.some.inj (hcz.symm.trans hz')
      exact absurd hnz hne
    | cons u q =>
      obtain ⟨a, ha, hva⟩ := place?_cons.mp hv
      obtain ⟨b, hb, hwb⟩ := place?_cons.mp hw
      rcases child?_setChild_cases (put r new x) hx u with hsame | ⟨ht, hux, hua⟩
      · rw [hsame] at ha
        exact ⟨v, w, place?_cons.mpr ⟨a, ha, hva⟩, hw, hvw⟩
      · obtain rfl : put r new x = a := Option.some.inj (hua.symm.trans ha)
        obtain rfl : c = b := child?_of_token ht.symm hc hb
        obtain ⟨v', w', hv', hw', hvw'⟩ := ih (wellFormed_child hstart hc)
          (wellFormed_child hnow hx) hxy hcz ⟨v, w, hva, hwb, hvw⟩
        exact ⟨v', w', place?_cons.mpr ⟨x, hux, hv'⟩, place?_cons.mpr ⟨c, hb, hw'⟩, hvw'⟩

end Fresh

/-- An issue raised for the value that `start` has at its place. -/
structure Raised (start : Json) (i : Issue) : Prop where
  wellFormed : i.found.WellFormed
  found : ∃ v, start.place? i.path = some v ∧ v.same i.found = true

/-- Nothing is to be done about an issue while `now` is the document: its place is stale, or no
rule mends it. -/
def Settled (start now : Json) (i : Issue) : Prop :=
  Fresh start now i.path → ∀ v w, start.place? i.path = some v → ¬ Mend i.kind v w

namespace Raised

variable {start now : Json} {i : Issue}

lemma fresh_iff (hi : Raised start i) (hstart : start.WellFormed) {v : Json}
    (hv : now.place? i.path = some v) : Fresh start now i.path ↔ v.same i.found = true := by
  obtain ⟨w, hw, hwf⟩ := hi.found
  constructor
  · rintro ⟨v', w', hv', hw', hs⟩
    obtain rfl : v = v' := Option.some.inj (hv.symm.trans hv')
    obtain rfl : w = w' := Option.some.inj (hw.symm.trans hw')
    exact same_trans hs hwf
  · intro hs
    have hfw := same_symm (wellFormed_place hstart hw) hi.wellFormed hwf
    exact ⟨v, w, hv, hw, same_trans hs hfw⟩

lemma treat_of_settled (hi : Raised start i) (hstart : start.WellFormed) (hnow : now.WellFormed)
    (h : Settled start now i) : Catalogue.standard.treat now i = .outstanding := by
  rcases Catalogue.treat_cases hnow i with ⟨ht, -⟩ | ⟨v, w, fix, hv, hs, hm, -⟩
  · exact ht
  · have hf := (hi.fresh_iff hstart hv).mpr hs
    obtain ⟨v', w', hv', hw', hvw⟩ := hf
    obtain rfl : v = v' := Option.some.inj (hv.symm.trans hv')
    obtain ⟨x, hx⟩ := hm.exists_of_same (wellFormed_place hnow hv) (wellFormed_place hstart hw') hvw
    exact absurd hx (h ⟨v, w', hv', hw', hvw⟩ w' x hw')

/-- A treatment settles its issue, keeps what is settled, and leaves the document well-formed. -/
theorem treat_settles (hi : Raised start i) (hstart : start.WellFormed) (hnow : now.WellFormed) :
    (Catalogue.standard.treat now i = .outstanding ∧ Settled start now i) ∨
    ∃ fix next, Catalogue.standard.treat now i = .fixed fix next ∧ next.WellFormed ∧
      Settled start next i ∧ ∀ q, Fresh start next q → Fresh start now q := by
  rcases Catalogue.treat_cases hnow i with ⟨ht, hno⟩ | ⟨v, w, fix, hv, hs, hm, ht⟩
  · refine Or.inl ⟨ht, fun hf v w hv hm => ?_⟩
    obtain ⟨v', w', hv', hw', hvw⟩ := hf
    obtain rfl : v = w' := Option.some.inj (hv.symm.trans hw')
    have hw'v := same_symm (wellFormed_place hnow hv') (wellFormed_place hstart hv) hvw
    obtain ⟨x, hx⟩ :=
      hm.exists_of_same (wellFormed_place hstart hv) (wellFormed_place hnow hv') hw'v
    exact hno v' x hv' ((hi.fresh_iff hstart hv').mp ⟨v', v, hv', hv, hvw⟩) hx
  · obtain ⟨z, hz, hzf⟩ := hi.found
    have hvz : v.same z = true :=
      same_trans hs (same_symm (wellFormed_place hstart hz) hi.wellFormed hzf)
    have hne := hm.not_same hvz
    refine Or.inr ⟨fix, put i.path w now, ht, wellFormed_put _ ?_ hnow, fun hf => ?_, fun q => ?_⟩
    · exact hm.wellFormed (wellFormed_place hnow hv)
    · exact absurd hf (Fresh.stale_of_put hv hz hne)
    · exact Fresh.of_put hstart hnow hv hz hvz hne

end Raised

namespace Catalogue

variable {start now : Json} {issues : List Issue}

lemma pass_of_settled (hstart : start.WellFormed) (hnow : now.WellFormed)
    (hr : ∀ i ∈ issues, Raised start i) (hs : ∀ i ∈ issues, Settled start now i) :
    standard.pass issues now = (now, .ok ⟨false, [], issues⟩) := by
  induction issues with
  | nil => rfl
  | cons i is ih =>
    have ht := (hr i (by simp)).treat_of_settled hstart hnow (hs i (by simp))
    have hrest := ih (fun j hj => hr j (by simp [hj])) (fun j hj => hs j (by simp [hj]))
    exact (pass_outstanding_iff ht).mpr ⟨_, hrest, rfl⟩

/-- A pass ends well and settles every issue that it was given. -/
theorem pass_settles (hstart : start.WellFormed) (hnow : now.WellFormed)
    (hr : ∀ i ∈ issues, Raised start i) :
    ∃ last p, standard.pass issues now = (last, .ok p) ∧ last.WellFormed ∧
      (∀ q, Fresh start last q → Fresh start now q) ∧ ∀ i ∈ issues, Settled start last i := by
  induction issues generalizing now with
  | nil => exact ⟨now, _, rfl, hnow, fun _ h => h, by simp⟩
  | cons i is ih =>
    have hr' : ∀ j ∈ is, Raised start j := fun j hj => hr j (by simp [hj])
    rcases (hr i (by simp)).treat_settles hstart hnow with ⟨ht, hs⟩ | ⟨fix, next, ht, hn, hs, hq⟩
    · obtain ⟨last, p, hp, hlast, hfresh, hset⟩ := ih hnow hr'
      have hall := List.forall_mem_cons.mpr ⟨fun hf => hs (hfresh _ hf), hset⟩
      exact ⟨last, _, (pass_outstanding_iff ht).mpr ⟨p, hp, rfl⟩, hlast, hfresh, hall⟩
    · obtain ⟨last, p, hp, hlast, hfresh, hset⟩ := ih hn hr'
      have hall := List.forall_mem_cons.mpr ⟨fun hf => hs (hfresh _ hf), hset⟩
      exact ⟨last, _, (pass_fixed_iff ht).mpr ⟨p, hp, rfl⟩, hlast, fun q h => hq q (hfresh q h),
        hall⟩

end Catalogue

/-- **A second pass changes nothing**: for issues that were all raised for the values of one
document, whatever their kinds, order and places, the pass after the first writes nothing, leaves
the document and gives every issue back in order. -/
theorem pass_idempotent {doc : Json} (hdoc : doc.WellFormed) {issues : List Issue}
    (hfound : ∀ i ∈ issues, i.found.WellFormed ∧
      ∃ v, doc.get i.path = .ok v ∧ v.same i.found = true) :
    ∃ next first second, Catalogue.standard.pass issues doc = (next, .ok first) ∧
      Catalogue.standard.pass issues next = (next, .ok second) ∧
      second.applied = false ∧ second.fixes = [] ∧ second.outstanding = issues := by
  have hr : ∀ i ∈ issues, Raised doc i := by
    intro i hi
    obtain ⟨hw, v, hv, hs⟩ := hfound i hi
    exact ⟨hw, v, get_eq_ok_iff.mp hv, hs⟩
  obtain ⟨next, first, hp, hnext, -, hset⟩ := Catalogue.pass_settles hdoc hdoc hr
  exact ⟨next, first, ⟨false, [], issues⟩, hp, Catalogue.pass_of_settled hdoc hnext hr hset,
    rfl, rfl, rfl⟩

def overlapObject : Json := .obj [("0", .obj [("k", .int 5)]), ("k", .int 5)]

/-- The pointer `/a/0/k` leads to a value here, and to another one after `/a` was wrapped. -/
def overlapDoc : Json := .obj [("a", overlapObject)]

/-- A list is wanted at a place, where `found` was. -/
def listWanted (path : Path) (found : Json) : Issue :=
  ⟨path, .typeMismatch "array" "object", .null, found, ""⟩

/-- The issues of a place and of one inside it, and the first once more. -/
def overlapIssues : List Issue :=
  [listWanted [.key "a"] overlapObject, listWanted [.key "a", .index 0, .key "k"] (.int 5),
    listWanted [.key "a"] overlapObject]

theorem overlap_pass_idempotent :
    ∃ next first second, Catalogue.standard.pass overlapIssues overlapDoc = (next, .ok first) ∧
      Catalogue.standard.pass overlapIssues next = (next, .ok second) ∧
      second.applied = false ∧ second.fixes = [] ∧ second.outstanding = overlapIssues := by
  have hwf : overlapDoc.WellFormed := by
    simp [overlapDoc, overlapObject, WellFormed, WellFormedMembers]
  have hwhole : overlapObject.WellFormed := by
    simp [overlapObject, WellFormed, WellFormedMembers]
  have hplace : overlapDoc.get [.key "a"] = .ok overlapObject := by rfl
  have hinner : overlapDoc.get [.key "a", .index 0, .key "k"] = .ok (.int 5) := by rfl
  refine pass_idempotent hwf ?_
  simp only [overlapIssues, List.forall_mem_cons, listWanted]
  exact ⟨⟨hwhole, _, hplace, by decide⟩, ⟨trivial, _, hinner, by decide⟩,
    ⟨hwhole, _, hplace, by decide⟩, by simp⟩

end RecordCuration
