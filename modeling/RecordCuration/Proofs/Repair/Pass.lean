import RecordCuration.Proofs.Json.Same
import RecordCuration.Repair.Pass

/-!
Passes of any catalogue.

A treatment leaves its issue, or writes what a rule proposes, or fails. A pass that wrote nothing
left every issue, and with it the document; what a pass wrote bears the names of rules.
-/

namespace RecordCuration

open Json

/-- What the rules write for an issue is well-formed, as every value of a document is. -/
def Catalogue.WritesWellFormedFor (c : Catalogue) (i : Issue) : Prop :=
  ∀ v rule fix, v.WellFormed → c.propose i v = some (rule, fix) → fix.value.WellFormed

/-- What the rules write is well-formed, as every value of a document is. -/
def Catalogue.WritesWellFormed (c : Catalogue) : Prop :=
  ∀ i v rule fix, v.WellFormed → c.propose i v = some (rule, fix) → fix.value.WellFormed

namespace Catalogue

variable {c : Catalogue} {i : Issue} {is : List Issue} {doc next last : Json} {p : Pass}
  {fix : AppliedFix}

/-! ### Treatments -/

/-- A fix is proposed when the place of the issue still holds the value it was raised for. -/
lemma proposeAt_eq_some_iff {rule : String} {f : Fix} : c.proposeAt doc i = some (rule, f) ↔
    ∃ v, doc.get i.path = .ok v ∧ v.same i.found = true ∧ c.propose i v = some (rule, f) := by
  unfold proposeAt
  cases doc.get i.path with
  | error e => simp
  | ok v => by_cases hs : v.same i.found = true <;> simp [hs]

lemma write_eq_fixed {rule : String} {f : Fix} (h : write doc rule f = .fixed fix next) :
    fix = ⟨rule, f.path⟩ ∧ ∃ w, doc.set f.path f.value = .ok w ∧ w.document = next := by
  unfold write at h
  split at h
  · cases h
  · rename_i w hw
    split at h
    · cases h
    · split_ifs at h
      cases h
      exact ⟨rfl, w, hw, rfl⟩

/-- What is written reads back, so a fix that can be written is. -/
lemma write_of_set {rule : String} {f : Fix} {w : WriteCursor.Written}
    (hf : f.value.WellFormed) (h : doc.set f.path f.value = .ok w) :
    write doc rule f = .fixed ⟨rule, f.path⟩ w.document := by
  have hback : w.document.get f.path = .ok f.value := (set_eq_ok_iff.mp h).get
  simp [write, h, hback, same_refl hf]

lemma write_ne_outstanding (rule : String) (f : Fix) : write doc rule f ≠ .outstanding := by
  unfold write
  split
  · simp
  · split
    · simp
    · split_ifs <;> simp

/-- An issue is left when the value it was raised for is gone, or no rule proposes anything. -/
lemma treat_eq_outstanding_iff : c.treat doc i = .outstanding ↔
    ∀ v, doc.get i.path = .ok v → v.same i.found = true → c.propose i v = none := by
  have hleft : c.treat doc i = .outstanding ↔ c.proposeAt doc i = none := by
    unfold treat
    cases c.proposeAt doc i with
    | none => simp
    | some f => simpa using write_ne_outstanding f.1 f.2
  rw [hleft, proposeAt]
  cases doc.get i.path with
  | error e => simp
  | ok v => by_cases hs : v.same i.found = true <;> simp [hs]

/-- A fix that was written was proposed for the value at the place of its issue. -/
lemma treat_eq_fixed (h : c.treat doc i = .fixed fix next) :
    ∃ v f w, doc.place? i.path = some v ∧ c.propose i v = some (fix.rule, f) ∧
      doc.set f.path f.value = .ok w ∧ w.document = next ∧ fix.path = f.path := by
  unfold treat at h
  split at h
  · cases h
  · rename_i rule f hf
    obtain ⟨v, hv, -, hp⟩ := proposeAt_eq_some_iff.mp hf
    obtain ⟨rfl, w, hw, hnext⟩ := write_eq_fixed h
    exact ⟨v, f, w, get_eq_ok_iff.mp hv, hp, hw, hnext, rfl⟩

lemma mem_names_of_propose {rule : String} {f : Fix} {v : Json}
    (h : c.propose i v = some (rule, f)) : rule ∈ c.names := by
  obtain ⟨r, hr, hp⟩ := List.exists_of_findSome?_eq_some h
  obtain ⟨f', -, he⟩ := Option.map_eq_some_iff.mp hp
  cases he
  exact List.mem_map.mpr ⟨r, hr, rfl⟩

lemma wellFormed_of_treat (hc : c.WritesWellFormedFor i) (hdoc : doc.WellFormed)
    (h : c.treat doc i = .fixed fix next) : next.WellFormed := by
  obtain ⟨v, f, w, hv, hp, hw, rfl, -⟩ := treat_eq_fixed h
  exact wellFormed_set hdoc (hc v _ f (wellFormed_place hdoc hv) hp) hw

/-! ### Passes -/

lemma pass_outstanding_iff (ht : c.treat doc i = .outstanding) :
    c.pass (i :: is) doc = (last, .ok p) ↔
      ∃ q, c.pass is doc = (last, .ok q) ∧ p = { q with outstanding := i :: q.outstanding } := by
  rcases hrun : c.pass is doc with ⟨doc', result⟩
  cases result with
  | error fault => simp [pass, ht, hrun, Except.map]
  | ok q => simp [pass, ht, hrun, Except.map, eq_comm, and_assoc]

lemma pass_fixed_iff (ht : c.treat doc i = .fixed fix next) :
    c.pass (i :: is) doc = (last, .ok p) ↔
      ∃ q, c.pass is next = (last, .ok q) ∧
        p = { q with applied := true, fixes := fix :: q.fixes } := by
  rcases hrun : c.pass is next with ⟨doc', result⟩
  cases result with
  | error fault => simp [pass, ht, hrun, Except.map]
  | ok q => simp [pass, ht, hrun, Except.map, eq_comm, and_assoc]

/-- What a pass that ends well did with its first issue, and with the others after that. -/
lemma pass_cons_eq_ok (h : c.pass (i :: is) doc = (last, .ok p)) :
    (c.treat doc i = .outstanding ∧ ∃ q, c.pass is doc = (last, .ok q) ∧
      p = { q with outstanding := i :: q.outstanding }) ∨
    ∃ fix next, c.treat doc i = .fixed fix next ∧ ∃ q, c.pass is next = (last, .ok q) ∧
      p = { q with applied := true, fixes := fix :: q.fixes } := by
  cases ht : c.treat doc i with
  | outstanding => exact Or.inl ⟨rfl, (pass_outstanding_iff ht).mp h⟩
  | fixed fix next => exact Or.inr ⟨fix, next, rfl, (pass_fixed_iff ht).mp h⟩
  | failed fault next => simp [pass, ht] at h

/-- **A pass says that it wrote something when it did.** -/
theorem applied_iff (h : c.pass is doc = (last, .ok p)) : p.applied = true ↔ p.fixes ≠ [] := by
  induction is generalizing doc p with
  | nil => cases h; simp
  | cons i is ih =>
    rcases pass_cons_eq_ok h with ⟨-, q, hq, rfl⟩ | ⟨fix, next, -, q, -, rfl⟩
    · have hrest := ih hq
      exact hrest
    · simp

/-- **Nothing written, nothing changed**: a pass without fixes left the document and every
issue. -/
theorem pass_of_fixes_nil (h : c.pass is doc = (last, .ok p)) (hnone : p.fixes = []) :
    last = doc ∧ ∀ i ∈ is, c.treat doc i = .outstanding := by
  induction is generalizing p with
  | nil => cases h; simp
  | cons i is ih =>
    rcases pass_cons_eq_ok h with ⟨ht, q, hq, rfl⟩ | ⟨fix, next, -, q, -, rfl⟩
    · obtain ⟨hlast, hrest⟩ := ih hq hnone
      exact ⟨hlast, List.forall_mem_cons.mpr ⟨ht, hrest⟩⟩
    · cases hnone

/-- Every fix of a pass bears the name of a rule. -/
theorem mem_names_of_pass (h : c.pass is doc = (last, .ok p)) :
    ∀ fix ∈ p.fixes, fix.rule ∈ c.names := by
  induction is generalizing doc p with
  | nil => cases h; simp
  | cons i is ih =>
    rcases pass_cons_eq_ok h with ⟨-, q, hq, rfl⟩ | ⟨fix, next, ht, q, hq, rfl⟩
    · have hrest := ih hq
      exact hrest
    · obtain ⟨v, f, w, -, hp, -⟩ := treat_eq_fixed ht
      exact List.forall_mem_cons.mpr ⟨mem_names_of_propose hp, ih hq⟩

theorem wellFormed_of_pass (hc : ∀ i ∈ is, c.WritesWellFormedFor i) (hdoc : doc.WellFormed)
    (h : c.pass is doc = (last, .ok p)) : last.WellFormed := by
  induction is generalizing doc p with
  | nil => cases h; exact hdoc
  | cons i is ih =>
    obtain ⟨hi, hrest⟩ := List.forall_mem_cons.mp hc
    rcases pass_cons_eq_ok h with ⟨-, q, hq, rfl⟩ | ⟨fix, next, ht, q, hq, rfl⟩
    · exact ih hrest hdoc hq
    · exact ih hrest (wellFormed_of_treat hi hdoc ht) hq

end Catalogue

end RecordCuration
