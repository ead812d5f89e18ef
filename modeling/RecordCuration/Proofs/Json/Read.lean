import RecordCuration.Json.Parser
import RecordCuration.Proofs.Json.WellFormed

/-!
What is read from a text is well-formed.
-/

namespace RecordCuration.Json

namespace Source

mutual
theorem wellFormed_of_toJson? {room : ℕ} : ∀ {x : Source} {v : Json},
    x.toJson? room = some v → v.WellFormed
  | .null, v, h => by cases h; trivial
  | .bool b, v, h => by cases h; trivial
  | .num n, v, h => by
    obtain ⟨number, -, rfl⟩ := Option.map_eq_some_iff.mp h
    cases number <;> trivial
  | .text ps, v, h => by
    obtain ⟨s, -, rfl⟩ := Option.map_eq_some_iff.mp h
    trivial
  | .arr items, v, h => by
    rw [toJson?] at h
    split_ifs at h
    obtain ⟨vs, hvs, rfl⟩ := Option.map_eq_some_iff.mp h
    exact wellFormed_arr.mpr (wellFormed_of_items? hvs)
  | .obj members, v, h => by
    rw [toJson?] at h
    split_ifs at h
    obtain ⟨ms, hms, rfl⟩ := Option.map_eq_some_iff.mp h
    exact wellFormed_ofWrites (wellFormed_of_members? hms)
theorem wellFormed_of_items? {room : ℕ} : ∀ {xs : List Source} {vs : List Json},
    items? room xs = some vs → ∀ v ∈ vs, v.WellFormed
  | [], vs, h => by cases h; simp
  | x :: xs, vs, h => by
    simp only [items?, bind, pure, Option.bind_eq_some_iff] at h
    obtain ⟨v, hv, us, hus, he⟩ := h
    cases he
    exact List.forall_mem_cons.mpr ⟨wellFormed_of_toJson? hv, wellFormed_of_items? hus⟩
theorem wellFormed_of_members? {room : ℕ} :
    ∀ {members : List (List Piece × Source)} {ms : List (String × Json)},
      members? room members = some ms → ∀ m ∈ ms, m.2.WellFormed
  | [], ms, h => by cases h; simp
  | (name, x) :: members, ms, h => by
    simp only [members?, bind, pure, Option.bind_eq_some_iff] at h
    obtain ⟨k, -, v, hv, ns, hns, he⟩ := h
    cases he
    exact List.forall_mem_cons.mpr ⟨wellFormed_of_toJson? hv, wellFormed_of_members? hns⟩
end

end Source

/-- **Texts read well**: a document that is read from a text is well-formed. -/
theorem wellFormed_of_ofString? {s : String} {doc : Json} (h : ofString? s = some doc) :
    doc.WellFormed := by
  obtain ⟨x, -, hx⟩ := Option.bind_eq_some_iff.mp h
  exact Source.wellFormed_of_toJson? hx

end RecordCuration.Json
