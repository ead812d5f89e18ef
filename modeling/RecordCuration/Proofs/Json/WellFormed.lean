import Mathlib.Tactic
import RecordCuration.Proofs.Path.Walk

/-!
Documents in which every object names each member once.

Induction over a document goes to the items of an array and to the members of an object. The parts
of a well-formed document are well-formed, and a write of a well-formed value keeps a document so.
-/

namespace RecordCuration

namespace Json

@[elab_as_elim, induction_eliminator]
theorem nestedInduction {motive : Json → Prop} (null : motive .null) (bool : ∀ b, motive (.bool b))
    (int : ∀ n, motive (.int n)) (real : ∀ x, motive (.real x)) (str : ∀ s, motive (.str s))
    (arr : ∀ xs, (∀ x ∈ xs, motive x) → motive (.arr xs))
    (obj : ∀ ms, (∀ m ∈ ms, motive m.2) → motive (.obj ms)) : ∀ v, motive v
  | .null => null
  | .bool b => bool b
  | .int n => int n
  | .real x => real x
  | .str s => str s
  | .arr xs => arr xs fun x _ => nestedInduction null bool int real str arr obj x
  | .obj ms => obj ms fun m hm =>
    have : sizeOf m.2 < sizeOf ms := by
      have h1 := List.sizeOf_lt_of_mem hm
      have h2 : sizeOf m.2 < sizeOf m := by cases m; simp +arith
      omega
    nestedInduction null bool int real str arr obj m.2

lemma wellFormedItems_iff {xs : List Json} : WellFormedItems xs ↔ ∀ x ∈ xs, x.WellFormed := by
  induction xs with
  | nil => simp [WellFormedItems]
  | cons x xs ih => simp [WellFormedItems, ih]

lemma wellFormedMembers_iff {ms : List (String × Json)} :
    WellFormedMembers ms ↔ ∀ m ∈ ms, m.2.WellFormed := by
  induction ms with
  | nil => simp [WellFormedMembers]
  | cons m ms ih => obtain ⟨k, v⟩ := m; simp [WellFormedMembers, ih]

@[simp] lemma wellFormed_arr {xs : List Json} :
    (Json.arr xs).WellFormed ↔ ∀ x ∈ xs, x.WellFormed := by
  simp [WellFormed, wellFormedItems_iff]

@[simp] lemma wellFormed_obj {ms : List (String × Json)} :
    (Json.obj ms).WellFormed ↔ (ms.map Prod.fst).Nodup ∧ ∀ m ∈ ms, m.2.WellFormed := by
  simp [WellFormed, wellFormedMembers_iff]

lemma mem_of_lookup {α : Type} {name : String} {v : α} {ms : List (String × α)}
    (h : ms.lookup name = some v) : (name, v) ∈ ms := by
  obtain ⟨before, after, rfl, -⟩ := List.lookup_eq_some_iff.mp h
  simp

lemma lookup_of_mem {α : Type} {name : String} {v : α} {ms : List (String × α)}
    (hn : (ms.map Prod.fst).Nodup) (h : (name, v) ∈ ms) : ms.lookup name = some v := by
  induction ms with
  | nil => cases h
  | cons m ms ih =>
    obtain ⟨k, w⟩ := m
    obtain ⟨hk, hn⟩ := List.nodup_cons.mp hn
    rcases List.mem_cons.mp h with he | hm
    · cases he; exact List.lookup_cons_self
    · have hne : name ≠ k := by
        rintro rfl; exact hk (List.mem_map.mpr ⟨_, hm, rfl⟩)
      rw [List.lookup_cons, beq_false_of_ne hne]
      exact ih hn hm

lemma lookup_isSome_iff {α : Type} {name : String} {ms : List (String × α)} :
    (ms.lookup name).isSome ↔ name ∈ ms.map Prod.fst := by
  simp only [List.lookup_isSome_iff, beq_iff_eq, List.mem_map]
  exact ⟨fun ⟨m, hm, h⟩ => ⟨m, hm, h.symm⟩, fun ⟨m, hm, h⟩ => ⟨m, hm, h.symm⟩⟩

lemma mem_insert {α : Type} {name : String} {v : α} {ms : List (String × α)} {m : String × α}
    (h : m ∈ Members.insert name v ms) : m = (name, v) ∨ m ∈ ms := by
  induction ms with
  | nil => left; simpa [Members.insert] using h
  | cons n ms ih =>
    obtain ⟨k, w⟩ := n
    by_cases hk : k = name
    · simp only [Members.insert, hk, ↓reduceIte, List.mem_cons] at h ⊢
      rcases h with h | h
      · exact Or.inl h
      · exact Or.inr (Or.inr h)
    · simp only [Members.insert, hk, ↓reduceIte, List.mem_cons] at h ⊢
      rcases h with h | h
      · exact Or.inr (Or.inl h)
      · exact (ih h).imp_right Or.inr

lemma wellFormed_child {s : Segment} {v w : Json} (hv : v.WellFormed) (h : v.child? s = some w) :
    w.WellFormed := by
  cases v with
  | obj ms => exact (wellFormed_obj.mp hv).2 _ (mem_of_lookup h)
  | arr xs =>
    obtain ⟨i, -, hw⟩ := Option.bind_eq_some_iff.mp h
    exact wellFormed_arr.mp hv _ (List.mem_of_getElem? hw)
  | _ => cases h

lemma wellFormed_member {name : String} {v w : Json} (hv : v.WellFormed)
    (h : v.member? name = some w) : w.WellFormed := by
  cases v with
  | obj ms => exact (wellFormed_obj.mp hv).2 _ (mem_of_lookup h)
  | _ => cases h

lemma wellFormed_insert {name : String} {v : Json} {ms : List (String × Json)}
    (hv : v.WellFormed) (hm : (Json.obj ms).WellFormed) :
    (Json.obj (Members.insert name v ms)).WellFormed := by
  obtain ⟨hn, hw⟩ := wellFormed_obj.mp hm
  refine wellFormed_obj.mpr ⟨?_, fun m h => ?_⟩
  · rw [Members.keys_insert]
    split
    · exact hn
    · exact List.nodup_append.mpr ⟨hn, by simp, by simp; rintro a b hb rfl; simp_all⟩
  · rcases mem_insert h with rfl | h
    · exact hv
    · exact hw m h

lemma wellFormed_writes {writes ms : List (String × Json)} (h : ∀ m ∈ writes, m.2.WellFormed)
    (hms : (Json.obj ms).WellFormed) :
    (Json.obj (writes.foldl (fun ms m => Members.insert m.1 m.2 ms) ms)).WellFormed := by
  induction writes generalizing ms with
  | nil => exact hms
  | cons m writes ih =>
    obtain ⟨hm, hrest⟩ := List.forall_mem_cons.mp h
    exact ih hrest (wellFormed_insert hm hms)

lemma wellFormed_ofWrites {writes : List (String × Json)} (h : ∀ m ∈ writes, m.2.WellFormed) :
    (Json.obj (Members.ofWrites writes)).WellFormed := wellFormed_writes h (by simp)

lemma wellFormed_setChild (s : Segment) {new v : Json} (hn : new.WellFormed) (hv : v.WellFormed) :
    (setChild s new v).WellFormed := by
  cases v with
  | obj ms => exact wellFormed_insert hn hv
  | arr xs =>
    cases hs : s.asIndex with
    | none => simpa [setChild, hs] using hv
    | some i =>
      simp only [setChild, hs, wellFormed_arr]
      intro x hx
      rcases List.mem_or_eq_of_mem_set hx with hx | rfl
      · exact wellFormed_arr.mp hv x hx
      · exact hn
  | _ => exact hv

lemma wellFormed_place {p : Path} {v w : Json} (hv : v.WellFormed) (h : v.place? p = some w) :
    w.WellFormed := by
  induction p generalizing v with
  | nil => cases h; exact hv
  | cons s p ih =>
    obtain ⟨x, hx, hw⟩ := place?_cons.mp h
    exact ih (wellFormed_child hv hx) hw

lemma wellFormed_put (p : Path) {new v : Json} (hn : new.WellFormed) (hv : v.WellFormed) :
    (put p new v).WellFormed := by
  induction p generalizing v with
  | nil => exact hn
  | cons s p ih =>
    cases hx : v.child? s with
    | none => simpa [put, hx] using hv
    | some x =>
      rw [put_cons hx]
      exact wellFormed_setChild s (ih (wellFormed_child hv hx)) hv

/-- A write of a well-formed value, wherever it goes, keeps a document well-formed. -/
theorem wellFormed_set {doc v : Json} {p : Path} {w : WriteCursor.Written}
    (hdoc : doc.WellFormed) (hv : v.WellFormed) (h : doc.set p v = .ok w) :
    w.document.WellFormed := by
  cases set_eq_ok_iff.mp h with
  | whole => exact hv
  | member s hp => exact wellFormed_put _ (wellFormed_insert hv (wellFormed_place hdoc hp)) hdoc
  | @item p xs s i old hp hs hold =>
    have hset := wellFormed_setChild s hv (wellFormed_place hdoc hp)
    rw [setChild, hs] at hset
    exact wellFormed_put _ hset hdoc

end Json

end RecordCuration
