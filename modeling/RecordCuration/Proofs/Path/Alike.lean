import RecordCuration.Proofs.Path.RoundTrip

/-!
Paths that show alike do alike.

Two steps are alike when they have one token and are the same position, if they can be one. They
lead to the same child of any value, and a pointer shows them in the same way, so a walk cannot tell
alike paths apart, nor can a write, not even by its errors. Paths of one pointer are alike.
-/

namespace RecordCuration

open Json

namespace Segment

/-- The steps have one token, and can be the same position or none. -/
structure Alike (s u : Segment) : Prop where
  token : s.token = u.token
  asIndex : s.asIndex = u.asIndex

/-- A position of 64 bits is still one after its token was read. -/
lemma asIndex_canonical_of_bounded {s : Segment} (h : s.Bounded) :
    s.canonical.asIndex = s.asIndex := by
  rw [asIndex_canonical]
  cases s with
  | index n => simp [asIndex, Option.filter, show n < indexBound from h]
  | key k =>
    cases hk : asIndex (.key k) with
    | none => rfl
    | some n => simp [Option.filter, (readIndex?_eq_some_iff.mp hk).2]

lemma Alike.of_canonical {s u : Segment} (hs : s.Bounded) (hu : u.Bounded)
    (h : s.canonical = u.canonical) : s.Alike u where
  token := by rw [← token_canonical s, h, token_canonical]
  asIndex := by rw [← asIndex_canonical_of_bounded hs, h, asIndex_canonical_of_bounded hu]

end Segment

namespace Path

variable {p q : Path}

/-- The steps of the paths are alike, one by one. -/
def Alike (p q : Path) : Prop := List.Forall₂ Segment.Alike p q

lemma alike_of_pointer_eq (hp : p.Bounded) (hq : q.Bounded) (h : p.pointer = q.pointer) :
    p.Alike q := by
  have hread := ofPointer_pointer p
  rw [h, ofPointer_pointer, Except.ok.injEq] at hread
  have hcanonical : List.Forall₂ (fun s u : Segment => s.canonical = u.canonical) p q := by
    rw [← List.forall₂_map_right_iff, ← List.forall₂_map_left_iff, List.forall₂_eq_eq_eq]
    exact hread.symm
  clear hread h
  induction hcanonical with
  | nil => exact .nil
  | cons hsu _ ih =>
    obtain ⟨hs, hp⟩ := List.forall_mem_cons.mp hp
    obtain ⟨hu, hq⟩ := List.forall_mem_cons.mp hq
    exact .cons (.of_canonical hs hu hsu) (ih hp hq)

namespace Alike

lemma append {p' q' : Path} (h : p.Alike q) (h' : p'.Alike q') : (p ++ p').Alike (q ++ q') :=
  List.rel_append h h'

lemma snoc {s u : Segment} (h : p.Alike q) (hsu : s.Alike u) : (p ++ [s]).Alike (q ++ [u]) :=
  h.append (.cons hsu .nil)

lemma pointer_eq (h : p.Alike q) : p.pointer = q.pointer := by
  rw [← String.toList_inj, toList_pointer, toList_pointer]
  induction h with
  | nil => rfl
  | cons hsu _ ih => rw [List.flatMap_cons, List.flatMap_cons, hsu.token, ih]

/-- Alike paths are both empty, or have alike last steps and alike ways to them. -/
lemma eq_nil_or_snoc (h : p.Alike q) : p = [] ∧ q = [] ∨
    ∃ (p' : Path) (s : Segment) (q' : Path) (u : Segment),
      p = p' ++ [s] ∧ q = q' ++ [u] ∧ p'.Alike q' ∧ s.Alike u := by
  induction h with
  | nil => exact Or.inl ⟨rfl, rfl⟩
  | @cons s u p q hsu hrest ih =>
    right
    rcases ih with ⟨rfl, rfl⟩ | ⟨p', s', q', u', rfl, rfl, hpq, hlast⟩
    · exact ⟨[], s, [], u, rfl, rfl, .nil, hsu⟩
    · exact ⟨s :: p', s', u :: q', u', rfl, rfl, .cons hsu hpq, hlast⟩

end Alike

end Path

namespace Json

variable {s u : Segment} {p q before before' : Path} {v w : Json}

lemma child?_alike (h : s.Alike u) (v : Json) : v.child? s = v.child? u := by
  cases v with
  | obj ms => rw [child?_obj, child?_obj, h.token]
  | arr xs => rw [child?_arr, child?_arr, h.asIndex]
  | _ => rfl

lemma setChild_alike (h : s.Alike u) (w v : Json) : setChild s w v = setChild u w v := by
  cases v with
  | obj ms => rw [setChild, setChild, h.token]
  | arr xs => rw [setChild, setChild, h.asIndex]
  | _ => rfl

lemma step_alike (hpath : p.Alike q) (h : s.Alike u) (v : Json) : v.step p s = v.step q u := by
  rw [step, step, child?_alike h, hpath.pointer_eq]

lemma walk_alike (hbefore : before.Alike before') (h : p.Alike q) (v : Json) :
    walk before p v = walk before' q v := by
  induction h generalizing before before' v with
  | nil => rfl
  | cons hsu _ ih =>
    rw [walk, walk, step_alike (hbefore.snoc hsu) hsu]
    exact congrArg _ (funext fun w => ih (hbefore.snoc hsu) w)

lemma put_alike (h : p.Alike q) (new v : Json) : put p new v = put q new v := by
  induction h generalizing v with
  | nil => rfl
  | @cons s u p q hsu _ ih =>
    cases hv : v.child? u with
    | none => simp [put, child?_alike hsu, hv]
    | some w => rw [put_cons hv, put_cons (child?_alike hsu v ▸ hv), ih, setChild_alike hsu]

lemma assignChild_alike {rebuild : Json → Json} (hpath : before.Alike before')
    (hwhole : p.Alike q) (h : s.Alike u) (w v : Json) :
    (WriteCursor.mk w before rebuild).assignChild p s v =
      (WriteCursor.mk w before' rebuild).assignChild q u v := by
  cases w <;>
    simp only [WriteCursor.assignChild, WriteCursor.document, h.token, h.asIndex,
      hpath.pointer_eq, hwhole.pointer_eq]

lemma set_alike (h : p.Alike q) (doc v : Json) : doc.set p v = doc.set q v := by
  rcases h.eq_nil_or_snoc with ⟨rfl, rfl⟩ | ⟨p', s, q', u, rfl, rfl, hpq, hsu⟩
  · rfl
  · rw [set_append_singleton, set_append_singleton, walk_alike .nil hpq]
    refine congrArg _ (funext fun w => ?_)
    rw [funext fun x => put_alike hpq x doc]
    exact assignChild_alike hpq h hsu w v

/-- **Paths that read alike act alike.** Two paths of one pointer, with keys and positions in any
mix, read the same value or fail with the same error, and a write at either finds the same value and
leaves the same document, or fails with the same error. -/
theorem pointer_determines (hp : p.Bounded) (hq : q.Bounded) (h : p.pointer = q.pointer)
    (doc v : Json) : doc.get p = doc.get q ∧ doc.set p v = doc.set q v := by
  have halike := Path.alike_of_pointer_eq hp hq h
  exact ⟨by rw [get_eq_walk, get_eq_walk, walk_alike .nil halike], set_alike halike doc v⟩

/-- A list under a name that is a numeral, with a member under another. -/
def numeralDoc : Json := .obj [("5", .arr [.int 1, .obj [("0", .null)]])]

def namedWay : Path := [.key "5", .index 1, .key "0"]

def numberedWay : Path := [.index 5, .key "1", .index 0]

/-- Both ways lead to the member, and replace it in its place. -/
theorem numeralDoc_pointer_determines : namedWay.Bounded ∧ numberedWay.Bounded ∧
    namedWay.pointer = numberedWay.pointer ∧
    numeralDoc.get namedWay = .ok .null ∧ numeralDoc.get namedWay = numeralDoc.get numberedWay ∧
    numeralDoc.set namedWay (.int 2) = numeralDoc.set numberedWay (.int 2) := by
  have hnamed : namedWay.Bounded := by
    simp [Path.Bounded, namedWay, Segment.Bounded, indexBound]
  have hnumbered : numberedWay.Bounded := by
    simp [Path.Bounded, numberedWay, Segment.Bounded, indexBound, UInt64.size]
  have hpointer : namedWay.pointer = numberedWay.pointer := by decide
  have hsame := pointer_determines hnamed hnumbered hpointer numeralDoc (.int 2)
  exact ⟨hnamed, hnumbered, hpointer, rfl, hsame⟩

end Json

end RecordCuration
