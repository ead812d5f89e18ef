import RecordCuration.Path.Cursor
import RecordCuration.Proofs.Path.Numeral

/-!
Places in a document by recursion on the path to them.

`place?` reads what is there, and `put` is the document with something else there. A write of one
child changes another only when the two steps have one token.
-/

namespace RecordCuration

namespace Json

/-! ### One step -/

lemma child?_obj (s : Segment) (ms : List (String × Json)) :
    (Json.obj ms).child? s = ms.lookup s.token := rfl

lemma child?_arr (s : Segment) (xs : List Json) :
    (Json.arr xs).child? s = s.asIndex >>= (xs[·]?) := rfl

lemma child?_insert (s : Segment) (x : Json) (ms : List (String × Json)) :
    (Json.obj (Members.insert s.token x ms)).child? s = some x := Members.lookup_insert_self _ _ _

lemma child?_set {s : Segment} {i : ℕ} {xs : List Json} {w : Json} (hs : s.asIndex = some i)
    (hw : xs[i]? = some w) (x : Json) : (Json.arr (xs.set i x)).child? s = some x := by
  have hlt : i < xs.length := (List.getElem?_eq_some_iff.mp hw).1
  simp [child?, hs, hlt]

lemma child?_setChild {s : Segment} {v w : Json} (x : Json) (h : v.child? s = some w) :
    (setChild s x v).child? s = some x := by
  cases v with
  | obj ms => exact child?_insert s x ms
  | arr xs =>
    obtain ⟨i, hi, hw⟩ := Option.bind_eq_some_iff.mp h
    simpa only [setChild, hi] using child?_set hi hw x
  | _ => cases h

lemma child?_of_token {s u : Segment} (ht : s.token = u.token) {v a b : Json}
    (hs : v.child? s = some a) (hu : v.child? u = some b) : a = b := by
  cases v with
  | obj ms =>
    rw [child?_obj, ht] at hs
    exact Option.some.inj (hs.symm.trans hu)
  | arr xs =>
    obtain ⟨i, hi, ha⟩ := Option.bind_eq_some_iff.mp hs
    obtain ⟨j, hj, hb⟩ := Option.bind_eq_some_iff.mp hu
    rw [Segment.asIndex_inj ht hi hj] at ha
    exact Option.some.inj (ha.symm.trans hb)
  | _ => cases hs

/-- A write of one child leaves what another step leads to, unless both have one token. -/
lemma child?_setChild_cases {s : Segment} {v w : Json} (x : Json) (h : v.child? s = some w)
    (u : Segment) :
    (setChild s x v).child? u = v.child? u ∨
      u.token = s.token ∧ v.child? u = some w ∧ (setChild s x v).child? u = some x := by
  cases v with
  | obj ms =>
    by_cases ht : u.token = s.token
    · refine Or.inr ⟨ht, ?_, ?_⟩
      · rw [child?_obj, ht]; exact h
      · rw [setChild, child?_obj, ht]; exact Members.lookup_insert_self _ _ _
    · exact Or.inl (Members.lookup_insert_of_ne ht _ _)
  | arr xs =>
    obtain ⟨i, hi, hw⟩ := Option.bind_eq_some_iff.mp h
    cases hu : u.asIndex with
    | none => left; simp [setChild, hi, child?, hu]
    | some j =>
      by_cases hij : j = i
      · subst hij
        refine Or.inr ⟨?_, ?_, ?_⟩
        · rw [Segment.token_of_asIndex hi, Segment.token_of_asIndex hu]
        · rw [child?_arr, hu]; exact hw
        · have hlt : j < xs.length := (List.getElem?_eq_some_iff.mp hw).1
          simp [setChild, hi, child?, hu, hlt]
      · left
        simp [setChild, hi, child?, hu, List.getElem?_set_ne (Ne.symm hij)]
  | _ => cases h

lemma setChild_self {s : Segment} {v w : Json} (h : v.child? s = some w) :
    setChild s w v = v := by
  cases v with
  | obj ms => rw [setChild, Members.insert_of_lookup h]
  | arr xs =>
    obtain ⟨i, hi, hw⟩ := Option.bind_eq_some_iff.mp h
    obtain ⟨hlt, rfl⟩ := List.getElem?_eq_some_iff.mp hw
    simp [setChild, hi]
  | _ => cases h

lemma setChild_setChild (s : Segment) (a b v : Json) :
    setChild s b (setChild s a v) = setChild s b v := by
  cases v with
  | obj ms => simp [setChild, Members.insert_insert]
  | arr xs => cases hs : s.asIndex <;> simp [setChild, hs]
  | _ => rfl

lemma step_eq_ok_iff {path : Path} {s : Segment} {v w : Json} :
    v.step path s = .ok w ↔ v.child? s = some w := by
  unfold step
  cases v.child? s with
  | some x => simp
  | none => simp only [reduceCtorEq, iff_false]; split <;> simp

/-! ### Whole paths -/

/-- The value that a path leads to. -/
def place? : Path → Json → Option Json
  | [], v => some v
  | s :: p, v => v.child? s >>= place? p

/-- A document with another value where a path leads, and the same document if it leads
nowhere. -/
def put : Path → Json → Json → Json
  | [], new, _ => new
  | s :: p, new, v =>
    match v.child? s with
    | some w => setChild s (put p new w) v
    | none => v

@[simp] lemma place?_nil (v : Json) : place? [] v = some v := rfl

lemma place?_cons {s : Segment} {p : Path} {v w : Json} :
    place? (s :: p) v = some w ↔ ∃ x, v.child? s = some x ∧ place? p x = some w := by
  simp [place?, Option.bind_eq_some_iff]

lemma place?_append {p q : Path} {v w : Json} :
    place? (p ++ q) v = some w ↔ ∃ x, place? p v = some x ∧ place? q x = some w := by
  induction p generalizing v with
  | nil => simp
  | cons s p ih =>
    simp only [List.cons_append, place?_cons, ih]
    constructor
    · rintro ⟨x, hx, y, hy, hw⟩; exact ⟨y, ⟨x, hx, hy⟩, hw⟩
    · rintro ⟨y, ⟨x, hx, hy⟩, hw⟩; exact ⟨x, hx, y, hy, hw⟩

lemma place?_append_singleton {p : Path} {s : Segment} {v w x : Json} (h : place? p v = some w) :
    place? (p ++ [s]) v = some x ↔ w.child? s = some x := by
  rw [place?_append]
  constructor
  · rintro ⟨y, hy, hx⟩
    obtain rfl : w = y := Option.some.inj (h.symm.trans hy)
    obtain ⟨z, hz, hzx⟩ := place?_cons.mp hx
    exact hz.trans hzx
  · exact fun hx => ⟨w, h, place?_cons.mpr ⟨x, hx, rfl⟩⟩

lemma put_cons {s : Segment} {v x : Json} (h : v.child? s = some x) (p : Path) (new : Json) :
    put (s :: p) new v = setChild s (put p new x) v := by simp [put, h]

lemma place?_put {p : Path} {v w : Json} (new : Json) (h : place? p v = some w) :
    place? p (put p new v) = some new := by
  induction p generalizing v with
  | nil => rfl
  | cons s p ih =>
    obtain ⟨x, hx, hw⟩ := place?_cons.mp h
    rw [put_cons hx]
    exact place?_cons.mpr ⟨_, child?_setChild _ hx, ih hw⟩

/-- Putting back what is there changes nothing. -/
lemma put_self {p : Path} {v w : Json} (h : place? p v = some w) : put p w v = v := by
  induction p generalizing v with
  | nil => exact (Option.some.inj h).symm
  | cons s p ih =>
    obtain ⟨x, hx, hw⟩ := place?_cons.mp h
    rw [put_cons hx, ih hw, setChild_self hx]

/-- The second of two changes at a place wins. -/
lemma put_put {p : Path} {v w : Json} (a b : Json) (h : place? p v = some w) :
    put p b (put p a v) = put p b v := by
  induction p generalizing v with
  | nil => rfl
  | cons s p ih =>
    obtain ⟨x, hx, hw⟩ := place?_cons.mp h
    rw [put_cons hx, put_cons (child?_setChild _ hx), ih hw, setChild_setChild, put_cons hx]

lemma put_append {p : Path} {v w : Json} (h : place? p v = some w) (q : Path) (new : Json) :
    put (p ++ q) new v = put p (put q new w) v := by
  induction p generalizing v with
  | nil => cases h; rfl
  | cons s p ih =>
    obtain ⟨x, hx, hw⟩ := place?_cons.mp h
    rw [List.cons_append, put_cons hx, put_cons hx, ih hw]

end Json

end RecordCuration
