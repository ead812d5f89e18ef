import RecordCuration.Proofs.Outcome
import RecordCuration.Proofs.Path.Place

/-!
Cursors without their state.

A walk takes the steps of a path in turn and fails at the first that leads nowhere. Both kinds of
cursor move by a walk, a write cursor with the document rebuilt by `put`, so that reading and
writing come to a walk and at most one change at its end. What was written is there, and a write
that fails leaves the document as it was.
-/

namespace RecordCuration

open Json

namespace Json

variable {before p : Path} {s : Segment} {v w : Json}

/-- Takes the steps of a path, after those of the path `before`. -/
def walk (before : Path) : Path → Json → Except PathError Json
  | [], v => .ok v
  | s :: p, v => v.step (before ++ [s]) s >>= walk (before ++ [s]) p

lemma walk_eq_ok_iff : walk before p v = .ok w ↔ v.place? p = some w := by
  induction p generalizing before v with
  | nil => simp [walk]
  | cons s p ih => simp only [walk, bind_eq_ok_iff, step_eq_ok_iff, ih, place?_cons]

lemma walk_append {q : Path} :
    walk before (p ++ q) v = walk before p v >>= walk (before ++ p) q := by
  induction p generalizing before v with
  | nil =>
    rw [List.append_nil]
    rfl
  | cons s p ih =>
    rw [List.cons_append, walk, walk]
    cases v.step (before ++ [s]) s with
    | error e => rfl
    | ok w =>
      show walk (before ++ [s]) (p ++ q) w = walk (before ++ [s]) p w >>= walk (before ++ s :: p) q
      rw [ih, List.append_assoc]
      rfl

end Json

/-! ### Cursors -/

/-- A cursor moves by a walk. -/
lemma Cursor.navigate_eq (c : Cursor) (p : Path) :
    c.navigate p = (walk c.path p c.value).map (⟨·, c.path ++ p⟩) := by
  induction p generalizing c with
  | nil => simp [navigate, walk, Except.map, pure, Except.pure]
  | cons s p ih =>
    rw [navigate, List.foldlM_cons, child, walk]
    cases c.value.step (c.path ++ [s]) s with
    | error e => rfl
    | ok w =>
      show navigate ⟨w, c.path ++ [s]⟩ p = (walk (c.path ++ [s]) p w).map _
      rw [ih, List.append_assoc]
      rfl

/-- A write cursor moves by a walk too. -/
lemma WriteCursor.navigate_eq (c : WriteCursor) (p : Path) :
    c.navigate p = (walk c.path p c.value).map
      (⟨·, c.path ++ p, fun x => c.rebuild (put p x c.value)⟩) := by
  induction p generalizing c with
  | nil => simp [navigate, walk, put, Except.map, pure, Except.pure]
  | cons s p ih =>
    rw [navigate, List.foldlM_cons, child, walk]
    cases hs : c.value.step (c.path ++ [s]) s with
    | error e => rfl
    | ok w =>
      show navigate ⟨w, c.path ++ [s], fun x => c.rebuild (setChild s x c.value)⟩ p =
        (walk (c.path ++ [s]) p w).map _
      simp only [ih, List.append_assoc, put_cons (step_eq_ok_iff.mp hs)]
      rfl

/-- A cursor at a path from the root stands on what the path leads to. -/
lemma Cursor.root_navigate_eq_ok_iff {doc : Json} {p : Path} {c : Cursor} :
    (root doc).navigate p = .ok c ↔ ∃ w, doc.place? p = some w ∧ c = ⟨w, p⟩ := by
  rw [navigate_eq, map_eq_ok_iff]
  exact exists_congr fun w => and_congr walk_eq_ok_iff eq_comm

/-- A write cursor also holds the document, with the value at the path open. -/
lemma WriteCursor.root_navigate_eq_ok_iff {doc : Json} {p : Path} {c : WriteCursor} :
    (root doc).navigate p = .ok c ↔
      ∃ w, doc.place? p = some w ∧ c = ⟨w, p, fun x => put p x doc⟩ := by
  rw [navigate_eq, map_eq_ok_iff]
  exact exists_congr fun w => and_congr walk_eq_ok_iff eq_comm

/-- A write from a cursor walks to the parent of its place and changes one child there. -/
lemma WriteCursor.assign_append_singleton (c : WriteCursor) (p : Path) (s : Segment) (v : Json) :
    c.assign (p ++ [s]) v = (walk c.path p c.value).mapError (⟨·, c.document⟩) >>= fun w =>
      (WriteCursor.mk w (c.path ++ p) fun x => c.rebuild (put p x c.value)).assignChild
        (p ++ [s]) s v := by
  have hsplit : Path.splitLast? (p ++ [s]) = some (p, s) := by simp [Path.splitLast?]
  simp only [assign, hsplit, navigate_eq]
  cases walk c.path p c.value <;> rfl

/-! ### Writes that fail -/

namespace WriteCursor

variable {c d : WriteCursor} {p whole : Path} {s : Segment} {v : Json} {lost : Unwritten}

/-- Wherever a cursor moves it holds the same document. -/
lemma document_navigate (h : c.navigate p = .ok d) : d.document = c.document := by
  rw [navigate_eq] at h
  obtain ⟨w, hw, rfl⟩ := map_eq_ok_iff.mp h
  show c.rebuild (put p w c.value) = c.rebuild c.value
  rw [put_self (walk_eq_ok_iff.mp hw)]

lemma document_of_assignChild_error (h : c.assignChild whole s v = .error lost) :
    lost.document = c.document := by
  unfold assignChild at h
  split at h
  · cases h
  · split at h
    · cases h; rfl
    · split at h <;> cases h
      rfl
  · cases h; rfl

/-- **A write that fails changes nothing**: it moved towards the parent of its place, or to it. -/
theorem document_of_assign_error (h : c.assign p v = .error lost) :
    lost.document = c.document := by
  unfold assign at h
  split at h
  · cases h
  · split at h
    · cases h; rfl
    · rename_i hplace
      exact (document_of_assignChild_error h).trans (document_navigate hplace)

end WriteCursor

namespace Json

variable {p : Path} {s : Segment} {doc v w : Json} {written : WriteCursor.Written}

/-! ### Reading and writing -/

lemma get_eq_walk (doc : Json) (p : Path) : doc.get p = walk [] p doc := by
  rw [get, Cursor.navigate_eq]
  show (Except.map _ (walk [] p doc)).map _ = walk [] p doc
  cases walk [] p doc <;> rfl

/-- Reading gives what is there. -/
lemma get_eq_ok_iff : doc.get p = .ok v ↔ doc.place? p = some v := by
  rw [get_eq_walk, walk_eq_ok_iff]

lemma set_nil (doc v : Json) : doc.set [] v = .ok ⟨some doc, v⟩ := rfl

lemma set_append_singleton (doc : Json) (p : Path) (s : Segment) (v : Json) :
    doc.set (p ++ [s]) v = (walk [] p doc).mapError (⟨·, doc⟩) >>= fun w =>
      (WriteCursor.mk w p fun x => put p x doc).assignChild (p ++ [s]) s v :=
  WriteCursor.assign_append_singleton (.root doc) p s v

/-- What a write that succeeds comes to, by what stands at the parent of its place. -/
inductive Sets (doc v : Json) : Path → WriteCursor.Written → Prop where
  | whole : Sets doc v [] ⟨some doc, v⟩
  | member {p : Path} {ms : List (String × Json)} (s : Segment)
    (h : doc.place? p = some (.obj ms)) :
    Sets doc v (p ++ [s]) ⟨ms.lookup s.token, put p (.obj (Members.insert s.token v ms)) doc⟩
  | item {p : Path} {xs : List Json} {s : Segment} {i : ℕ} {old : Json}
    (h : doc.place? p = some (.arr xs)) (hs : s.asIndex = some i) (hold : xs[i]? = some old) :
    Sets doc v (p ++ [s]) ⟨some old, put p (.arr (xs.set i v)) doc⟩

lemma sets_of_assignChild (hw : doc.place? p = some w)
    (h : (WriteCursor.mk w p fun x => put p x doc).assignChild (p ++ [s]) s v = .ok written) :
    doc.Sets v (p ++ [s]) written := by
  cases w with
  | obj ms =>
    cases h
    exact .member s hw
  | arr xs =>
    unfold WriteCursor.assignChild at h
    cases hs : s.asIndex with
    | none => simp [hs] at h
    | some i =>
      cases hold : xs[i]? with
      | none => simp [hs, hold] at h
      | some old =>
        simp only [hs, hold] at h
        cases h
        exact .item hw hs hold
  | _ => cases h

lemma set_eq_ok_iff : doc.set p v = .ok written ↔ doc.Sets v p written := by
  constructor
  · intro h
    induction p using List.reverseRecOn with
    | nil =>
      cases h
      exact .whole
    | append_singleton p s _ =>
      rw [set_append_singleton, bind_eq_ok_iff] at h
      obtain ⟨w, hw, h⟩ := h
      exact sets_of_assignChild (walk_eq_ok_iff.mp (mapError_eq_ok_iff.mp hw)) h
  · intro h
    cases h with
    | whole => exact set_nil doc v
    | member s h => rw [set_append_singleton, walk_eq_ok_iff.mpr h]; rfl
    | item h hs hold =>
      rw [set_append_singleton, walk_eq_ok_iff.mpr h]
      show WriteCursor.assignChild ⟨.arr _, _, _⟩ _ _ _ = _
      simp [WriteCursor.assignChild, hs, hold]

/-- A write at a place that is there is `put`. -/
lemma set_of_place {old : Json} (h : doc.place? p = some old) (v : Json) :
    doc.set p v = .ok ⟨some old, put p v doc⟩ := by
  rw [set_eq_ok_iff]
  induction p using List.reverseRecOn with
  | nil =>
    cases h
    exact .whole
  | append_singleton p s _ =>
    obtain ⟨w, hw, ho⟩ := place?_append.mp h
    obtain ⟨x, hx, hox⟩ := place?_cons.mp ho
    cases hox
    rw [put_append hw, put_cons hx]
    cases w with
    | obj ms =>
      have hlookup : ms.lookup s.token = some old := hx
      exact hlookup ▸ .member s hw
    | arr xs =>
      obtain ⟨i, hi, hold⟩ := Option.bind_eq_some_iff.mp hx
      simpa only [setChild, hi, put] using Sets.item (v := v) hw hi hold
    | _ => cases hx

/-- A write of a member of an object that is there. -/
lemma set_member {ms : List (String × Json)} (h : doc.place? p = some (.obj ms)) (name : String)
    (v : Json) : doc.set (p ++ [.key name]) v =
      .ok ⟨ms.lookup name, put p (.obj (Members.insert name v ms)) doc⟩ :=
  set_eq_ok_iff.mpr (.member (.key name) h)

lemma document_of_set_error {lost : WriteCursor.Unwritten} (h : doc.set p v = .error lost) :
    lost.document = doc := WriteCursor.document_of_assign_error h

/-- **What was written is there.** -/
theorem Sets.get (h : doc.Sets v p written) : written.document.get p = .ok v := by
  rw [get_eq_ok_iff]
  cases h with
  | whole => rfl
  | @member p ms s h => exact (place?_append_singleton (place?_put _ h)).mpr (child?_insert s v ms)
  | item h hs hold => exact (place?_append_singleton (place?_put _ h)).mpr (child?_set hs hold v)

end Json

end RecordCuration
