import RecordCuration.Proofs.Path.Walk

/-!
Reading and writing at one path as a lens.

A write that fails leaves the document as it was. A write that succeeds is read back, finds what was
read before it, and hides the writes at its path that came before. Writing what is read changes
nothing.
-/

namespace RecordCuration

open Json

namespace Json

variable {p : Path} {s : Segment} {doc v w x y : Json} {written : WriteCursor.Written}
  {lost : WriteCursor.Unwritten}

/-! ### Writes that fail -/

/-- The document after a write at a path, which may fail. -/
def afterSet (doc : Json) (p : Path) (v : Json) : Json :=
  match doc.set p v with
  | .ok written => written.document
  | .error lost => lost.document

lemma afterSet_of_ok (h : doc.set p v = .ok written) : doc.afterSet p v = written.document := by
  rw [afterSet, h]

lemma afterSet_of_error (h : doc.set p v = .error lost) : doc.afterSet p v = doc := by
  rw [afterSet, h]
  exact document_of_set_error h

/-- A write fails only where nothing can be read. -/
lemma exists_get_error_of_set (h : doc.set p v = .error lost) : ∃ e, doc.get p = .error e := by
  cases hget : doc.get p with
  | error e => exact ⟨e, rfl⟩
  | ok x =>
    rw [set_of_place (get_eq_ok_iff.mp hget)] at h
    cases h

/-! ### Writes that succeed -/

/-- A write finds what is there. -/
lemma Sets.previous_eq_some_iff (h : doc.Sets v p written) :
    written.previous = some x ↔ doc.place? p = some x := by
  cases h with
  | whole => rfl
  | member s hp => exact (place?_append_singleton hp).symm
  | item hp hs hold => rw [place?_append_singleton hp, child?_arr, hs, ← hold]; rfl

/-- A write finds nothing only in an object without the member. -/
lemma Sets.get_of_new (h : doc.Sets v p written) (hnew : written.previous = none) :
    doc.get p = .error (.nodeNotFound p.pointer) := by
  cases h with
  | whole => cases hnew
  | @member p ms s hp =>
    have hchild : (Json.obj ms).child? s = none := hnew
    rw [get_eq_walk, walk_append, walk_eq_ok_iff.mpr hp]
    show (Json.obj ms).step (p ++ [s]) s >>= _ = _
    rw [step, hchild]
    rfl
  | item hp hs hold => cases hnew

lemma Sets.previous_eq_none_iff (h : doc.Sets v p written) :
    written.previous = none ↔ ∃ pointer, doc.get p = .error (.nodeNotFound pointer) := by
  refine ⟨fun hnew => ⟨_, h.get_of_new hnew⟩, fun ⟨pointer, hget⟩ => ?_⟩
  cases hprev : written.previous with
  | none => rfl
  | some x =>
    rw [get_eq_ok_iff.mpr (h.previous_eq_some_iff.mp hprev)] at hget
    cases hget

/-- A change at the parent of a place and then one at the place make one change at the parent. -/
lemma put_append_singleton_put (hp : doc.place? p = some w) (hy : y.child? s = some x) (v : Json) :
    put (p ++ [s]) v (put p y doc) = put p (setChild s v y) doc := by
  rw [put_append (place?_put y hp), put_put _ _ hp, put_cons hy]
  rfl

/-- Whatever was written at a place, a second write there does what it does alone. -/
lemma Sets.again (h : doc.Sets v p written) (w : Json) :
    ∃ old, doc.Sets w p ⟨old, put p w written.document⟩ := by
  cases h with
  | whole => exact ⟨_, .whole⟩
  | @member p ms s hp =>
    refine ⟨ms.lookup s.token, ?_⟩
    show doc.Sets w (p ++ [s]) ⟨_, put (p ++ [s]) w (put p _ doc)⟩
    rw [put_append_singleton_put hp (child?_insert s v ms), setChild, Members.insert_insert]
    exact .member s hp
  | @item p xs s i old hp hs hold =>
    refine ⟨some old, ?_⟩
    show doc.Sets w (p ++ [s]) ⟨_, put (p ++ [s]) w (put p _ doc)⟩
    rw [put_append_singleton_put hp (child?_set hs hold v), setChild, hs]
    simpa using Sets.item (v := w) hp hs hold

/-- The second of two writes at a path wins, whether they fail or not. -/
lemma afterSet_afterSet (doc : Json) (p : Path) (v w : Json) :
    (doc.afterSet p v).afterSet p w = doc.afterSet p w := by
  cases hv : doc.set p v with
  | error e => rw [afterSet_of_error hv]
  | ok written =>
    have hsets := set_eq_ok_iff.mp hv
    obtain ⟨old, hagain⟩ := hsets.again w
    have hthere := get_eq_ok_iff.mp hsets.get
    rw [afterSet_of_ok hv, afterSet_of_ok (set_of_place hthere w),
      afterSet_of_ok (set_eq_ok_iff.mpr hagain)]

/-- **Reading and writing are a lens.** After a write that succeeds, its value is read at its path,
and what it found is what was read there before, or nothing, if the read said that the node is not
found. A write that fails leaves the document, and then a read fails there too. The second of two
writes leaves what it leaves alone. Writing what is read leaves the very document, with its members
in their order. -/
theorem lens_laws (doc : Json) (p : Path) (v w : Json) :
    (∀ written, doc.set p v = .ok written →
      written.document.get p = .ok v ∧
      (∀ x, written.previous = some x ↔ doc.get p = .ok x) ∧
      (written.previous = none ↔ ∃ pointer, doc.get p = .error (.nodeNotFound pointer))) ∧
    (∀ lost, doc.set p v = .error lost →
      lost.document = doc ∧ doc.afterSet p v = doc ∧ ∃ e, doc.get p = .error e) ∧
    (doc.afterSet p v).afterSet p w = doc.afterSet p w ∧
    ∀ x, doc.get p = .ok x → doc.set p x = .ok ⟨some x, doc⟩ := by
  refine ⟨fun written h => ?_, fun lost h =>
    ⟨document_of_set_error h, afterSet_of_error h, exists_get_error_of_set h⟩,
    afterSet_afterSet doc p v w, fun x h => ?_⟩
  · have hsets := set_eq_ok_iff.mp h
    refine ⟨hsets.get, fun x => ?_, hsets.previous_eq_none_iff⟩
    rw [hsets.previous_eq_some_iff, get_eq_ok_iff]
  · have hx := get_eq_ok_iff.mp h
    rw [set_of_place hx, put_self hx]

/-- A record with a name and the stages of its rocket, the second one unknown. -/
def rocket : Json := .obj [("Name", .str "Titan"), ("Stages", .arr [.str "core", .null])]

/-- A new member, a write into a text, and the second item by a key that is its numeral. -/
theorem rocket_lens_laws :
    (∃ written, rocket.set [.key "Launch"] (.int 1977) = .ok written ∧ written.previous = none ∧
      written.document.get [.key "Launch"] = .ok (.int 1977) ∧
      ∃ pointer, rocket.get [.key "Launch"] = .error (.nodeNotFound pointer)) ∧
    (∃ lost e, rocket.set [.key "Name", .key "First"] .null = .error lost ∧
      lost.document = rocket ∧ rocket.afterSet [.key "Name", .key "First"] .null = rocket ∧
      rocket.get [.key "Name", .key "First"] = .error e) ∧
    (rocket.afterSet [.key "Stages", .key "1"] (.int 2)).afterSet [.key "Stages", .key "1"] .null =
      rocket.afterSet [.key "Stages", .key "1"] .null ∧
    rocket.get [.key "Stages", .key "1"] = .ok .null ∧
    rocket.set [.key "Stages", .key "1"] .null = .ok ⟨some .null, rocket⟩ := by
  obtain ⟨hnew, -⟩ := lens_laws rocket [.key "Launch"] (.int 1977) .null
  obtain ⟨-, hlost, -⟩ := lens_laws rocket [.key "Name", .key "First"] .null .null
  obtain ⟨-, -, htwice, hthere⟩ := lens_laws rocket [.key "Stages", .key "1"] (.int 2) .null
  have hset : rocket.set [.key "Launch"] (.int 1977) = .ok _ := rfl
  obtain ⟨hget, -, hnone⟩ := hnew _ hset
  have hfail : rocket.set [.key "Name", .key "First"] .null = .error _ := rfl
  obtain ⟨hdocument, hsame, e, hmissing⟩ := hlost _ hfail
  have hread : rocket.get [.key "Stages", .key "1"] = .ok .null := rfl
  exact ⟨⟨_, hset, rfl, hget, hnone.mp rfl⟩, ⟨_, e, hfail, hdocument, hsame, hmissing⟩, htwice,
    hread, hthere _ hread⟩

end Json

end RecordCuration
