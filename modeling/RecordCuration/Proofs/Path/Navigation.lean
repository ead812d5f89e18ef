import RecordCuration.Proofs.Path.Walk

/-!
Where navigation ends.

A cursor follows a path as long as its beginnings lead somewhere. The error of one that does not get
to the end names the shortest beginning that leads nowhere, from the root on, and says whether the
value before it is a container without such a part or no container at all. Both kinds of cursor do
the same.
-/

namespace RecordCuration

open Json

namespace Json

variable {before p q r : Path} {s : Segment} {v w x : Json} {e : PathError}

/-- The path leads to some value. -/
def Resolves (v : Json) (p : Path) : Prop := ∃ w, v.place? p = some w

/-- Every beginning of a path that leads somewhere does so too. -/
lemma Resolves.of_prefix (h : v.Resolves p) (hq : q <+: p) : v.Resolves q := by
  obtain ⟨r, rfl⟩ := hq
  obtain ⟨w, hw⟩ := h
  obtain ⟨x, hx, -⟩ := place?_append.mp hw
  exact ⟨x, hx⟩

/-- The shortest beginning of a path among those that lead nowhere. -/
structure FirstUnresolved (v : Json) (p q : Path) : Prop where
  begins : q <+: p
  unresolved : ¬ v.Resolves q
  shortest : ∀ r, r <+: p → ¬ v.Resolves r → q.length ≤ r.length

/-- The step from a value that a path gets to is the first to lead nowhere if the value has no such
part. -/
lemma firstUnresolved_iff (hx : v.place? q = some x) :
    v.FirstUnresolved p (q ++ [s]) ↔ q ++ [s] <+: p ∧ x.child? s = none := by
  have hresolves : v.Resolves (q ++ [s]) ↔ ∃ y, x.child? s = some y :=
    exists_congr fun y => place?_append_singleton hx
  have hnone : x.child? s = none ↔ ¬ v.Resolves (q ++ [s]) := by
    rw [hresolves, ← Option.isSome_iff_exists, Bool.not_eq_true, Option.isSome_eq_false_iff,
      Option.isNone_iff_eq_none]
  rw [hnone]
  refine ⟨fun h => ⟨h.begins, h.unresolved⟩, fun ⟨hbegins, hnot⟩ => ⟨hbegins, hnot, ?_⟩⟩
  intro r hr hunresolved
  by_contra hshort
  -- a shorter beginning is one of the path to the value
  have hle : r.length ≤ q.length := by
    rw [List.length_append, List.length_singleton] at hshort
    omega
  have hrq : r <+: q :=
    List.prefix_of_prefix_length_le hr ((List.prefix_append q [s]).trans hbegins) hle
  exact hunresolved (Resolves.of_prefix ⟨x, hx⟩ hrq)

/-! ### Steps and walks that fail -/

/-- The error of a step that leads nowhere: a container has no such part, and a scalar has none at
all. -/
lemma step_eq_error_iff : v.step p s = .error e ↔ v.child? s = none ∧
    e = if v.isContainer then .nodeNotFound p.pointer else .typeMismatch p.pointer v.typeName := by
  unfold step
  cases v.child? s with
  | some w => simp
  | none => by_cases hv : v.isContainer <;> simp [hv, eq_comm]

/-- A walk fails at a step if all steps before it lead somewhere. -/
lemma walk_eq_error_iff : walk before p v = .error e ↔ ∃ q s x, q ++ [s] <+: p ∧
    v.place? q = some x ∧ x.step (before ++ (q ++ [s])) s = .error e := by
  induction p generalizing before v with
  | nil => simp [walk]
  | cons u p ih =>
    rw [walk, bind_eq_error_iff]
    constructor
    · rintro (hstep | ⟨w, hw, hwalk⟩)
      · exact ⟨[], u, v, by simp, rfl, hstep⟩
      · obtain ⟨q, s, x, hq, hx, hstep⟩ := ih.mp hwalk
        refine ⟨u :: q, s, x, ?_, place?_cons.mpr ⟨w, step_eq_ok_iff.mp hw, hx⟩, ?_⟩
        · exact List.cons_prefix_cons.mpr ⟨rfl, hq⟩
        · simpa using hstep
    · rintro ⟨q, s, x, hq, hx, hstep⟩
      cases q with
      | nil =>
        obtain ⟨rfl, -⟩ := List.cons_prefix_cons.mp hq
        cases hx
        exact Or.inl hstep
      | cons a q =>
        obtain ⟨rfl, hrest⟩ := List.cons_prefix_cons.mp hq
        obtain ⟨w, hw, hwx⟩ := place?_cons.mp hx
        refine Or.inr ⟨w, step_eq_ok_iff.mpr hw, ih.mpr ⟨q, s, x, hrest, hwx, ?_⟩⟩
        simpa using hstep

end Json

/-! ### Cursors -/

/-- The place to read at which a write cursor stands. -/
def WriteCursor.toCursor (c : WriteCursor) : Cursor := ⟨c.value, c.path⟩

/-- A write cursor goes where a read cursor goes. -/
lemma WriteCursor.toCursor_navigate (c : WriteCursor) (p : Path) :
    (c.navigate p).map toCursor = c.toCursor.navigate p := by
  rw [navigate_eq, Cursor.navigate_eq]
  show (Except.map _ (walk c.path p c.value)).map toCursor = (walk c.path p c.value).map _
  cases walk c.path p c.value <;> rfl

namespace Cursor

variable {doc : Json} {base p : Path} {c d : Cursor} {e : PathError}

lemma exists_navigate_iff : (∃ d, c.navigate p = .ok d) ↔ ∀ q, q <+: p → c.value.Resolves q := by
  simp only [navigate_eq, map_eq_ok_iff, walk_eq_ok_iff]
  constructor
  · rintro ⟨d, w, hw, -⟩ q hq
    exact Resolves.of_prefix ⟨w, hw⟩ hq
  · intro h
    obtain ⟨w, hw⟩ := h p List.prefix_rfl
    exact ⟨_, w, hw, rfl⟩

lemma navigate_eq_error_iff : c.navigate p = .error e ↔
    ∃ q s x, c.value.FirstUnresolved p (q ++ [s]) ∧ c.value.place? q = some x ∧
      e = if x.isContainer then .nodeNotFound (c.path ++ (q ++ [s])).pointer
        else .typeMismatch (c.path ++ (q ++ [s])).pointer x.typeName := by
  rw [navigate_eq, map_eq_error_iff, walk_eq_error_iff]
  refine exists_congr fun q => exists_congr fun s => exists_congr fun x => ?_
  constructor
  · rintro ⟨hq, hx, hstep⟩
    obtain ⟨hnone, he⟩ := step_eq_error_iff.mp hstep
    exact ⟨(firstUnresolved_iff hx).mpr ⟨hq, hnone⟩, hx, he⟩
  · rintro ⟨hfirst, hx, he⟩
    obtain ⟨hq, hnone⟩ := (firstUnresolved_iff hx).mp hfirst
    exact ⟨hq, hx, step_eq_error_iff.mpr ⟨hnone, he⟩⟩

/-- **Navigation ends at the first bad step and says so.** From a cursor at `base`, a path is
followed to its end exactly if all its beginnings lead somewhere, to the value that is read at the
whole path from the root, and this path is then the cursor's. Otherwise the error names the path
from the root to the shortest beginning that leads nowhere; the node is not found if the value
before it is an object or an array, and if that is a scalar, its type is the one that was found
instead. A write cursor at `base` comes to the same value and path, or the same error. -/
theorem navigation_ends (h : (root doc).navigate base = .ok c) (p : Path) :
    ((∃ d, c.navigate p = .ok d) ↔ ∀ q, q <+: p → c.value.Resolves q) ∧
    (∀ d, c.navigate p = .ok d → doc.get (base ++ p) = .ok d.value ∧ d.path = base ++ p) ∧
    (∀ e, c.navigate p = .error e ↔
      ∃ q s x, c.value.FirstUnresolved p (q ++ [s]) ∧ c.value.place? q = some x ∧
        e = if x.isContainer then .nodeNotFound (base ++ (q ++ [s])).pointer
          else .typeMismatch (base ++ (q ++ [s])).pointer x.typeName) ∧
    ∃ m, (WriteCursor.root doc).navigate base = .ok m ∧
      (m.navigate p).map WriteCursor.toCursor = c.navigate p := by
  obtain ⟨w, hw, rfl⟩ := root_navigate_eq_ok_iff.mp h
  refine ⟨exists_navigate_iff, fun d hd => ?_, fun e => navigate_eq_error_iff, ?_⟩
  · rw [navigate_eq, map_eq_ok_iff] at hd
    obtain ⟨x, hx, rfl⟩ := hd
    exact ⟨get_eq_ok_iff.mpr (place?_append.mpr ⟨w, hw, walk_eq_ok_iff.mp hx⟩), rfl⟩
  · exact ⟨_, WriteCursor.root_navigate_eq_ok_iff.mpr ⟨w, hw, rfl⟩,
      WriteCursor.toCursor_navigate _ p⟩

/-- A list of one entry, which has a text. -/
def logbook : Json := .obj [("Entries", .arr [.obj [("Text", .str "launch")]])]

/-- From the list on, the text is found; a note is missing in the entry; and the text has no parts,
so the path is followed no further than to the first one. -/
theorem logbook_navigation_ends : ∃ c, (root logbook).navigate [.key "Entries"] = .ok c ∧
    (∃ d, c.navigate [.index 0, .key "Text"] = .ok d ∧
      logbook.get [.key "Entries", .index 0, .key "Text"] = .ok d.value ∧
      d.path = [.key "Entries", .index 0, .key "Text"]) ∧
    c.navigate [.key "0", .key "Note", .key "Author"] =
      .error (.nodeNotFound "/Entries/0/Note") ∧
    c.navigate [.index 0, .key "Text", .index 3, .key "Word"] =
      .error (.typeMismatch "/Entries/0/Text/3" "string") ∧
    ∃ m, (WriteCursor.root logbook).navigate [.key "Entries"] = .ok m ∧
      (m.navigate [.index 0, .key "Text"]).map WriteCursor.toCursor =
        c.navigate [.index 0, .key "Text"] := by
  have hstart : (root logbook).navigate [.key "Entries"] = .ok _ := rfl
  obtain ⟨-, hfound, -, hsame⟩ := navigation_ends hstart [.index 0, .key "Text"]
  obtain ⟨-, -, hmissing, -⟩ := navigation_ends hstart [.key "0", .key "Note", .key "Author"]
  obtain ⟨-, -, hscalar, -⟩ :=
    navigation_ends hstart [.index 0, .key "Text", .index 3, .key "Word"]
  refine ⟨_, hstart, ⟨_, rfl, hfound _ rfl⟩, (hmissing _).mpr ?_, (hscalar _).mpr ?_, hsame⟩
  · exact ⟨[.key "0"], .key "Note", _, (firstUnresolved_iff rfl).mpr ⟨by decide, rfl⟩, rfl, rfl⟩
  · exact ⟨[.index 0, .key "Text"], .index 3, _,
      (firstUnresolved_iff rfl).mpr ⟨by decide, rfl⟩, rfl, rfl⟩

end Cursor

end RecordCuration
