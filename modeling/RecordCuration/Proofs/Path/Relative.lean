import RecordCuration.Proofs.Path.Pointer

/-!
Writes relative to a cursor.

A write from a cursor finds and leaves what the write from the root does at the whole path, and
fails if that does. The two errors name one path, from the root on, but for those of an array that
has no item for the last step: the write from the cursor names the relative path there.
-/

namespace RecordCuration

open Json

lemma Path.pointer_append (p q : Path) : pointer (p ++ q) = p.pointer ++ q.pointer := by
  rw [← String.toList_inj, String.toList_append]
  simp only [toList_pointer, List.flatMap_append]

/-- Only the whole document has a pointer that does not show. -/
lemma Path.pointer_append_eq_iff {p q : Path} : pointer (p ++ q) = q.pointer ↔ p = [] := by
  rw [pointer_append, ← String.toList_inj, String.toList_append, List.append_left_eq_self,
    toList_pointer]
  cases p <;> simp

namespace Json

variable {doc v w : Json} {base q r : Path} {s : Segment}

/-- The path leads to an array that has no item for its last step. -/
def LacksItem (v : Json) (p : Path) : Prop :=
  ∃ q s xs, p = q ++ [s] ∧ v.place? q = some (.arr xs) ∧ (Json.arr xs).child? s = none

lemma lacksItem_append_singleton : v.LacksItem (q ++ [s]) ↔
    ∃ xs, v.place? q = some (.arr xs) ∧ (Json.arr xs).child? s = none := by
  constructor
  · rintro ⟨q', s', xs, hpath, h⟩
    obtain ⟨rfl, hs⟩ := List.append_inj' hpath rfl
    obtain rfl : s = s' := List.singleton_injective hs
    exact ⟨xs, h⟩
  · rintro ⟨xs, h⟩
    exact ⟨q, s, xs, rfl, h⟩

/-- The error of a write at a step for which an array has no item, as one about a path. -/
def itemError (s : Segment) (p : Path) : PathError :=
  match s.asIndex with
  | none => .invalidPath p.pointer "array segment is not an index"
  | some _ => .nodeNotFound p.pointer

lemma itemError_inj {p : Path} : itemError s p = itemError s q ↔ p.pointer = q.pointer := by
  unfold itemError
  cases s.asIndex <;> simp

end Json

namespace WriteCursor

variable {doc v w : Json} {base q r whole : Path} {s : Segment} {rebuild : Json → Json}
  {c : WriteCursor}

lemma assignChild_of_lacking {xs : List Json} (h : (Json.arr xs).child? s = none) (v : Json) :
    (WriteCursor.mk (.arr xs) q rebuild).assignChild whole s v =
      .error ⟨itemError s whole, rebuild (.arr xs)⟩ := by
  rw [child?_arr] at h
  unfold assignChild itemError
  cases hs : s.asIndex with
  | none => rfl
  | some i =>
    have hnone : xs[i]? = none := by simpa [hs] using h
    simp [hnone, document]

/-- Only an array without the item names the path of the write. -/
lemma assignChild_congr (h : ∀ xs, w = .arr xs → (Json.arr xs).child? s ≠ none) (p p' : Path)
    (v : Json) : (WriteCursor.mk w q rebuild).assignChild p s v =
      (WriteCursor.mk w q rebuild).assignChild p' s v := by
  cases w with
  | arr xs =>
    have hsome := h xs rfl
    rw [child?_arr] at hsome
    unfold assignChild
    cases hs : s.asIndex with
    | none => exact absurd (by rw [hs]; rfl) hsome
    | some i =>
      cases hold : xs[i]? with
      | none => exact absurd (by rw [hs]; exact hold) hsome
      | some old => simp [hold]
  | _ => rfl

/-- The write at the whole path, from the value at the base of it. -/
lemma set_append (hw : doc.place? base = some w) (q : Path) (s : Segment) (v : Json) :
    doc.set (base ++ (q ++ [s])) v = (walk base q w).mapError (⟨·, doc⟩) >>= fun x =>
      (WriteCursor.mk x (base ++ q) fun y => put base (put q y w) doc).assignChild
        (base ++ (q ++ [s])) s v := by
  have hwalk : walk [] base doc = .ok w := walk_eq_ok_iff.mpr hw
  rw [← List.append_assoc, set_append_singleton, walk_append, hwalk,
    funext fun y => put_append hw q y]
  rfl

/-- The write at the relative path, which leaves the whole document when it fails. -/
lemma assign_append (hw : doc.place? base = some w) (q : Path) (s : Segment) (v : Json) :
    (WriteCursor.mk w base fun x => put base x doc).assign (q ++ [s]) v =
      (walk base q w).mapError (⟨·, doc⟩) >>= fun x =>
        (WriteCursor.mk x (base ++ q) fun y => put base (put q y w) doc).assignChild
          (q ++ [s]) s v := by
  have hdocument : (WriteCursor.mk w base fun x => put base x doc).document = doc := put_self hw
  rw [assign_append_singleton, hdocument]

lemma assign_nil (hw : doc.place? base = some w) (v : Json) :
    (WriteCursor.mk w base fun x => put base x doc).assign [] v = doc.set (base ++ []) v := by
  rw [List.append_nil, set_of_place hw]
  rfl

/-- Unless an array lacks the item, a write from a cursor is the write at the whole path. -/
lemma assign_eq_set (hw : doc.place? base = some w) (h : ¬ w.LacksItem r) (v : Json) :
    (WriteCursor.mk w base fun x => put base x doc).assign r v = doc.set (base ++ r) v := by
  induction r using List.reverseRecOn with
  | nil => exact assign_nil hw v
  | append_singleton q s _ =>
    rw [assign_append hw, set_append hw]
    cases hx : walk base q w with
    | error e => rfl
    | ok x =>
      have hplace : w.place? q = some x := walk_eq_ok_iff.mp hx
      refine assignChild_congr (fun xs hxs hnone => h ?_) _ _ v
      exact lacksItem_append_singleton.mpr ⟨xs, hxs ▸ hplace, hnone⟩

/-- If an array lacks the item, both writes fail, each naming its own path. -/
lemma assign_of_lacksItem (hw : doc.place? base = some w) (h : w.LacksItem r) (v : Json) :
    ∃ s, r.getLast? = some s ∧
      (WriteCursor.mk w base fun x => put base x doc).assign r v =
        .error ⟨itemError s r, doc⟩ ∧
      doc.set (base ++ r) v = .error ⟨itemError s (base ++ r), doc⟩ := by
  obtain ⟨q, s, xs, rfl, hxs, hnone⟩ := h
  have hwalk : walk base q w = .ok (.arr xs) := walk_eq_ok_iff.mpr hxs
  have hsame : put base (put q (.arr xs) w) doc = doc := by rw [put_self hxs, put_self hw]
  refine ⟨s, List.getLast?_concat, ?_, ?_⟩
  · rw [assign_append hw, hwalk]
    exact (assignChild_of_lacking hnone v).trans (by rw [hsame])
  · rw [set_append hw, hwalk]
    exact (assignChild_of_lacking hnone v).trans (by rw [hsame])

/-- **Relative and absolute writes agree up to the path of two errors.** From a cursor at `base`, a
write at a relative path succeeds exactly if the write at the whole path does, and then it finds
the same value and leaves the same document. It is the same in all, its error and the path that
this names included, exactly if the cursor stands on the whole document or the write does not end at
an array without the item. If it does, both fail in the same way, but the relative write names the
relative path. -/
theorem relative_write_agrees_iff (h : (root doc).navigate base = .ok c) (r : Path) (v : Json) :
    (∀ written, c.assign r v = .ok written ↔ doc.set (base ++ r) v = .ok written) ∧
    (c.assign r v = doc.set (base ++ r) v ↔ base = [] ∨ ¬ c.value.LacksItem r) ∧
    (c.value.LacksItem r → ∃ s, r.getLast? = some s ∧
      c.assign r v = .error ⟨itemError s r, doc⟩ ∧
      doc.set (base ++ r) v = .error ⟨itemError s (base ++ r), doc⟩) := by
  obtain ⟨w, hw, rfl⟩ := root_navigate_eq_ok_iff.mp h
  refine ⟨fun written => ?_, ?_, fun hlacks => assign_of_lacksItem hw hlacks v⟩
  · by_cases hlacks : w.LacksItem r
    · obtain ⟨s, -, hassign, hset⟩ := assign_of_lacksItem hw hlacks v
      simp [hassign, hset]
    · rw [assign_eq_set hw hlacks]
  · by_cases hlacks : w.LacksItem r
    · obtain ⟨s, -, hassign, hset⟩ := assign_of_lacksItem hw hlacks v
      rw [hassign, hset, Except.error.injEq, Unwritten.mk.injEq, and_iff_left rfl, itemError_inj,
        eq_comm, Path.pointer_append_eq_iff]
      exact (or_iff_left (not_not_intro hlacks)).symm
    · exact iff_of_true (assign_eq_set hw hlacks v) (Or.inr hlacks)

/-- A rocket with one stage. -/
def plan : Json := .obj [("Stages", .arr [.str "core"])]

/-- The cursor at its list of stages. -/
def planStages : WriteCursor :=
  ⟨.arr [.str "core"], [.key "Stages"], fun x => put [.key "Stages"] x plan⟩

lemma plan_navigate : (root plan).navigate [.key "Stages"] = .ok planStages :=
  root_navigate_eq_ok_iff.mpr ⟨_, rfl, rfl⟩

/-- From the list of stages, the first one is replaced as it is from the root; below the text of it
both writes fail with one error; and for a stage that is not there each names its own path. -/
theorem plan_relative_write : (root plan).navigate [.key "Stages"] = .ok planStages ∧
    (∃ written, planStages.assign [.index 0] .null = .ok written ∧
      plan.set ([.key "Stages"] ++ [.index 0]) .null = .ok written) ∧
    planStages.assign [.index 0, .key "Mass"] .null =
      plan.set ([.key "Stages"] ++ [.index 0, .key "Mass"]) .null ∧
    ∃ s, [Segment.key "second"].getLast? = some s ∧
      planStages.assign [.key "second"] .null = .error ⟨itemError s [.key "second"], plan⟩ ∧
      plan.set ([.key "Stages"] ++ [.key "second"]) .null =
        .error ⟨itemError s ([.key "Stages"] ++ [.key "second"]), plan⟩ := by
  obtain ⟨hfirst, -, -⟩ := relative_write_agrees_iff plan_navigate [.index 0] .null
  obtain ⟨-, hbelow, -⟩ := relative_write_agrees_iff plan_navigate [.index 0, .key "Mass"] .null
  obtain ⟨-, -, hlacking⟩ := relative_write_agrees_iff plan_navigate [.key "second"] .null
  refine ⟨plan_navigate, ⟨_, rfl, (hfirst _).mp rfl⟩, hbelow.mpr (Or.inr ?_), ?_⟩
  · intro hlacks
    obtain ⟨xs, hxs, -⟩ := (lacksItem_append_singleton (q := [.index 0])).mp hlacks
    cases hxs
  · exact hlacking ⟨[], .key "second", _, rfl, rfl, rfl⟩

/-- The error of a write from the list of stages does not name the list. -/
theorem missing_stage_misnamed : (root plan).navigate [.key "Stages"] = .ok planStages ∧
    planStages.assign [.index 5] .null = .error ⟨.nodeNotFound "/5", plan⟩ ∧
    plan.set ([.key "Stages"] ++ [.index 5]) .null = .error ⟨.nodeNotFound "/Stages/5", plan⟩ ∧
    planStages.assign [.index 5] .null ≠ plan.set ([.key "Stages"] ++ [.index 5]) .null := by
  have hrelative : planStages.assign [.index 5] .null = .error ⟨.nodeNotFound "/5", plan⟩ := rfl
  have habsolute : plan.set ([.key "Stages"] ++ [.index 5]) .null =
    .error ⟨.nodeNotFound "/Stages/5", plan⟩ := rfl
  refine ⟨plan_navigate, hrelative, habsolute, ?_⟩
  rw [hrelative, habsolute]
  simp

end WriteCursor

end RecordCuration
