import RecordCuration.Proofs.Draft7.Location
import RecordCuration.Proofs.Json.Size
import RecordCuration.Proofs.Repair.Ending

/-!
Issues point at what they were raised for.

A fault is told as the pointer to a place, and the path of an issue is read from that pointer, where
a token that can be a position becomes one. What the path leads to is what stands at the place, for
every name that a member can have: the steps of the path have the tokens of the place, and every
position in an array is a number that a pointer can name.
-/

namespace RecordCuration

namespace Json

variable {v w x : Json} {p q : Path}

/-- The way leads from one value to another: a name to the member of an object, a position to the
item of an array. -/
inductive LeadsTo : Json → Path → Json → Prop where
  | here {v : Json} : LeadsTo v [] v
  | member {ms : List (String × Json)} {name : String} {x w : Json} {p : Path}
    (h : ms.lookup name = some x) (hx : LeadsTo x p w) : LeadsTo (.obj ms) (.key name :: p) w
  | item {xs : List Json} {i : ℕ} {x w : Json} {p : Path}
    (h : xs[i]? = some x) (hx : LeadsTo x p w) : LeadsTo (.arr xs) (.index i :: p) w

/-- Where a way leads, so does the path that its pointer names. -/
lemma LeadsTo.place?_canonical (h : v.LeadsTo p w) (hv : v.Addressable) :
    v.place? (p.map Segment.canonical) = some w := by
  induction h with
  | here => rfl
  | @member ms name x w p h _ ih =>
    have hchild : (Json.obj ms).child? (Segment.canonical (.key name)) = some x := by
      rw [child?_obj, Segment.token_canonical]
      exact h
    exact place?_cons.mpr ⟨x, hchild, ih (hv.child hchild)⟩
  | @item xs i x w p h _ ih =>
    have hlt : i < indexBound :=
      (List.getElem?_eq_some_iff.mp h).1.trans_le (hv [] xs rfl)
    have hchild : (Json.arr xs).child? (Segment.canonical (.index i)) = some x := by
      rw [child?_arr, Segment.asIndex_canonical]
      simpa [Segment.asIndex, Option.filter, hlt] using h
    exact place?_cons.mpr ⟨x, hchild, ih (hv.child hchild)⟩

lemma pointer_cons (s : Segment) (p : Path) :
    Path.pointer (s :: p) = "/" ++ s.shown ++ p.pointer := by
  rw [← String.toList_inj]
  simp [Path.pointer, String.toList_join]

lemma shown_eq_of_token {s u : Segment} (h : s.token = u.token) : s.shown = u.shown := by
  rw [← String.toList_inj, Segment.toList_shown, Segment.toList_shown, h]

/-- A step that leads somewhere has the token of a name or of a position there. -/
lemma exists_leadsTo_of_child? {s : Segment} (h : v.child? s = some x) (hx : x.LeadsTo q w) :
    ∃ u : Segment, u.token = s.token ∧ v.LeadsTo (u :: q) w := by
  cases v with
  | obj ms => exact ⟨.key s.token, rfl, .member h hx⟩
  | arr xs =>
    obtain ⟨i, hi, hxs⟩ := Option.bind_eq_some_iff.mp h
    exact ⟨.index i, (Segment.token_of_asIndex hi).symm, .item hxs hx⟩
  | _ => cases h

/-- Whatever a path leads to stands at a place of the same pointer. -/
lemma exists_leadsTo_of_place? (h : v.place? p = some w) :
    ∃ q, v.LeadsTo q w ∧ Path.pointer q = Path.pointer p := by
  induction p generalizing v with
  | nil =>
    cases h
    exact ⟨[], .here, rfl⟩
  | cons s p ih =>
    obtain ⟨x, hx, hw⟩ := place?_cons.mp h
    obtain ⟨q, hq, hpointer⟩ := ih hw
    obtain ⟨u, htoken, hlead⟩ := exists_leadsTo_of_child? hx hq
    exact ⟨u :: q, hlead, by rw [pointer_cons, pointer_cons, shown_eq_of_token htoken, hpointer]⟩

/-- **Pointers lead to their places**: a path that is read from the pointer to a place leads to what
stands there. -/
theorem LeadsTo.get (h : v.LeadsTo p w) (hv : v.Addressable)
    (hpointer : Path.pointer p = Path.pointer q) :
    v.get (q.map Segment.canonical) = .ok w := by
  have hsteps : p.map Segment.canonical = q.map Segment.canonical := by
    have hread := Path.ofPointer_pointer p
    rw [hpointer, Path.ofPointer_pointer] at hread
    exact (Except.ok.inj hread).symm
  rw [get_eq_ok_iff, ← hsteps]
  exact h.place?_canonical hv

end Json

namespace Draft7

/-- The place of the fault, as a pointer, is one where the value stands that the fault shows. -/
def Fault.PointsIn (f : Fault) (doc : Json) : Prop :=
  ∃ p, doc.LeadsTo p f.found ∧ p.pointer = f.path.pointer

end Draft7

namespace Engine

open Json Draft7

variable {e : Engine} {doc : Json}

/-- **Issues point at what they were raised for.** The path of an issue is read from the pointer of
its fault, which is always one. If that pointer is the pointer to the value that the fault shows,
the path leads to that value. The pointer is that of another value only where an object may have no
members: the path leads to the object then, and the fault shows its first member. -/
theorem issue_points_at_found (hdoc : doc.WellFormed) (hroom : doc.Addressable) {i : Issue}
    (hi : i ∈ e.validate doc) : ∃ f ∈ e.faults doc, i = f.toIssue ∧
      Path.ofPointer f.path.pointer = .ok i.path ∧
      (f.PointsIn doc → doc.get i.path = .ok i.found) ∧
      (¬ f.PointsIn doc → i.kind = .other "additionalProperties" ∧
        ∃ name rest, doc.get i.path = .ok (.obj ((name, i.found) :: rest))) := by
  obtain ⟨f, hf, rfl⟩ := List.mem_map.mp (mem_issues_of_mem_validate hi)
  have hpath : f.toIssue.path = f.path.map Segment.canonical := Issue.pathOf_pointer f.path
  obtain ⟨v, hv, hshows⟩ := place_of_mem_faults hdoc hf
  obtain ⟨q, hlead, hpointer⟩ := exists_leadsTo_of_place? hv
  refine ⟨f, hf, rfl, ?_, fun ⟨p, hp, hsame⟩ => ?_, fun hnot => ?_⟩
  · rw [hpath, Path.ofPointer_pointer]
  · rw [hpath]
    exact hp.get hroom hsame
  · rcases hshows with rfl | ⟨hnever, name, rest, rfl⟩
    · exact absurd ⟨q, hlead, hpointer⟩ hnot
    · refine ⟨?_, name, rest, ?_⟩
      · show f.violation.kind f.found = _
        rw [hnever]
        rfl
      · rw [hpath]
        exact hlead.get hroom hpointer

/-- Members of members are texts. -/
def textsSource : Json := .obj [("additionalProperties",
  .obj [("additionalProperties", .obj [("type", .str "string")])])]

def textsEngine : Engine where
  schema := .all [.others [] (.all [.others [] (.all [.type [.string]])])]
  library := []
  config := .standard

lemma textsEngine_compiled : Engine.compile textsSource .standard = .ok textsEngine :=
  Engine.compile_of_closed (by decide +kernel) rfl rfl

/-- A number below names that are empty, and too large for a position. -/
def oddNames : Json :=
  .obj [("", .obj [("18446744073709551616", .int 1), ("01", .str "a"), ("a/b~", .str "b")])]

/-- The number is found where its issue points. -/
theorem oddNames_issue_points : Engine.compile textsSource .standard = .ok textsEngine ∧
    ∃ i ∈ textsEngine.validate oddNames,
      i.path = [.key "", .key "18446744073709551616"] ∧ oddNames.get i.path = .ok i.found := by
  have hdoc : oddNames.WellFormed := by
    simp [oddNames, WellFormed, WellFormedMembers]
  have hroom : oddNames.Addressable := addressable_of_size_le (by decide)
  obtain ⟨i, hi, hkind, hpath⟩ : ∃ i ∈ textsEngine.validate oddNames,
      i.kind = .typeMismatch "string" "integer" ∧
        i.path = [.key "", .key "18446744073709551616"] :=
    ⟨_, List.mem_singleton.mpr rfl, rfl, by decide +kernel⟩
  obtain ⟨f, -, rfl, -, hpoints, hother⟩ := issue_points_at_found hdoc hroom hi
  refine ⟨textsEngine_compiled, _, hi, hpath, hpoints ?_⟩
  by_contra hnot
  have hlone := (hother hnot).1
  rw [hkind] at hlone
  cases hlone

end Engine

end RecordCuration
