import RecordCuration.Issue
import RecordCuration.Proofs.Json.WellFormed
import RecordCuration.Proofs.Outcome

/-!
Pointers as texts of paths.

The path that the pointer to a place names has the same tokens as the place, with those that can be
positions read so. It leads where the place does; the place leads where it does in a document whose
arrays have only positions that a pointer can name.
-/

namespace RecordCuration

namespace Segment

lemma unescape_escape (cs : List Char) : unescape (escape cs) = some cs := by
  fun_induction escape cs <;> simp_all [unescape]

lemma slash_not_mem_escape (cs : List Char) : '/' ∉ escape cs := by
  fun_induction escape cs <;> simp_all [eq_comm]

lemma unescape_of_not_mem {cs : List Char} (h : '~' ∉ cs) : unescape cs = some cs := by
  fun_induction unescape cs <;> simp_all

lemma token_ofToken (token : String) : (ofToken token).token = token := token_canonical (.key token)

lemma escape_of_not_mem {cs : List Char} (htilde : '~' ∉ cs) (hslash : '/' ∉ cs) :
    escape cs = cs := by
  fun_induction escape cs <;> simp_all

lemma escape_of_isDigit {cs : List Char} (h : ∀ c ∈ cs, c.isDigit = true) : escape cs = cs :=
  escape_of_not_mem (fun hm => absurd (h _ hm) (by decide)) fun hm => absurd (h _ hm) (by decide)

/-- Every step shows as its token, escaped. -/
lemma toList_shown (s : Segment) : s.shown.toList = escape s.token.toList := by
  cases s with
  | key k => simp [shown, token]
  | index n =>
    refine (escape_of_isDigit fun c hc => ?_).symm
    have hd : c ∈ Nat.toDigits 10 n := by simpa [shown] using hc
    exact Nat.isDigit_of_mem_toDigits (by norm_num) (by norm_num) hd

end Segment

namespace Text

lemma split_of_not_mem {mark : Char} {cs : List Char} (h : mark ∉ cs) : split mark cs = [cs] := by
  induction cs with
  | nil => rfl
  | cons c cs ih =>
    rw [List.mem_cons, not_or] at h
    rw [split, if_neg (Ne.symm h.1), ih h.2]

lemma split_append {mark : Char} {part : List Char} (h : mark ∉ part) (cs : List Char) :
    split mark (part ++ mark :: cs) = part :: split mark cs := by
  induction part with
  | nil => simp [split]
  | cons c part ih =>
    rw [List.mem_cons, not_or] at h
    rw [List.cons_append, split, if_neg (Ne.symm h.1), ih h.2]

lemma split_ne_nil {mark : Char} (cs : List Char) : split mark cs ≠ [] := by
  cases cs with
  | nil => simp [split]
  | cons c cs =>
    rw [split]
    split_ifs
    · simp
    · split <;> simp

/-- A text in parts is its parts with the marks between them. -/
lemma split_eq_iff {mark : Char} {cs : List Char} {parts : List (List Char)} :
    split mark cs = parts ↔
      parts ≠ [] ∧ (∀ part ∈ parts, mark ∉ part) ∧ cs = [mark].intercalate parts := by
  constructor
  · rintro rfl
    refine ⟨split_ne_nil cs, ?_⟩
    induction cs with
    | nil => simp [split]
    | cons c cs ih =>
      obtain ⟨hparts, hcs⟩ := ih
      rw [split]
      split_ifs with hc
      · subst hc
        have hne : split c cs ≠ [] := split_ne_nil cs
        obtain ⟨part, parts, hsplit⟩ := List.exists_cons_of_ne_nil hne
        rw [hsplit] at hparts hcs ⊢
        exact ⟨List.forall_mem_cons.mpr ⟨by simp, hparts⟩, by
          rw [List.intercalate_cons_cons, ← hcs]; rfl⟩
      · have hne : split mark cs ≠ [] := split_ne_nil cs
        obtain ⟨part, parts, hsplit⟩ := List.exists_cons_of_ne_nil hne
        rw [hsplit] at hparts hcs ⊢
        obtain ⟨hpart, hparts⟩ := List.forall_mem_cons.mp hparts
        refine ⟨List.forall_mem_cons.mpr ⟨by simp [hpart, Ne.symm hc], hparts⟩, ?_⟩
        rw [hcs]
        cases parts with
        | nil => simp
        | cons => simp [List.intercalate_cons_cons]
  · rintro ⟨hne, hparts, rfl⟩
    induction parts with
    | nil => exact absurd rfl hne
    | cons part parts ih =>
      obtain ⟨hpart, hparts⟩ := List.forall_mem_cons.mp hparts
      cases parts with
      | nil => rw [List.intercalate_singleton, split_of_not_mem hpart]
      | cons next parts =>
        rw [List.intercalate_cons_cons, List.append_assoc, List.singleton_append,
          split_append hpart, ih (by simp) hparts]

/-- A text in two parts has one mark. -/
lemma eq_append_of_split {mark : Char} {cs a b : List Char} (h : split mark cs = [a, b]) :
    cs = a ++ mark :: b ∧ mark ∉ a ∧ mark ∉ b := by
  obtain ⟨-, hparts, rfl⟩ := split_eq_iff.mp h
  exact ⟨by simp [List.intercalate_cons_cons], hparts a (by simp), hparts b (by simp)⟩

end Text

namespace Path

/-- The characters of a pointer. -/
lemma toList_pointer (p : Path) :
    p.pointer.toList = p.flatMap fun s => '/' :: Segment.escape s.token.toList := by
  unfold pointer
  rw [String.toList_join, List.flatMap_map]
  refine List.flatMap_congr fun s _ => ?_
  rw [String.toList_append, Segment.toList_shown]
  rfl

lemma split_tokens (s : Segment) (p : Path) :
    Text.split '/' (Segment.escape s.token.toList ++
        p.flatMap fun s => '/' :: Segment.escape s.token.toList) =
      (s :: p).map fun s => Segment.escape s.token.toList := by
  induction p generalizing s with
  | nil =>
    simp [Text.split_of_not_mem (Segment.slash_not_mem_escape _)]
  | cons u p ih =>
    rw [List.flatMap_cons, List.cons_append,
      Text.split_append (Segment.slash_not_mem_escape _), ih u]
    rfl

/-- **Pointers round trip**: reading the pointer to a place gives its canonical steps. -/
theorem ofPointer_pointer (p : Path) : ofPointer p.pointer = .ok (p.map Segment.canonical) := by
  unfold ofPointer
  rw [toList_pointer]
  cases p with
  | nil => rfl
  | cons s p =>
    rw [List.flatMap_cons, List.cons_append]
    show (Text.split '/' _).mapM (readToken _) = _
    rw [split_tokens, mapM_eq_ok_iff, List.forall₂_map_left_iff, List.forall₂_map_right_iff,
      List.forall₂_same]
    intro u _
    rw [readToken, Segment.unescape_escape]
    simp [Segment.canonical]

end Path

/-- The path of an issue names the place of its fault. -/
lemma Issue.pathOf_pointer (p : Path) : pathOf p.pointer = p.map Segment.canonical := by
  rw [pathOf, Path.ofPointer_pointer]

/-! ### Canonical places -/

namespace Json

lemma child?_of_canonical {s : Segment} {v w : Json} (h : v.child? s.canonical = some w) :
    v.child? s = some w := by
  cases v with
  | obj ms => rwa [child?_obj, Segment.token_canonical] at h
  | arr xs =>
    obtain ⟨i, hi, hw⟩ := Option.bind_eq_some_iff.mp h
    rw [Segment.asIndex_canonical] at hi
    exact Option.bind_eq_some_iff.mpr ⟨i, (Option.filter_eq_some_iff.mp hi).1, hw⟩
  | _ => cases h

lemma setChild_canonical {s : Segment} {v w : Json} (h : v.child? s.canonical = some w)
    (x : Json) : setChild s.canonical x v = setChild s x v := by
  cases v with
  | obj ms => rw [setChild, setChild, Segment.token_canonical]
  | arr xs =>
    obtain ⟨i, hi, -⟩ := Option.bind_eq_some_iff.mp h
    have hi' := hi
    rw [Segment.asIndex_canonical] at hi'
    simp [setChild, hi, (Option.filter_eq_some_iff.mp hi').1]
  | _ => cases h

lemma place?_of_canonical {p : Path} {v w : Json}
    (h : v.place? (p.map Segment.canonical) = some w) : v.place? p = some w := by
  induction p generalizing v with
  | nil => exact h
  | cons s p ih =>
    obtain ⟨x, hx, hw⟩ := place?_cons.mp h
    exact place?_cons.mpr ⟨x, child?_of_canonical hx, ih hw⟩

lemma put_canonical {p : Path} {v w : Json} (h : v.place? (p.map Segment.canonical) = some w)
    (new : Json) : put (p.map Segment.canonical) new v = put p new v := by
  induction p generalizing v with
  | nil => rfl
  | cons s p ih =>
    obtain ⟨x, hx, hw⟩ := place?_cons.mp h
    rw [List.map_cons, put_cons hx, put_cons (child?_of_canonical hx), ih hw,
      setChild_canonical hx]

/-- Every array has only positions that a pointer can name, as has every array that fits into
memory. -/
def Addressable (doc : Json) : Prop :=
  ∀ p xs, doc.place? p = some (.arr xs) → xs.length ≤ indexBound

lemma Addressable.child {s : Segment} {v w : Json} (h : v.Addressable)
    (hw : v.child? s = some w) : w.Addressable :=
  fun p xs hp => h (s :: p) xs (place?_cons.mpr ⟨w, hw, hp⟩)

lemma Addressable.item {xs : List Json} {x : Json} (h : (Json.arr xs).Addressable) (hx : x ∈ xs) :
    x.Addressable := by
  obtain ⟨i, hi, rfl⟩ := List.getElem_of_mem hx
  exact h.child (s := .index i) (by simp [child?, Segment.asIndex, hi])

end Json

end RecordCuration
