import RecordCuration.Proofs.Path.Pointer

/-!
Which texts are pointers, and which paths come out of them.

A pointer is split at its slashes, so the parts have none, and a part in which every tilde is an
escape is what its token is written as. Hence a text is read in one way only, as a path that writes
the text. A path that is written and read again has its tokens, with those that can be positions
read so.
-/

namespace RecordCuration

namespace Text

variable {mark : Char} {cs : List Char}

lemma split_cons_self (mark : Char) (cs : List Char) :
    split mark (mark :: cs) = [] :: split mark cs := by
  rw [split, if_pos rfl]

/-- Any other character goes into the first part. -/
lemma split_cons_of_ne {c : Char} (hc : c ≠ mark) (cs : List Char) :
    ∃ part parts, split mark cs = part :: parts ∧
      split mark (c :: cs) = (c :: part) :: parts := by
  have hne : split mark cs ≠ [] := split_ne_nil cs
  obtain ⟨part, parts, hsplit⟩ := List.exists_cons_of_ne_nil hne
  exact ⟨part, parts, hsplit, by rw [split, if_neg hc, hsplit]⟩

/-- The parts of a text, each after a mark, are the text after a mark. -/
lemma flatMap_split (mark : Char) (cs : List Char) :
    (split mark cs).flatMap (mark :: ·) = mark :: cs := by
  induction cs with
  | nil => rfl
  | cons c cs ih =>
    by_cases hc : c = mark
    · rw [hc, split_cons_self, List.flatMap_cons, ih]
      rfl
    · obtain ⟨part, parts, hsplit, hcons⟩ := split_cons_of_ne hc cs
      rw [hsplit, List.flatMap_cons, List.cons_append, List.cons.injEq] at ih
      rw [hcons, List.flatMap_cons, ← ih.2]
      rfl

lemma not_mem_of_mem_split {part : List Char} (h : part ∈ split mark cs) : mark ∉ part := by
  induction cs generalizing part with
  | nil =>
    rw [split, List.mem_singleton] at h
    simp [h]
  | cons c cs ih =>
    by_cases hc : c = mark
    · rw [hc, split_cons_self, List.mem_cons] at h
      rcases h with rfl | h
      · simp
      · exact ih h
    · obtain ⟨first, parts, hsplit, hcons⟩ := split_cons_of_ne hc cs
      rw [hcons, List.mem_cons] at h
      rw [hsplit] at ih
      rcases h with rfl | h
      · rw [List.mem_cons, not_or]
        exact ⟨Ne.symm hc, ih (by simp)⟩
      · exact ih (by simp [h])

end Text

namespace Segment

/-! ### Tokens -/

/-- Every tilde begins an escape: a `0` or a `1` follows it. -/
def Escaped (cs : List Char) : Prop :=
  ∀ rest, ('~' :: rest) <:+ cs → rest.head? = some '0' ∨ rest.head? = some '1'

lemma escaped_nil : Escaped [] := fun rest h => by simp at h

lemma escaped_cons {c : Char} {cs : List Char} :
    Escaped (c :: cs) ↔
      (c = '~' → cs.head? = some '0' ∨ cs.head? = some '1') ∧ Escaped cs := by
  constructor
  · intro h
    refine ⟨?_, fun rest hrest => h rest (hrest.trans (List.suffix_cons c cs))⟩
    rintro rfl
    exact h cs List.suffix_rfl
  · rintro ⟨hc, hcs⟩ rest hrest
    rcases List.suffix_cons_iff.mp hrest with he | hrest
    · obtain ⟨rfl, rfl⟩ := List.cons.inj he
      exact hc rfl
    · exact hcs rest hrest

/-- Slashes end no escape, so the parts between them may be looked at one by one. -/
lemma escaped_split {cs : List Char} :
    Escaped cs ↔ ∀ part ∈ Text.split '/' cs, Escaped part := by
  induction cs with
  | nil => simp [Text.split]
  | cons c cs ih =>
    rw [escaped_cons, ih]
    by_cases hc : c = '/'
    · rw [hc, Text.split_cons_self, List.forall_mem_cons]
      simp [escaped_nil]
    · obtain ⟨part, parts, hsplit, hcons⟩ := Text.split_cons_of_ne hc cs
      have hhead : ∀ d, d ≠ '/' → (cs.head? = some d ↔ part.head? = some d) := by
        intro d hd
        have hjoin := Text.flatMap_split '/' cs
        rw [hsplit, List.flatMap_cons, List.cons_append, List.cons.injEq] at hjoin
        rw [← hjoin.2]
        cases part with
        | cons a part => rfl
        | nil => cases parts <;> simp [Ne.symm hd]
      simp only [hsplit, hcons, List.forall_mem_cons, escaped_cons, hhead '0' (by decide),
        hhead '1' (by decide), and_assoc]

lemma unescape_isSome_iff {cs : List Char} : (unescape cs).isSome ↔ Escaped cs := by
  fun_induction unescape cs with
  | case1 => simp [escaped_nil]
  | case2 cs ih => simp [escaped_cons, ih]
  | case3 cs ih => simp [escaped_cons, ih]
  | case4 cs hzero hone =>
    rw [escaped_cons]
    cases cs with
    | nil => simp
    | cons c cs =>
      have hc : c ≠ '0' ∧ c ≠ '1' := ⟨fun h => hzero cs (h ▸ rfl), fun h => hone cs (h ▸ rfl)⟩
      simp [hc]
  | case5 c cs _ _ hc ih =>
    have hc : c ≠ '~' := hc
    simp [escaped_cons, ih, hc]

/-- A token has one written form. -/
lemma escape_of_unescape {raw cs : List Char} (hslash : '/' ∉ raw) (h : unescape raw = some cs) :
    escape cs = raw := by
  fun_induction unescape raw generalizing cs with
  | case1 => cases h; rfl
  | case2 raw ih =>
    obtain ⟨ds, hds, rfl⟩ := Option.map_eq_some_iff.mp h
    rw [escape, ih (by simpa using hslash) hds]
  | case3 raw ih =>
    obtain ⟨ds, hds, rfl⟩ := Option.map_eq_some_iff.mp h
    rw [escape, ih (by simpa using hslash) hds]
  | case4 => cases h
  | case5 c raw _ _ hc ih =>
    obtain ⟨ds, hds, rfl⟩ := Option.map_eq_some_iff.mp h
    rw [List.mem_cons, not_or] at hslash
    rw [escape, ih hslash.2 hds]
    · exact hc
    · exact Ne.symm hslash.1

/-! ### Steps -/

/-- A position of a step lies below the bound, as the positions of a machine do. -/
def Bounded : Segment → Prop
  | .key _ => True
  | .index n => n < indexBound

/-- What a step is after it was written and read: a key that is the numeral of a position is that
position. -/
inductive RereadAs : Segment → Segment → Prop where
  | index (n : ℕ) : RereadAs (.index n) (.index n)
  | numeral {n : ℕ} (h : n < indexBound) : RereadAs (.key (toString n)) (.index n)
  | key {k : String} (h : ∀ n < indexBound, k ≠ toString n) : RereadAs (.key k) (.key k)

lemma rereadAs_canonical {s : Segment} (h : s.Bounded) : s.RereadAs s.canonical := by
  cases s with
  | key k =>
    show RereadAs (.key k) (ofToken k)
    unfold ofToken
    cases hk : readIndex? k with
    | some n =>
      obtain ⟨rfl, hn⟩ := readIndex?_eq_some_iff.mp hk
      exact .numeral hn
    | none =>
      refine .key fun n hn hkn => ?_
      rw [readIndex?_eq_some_iff.mpr ⟨hkn, hn⟩] at hk
      cases hk
  | index n =>
    show RereadAs (.index n) (ofToken (toString n))
    rw [ofToken, readIndex?_eq_some_iff.mpr ⟨rfl, h⟩]
    exact .index n

end Segment

namespace Path

open Segment

/-- Every position of a path lies below the bound. -/
def Bounded (p : Path) : Prop := ∀ s ∈ p, s.Bounded

/-! ### Texts -/

lemma readToken_eq_ok_iff {text : String} {raw : List Char} {s : Segment} :
    readToken text raw = .ok s ↔ ∃ cs, unescape raw = some cs ∧ s = ofToken (String.ofList cs) := by
  unfold readToken
  cases unescape raw with
  | some cs => simp [eq_comm]
  | none => simp

lemma escape_of_readToken {text : String} {raw : List Char} {s : Segment} (hslash : '/' ∉ raw)
    (h : readToken text raw = .ok s) : escape s.token.toList = raw := by
  obtain ⟨cs, hcs, rfl⟩ := readToken_eq_ok_iff.mp h
  rw [token_ofToken, String.toList_ofList, escape_of_unescape hslash hcs]

lemma exists_readToken_iff {text : String} {raw : List Char} :
    (∃ s, readToken text raw = .ok s) ↔ Escaped raw := by
  rw [← unescape_isSome_iff, Option.isSome_iff_exists]
  constructor
  · rintro ⟨s, hs⟩
    obtain ⟨cs, hcs, -⟩ := readToken_eq_ok_iff.mp hs
    exact ⟨cs, hcs⟩
  · rintro ⟨cs, hcs⟩
    exact ⟨_, readToken_eq_ok_iff.mpr ⟨cs, hcs, rfl⟩⟩

/-- A text is a pointer if it is empty, or begins with a slash and has no other tildes than those of
escapes. -/
lemma exists_ofPointer_iff {text : String} : (∃ p, ofPointer text = .ok p) ↔
    text = "" ∨ text.toList.head? = some '/' ∧ Escaped text.toList := by
  have hempty : text = "" ↔ text.toList = [] := by rw [← String.toList_inj]; rfl
  rw [hempty]
  unfold ofPointer
  split
  · rename_i htext
    simp [htext]
  · rename_i cs htext
    have hescaped : Escaped text.toList ↔ ∀ raw ∈ Text.split '/' cs, Escaped raw := by
      rw [htext, escaped_cons, ← escaped_split]
      simp
    rw [hescaped]
    simp only [htext, reduceCtorEq, List.head?_cons, true_and, false_or]
    constructor
    · rintro ⟨p, hp⟩ raw hraw
      obtain ⟨s, -, hs⟩ := (exists_of_mapM_ok hp).1 raw hraw
      exact exists_readToken_iff.mp ⟨s, hs⟩
    · exact fun h => exists_mapM_ok fun raw hraw => exists_readToken_iff.mpr (h raw hraw)
  · rename_i hnil hslash
    refine iff_of_false (fun ⟨p, hp⟩ => by cases hp) ?_
    rintro (htext | ⟨hhead, -⟩)
    · exact hnil htext
    · obtain ⟨cs, hcs⟩ := List.head?_eq_some_iff.mp hhead
      exact hslash cs hcs

lemma escape_tokens {text : String} {parts : List (List Char)} {p : Path}
    (h : List.Forall₂ (fun raw s => readToken text raw = .ok s) parts p)
    (hslash : ∀ raw ∈ parts, '/' ∉ raw) : p.map (fun s => escape s.token.toList) = parts := by
  induction h with
  | nil => rfl
  | cons hread _ ih =>
    obtain ⟨hraw, hrest⟩ := List.forall_mem_cons.mp hslash
    rw [List.map_cons, escape_of_readToken hraw hread, ih hrest]

/-- A path that is read from a text writes the text. -/
lemma pointer_of_ofPointer {text : String} {p : Path} (h : ofPointer text = .ok p) :
    p.pointer = text := by
  rw [← String.toList_inj, toList_pointer]
  unfold ofPointer at h
  split at h
  · rename_i htext
    cases h
    rw [htext]
    rfl
  · rename_i cs htext
    have hparts := escape_tokens (mapM_eq_ok_iff.mp h) fun raw => Text.not_mem_of_mem_split
    rw [htext, ← Text.flatMap_split, ← hparts, List.flatMap_map]
  · cases h

/-! ### Both ways -/

lemma reread {p : Path} (h : p.Bounded) :
    ∃ q, ofPointer p.pointer = .ok q ∧ List.Forall₂ RereadAs p q := by
  refine ⟨_, ofPointer_pointer p, ?_⟩
  rw [List.forall₂_map_right_iff, List.forall₂_same]
  exact fun s hs => rereadAs_canonical (h s hs)

/-- **Pointers and paths are inverse.** A text is a pointer exactly if it is empty, or begins with a
slash and each of its tildes is followed by `0` or `1`. The path that it is read as writes it again.
A path that is written is read as itself, with every key that is the numeral of a position turned
into the position. -/
theorem pointers_inverse :
    (∀ text, (∃ p, ofPointer text = .ok p) ↔
      text = "" ∨ text.toList.head? = some '/' ∧ Escaped text.toList) ∧
    (∀ text p, ofPointer text = .ok p → p.pointer = text) ∧
    ∀ p : Path, p.Bounded → ∃ q, ofPointer p.pointer = .ok q ∧ List.Forall₂ RereadAs p q :=
  ⟨fun _ => exists_ofPointer_iff, fun _ _ => pointer_of_ofPointer, fun _ => reread⟩

/-- Keys that are numerals, that are too large for one or have a zero before it, that are empty or
need escapes; and a position. -/
def oddPath : Path :=
  [.key "5", .key "18446744073709551616", .key "007", .key "", .key "a/~1", .index 7]

theorem oddPath_inverse :
    ofPointer "/5/18446744073709551616/007//a~1~01/7" = .ok (.index 5 :: oddPath.tail) ∧
      pointer (.index 5 :: oddPath.tail) = "/5/18446744073709551616/007//a~1~01/7" ∧
      oddPath.Bounded ∧
      ∃ q, ofPointer oddPath.pointer = .ok q ∧ List.Forall₂ RereadAs oddPath q := by
  have hread : ofPointer "/5/18446744073709551616/007//a~1~01/7" =
      .ok (.index 5 :: oddPath.tail) := by decide +kernel
  have hbounded : oddPath.Bounded := by
    simp only [Bounded, oddPath, List.forall_mem_cons]
    exact ⟨trivial, trivial, trivial, trivial, trivial, (by decide : 7 < indexBound), by simp⟩
  exact ⟨hread, pointers_inverse.2.1 _ _ hread, hbounded, pointers_inverse.2.2 _ hbounded⟩

end Path

end RecordCuration
