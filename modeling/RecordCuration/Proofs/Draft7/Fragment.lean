import RecordCuration.Format.Uri
import RecordCuration.Proofs.JsonSchema.Reference

/-!
Fragments of references as pointers into a document.

A reference within a document is a URI reference whose fragment, decoded, is a JSON pointer. A
name that is put into a fragment as it is leads to the member of that name when it consists of
characters that a fragment shows bare and that a pointer does not escape, and only then: decoding
and unescaping make a text shorter, so a name with an escape in it comes out as another.
-/

namespace RecordCuration

open JsonSchema

/-! ### Sizes of texts -/

namespace Text

/-- The bytes that a text takes. -/
def byteCount (cs : List Char) : ℕ := (cs.map Char.utf8Size).sum

@[simp] lemma byteCount_nil : byteCount [] = 0 := rfl

@[simp] lemma byteCount_cons (c : Char) (cs : List Char) :
    byteCount (c :: cs) = c.utf8Size + byteCount cs := by simp [byteCount]

@[simp] lemma byteCount_append (as bs : List Char) :
    byteCount (as ++ bs) = byteCount as + byteCount bs := by simp [byteCount]

lemma length_flatMap_utf8EncodeChar (cs : List Char) :
    (cs.flatMap String.utf8EncodeChar).length = byteCount cs := by
  simp [byteCount, List.length_flatMap]

end Text

namespace Segment

/-- What is unescaped is shorter by one byte for every tilde. -/
lemma byteCount_unescape {cs ds : List Char} (h : unescape cs = some ds) :
    Text.byteCount ds + cs.count '~' = Text.byteCount cs := by
  fun_induction unescape cs generalizing ds with
  | case1 => cases h; rfl
  | case2 cs ih =>
    obtain ⟨es, he, rfl⟩ := Option.map_eq_some_iff.mp h
    have hlen := ih he
    have hsize : ('~' : Char).utf8Size = 1 ∧ ('0' : Char).utf8Size = 1 := by decide
    simp only [Text.byteCount_cons, List.count_cons_self, hsize]
    rw [List.count_cons_of_ne (by decide)]
    omega
  | case3 cs ih =>
    obtain ⟨es, he, rfl⟩ := Option.map_eq_some_iff.mp h
    have hlen := ih he
    have hsize : ('~' : Char).utf8Size = 1 ∧ ('1' : Char).utf8Size = 1 ∧
      ('/' : Char).utf8Size = 1 := by decide
    simp only [Text.byteCount_cons, List.count_cons_self, hsize]
    rw [List.count_cons_of_ne (by decide)]
    omega
  | case4 => cases h
  | case5 c cs _ _ hne ih =>
    obtain ⟨es, he, rfl⟩ := Option.map_eq_some_iff.mp h
    have hlen := ih he
    simp only [Text.byteCount_cons]
    rw [List.count_cons_of_ne (by simpa using hne)]
    omega

end Segment

namespace Draft7.Reference

/-! ### Decoding -/

/-- What is decoded has the bytes that it stands for. -/
lemma decodeBytes_of_percentDecode? {cs ds : List Char} (h : percentDecode? cs = some ds) :
    decodeBytes cs = ds.flatMap String.utf8EncodeChar := by
  obtain ⟨s, hs, rfl⟩ := Option.map_eq_some_iff.mp h
  unfold String.fromUTF8? at hs
  split_ifs at hs with hvalid
  cases hs
  have hbytes : (⟨(decodeBytes cs).toArray⟩ : ByteArray) =
      (String.ofList (String.fromUTF8 _ hvalid).toList).toByteArray := by
    rw [String.ofList_toList]
    rfl
  rw [String.toByteArray_ofList, List.utf8Encode] at hbytes
  have hdata := congrArg (fun bytes : ByteArray => bytes.data.toList) hbytes
  simpa using hdata

lemma ne_percent_of_isHexDigit {c : Char} (h : Format.isHexDigit c = true) : c ≠ '%' := by
  rintro rfl
  exact absurd h (by decide)

/-- An escape stands for one byte and takes three. -/
lemma length_decodeBytes {ok : Char → Bool} {cs : List Char}
    (h : Format.isEscapedText ok cs = true) :
    (decodeBytes cs).length + 2 * cs.count '%' ≤ Text.byteCount cs := by
  fun_induction decodeBytes cs with
  | case1 => simp
  | case2 a b cs x y hx hy ih =>
    rw [Format.isEscapedText] at h
    simp only [Bool.and_eq_true] at h
    obtain ⟨⟨ha, hb⟩, hcs⟩ := h
    have hlen := ih hcs
    have hsize : ('%' : Char).utf8Size = 1 := by decide
    have hpos := a.utf8Size_pos
    have hpos' := b.utf8Size_pos
    simp only [List.length_cons, Text.byteCount_cons, List.count_cons_self, hsize]
    rw [List.count_cons_of_ne (ne_percent_of_isHexDigit ha),
      List.count_cons_of_ne (ne_percent_of_isHexDigit hb)]
    omega
  | case3 a b cs hnot ih =>
    -- a mark that escapes nothing is not allowed
    rw [Format.isEscapedText] at h
    simp only [Bool.and_eq_true, Format.isHexDigit, Option.isSome_iff_exists] at h
    obtain ⟨⟨⟨x, hx⟩, y, hy⟩, -⟩ := h
    exact (hnot x y hx hy).elim
  | case4 c cs hne ih =>
    have hc : c ≠ '%' := by
      rintro rfl
      obtain _ | ⟨a, _ | ⟨b, cs⟩⟩ := cs
      · cases h
      · cases h
      · exact hne a b cs rfl rfl
    have hcs : Format.isEscapedText ok cs = true := by
      rw [Format.isEscapedText] at h
      · exact (Bool.and_eq_true_iff.mp h).2
      · exact fun _ _ _ he => (hc he).elim
      · exact hc
    have hlen := ih hcs
    rw [toList_toUTF8_singleton, List.length_append, String.length_utf8EncodeChar,
      List.count_cons_of_ne hc, Text.byteCount_cons]
    omega

/-! ### Pointers in fragments -/

/-- The path that a reference within the document gives: its fragment, decoded, as a pointer. A
text that is no URI reference, or that is more than a fragment, gives none. -/
def path? (text : String) : Option Path :=
  if Format.isUriReference text then
    match text.toList with
    | '#' :: cs => (percentDecode? cs).bind fun ds => (Path.ofPointer (String.ofList ds)).toOption
    | _ => none
  else none

end Draft7.Reference

/-- Where a definition is kept. -/
def definitionPath (name : String) : Path :=
  [Segment.key "definitions", Segment.key name].map Segment.canonical

/-- Names that a fragment and a pointer show as they are. -/
def FragmentName (name : String) : Prop :=
  ∀ c ∈ name.toList, (Format.isPathChar c = true ∨ c = '?') ∧ c ≠ '~'

instance (name : String) : Decidable (FragmentName name) :=
  List.decidableBAll _ _

lemma FragmentName.not_mem {name : String} (h : FragmentName name) {c : Char}
    (hp : Format.isPathChar c = false) (hq : c ≠ '?') : c ∉ name.toList := by
  intro hc
  rcases (h c hc).1 with hok | rfl
  · rw [hp] at hok
    cases hok
  · exact hq rfl

namespace Draft7.Reference

lemma isEscapedText_iff {ok : Char → Bool} {cs : List Char} (h : '%' ∉ cs) :
    Format.isEscapedText ok cs = true ↔ ∀ c ∈ cs, ok c = true := by
  induction cs with
  | nil => simp [Format.isEscapedText]
  | cons c cs ih =>
    rw [List.mem_cons, not_or] at h
    rw [Format.isEscapedText]
    · simp [ih h.2]
    · exact fun _ _ _ he => (h.1 he.symm).elim
    · exact fun he => h.1 he.symm

lemma isUriReference_fragment {cs : List Char} {text : String} (h : text.toList = '#' :: cs) :
    Format.isUriReference text = Format.isQuery cs := by
  have hcut : Format.cut '#' text.toList = ([], some cs) := by
    rw [h]
    simp [Format.cut]
  unfold Format.isUriReference Format.isUriWith
  rw [hcut]
  simp [Format.cut, Format.isReferenceBody, Format.isHierarchy, Format.isPath,
    Format.isEscapedText, Format.isQuery]

/-- The fragment of a reference to a name. -/
def fragment (name : String) : List Char := '/' :: ("definitions".toList ++ '/' :: name.toList)

lemma path?_target (name : String) : path? (target name) =
    if Format.isQuery (fragment name) then
      (percentDecode? (fragment name)).bind fun ds => (Path.ofPointer (String.ofList ds)).toOption
    else none := by
  unfold path?
  rw [isUriReference_fragment (toList_target name), toList_target]
  rfl

lemma fragment_eq_pointer {name : String} (htilde : '~' ∉ name.toList)
    (hslash : '/' ∉ name.toList) :
    String.ofList (fragment name) = Path.pointer [.key "definitions", .key name] := by
  refine String.toList_inj.mp ?_
  rw [String.toList_ofList, Path.toList_pointer]
  simp [fragment, Segment.token, Segment.escape_of_not_mem htilde hslash, Segment.escape]

lemma unescape_of_readToken {text token : String} {raw : List Char}
    (h : Path.readToken text raw = .ok (.ofToken token)) :
    Segment.unescape raw = some token.toList := by
  unfold Path.readToken at h
  split at h
  · rename_i cs hcs
    have htoken := congrArg Segment.token (Except.ok.inj h)
    rw [Segment.token_ofToken, Segment.token_ofToken] at htoken
    rw [hcs, ← htoken, String.toList_ofList]
  · cases h

/-- A pointer of two steps has two tokens, each read without faults. -/
lemma exists_tokens_of_ofPointer {ds : List Char} {a b : String}
    (h : Path.ofPointer (String.ofList ds) = .ok [Segment.ofToken a, Segment.ofToken b]) :
    ∃ s t, ds = '/' :: (s ++ '/' :: t) ∧ '/' ∉ t ∧ Segment.unescape s = some a.toList ∧
      Segment.unescape t = some b.toList := by
  unfold Path.ofPointer at h
  rw [String.toList_ofList] at h
  split at h
  · cases h
  · rename_i cs
    have hall := mapM_eq_ok_iff.mp h
    cases hsplit : Text.split '/' cs with
    | nil => rw [hsplit] at hall; cases hall
    | cons s parts =>
      rw [hsplit] at hall
      obtain _ | ⟨hs, _ | ⟨ht, ⟨⟩⟩⟩ := hall
      obtain ⟨rfl, -, hnot⟩ := Text.eq_append_of_split hsplit
      exact ⟨_, _, rfl, hnot, unescape_of_readToken hs, unescape_of_readToken ht⟩
  · cases h

/-- Decoding and unescaping shorten a text for each escape. Where the two steps of a pointer come
out as long as what went in, there was no escape. -/
lemma no_escapes {name : String} {s t : List Char} (hquery : Format.isQuery (fragment name) = true)
    (hdecode : percentDecode? (fragment name) = some ('/' :: (s ++ '/' :: t)))
    (hs : Segment.unescape s = some "definitions".toList)
    (ht : Segment.unescape t = some name.toList) : '%' ∉ fragment name ∧ '~' ∉ t := by
  have hbytes := length_decodeBytes hquery
  rw [decodeBytes_of_percentDecode? hdecode, Text.length_flatMap_utf8EncodeChar] at hbytes
  have hstep := Segment.byteCount_unescape hs
  have hname := Segment.byteCount_unescape ht
  have hwhole : Text.byteCount (fragment name) = ('/' : Char).utf8Size +
      (Text.byteCount "definitions".toList + (('/' : Char).utf8Size +
        Text.byteCount name.toList)) := by
    rw [fragment, Text.byteCount_cons, Text.byteCount_append, Text.byteCount_cons]
  simp only [Text.byteCount_cons, Text.byteCount_append] at hbytes
  exact ⟨List.count_eq_zero.mp (by omega), List.count_eq_zero.mp (by omega)⟩

lemma fragmentName_of_path? {name : String} (h : path? (target name) = some (definitionPath name)) :
    FragmentName name := by
  rw [path?_target] at h
  split_ifs at h with hquery
  obtain ⟨ds, hdecode, hpath⟩ := Option.bind_eq_some_iff.mp h
  obtain ⟨s, t, rfl, hslash, hs, ht⟩ :=
    exists_tokens_of_ofPointer (a := "definitions") (b := name) (toOption_eq_some_iff.mp hpath)
  obtain ⟨hpercent, htilde⟩ := no_escapes hquery hdecode hs ht
  rw [Segment.unescape_of_not_mem htilde] at ht
  obtain rfl := Option.some.inj ht
  intro c hc
  have hok := (isEscapedText_iff hpercent).mp hquery c (by simp [fragment, hc])
  simp only [Bool.or_eq_true, beq_iff_eq] at hok
  refine ⟨?_, fun he => htilde (he ▸ hc)⟩
  rcases hok with (hok | rfl) | hok
  · exact Or.inl hok
  · exact absurd hc hslash
  · exact Or.inr hok

lemma path?_of_fragmentName {name : String} (h : FragmentName name) :
    path? (target name) = some (definitionPath name) := by
  have hslash : '/' ∉ name.toList := h.not_mem (by decide) (by decide)
  have hpercent : '%' ∉ fragment name := by
    have hname : '%' ∉ name.toList := h.not_mem (by decide) (by decide)
    simp [fragment, hname]
  have hquery : Format.isQuery (fragment name) = true := by
    refine (isEscapedText_iff hpercent).mpr fun c hc => ?_
    simp only [fragment, List.mem_cons, List.mem_append] at hc
    simp only [Bool.or_eq_true, beq_iff_eq]
    rcases hc with rfl | hc | rfl | hc
    · exact Or.inl (Or.inr rfl)
    · have hall : "definitions".toList.all Format.isPathChar = true := by decide +kernel
      exact Or.inl (Or.inl (List.all_eq_true.mp hall c hc))
    · exact Or.inl (Or.inr rfl)
    · exact (h c hc).1.imp_left Or.inl
  rw [path?_target, if_pos hquery, percentDecode?_of_plain hpercent, Option.bind_some,
    toOption_eq_some_iff, fragment_eq_pointer (fun hc => (h _ hc).2 rfl) hslash]
  exact Path.ofPointer_pointer _

/-- **Names in references**: a reference made from a name leads where the definition of that name
is kept exactly when a fragment and a pointer show the name as it is. -/
theorem path?_target_eq_iff {name : String} :
    path? (target name) = some (definitionPath name) ↔ FragmentName name :=
  ⟨fragmentName_of_path?, path?_of_fragmentName⟩

end Draft7.Reference

/-- Such names mean themselves in references. -/
lemma plainName_of_fragmentName {name : String} (h : FragmentName name) : PlainName name := by
  intro c hc
  obtain ⟨hok, htilde⟩ := h c hc
  refine ⟨?_, ?_, htilde⟩ <;> rintro rfl <;> revert hok <;> decide

end RecordCuration
