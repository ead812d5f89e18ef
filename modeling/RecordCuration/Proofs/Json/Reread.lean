import RecordCuration.Proofs.Json.Members
import RecordCuration.Proofs.Json.Number
import RecordCuration.Proofs.Json.Scanned
import RecordCuration.Proofs.Path.Numeral

/-!
Written values, read back.

A value reads back from its file with every text, name and member in place, as long as it nests no
deeper than a text may. Whole numbers of 64 bits come back too. A double is written with the fewest
digits that stand for it but read with fewer roundings than that needs, so another double can come
back in its place.
-/

namespace RecordCuration

open Json

/-! ### Doubles -/

namespace Decimal.Double

/-- The text of the double is read as a double, and as a whole one exactly if the double is whole.
-/
def KeepsWhole (x : Double) : Prop :=
  ∃ y, Json.ofString? (realLayout.write x) = some (.real y) ∧ y.isWhole = x.isWhole

/-- The double that is read where one was written, unless only one of the two is whole. -/
def reread (x : Double) : Double :=
  match Json.ofString? (realLayout.write x) with
  | some (.real y) => if y.isWhole = x.isWhole then y else x
  | _ => x

lemma KeepsWhole.ofString? {x : Double} (h : x.KeepsWhole) :
    Json.ofString? (realLayout.write x) = some (.real x.reread) := by
  obtain ⟨y, hy, hwhole⟩ := h
  simp only [reread, hy, if_pos hwhole]

lemma isWhole_reread (x : Double) : x.reread.isWhole = x.isWhole := by
  unfold reread
  split
  · split_ifs with hwhole
    · exact hwhole
    · rfl
  · rfl

end Decimal.Double

namespace Json

open Decimal (Double Numeral)

variable {f : Double → Double} {v : Json}

/-! ### Texts -/

lemma joinPieces_pieceOf (c : Char) (ps : List Piece) :
    joinPieces (pieceOf c :: ps) = (joinPieces ps).map (c :: ·) := by
  unfold pieceOf
  split_ifs with h
  · have hc : c.toNat < 32 := h.1
    have hlow : c.toNat < 0xD800 ∨ 0xDFFF < c.toNat := by omega
    rw [joinPieces.eq_def]
    simp [hlow]
  · rfl

lemma text?_pieces (s : String) : text? (pieces s) = some s := by
  have hjoin : ∀ cs : List Char, joinPieces (cs.map pieceOf) = some cs := by
    intro cs
    induction cs with
    | nil => rfl
    | cons c cs ih => rw [List.map_cons, joinPieces_pieceOf, ih, Option.map_some]
  rw [text?, pieces, hjoin, Option.map_some, String.ofList_toList]

/-! ### Whole numbers -/

/-- Digits that a number writes are read as digits that write it. -/
lemma spanDigits_of_naturalFrom {cs : List Char} {n m : ℕ} (h : Text.naturalFrom n cs = some m) :
    ∃ ds, spanDigits cs = (ds, []) ∧ ds.foldl (fun n d => 10 * n + d) n = m ∧
      ds.map Nat.digitChar = cs := by
  induction cs generalizing n with
  | nil => cases h; exact ⟨[], rfl, rfl, rfl⟩
  | cons c cs ih =>
    obtain ⟨k, hk, h⟩ := Option.bind_eq_some_iff.mp h
    obtain ⟨d, hd, rfl⟩ := Option.map_eq_some_iff.mp hk
    obtain ⟨ds, hspan, hvalue, hchars⟩ := ih h
    refine ⟨d :: ds, by simp [spanDigits, hd, hspan], hvalue, ?_⟩
    rw [List.map_cons, hchars, (Text.digitChar_of_digit? hd).2]

lemma numeral?_toDigits (n : ℕ) : ∃ ds, Numeral.ofDigits ds = n ∧
    numeral? (Nat.toDigits 10 n) = some ⟨false, ds, none, none⟩ ∧
    numeral? ('-' :: Nat.toDigits 10 n) = some ⟨true, ds, none, none⟩ := by
  obtain ⟨ds, hspan, hvalue, hchars⟩ := spanDigits_of_naturalFrom (Text.naturalFrom_toDigits n)
  refine ⟨ds, hvalue, ?_⟩
  have hfirst : ∀ cs, Nat.toDigits 10 n ≠ '-' :: cs := by
    intro cs hcs
    have hdigit := Nat.isDigit_of_mem_toDigits (b := 10) (n := n) (c := '-') (by norm_num)
      (by norm_num) (by rw [hcs]; exact List.mem_cons_self)
    cases hdigit
  have hzero : ∀ d es, ds ≠ 0 :: d :: es := by
    rintro d es rfl
    have hleading := Text.hasLeadingZero_toDigits n
    rw [← hchars] at hleading
    cases hleading
  have hnone : ds ≠ [] := by
    rintro rfl
    exact Nat.toDigits_ne_nil hchars.symm
  unfold numeral?
  constructor
  · simp only [hspan]
    rfl
  · simp only [hspan]
    rfl

/-- The text of a whole number is a numeral, which denotes the number if it has 64 bits. -/
lemma numeral?_int (n : ℤ) : ∃ m, numeral? (atom (.int n)).toList = some m ∧
    (FitsWord n → m.toNumber? = some (.int n)) := by
  cases n with
  | ofNat n =>
    obtain ⟨ds, hvalue, hnumeral, -⟩ := numeral?_toDigits n
    have htext : (atom (.int (Int.ofNat n))).toList = Nat.toDigits 10 n := by
      show (toString n).toList = _
      simp
    refine ⟨_, htext ▸ hnumeral, fun ⟨_, hhigh⟩ => ?_⟩
    have hlt : n < UInt64.size := by
      have hsize : UInt64.size = 2 ^ 64 := rfl
      have hn : Int.ofNat n = n := rfl
      omega
    simp [Numeral.toNumber?, Numeral.toInt?, hvalue, hlt]
  | negSucc n =>
    obtain ⟨ds, hvalue, -, hnumeral⟩ := numeral?_toDigits (n + 1)
    have htext : (atom (.int (Int.negSucc n))).toList = '-' :: Nat.toDigits 10 (n + 1) := by
      show ("-" ++ toString (n + 1)).toList = _
      simp
    refine ⟨_, htext ▸ hnumeral, fun ⟨hlow, _⟩ => ?_⟩
    have hle : n + 1 ≤ Nat.pow 2 63 := by
      have hpow : Nat.pow 2 63 = 2 ^ 63 := rfl
      omega
    have hn : -((n : ℤ) + 1) = Int.negSucc n := (Int.negSucc_eq n).symm
    simp [Numeral.toNumber?, Numeral.toInt?, hvalue, hle, hn]

/-! ### Trees -/

/-- The numeral that a number is written as. -/
def numeralOf (v : Json) : Numeral := (numeral? (atom v).toList).getD ⟨false, [], none, none⟩

lemma numeralOf_eq {n : Numeral} (h : numeral? (atom v).toList = some n) : numeralOf v = n := by
  rw [numeralOf, h, Option.getD_some]

mutual
/-- The tree of the text of a value. -/
def source : Json → Source
  | .null => .null
  | .bool b => .bool b
  | .int n => .num (numeralOf (.int n))
  | .real x => .num (numeralOf (.real x))
  | .str s => .text (pieces s)
  | .arr xs => .arr (itemSources xs)
  | .obj ms => .obj (memberSources ms)
def itemSources : List Json → List Source
  | [] => []
  | x :: xs => source x :: itemSources xs
def memberSources : List (String × Json) → List (List Piece × Source)
  | [] => []
  | (k, v) :: ms => (pieces k, source v) :: memberSources ms
end

/-- Every double of a document is written as a numeral. -/
def Legible (v : Json) : Prop :=
  ∀ x, Part (.real x) v → ∃ n, numeral? (atom (.real x)).toList = some n

lemma Measureless.legible (h : v.Measureless) : v.Legible :=
  fun _ hx => absurd trivial (h _ hx).1

namespace Source

variable {opened : Bool} {stack : List Frame} {ts rest : List Token}

lemma ofBare?_of_numeral {cs : List Char} {n : Numeral} (h : numeral? cs = some n) :
    ofBare? cs = some (.num n) := by
  have hword : ∀ word : String, numeral? word.toList = none → String.ofList cs ≠ word := by
    rintro word hnone rfl
    rw [String.toList_ofList, h] at hnone
    cases hnone
  unfold ofBare?
  split
  · exact absurd ‹_› (hword _ (by decide))
  · exact absurd ‹_› (hword _ (by decide))
  · exact absurd ‹_› (hword _ (by decide))
  · rw [h, Option.map_some]

/-- Reading some tokens where a value is expected comes to a tree. -/
def Reads (ts : List Token) (x : Source) : Prop :=
  ∀ opened stack rest, (ts ++ rest).foldlM step (.value opened stack) =
    rest.foldlM step (after x stack)

lemma reads_bare {cs : List Char} {x : Source} (h : ofBare? cs = some x) :
    Reads [.bare cs] x := by
  intro opened stack rest
  simp [step, h]

/-- Items with commas between them. -/
lemma foldlM_items {tss : List (List Token)} {xs : List Source} (h : List.Forall₂ Reads tss xs)
    (hne : xs ≠ []) (opened : Bool) (done : List Source) (stack : List Frame)
    (rest : List Token) :
    ([Token.comma].intercalate tss ++ rest).foldlM step (.value opened (.arr done :: stack)) =
      rest.foldlM step (.next (.arr (xs.reverse ++ done)) stack) := by
  induction h generalizing opened done with
  | nil => exact absurd rfl hne
  | @cons ts x tss xs hfirst hrest ih =>
    cases hrest with
    | nil => simp [hfirst _ _ _, after]
    | cons hsecond hothers =>
      rw [List.intercalate_cons_cons, List.append_assoc, List.append_assoc, hfirst _ _ _]
      have hcomma : step (after x (.arr done :: stack)) .comma =
          some (.value false (.arr (x :: done) :: stack)) := rfl
      simp only [List.singleton_append, List.foldlM_cons, hcomma, Option.bind_eq_bind,
        Option.bind_some, ih (by simp)]
      simp

lemma reads_arr {tss : List (List Token)} {xs : List Source} (h : List.Forall₂ Reads tss xs) :
    Reads (.openArr :: [Token.comma].intercalate tss ++ [.closeArr]) (.arr xs) := by
  intro opened stack rest
  have hopen : step (.value opened stack) .openArr = some (.value true (.arr [] :: stack)) := rfl
  simp only [List.cons_append, List.append_assoc, List.nil_append, List.foldlM_cons, hopen,
    Option.bind_eq_bind, Option.bind_some]
  cases h with
  | nil => rfl
  | cons hfirst hothers =>
    rw [foldlM_items (.cons hfirst hothers) (by simp)]
    simp [step]

/-- Reading a member whose name is expected comes to a tree under the name. -/
def ReadsMember (ts : List Token) (m : List Piece × Source) : Prop :=
  ∃ us, ts = .quoted m.1 :: .colon :: us ∧ Reads us m.2

/-- Members with commas between them. -/
lemma foldlM_members {tss : List (List Token)} {ms : List (List Piece × Source)}
    (h : List.Forall₂ ReadsMember tss ms) (hne : ms ≠ []) (opened : Bool)
    (done : List (List Piece × Source)) (stack : List Frame) (rest : List Token) :
    ∃ name, ([Token.comma].intercalate tss ++ rest).foldlM step (.name opened done stack) =
      rest.foldlM step (.next (.obj (ms.reverse ++ done) name) stack) := by
  induction h generalizing opened done with
  | nil => exact absurd rfl hne
  | @cons ts m tss ms hfirst hrest ih =>
    obtain ⟨us, rfl, hus⟩ := hfirst
    have hname : ∀ rest, (.quoted m.1 :: .colon :: us ++ rest).foldlM step
        (.name opened done stack) = rest.foldlM step (.next (.obj (m :: done) m.1) stack) := by
      intro rest
      simpa [step, after] using hus false (.obj done m.1 :: stack) rest
    cases hrest with
    | nil => exact ⟨m.1, by rw [List.intercalate_singleton, hname]; rfl⟩
    | cons hsecond hothers =>
      obtain ⟨name, hothers⟩ := ih (by simp) false (m :: done)
      refine ⟨name, ?_⟩
      rw [List.intercalate_cons_cons, List.append_assoc, List.append_assoc, hname]
      have hcomma : step (.next (.obj (m :: done) m.1) stack) .comma =
          some (.name false (m :: done) stack) := rfl
      simp only [List.singleton_append, List.foldlM_cons, hcomma, Option.bind_eq_bind,
        Option.bind_some, hothers]
      simp

lemma reads_obj {tss : List (List Token)} {ms : List (List Piece × Source)}
    (h : List.Forall₂ ReadsMember tss ms) :
    Reads (.openObj :: [Token.comma].intercalate tss ++ [.closeObj]) (.obj ms) := by
  intro opened stack rest
  have hopen : step (.value opened stack) .openObj = some (.name true [] stack) := rfl
  simp only [List.cons_append, List.append_assoc, List.nil_append, List.foldlM_cons, hopen,
    Option.bind_eq_bind, Option.bind_some]
  cases h with
  | nil => rfl
  | cons hfirst hothers =>
    obtain ⟨name, hmembers⟩ := foldlM_members (.cons hfirst hothers) (by simp) true [] stack
      (.closeObj :: rest)
    rw [hmembers]
    simp [step]

lemma reads_items {xs : List Json} (h : ∀ x ∈ xs, Reads x.tokens x.source) :
    List.Forall₂ Reads (itemTokens xs) (itemSources xs) := by
  induction xs with
  | nil => exact .nil
  | cons x xs ih =>
    obtain ⟨hx, hxs⟩ := List.forall_mem_cons.mp h
    exact .cons hx (ih hxs)

lemma reads_members {ms : List (String × Json)} (h : ∀ m ∈ ms, Reads m.2.tokens m.2.source) :
    List.Forall₂ ReadsMember (memberTokens ms) (memberSources ms) := by
  induction ms with
  | nil => exact .nil
  | cons m ms ih =>
    obtain ⟨k, v⟩ := m
    obtain ⟨hv, hms⟩ := List.forall_mem_cons.mp h
    exact .cons ⟨_, rfl, hv⟩ (ih hms)

theorem reads_tokens (v : Json) (h : v.Legible) : Reads v.tokens v.source := by
  induction v with
  | null => exact reads_bare rfl
  | bool b => cases b <;> exact reads_bare rfl
  | int n =>
    obtain ⟨m, hm, -⟩ := numeral?_int n
    exact reads_bare (by rw [ofBare?_of_numeral hm, source, numeralOf_eq hm])
  | real x =>
    obtain ⟨m, hm⟩ := h x .self
    exact reads_bare (by rw [ofBare?_of_numeral hm, source, numeralOf_eq hm])
  | str s => exact fun _ _ _ => rfl
  | arr xs ih =>
    exact reads_arr (reads_items fun x hx => ih x hx fun y hy => h y (.item hx hy))
  | obj ms ih =>
    exact reads_obj (reads_members fun m hm => ih m hm fun y hy => h y (.member hm hy))

lemma ofString?_of_scan {text : String} {v : Json} (h : v.Legible)
    (hscan : Token.scan text.toList = some v.tokens) : ofString? text = some v.source := by
  have htokens := reads_tokens v h false [] []
  rw [List.append_nil] at htokens
  rw [Source.ofString?, hscan, Option.bind_eq_bind, Option.bind_some, ofTokens?, htokens]
  rfl

/-- The file of a value is read as the tree of the value. -/
theorem ofString?_pretty {v : Json} (h : v.Legible) :
    ofString? (v.pretty ++ "\n") = some v.source :=
  ofString?_of_scan h (Token.scan_pretty v)

/-- So is its compact text. -/
theorem ofString?_compact {v : Json} (h : v.Legible) : ofString? v.compact = some v.source :=
  ofString?_of_scan h (Token.scan_compact v)

end Source

/-! ### Values -/

/-- Texts in which the numbers of a document stand are read as the numbers again, for doubles up to
a change of each. -/
structure NumbersRead (f : Double → Double) (v : Json) : Prop where
  int : ∀ n, Part (.int n) v → FitsWord n
  real : ∀ x, Part (.real x) v → ofString? (atom (.real x)) = some (.real (f x))

lemma NumbersRead.item {xs : List Json} {x : Json} (h : NumbersRead f (.arr xs)) (hx : x ∈ xs) :
    NumbersRead f x :=
  ⟨fun n hn => h.int n (.item hx hn), fun y hy => h.real y (.item hx hy)⟩

lemma NumbersRead.member {ms : List (String × Json)} {m : String × Json}
    (h : NumbersRead f (.obj ms)) (hm : m ∈ ms) : NumbersRead f m.2 :=
  ⟨fun n hn => h.int n (.member hm hn), fun y hy => h.real y (.member hm hy)⟩

lemma numbersRead_of_part_eq {x : Double} (h : ∀ w, w.IsNumber → Part w v → w = .real x)
    (hx : ofString? (atom (.real x)) = some (.real (f x))) : NumbersRead f v := by
  constructor
  · intro n hn
    cases h (.int n) trivial hn
  · intro y hy
    cases h (.real y) trivial hy
    exact hx

/-- A word is read as the double that it denotes as a numeral. -/
lemma ofString?_word_eq_some_iff {s : String} (hs : Token.IsWord s) {y : Double} :
    ofString? s = some (.real y) ↔
      (numeral? s.toList >>= Numeral.toNumber?) = some (.real y) := by
  have hscan : Token.scan s.toList = some [.bare s.toList] := by
    simpa [Token.scan_eq] using hs.scans [] [] Token.ends_nil
  have hword : Source.ofString? s = Source.ofBare? s.toList := by
    rw [Source.ofString?, hscan]
    cases hbare : Source.ofBare? s.toList <;>
      simp [Source.ofTokens?, Source.step, hbare, Source.after]
  rw [ofString?, hword]
  constructor
  · intro h
    obtain ⟨x, hbare, hy⟩ := Option.bind_eq_some_iff.mp h
    unfold Source.ofBare? at hbare
    split at hbare
    · cases hbare; cases hy
    · cases hbare; cases hy
    · cases hbare; cases hy
    · obtain ⟨n, hn, rfl⟩ := Option.map_eq_some_iff.mp hbare
      obtain ⟨number, hnumber, he⟩ := Option.map_eq_some_iff.mp hy
      refine Option.bind_eq_some_iff.mpr ⟨n, hn, ?_⟩
      cases number <;> cases he
      exact hnumber
  · intro h
    obtain ⟨n, hn, hnumber⟩ := Option.bind_eq_some_iff.mp h
    rw [Source.ofBare?_of_numeral hn, Option.bind_eq_bind, Option.bind_some, Source.toJson?,
      hnumber]
    rfl

lemma exists_numeral_of_real {x y : Double} (h : ofString? (atom (.real x)) = some (.real y)) :
    ∃ n, numeral? (atom (.real x)).toList = some n ∧ n.toNumber? = some (.real y) :=
  Option.bind_eq_some_iff.mp ((ofString?_word_eq_some_iff (Token.isWord_real x)).mp h)

lemma Measureless.numbersRead {f : Double → Double} (h : v.Measureless) : NumbersRead f v :=
  ⟨fun _ hn => absurd trivial (h _ hn).1, fun _ hx => absurd trivial (h _ hx).1⟩

lemma NumbersRead.legible (h : NumbersRead f v) : v.Legible := by
  intro x hx
  obtain ⟨n, hn, -⟩ := exists_numeral_of_real (h.real x hx)
  exact ⟨n, hn⟩

namespace Source

variable {room : ℕ} {g : Json → Json}

lemma items?_sources {xs : List Json} (h : ∀ x ∈ xs, x.source.toJson? room = some (g x)) :
    items? room (itemSources xs) = some (xs.map g) := by
  induction xs with
  | nil => rfl
  | cons x xs ih =>
    obtain ⟨hx, hxs⟩ := List.forall_mem_cons.mp h
    simp [itemSources, items?, hx, ih hxs]

lemma members?_sources {ms : List (String × Json)}
    (h : ∀ m ∈ ms, m.2.source.toJson? room = some (g m.2)) :
    members? room (memberSources ms) = some (ms.map fun m => (m.1, g m.2)) := by
  induction ms with
  | nil => rfl
  | cons m ms ih =>
    obtain ⟨k, v⟩ := m
    obtain ⟨hv, hms⟩ := List.forall_mem_cons.mp h
    simp [memberSources, members?, text?_pieces, hv, ih hms]

/-- A value that nests no deeper than there is room is read from its tree. -/
lemma toJson?_source {v : Json} (h : NumbersRead f v) (hv : v.WellFormed)
    (hroom : v.depth ≤ room) : v.source.toJson? room = some (v.mapReals f) := by
  induction v generalizing room with
  | null => rfl
  | bool b => rfl
  | int n =>
    obtain ⟨m, hm, hvalue⟩ := numeral?_int n
    rw [source, numeralOf_eq hm, toJson?, hvalue (h.int n .self)]
    rfl
  | real x =>
    obtain ⟨n, hn, hvalue⟩ := exists_numeral_of_real (h.real x .self)
    rw [source, numeralOf_eq hn, toJson?, hvalue]
    rfl
  | str s => rw [source, toJson?, text?_pieces]; rfl
  | arr xs ih =>
    cases room with
    | zero => simp [depth] at hroom
    | succ room =>
      have hitems := items?_sources fun x hx => ih x hx (h.item hx) (wellFormed_arr.mp hv x hx)
        (depth_arr_le_iff.mp hroom x hx)
      simp [source, toJson?, hitems]
  | obj ms ih =>
    cases room with
    | zero => simp [depth] at hroom
    | succ room =>
      obtain ⟨hnames, hparts⟩ := wellFormed_obj.mp hv
      have hmembers := members?_sources fun m hm => ih m hm (h.member hm) (hparts m hm)
        (depth_obj_le_iff.mp hroom m hm)
      have hwrites : Members.ofWrites (ms.map fun m => (m.1, m.2.mapReals f)) =
          ms.map fun m => (m.1, m.2.mapReals f) :=
        Members.ofWrites_of_nodup (by rwa [List.map_map])
      simp [source, toJson?, hmembers, hwrites]

lemma items?_eq_none {xs : List Json} {x : Json} (hx : x ∈ xs)
    (h : x.source.toJson? room = none) : items? room (itemSources xs) = none := by
  induction xs with
  | nil => cases hx
  | cons y xs ih =>
    rcases List.mem_cons.mp hx with rfl | hx
    · simp [itemSources, items?, h]
    · simp [itemSources, items?, ih hx]

lemma members?_eq_none {ms : List (String × Json)} {m : String × Json} (hm : m ∈ ms)
    (h : m.2.source.toJson? room = none) : members? room (memberSources ms) = none := by
  induction ms with
  | nil => cases hm
  | cons n ms ih =>
    obtain ⟨k, v⟩ := n
    rcases List.mem_cons.mp hm with rfl | hm
    · simp [memberSources, members?, h]
    · simp [memberSources, members?, ih hm]

/-- No other value is. -/
lemma toJson?_source_eq_none {v : Json} (hroom : room < v.depth) :
    v.source.toJson? room = none := by
  induction v generalizing room with
  | arr xs ih =>
    cases room with
    | zero => simp [source, toJson?]
    | succ room =>
      obtain ⟨x, hx, hdeep⟩ : ∃ x ∈ xs, room < x.depth := by
        by_contra! hle
        exact absurd (depth_arr_le_iff.mpr hle) (not_le.mpr hroom)
      simp [source, toJson?, items?_eq_none hx (ih x hx hdeep)]
  | obj ms ih =>
    cases room with
    | zero => simp [source, toJson?]
    | succ room =>
      obtain ⟨m, hm, hdeep⟩ : ∃ m ∈ ms, room < m.2.depth := by
        by_contra! hle
        exact absurd (depth_obj_le_iff.mpr hle) (not_le.mpr hroom)
      simp [source, toJson?, members?_eq_none hm (ih m hm hdeep)]
  | _ => cases hroom

end Source

/-- **Written values are read back**, a double perhaps as another one, unless they nest deeper than
a text may. -/
theorem ofString?_pretty (h : NumbersRead f v) (hv : v.WellFormed) :
    ofString? (v.pretty ++ "\n") =
      if v.depth ≤ maxNesting then some (v.mapReals f) else none := by
  rw [ofString?, Source.ofString?_pretty h.legible, Option.bind_eq_bind, Option.bind_some]
  split_ifs with hdepth
  · exact Source.toJson?_source h hv hdepth
  · exact Source.toJson?_source_eq_none (not_le.mp hdepth)

end Json

end RecordCuration
