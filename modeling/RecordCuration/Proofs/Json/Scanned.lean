import Mathlib.Tactic
import RecordCuration.Json.Printer
import RecordCuration.Json.Source
import RecordCuration.Proofs.Json.WellFormed

/-!
The tokens of written text.

Scanning the text of a value gives the tokens of the value, whatever its layout. Between two tokens
the scanner is where it began, so the text is scanned piece by piece; a bare word alone has to be
followed by something that ends it.
-/

namespace RecordCuration.Json

/-- What the scanner makes of a written character: control characters without a letter of their own
are written as units. -/
def pieceOf (c : Char) : Piece :=
  if c < ' ' ∧ c ∉ ['\x08', '\x0c', '\n', '\r', '\t'] then .unit c.toNat else .char c

def pieces (s : String) : List Piece := s.toList.map pieceOf

mutual
/-- The tokens of a value. -/
def tokens : Json → List Token
  | .arr xs => .openArr :: [Token.comma].intercalate (itemTokens xs) ++ [.closeArr]
  | .obj ms => .openObj :: [Token.comma].intercalate (memberTokens ms) ++ [.closeObj]
  | .str s => [.quoted (pieces s)]
  | v => [.bare (atom v).toList]
def itemTokens : List Json → List (List Token)
  | [] => []
  | x :: xs => tokens x :: itemTokens xs
def memberTokens : List (String × Json) → List (List Token)
  | [] => []
  | (k, v) :: ms => (.quoted (pieces k) :: .colon :: tokens v) :: memberTokens ms
end

namespace Token

/-! ### Piece by piece -/

/-- Scans on from between two tokens; the tokens before are reversed. -/
def scanFrom (done : List Token) (cs : List Char) : Option (List Token) :=
  cs.foldlM step ⟨.blank, done⟩ >>= finish

/-- A character that only stands in bare words. -/
def isBare (c : Char) : Bool := !isBlank c && c != '"' && (ofMark? c).isNone

/-- What a bare word can be followed by. -/
def Ends (cs : List Char) : Prop := ∀ c ∈ cs.head?, isBare c = false

lemma ends_nil : Ends [] := fun _ hc => by cases hc

variable {done : List Token} {cs rest : List Char} {c : Char}

lemma scan_eq (cs : List Char) : scan cs = scanFrom [] cs := rfl

@[simp] lemma scanFrom_nil : scanFrom done [] = some done.reverse := rfl

lemma foldlM_cons (s : Scan) (c : Char) (cs : List Char) :
    (c :: cs).foldlM step s = step s c >>= fun t => cs.foldlM step t := rfl

lemma isBare_eq_true_iff :
    isBare c = true ↔ isBlank c = false ∧ c ≠ '"' ∧ ofMark? c = none := by
  simp [isBare, and_assoc]

lemma step_blank (done : List Token) (h : isBlank c = true) :
    step ⟨.blank, done⟩ c = some ⟨.blank, done⟩ := by
  simp [step, stepOutside, h]

lemma step_mark (done : List Token) {t : Token} (h : ofMark? c = some t) :
    step ⟨.blank, done⟩ c = some ⟨.blank, t :: done⟩ := by
  have hblank : isBlank c = false := by
    unfold ofMark? at h
    split at h <;> first | rfl | cases h
  have hquote : c ≠ '"' := by
    rintro rfl
    cases h
  simp [step, stepOutside, h, hblank, hquote]

lemma step_bare (cs : List Char) (done : List Token) (h : isBare c = true) :
    step ⟨.bare cs, done⟩ c = some ⟨.bare (c :: cs), done⟩ := by
  simp [step, stepOutside, isBare_eq_true_iff.mp h]

lemma step_first_bare (done : List Token) (h : isBare c = true) :
    step ⟨.blank, done⟩ c = some ⟨.bare [c], done⟩ := by
  simp [step, stepOutside, isBare_eq_true_iff.mp h]

/-- What cannot be in a bare word comes after it. -/
lemma step_of_ends {cs : List Char} (done : List Token) (hcs : cs ≠ []) (h : isBare c = false) :
    step ⟨.bare cs, done⟩ c = step ⟨.blank, .bare cs.reverse :: done⟩ c := by
  cases hblank : isBlank c with
  | true => simp [step, stepOutside, hcs, hblank]
  | false =>
    cases hmark : ofMark? c with
    | some t => simp [step, stepOutside, hcs, hblank, hmark]
    | none =>
      have hquote : c = '"' := by simpa [isBare, hblank, hmark] using h
      simp [step, stepOutside, hcs, hquote]

lemma scanFrom_blank (h : isBlank c = true) : scanFrom done (c :: rest) = scanFrom done rest := by
  rw [scanFrom, foldlM_cons, step_blank done h]
  rfl

lemma scanFrom_mark {t : Token} (h : ofMark? c = some t) :
    scanFrom done (c :: rest) = scanFrom (t :: done) rest := by
  rw [scanFrom, foldlM_cons, step_mark done h]
  rfl

lemma scanFrom_blanks (h : ∀ c ∈ cs, isBlank c = true) :
    scanFrom done (cs ++ rest) = scanFrom done rest := by
  induction cs with
  | nil => rfl
  | cons c cs ih =>
    obtain ⟨hc, hcs⟩ := List.forall_mem_cons.mp h
    rw [List.cons_append, scanFrom_blank hc, ih hcs]

lemma isBlank_of_mem_newline {indent : ℕ} (h : c ∈ (newline indent).toList) :
    isBlank c = true := by
  have htext : (newline indent).toList = '\n' :: List.replicate (2 * indent) ' ' := by
    simp [newline]
  rw [htext, List.mem_cons] at h
  rcases h with rfl | h
  · rfl
  · rw [List.eq_of_mem_replicate h]
    rfl

/-! ### Marks -/

/-- A text that is scanned as one mark, and ends a word before it. -/
structure Marks (s : String) (t : Token) : Prop where
  scan : ∀ done rest, scanFrom done (s.toList ++ rest) = scanFrom (t :: done) rest
  ends : ∀ rest, Ends (s.toList ++ rest)

/-- A mark may have blanks around it. -/
lemma marks_of_blanks {s : String} {t : Token} (before after : List Char)
    (hs : s.toList = before ++ c :: after) (hbefore : ∀ b ∈ before, isBlank b = true)
    (hc : ofMark? c = some t) (hafter : ∀ b ∈ after, isBlank b = true) : Marks s t := by
  constructor
  · intro done rest
    rw [hs, List.append_assoc, scanFrom_blanks hbefore, List.cons_append, scanFrom_mark hc,
      scanFrom_blanks hafter]
  · intro rest d hd
    rw [hs] at hd
    cases before with
    | nil =>
      obtain rfl : c = d := Option.some.inj hd
      simp [isBare, hc]
    | cons b before =>
      obtain rfl : b = d := Option.some.inj hd
      simp [isBare, hbefore b (by simp)]

lemma marks_of_toList {s : String} {t : Token} (hs : s.toList = [c]) (hc : ofMark? c = some t) :
    Marks s t :=
  marks_of_blanks [] [] hs (by simp) hc (by simp)

lemma Marks.newline_append {s : String} {t : Token} (hs : s.toList = [c])
    (hc : ofMark? c = some t) (indent : ℕ) : Marks (newline indent ++ s) t :=
  marks_of_blanks _ [] (by rw [String.toList_append, hs]) (fun _ => isBlank_of_mem_newline) hc
    (by simp)

lemma Marks.append_newline {s : String} {t : Token} (hs : s.toList = [c])
    (hc : ofMark? c = some t) (indent : ℕ) : Marks (s ++ newline indent) t :=
  marks_of_blanks [] _ (by rw [String.toList_append, hs]; rfl) (by simp) hc
    (fun _ => isBlank_of_mem_newline)

/-! ### Quoted texts -/

lemma hexDigit?_hexDigit : ∀ n < 16, Text.hexDigit? (hexDigit n) = some n := by decide

/-- A written character is scanned as its piece. -/
lemma foldlM_escapeChar (ps : List Piece) (c : Char) (rest : List Char) :
    (escapeChar c ++ rest).foldlM step ⟨.quoted ps, done⟩ =
      rest.foldlM step ⟨.quoted (pieceOf c :: ps), done⟩ := by
  unfold escapeChar
  split
  iterate 7 rfl
  rename_i hquote hslash hb hf hn hr ht
  by_cases hlow : c < ' '
  · have hc : c.toNat < 32 := hlow
    have hletter : c ∉ ['\x08', '\x0c', '\n', '\r', '\t'] := by
      simpa using ⟨hb, hf, hn, hr, ht⟩
    have hpiece : pieceOf c = .unit c.toNat := if_pos ⟨hlow, hletter⟩
    have hhigh := hexDigit?_hexDigit (c.toNat / 16) (by omega)
    have hunit := hexDigit?_hexDigit (c.toNat % 16) (by omega)
    have hvalue : 16 * (c.toNat / 16) + c.toNat % 16 = c.toNat := Nat.div_add_mod _ _
    have hzero : Text.hexDigit? '0' = some 0 := by decide
    simp [hlow, hpiece, step, hzero, hhigh, hunit, hvalue]
  · have hpiece : pieceOf c = .char c := by simp [pieceOf, hlow]
    have hstep : step ⟨.quoted ps, done⟩ c = some ⟨.quoted (.char c :: ps), done⟩ := by
      simp only [step, beq_iff_eq]
      rw [if_neg hquote, if_neg hslash, if_neg hlow]
    rw [if_neg hlow, hpiece, List.singleton_append, foldlM_cons, hstep]
    rfl

lemma foldlM_escaped (cs : List Char) (ps : List Piece) (rest : List Char) :
    (cs.flatMap escapeChar ++ rest).foldlM step ⟨.quoted ps, done⟩ =
      rest.foldlM step ⟨.quoted ((cs.map pieceOf).reverse ++ ps), done⟩ := by
  induction cs generalizing ps with
  | nil => rfl
  | cons c cs ih => rw [List.flatMap_cons, List.append_assoc, foldlM_escapeChar, ih]; simp

lemma scanFrom_quote (s : String) :
    scanFrom done ((quote s).toList ++ rest) = scanFrom (.quoted (pieces s) :: done) rest := by
  have htext : (quote s).toList ++ rest = '"' :: (s.toList.flatMap escapeChar ++ '"' :: rest) := by
    simp [quote]
  have hopen : step ⟨.blank, done⟩ '"' = some ⟨.quoted [], done⟩ := rfl
  have hclose : step ⟨.quoted (pieces s).reverse, done⟩ '"' =
      some ⟨.blank, .quoted (pieces s) :: done⟩ := by simp [step]
  simp only [scanFrom, htext, List.foldlM_cons, hopen, Option.bind_eq_bind, Option.bind_some,
    foldlM_escaped, List.append_nil]
  rw [← pieces, hclose, Option.bind_some]

/-! ### Bare words -/

lemma foldlM_bare (h : ∀ c ∈ cs, isBare c = true) (ds : List Char) :
    (cs ++ rest).foldlM step ⟨.bare ds, done⟩ =
      rest.foldlM step ⟨.bare (cs.reverse ++ ds), done⟩ := by
  induction cs generalizing ds with
  | nil => rfl
  | cons c cs ih =>
    obtain ⟨hc, hrest⟩ := List.forall_mem_cons.mp h
    rw [List.cons_append, foldlM_cons, step_bare ds done hc, Option.bind_eq_bind,
      Option.bind_some, ih hrest]
    simp

/-- What ends a bare word is scanned as if the word had been ended before. -/
lemma foldlM_of_ends {ds : List Char} (hds : ds ≠ []) (hrest : Ends rest) :
    rest.foldlM step ⟨.bare ds, done⟩ >>= finish = scanFrom (.bare ds.reverse :: done) rest := by
  cases rest with
  | nil => simp [scanFrom, finish]
  | cons c rest =>
    rw [scanFrom, foldlM_cons, foldlM_cons, step_of_ends done hds (hrest c rfl)]

lemma scanFrom_bare (hne : cs ≠ []) (h : ∀ c ∈ cs, isBare c = true) (hrest : Ends rest) :
    scanFrom done (cs ++ rest) = scanFrom (.bare cs :: done) rest := by
  have hblank : (cs ++ rest).foldlM step ⟨.blank, done⟩ =
      (cs ++ rest).foldlM step ⟨.bare [], done⟩ := by
    obtain ⟨c, cs, rfl⟩ := List.exists_cons_of_ne_nil hne
    rfl
  rw [scanFrom, hblank, foldlM_bare h, List.append_nil, foldlM_of_ends (by simpa using hne) hrest,
    List.reverse_reverse]

/-! ### Words -/

/-- A text of characters that only stand in bare words. -/
def AllBare (s : String) : Prop := ∀ c ∈ s.toList, isBare c = true

instance (s : String) : Decidable (AllBare s) :=
  List.decidableBAll _ _

lemma AllBare.append {s t : String} (hs : AllBare s) (ht : AllBare t) : AllBare (s ++ t) := by
  intro c hc
  rw [String.toList_append, List.mem_append] at hc
  exact hc.elim (hs c) (ht c)

lemma allBare_ofList (h : ∀ c ∈ cs, isBare c = true) : AllBare (String.ofList cs) := by
  rwa [AllBare, String.toList_ofList]

lemma isBare_of_isDigit (h : c.isDigit = true) : isBare c = true := by
  have hne : ∀ d : Char, d.isDigit = false → c ≠ d := by
    rintro d hd rfl
    rw [h] at hd
    cases hd
  have hmark : ofMark? c = none := by
    unfold ofMark?
    split <;> first | rfl | exact absurd rfl (hne _ rfl)
  simp [isBare, isBlank, hmark, hne]

lemma isBare_of_mem_toDigits {n : ℕ} (h : c ∈ Nat.toDigits 10 n) : isBare c = true :=
  isBare_of_isDigit (Nat.isDigit_of_mem_toDigits (by norm_num) (by norm_num) h)

lemma allBare_nat (n : ℕ) : AllBare (toString n) := fun c hc =>
  isBare_of_mem_toDigits (by simpa using hc)

section Layout

open RealLayout

variable {digits : List Char}

lemma allBare_zeros (n : ℕ) : AllBare (zeros n) :=
  allBare_ofList fun _ hc => (List.eq_of_mem_replicate hc) ▸ rfl

lemma allBare_pointAt (h : ∀ c ∈ digits, isBare c = true) (n : ℕ) : AllBare (pointAt digits n) :=
  ((allBare_ofList fun c hc => h c (List.mem_of_mem_take hc)).append (by decide)).append
    (allBare_ofList fun c hc => h c (List.mem_of_mem_drop hc))

lemma allBare_plain (h : ∀ c ∈ digits, isBare c = true) (exponent : ℤ) :
    AllBare (plain digits exponent) := by
  unfold plain
  extract_lets point
  split_ifs
  · exact ((allBare_ofList h).append (allBare_zeros _)).append (by decide)
  · exact allBare_pointAt h _
  · exact (AllBare.append (by decide) (allBare_zeros _)).append (allBare_ofList h)

lemma allBare_signed (n : ℤ) : AllBare (signed n) := by
  unfold signed
  split_ifs <;> exact AllBare.append (by decide) (allBare_nat _)

lemma allBare_scientific (h : ∀ c ∈ digits, isBare c = true) (lead : ℤ) :
    AllBare (scientific digits lead) := by
  have hmark : AllBare ("e" ++ signed lead) := AllBare.append (by decide) (allBare_signed lead)
  unfold scientific
  extract_lets mark
  split_ifs
  · exact (allBare_ofList h).append hmark
  · exact (allBare_pointAt h 1).append hmark

lemma allBare_writeMagnitude (layout : RealLayout) (units : ℕ) :
    AllBare (layout.writeMagnitude units) := by
  unfold writeMagnitude
  extract_lets s digits lead
  have hdigits : ∀ c ∈ digits, isBare c = true := fun c hc => isBare_of_mem_toDigits hc
  split_ifs
  · show AllBare "0.0"
    decide
  · exact allBare_plain hdigits _
  · exact allBare_scientific hdigits _

end Layout

/-- A text that is one bare word. -/
structure IsWord (s : String) : Prop where
  nonempty : s.toList ≠ []
  bare : AllBare s

lemma isWord_write (layout : RealLayout) (x : Decimal.Double) : IsWord (layout.write x) := by
  have hmagnitude : (layout.writeMagnitude x.units).toList ≠ [] := by
    simp only [RealLayout.writeMagnitude, RealLayout.plain, RealLayout.pointAt,
      RealLayout.scientific]
    split_ifs <;> simp
  have hbare := allBare_writeMagnitude layout x.units
  unfold RealLayout.write
  split_ifs
  · exact ⟨by simp, AllBare.append (by decide) hbare⟩
  · exact ⟨hmagnitude, hbare⟩

lemma isWord_real (x : Decimal.Double) : IsWord (atom (.real x)) := isWord_write realLayout x

lemma isWord_int (n : ℤ) : IsWord (toString n) := by
  cases n with
  | ofNat n =>
    show IsWord (toString n)
    exact ⟨by simp [Nat.toDigits_ne_nil], allBare_nat n⟩
  | negSucc n =>
    show IsWord ("-" ++ toString (n + 1))
    exact ⟨by simp, AllBare.append (by decide) (allBare_nat (n + 1))⟩

lemma isWord_null : IsWord "null" := ⟨by decide, by decide⟩

lemma isWord_bool (b : Bool) : IsWord (atom (.bool b)) := by
  cases b
  · exact ⟨by decide, (by decide : AllBare "false")⟩
  · exact ⟨by decide, (by decide : AllBare "true")⟩

/-! ### Written values -/

/-- Scanning a text, and what ends it, gives some tokens. -/
def Scans (text : String) (ts : List Token) : Prop :=
  ∀ done rest, Ends rest → scanFrom done (text.toList ++ rest) = scanFrom (ts.reverse ++ done) rest

lemma IsWord.scans {s : String} (h : IsWord s) : Scans s [.bare s.toList] :=
  fun _ _ hrest => scanFrom_bare h.nonempty h.bare hrest

lemma scans_quote (s : String) : Scans (quote s) [.quoted (pieces s)] :=
  fun _ _ _ => scanFrom_quote s

/-- Entries with commas between them. -/
lemma scans_entries {separator : String} (hseparator : Marks separator .comma)
    {texts : List String} {tokens : List (List Token)} (h : List.Forall₂ Scans texts tokens) :
    Scans (separator.intercalate texts) ([Token.comma].intercalate tokens) := by
  induction h with
  | nil => exact fun _ _ _ => rfl
  | @cons text ts texts tokens hfirst hrest ih =>
    cases hrest with
    | nil => simpa using hfirst
    | cons hsecond hothers =>
      intro done rest hends
      simp only [String.intercalate_cons_cons, List.intercalate_cons_cons, String.toList_append,
        List.append_assoc]
      rw [hfirst _ _ (hseparator.ends _), hseparator.scan, ih _ _ hends]
      simp

/-- A text between brackets. -/
lemma Scans.bracket {text opening closing : String} {ts : List Token} {t u : Token}
    (h : Scans text ts) (hopening : Marks opening t) (hclosing : Marks closing u) :
    Scans (opening ++ text ++ closing) (t :: ts ++ [u]) := by
  intro done rest _
  rw [String.toList_append, String.toList_append, List.append_assoc, List.append_assoc,
    hopening.scan, h _ _ (hclosing.ends _), hclosing.scan]
  simp

/-- Entries between brackets, each on its own line. -/
lemma scans_block {texts : List String} {tokens : List (List Token)}
    (h : List.Forall₂ Scans texts tokens) (indent : ℕ) {opening closing : String} {a b : Char}
    {t u : Token} (hopening : opening.toList = [a]) (hclosing : closing.toList = [b])
    (ha : ofMark? a = some t) (hb : ofMark? b = some u) :
    Scans (block indent opening closing texts) (t :: [Token.comma].intercalate tokens ++ [u]) := by
  have hentries := scans_entries (.append_newline (s := ",") rfl rfl (indent + 1)) h
  cases h with
  | nil =>
    have hbrackets := hentries.bracket (marks_of_toList hopening ha) (marks_of_toList hclosing hb)
    simpa [block] using hbrackets
  | cons hfirst hothers =>
    have hlines := hentries.bracket (.append_newline hopening ha (indent + 1))
      (.newline_append hclosing hb indent)
    rw [← String.append_assoc] at hlines
    exact hlines

section Writers

variable {write : Json → String}

lemma scans_items {xs : List Json} (h : ∀ x ∈ xs, Scans (write x) x.tokens) :
    List.Forall₂ Scans (xs.map write) (itemTokens xs) := by
  induction xs with
  | nil => exact .nil
  | cons x xs ih =>
    obtain ⟨hx, hxs⟩ := List.forall_mem_cons.mp h
    exact .cons hx (ih hxs)

lemma scans_members {colon : String} (hcolon : Marks colon .colon) {ms : List (String × Json)}
    (h : ∀ m ∈ ms, Scans (write m.2) m.2.tokens) :
    List.Forall₂ Scans (ms.map fun m => quote m.1 ++ colon ++ write m.2) (memberTokens ms) := by
  induction ms with
  | nil => exact .nil
  | cons m ms ih =>
    obtain ⟨k, v⟩ := m
    obtain ⟨hv, hms⟩ := List.forall_mem_cons.mp h
    refine .cons (fun done rest hends => ?_) (ih hms)
    simp only [String.toList_append, List.append_assoc]
    rw [scanFrom_quote, hcolon.scan, hv _ _ hends]
    simp

end Writers

lemma indentedItems_eq_map (indent : ℕ) (xs : List Json) :
    indentedItems indent xs = xs.map (indented indent) := by
  induction xs with
  | nil => rfl
  | cons x xs ih => rw [indentedItems, ih, List.map_cons]

lemma indentedMembers_eq_map (indent : ℕ) (ms : List (String × Json)) :
    indentedMembers indent ms = ms.map fun m => quote m.1 ++ ": " ++ indented indent m.2 := by
  induction ms with
  | nil => rfl
  | cons m ms ih => rw [indentedMembers, ih, List.map_cons]

/-- **Written values are scanned as their tokens.** -/
theorem scans_indented (v : Json) (indent : ℕ) : Scans (indented indent v) v.tokens := by
  induction v generalizing indent with
  | null => exact isWord_null.scans
  | bool b => exact (isWord_bool b).scans
  | int n => exact (isWord_int n).scans
  | real x => exact (isWord_real x).scans
  | str s => exact scans_quote s
  | arr xs ih =>
    rw [indented, indentedItems_eq_map]
    exact scans_block (scans_items fun x hx => ih x hx _) indent rfl rfl rfl rfl
  | obj ms ih =>
    have hcolon : Marks ": " .colon :=
      marks_of_blanks [] [' '] (c := ':') rfl (by simp) rfl (by simp [isBlank])
    rw [indented, indentedMembers_eq_map]
    exact scans_block (scans_members hcolon fun m hm => ih m hm _) indent rfl rfl rfl rfl

/-- The file of a value holds its tokens. -/
theorem scan_pretty (v : Json) : scan (v.pretty ++ "\n").toList = some v.tokens := by
  have hend : Ends ['\n'] := fun c hc => by cases hc; rfl
  have hline : "\n".toList = ['\n'] := rfl
  rw [scan_eq, String.toList_append, hline, pretty, scans_indented v 0 [] _ hend,
    scanFrom_blank rfl, scanFrom_nil]
  simp

lemma compactItems_eq_map (xs : List Json) : compactItems xs = xs.map compact := by
  induction xs with
  | nil => rfl
  | cons x xs ih => rw [compactItems, ih, List.map_cons]

lemma compactMembers_eq_map (ms : List (String × Json)) :
    compactMembers ms = ms.map fun m => quote m.1 ++ ":" ++ compact m.2 := by
  induction ms with
  | nil => rfl
  | cons m ms ih => rw [compactMembers, ih, List.map_cons]

/-- So are values without spaces. -/
theorem scans_compact (v : Json) : Scans v.compact v.tokens := by
  have hcomma : Marks "," .comma := marks_of_toList rfl rfl
  induction v with
  | null => exact isWord_null.scans
  | bool b => exact (isWord_bool b).scans
  | int n => exact (isWord_int n).scans
  | real x => exact (isWord_real x).scans
  | str s => exact scans_quote s
  | arr xs ih =>
    rw [compact, compactItems_eq_map]
    exact (scans_entries hcomma (scans_items ih)).bracket (marks_of_toList rfl rfl)
      (marks_of_toList rfl rfl)
  | obj ms ih =>
    rw [compact, compactMembers_eq_map]
    exact (scans_entries hcomma (scans_members (marks_of_toList rfl rfl) ih)).bracket
      (marks_of_toList rfl rfl) (marks_of_toList rfl rfl)

/-- The compact text of a value holds its tokens. -/
theorem scan_compact (v : Json) : scan v.compact.toList = some v.tokens := by
  have hscan := scans_compact v [] [] ends_nil
  rw [List.append_nil, scanFrom_nil] at hscan
  rw [scan_eq, hscan]
  simp

end Token

end RecordCuration.Json
