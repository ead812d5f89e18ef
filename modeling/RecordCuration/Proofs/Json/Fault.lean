import RecordCuration.Json.Fault
import RecordCuration.Proofs.Json.Scanned
import RecordCuration.Proofs.Outcome

/-!
A text without a fault is read.

The search for a fault and the reader go through a text together. After each character the phase of
the search says what the reader has made of the text so far: which token it is in the middle of, and
which containers with which readable values are open. Where the search has seen an escape that is
none, it only goes on to find the place of the fault.
-/

namespace RecordCuration.Json

open Token (Scan Mode)

/-! ### Readable trees -/

/-- Pieces in which every half of a surrogate pair has its other half. -/
def Joins (ps : List Piece) : Prop := (joinPieces ps).isSome

/-- A tree that has a value with `room` nested containers. -/
def Source.Readable (room : ℕ) (x : Source) : Prop := (x.toJson? room).isSome

section Readable

variable {ps qs : List Piece} {m n room : ℕ}

lemma joinPieces_unit (h : n < 0xD800 ∨ 0xDFFF < n) (ps : List Piece) :
    joinPieces (.unit n :: ps) = (joinPieces ps).map (Char.ofNat n :: ·) := by
  rw [joinPieces.eq_def]
  exact if_pos h

lemma joinPieces_pair (hn : isHighSurrogate n = true) (hm : isLowSurrogate m = true)
    (ps : List Piece) :
    joinPieces (.unit n :: .unit m :: ps) = (joinPieces ps).map (ofSurrogates n m :: ·) := by
  simp only [isHighSurrogate, isLowSurrogate, Bool.and_eq_true, decide_eq_true_eq] at hn hm
  rw [joinPieces.eq_def]
  simp [hn, hm, show ¬ (n < 0xD800 ∨ 0xDFFF < n) by omega]

lemma joins_append (hps : Joins ps) (hqs : Joins qs) : Joins (ps ++ qs) := by
  fun_induction joinPieces ps with
  | case1 => exact hqs
  | case2 c ps ih =>
    simp only [Joins, List.cons_append, joinPieces, Option.isSome_map] at hps ⊢
    exact ih hps
  | case3 n ps h ih =>
    simp only [Joins, List.cons_append, joinPieces_unit h, Option.isSome_map] at hps ⊢
    exact ih hps
  | case4 n h hhigh m ps hlow ih =>
    have hn : isHighSurrogate n = true := by simp [isHighSurrogate]; omega
    have hm : isLowSurrogate m = true := by simpa [isLowSurrogate] using hlow
    simp only [Joins, List.cons_append, joinPieces_pair hn hm, Option.isSome_map] at hps ⊢
    exact ih hps
  | case5 n h hhigh m ps hlow =>
    rw [Joins, joinPieces.eq_def] at hps
    simp [h, hhigh, hlow] at hps
  | case6 n ps h hhigh hnone =>
    rw [Joins, joinPieces.eq_def] at hps
    simp only [if_neg h, if_pos hhigh] at hps
    cases hps
  | case7 n ps h hhigh =>
    rw [Joins, joinPieces.eq_def] at hps
    simp [h, hhigh] at hps

lemma joins_char (c : Char) : Joins [.char c] := rfl

lemma joins_unit (hhigh : isHighSurrogate n = false) (hlow : isLowSurrogate n = false) :
    Joins [.unit n] := by
  have h : n < 0xD800 ∨ 0xDFFF < n := by
    simp only [isHighSurrogate, isLowSurrogate, Bool.and_eq_false_iff, decide_eq_false_iff_not]
      at hhigh hlow
    omega
  rw [Joins, joinPieces_unit h]
  rfl

lemma joins_pair (hn : isHighSurrogate n = true) (hm : isLowSurrogate m = true) :
    Joins [.unit n, .unit m] := by
  rw [Joins, joinPieces_pair hn hm]
  rfl

namespace Source

lemma readable_text (room : ℕ) (h : Joins ps) : (text ps).Readable room := by
  obtain ⟨cs, hcs⟩ := Option.isSome_iff_exists.mp h
  simp [Readable, toJson?, text?, hcs]

lemma readable_arr {xs : List Source} (h : ∀ x ∈ xs, x.Readable room) :
    (arr xs).Readable (room + 1) := by
  have hitems : (items? room xs).isSome := by
    induction xs with
    | nil => rfl
    | cons x xs ih =>
      obtain ⟨hx, hxs⟩ := List.forall_mem_cons.mp h
      obtain ⟨v, hv⟩ := Option.isSome_iff_exists.mp hx
      obtain ⟨vs, hvs⟩ := Option.isSome_iff_exists.mp (ih hxs)
      simp [items?, hv, hvs]
  simpa [Readable, toJson?] using hitems

lemma readable_obj {ms : List (List Piece × Source)}
    (h : ∀ m ∈ ms, Joins m.1 ∧ m.2.Readable room) : (obj ms).Readable (room + 1) := by
  have hmembers : (members? room ms).isSome := by
    induction ms with
    | nil => rfl
    | cons m ms ih =>
      obtain ⟨⟨hname, hx⟩, hms⟩ := List.forall_mem_cons.mp h
      obtain ⟨k, hk⟩ := Option.isSome_iff_exists.mp hname
      obtain ⟨v, hv⟩ := Option.isSome_iff_exists.mp hx
      obtain ⟨vs, hvs⟩ := Option.isSome_iff_exists.mp (ih hms)
      obtain ⟨name, x⟩ := m
      simp [members?, text?, hk, hv, hvs]
  simpa [Readable, toJson?] using hmembers

/-- What is in range, or one of the words, is read. -/
lemma exists_ofBare?_of_isInRange {cs : List Char} (h : isInRange cs = true) :
    ∃ x, ofBare? cs.reverse = some x ∧ ∀ room, x.Readable room := by
  obtain ⟨number, hnumber⟩ := Option.isSome_iff_exists.mp h
  obtain ⟨n, hn, hvalue⟩ := Option.bind_eq_some_iff.mp hnumber
  unfold ofBare?
  split
  · exact ⟨_, rfl, fun _ => rfl⟩
  · exact ⟨_, rfl, fun _ => rfl⟩
  · exact ⟨_, rfl, fun _ => rfl⟩
  · exact ⟨.num n, by rw [hn]; rfl, fun _ => by simp [Readable, toJson?, hvalue]⟩

end Source

end Readable

/-! ### What the reader has made of a text -/

/-- The reader's state after some tokens, which are reversed. -/
def Reads (done : List Token) (state : Source.State) : Prop :=
  done.reverse.foldlM Source.step (.value false []) = some state

lemma Reads.push {done : List Token} {state state' : Source.State} {t : Token}
    (h : Reads done state) (ht : Source.step state t = some state') : Reads (t :: done) state' := by
  have hone : [t].foldlM Source.step state = some state' := by
    rw [List.foldlM_cons, ht]
    rfl
  rw [Reads, List.reverse_cons, List.foldlM_append, h]
  exact hone

/-- How many containers can be nested in something inside of some containers. -/
def roomIn (frames : List Source.Frame) : ℕ := maxNesting - frames.length

/-- Members that are readable inside of an object that is inside of some containers. -/
def ReadableMembers (frames : List Source.Frame) (members : List (List Piece × Source)) : Prop :=
  ∀ m ∈ members, Joins m.1 ∧ m.2.Readable (roomIn frames - 1)

/-- The open containers are those of the reader, with readable values in them. -/
inductive Fits : List Container → List Source.Frame → Prop where
  | nil : Fits [] []
  | list {stack : List Container} {frames : List Source.Frame} {items : List Source}
    (h : Fits stack frames) (hroom : frames.length < maxNesting)
    (hitems : ∀ x ∈ items, x.Readable (roomIn frames - 1)) :
    Fits (.list :: stack) (.arr items :: frames)
  | object {stack : List Container} {frames : List Source.Frame}
    {members : List (List Piece × Source)} {name : List Piece}
    (h : Fits stack frames) (hroom : frames.length < maxNesting)
    (hmembers : ReadableMembers frames members) (hname : Joins name) :
    Fits (.object :: stack) (.obj members name :: frames)

lemma Fits.length_eq {stack : List Container} {frames : List Source.Frame} (h : Fits stack frames) :
    stack.length = frames.length := by
  induction h with
  | nil => rfl
  | list _ _ _ ih => rw [List.length_cons, List.length_cons, ih]
  | object _ _ _ _ ih => rw [List.length_cons, List.length_cons, ih]

/-- The innermost container is an object of which some members are read. -/
structure InObject (stack : List Container) (frames : List Source.Frame)
    (members : List (List Piece × Source)) : Prop where
  stack : ∃ outer, stack = .object :: outer ∧ Fits outer frames
  room : frames.length < maxNesting
  members : ReadableMembers frames members

/-- The scan stands after a value, however it goes on. -/
structure Settled (stack : List Container) (s : Scan) (done : List Token) (x : Source)
    (frames : List Source.Frame) : Prop where
  blank : ∀ c, Token.isBlank c = true → Token.step s c = some ⟨.blank, done⟩
  mark : ∀ c t, Token.ofMark? c = some t → Token.step s c = some ⟨.blank, t :: done⟩
  finish : Token.finish s = some done.reverse
  reads : Reads done (Source.after x frames)
  readable : x.Readable (roomIn frames)
  fits : Fits stack frames

/-- The pieces before an escaped unit, reversed: the first half of a pair before its second half. -/
def BeforeUnit (second : Bool) (ps : List Piece) : Prop :=
  if second then ∃ n qs, ps = .unit n :: qs ∧ isHighSurrogate n = true ∧ Joins qs.reverse
  else Joins ps.reverse

/-- Where the scan is in a quoted text. -/
inductive InText : TextPart → Mode → Prop where
  | plain {ps : List Piece} (h : Joins ps.reverse) : InText .plain (.quoted ps)
  | escape {ps : List Piece} (h : Joins ps.reverse) : InText .escape (.escape ps)
  | unit {ps : List Piece} {second : Bool} {bytes n : ℕ} (h : BeforeUnit second ps) :
    InText (.unit second bytes (some n)) (.hex ps bytes n)
  | backslash {ps : List Piece} (h : BeforeUnit true ps) : InText .backslash (.quoted ps)
  | letter {ps : List Piece} (h : BeforeUnit true ps) : InText .letter (.escape ps)

/-- A value is due inside of the open containers. -/
def ValueDue (stack : List Container) (done : List Token) : Prop :=
  ∃ opened frames, Reads done (.value opened frames) ∧ Fits stack frames

/-- A name is due in the innermost container, which is an object. -/
def NameDue (opened : Bool) (stack : List Container) (done : List Token) : Prop :=
  ∃ members frames, Reads done (.name opened members frames) ∧ InObject stack frames members

/-- What the scan and the reader have made of a text in a phase. -/
inductive Follows : Phase → List Container → Scan → Prop where
  | value {stack : List Container} {done : List Token} (h : ValueDue stack done) :
    Follows .value stack ⟨.blank, done⟩
  | item {stack : List Container} {done : List Token} {opened : Bool} {items : List Source}
    {frames : List Source.Frame} (hreads : Reads done (.value opened (.arr items :: frames)))
    (hfits : Fits stack (.arr items :: frames)) : Follows (.item opened) stack ⟨.blank, done⟩
  | name {stack : List Container} {done : List Token} {opened : Bool}
    (h : NameDue opened stack done) : Follows (.name opened) stack ⟨.blank, done⟩
  | colon {stack : List Container} {done : List Token} {members : List (List Piece × Source)}
    {name : List Piece} {frames : List Source.Frame}
    (hreads : Reads done (.colon members name frames)) (h : InObject stack frames members)
    (hname : Joins name) : Follows .colon stack ⟨.blank, done⟩
  | next {stack : List Container} {s : Scan} {done : List Token} {x : Source}
    {frames : List Source.Frame} (h : Settled stack s done x frames) : Follows .next stack s
  | word {stack : List Container} {done : List Token} {cs rest : List Char} {due : Char}
    {x : Source} (h : ValueDue stack done) (hbare : (due :: rest).all Token.isBare = true)
    (hx : Source.ofBare? (cs.reverse ++ due :: rest) = some x)
    (hreadable : ∀ room, x.Readable room) : Follows (.word due rest) stack ⟨.bare cs, done⟩
  | numeral {stack : List Container} {done : List Token} {part : NumeralPart} {cs : List Char}
    (h : ValueDue stack done) (hne : cs ≠ []) : Follows (.numeral part cs) stack ⟨.bare cs, done⟩
  | text {stack : List Container} {done : List Token} {part : TextPart} {mode : Mode}
    (h : ValueDue stack done) (htext : InText part mode) :
    Follows (.text false part) stack ⟨mode, done⟩
  | nameText {stack : List Container} {done : List Token} {opened : Bool} {part : TextPart}
    {mode : Mode} (h : NameDue opened stack done) (htext : InText part mode) :
    Follows (.text true part) stack ⟨mode, done⟩

section Steps

variable {stack stack' : List Container} {phase phase' : Phase} {done : List Token} {s : Scan}
  {c : Char} {frames : List Source.Frame} {x : Source} {cs : List Char}

/-! ### Values that have ended -/

/-- What stands after a token stands after a value. -/
lemma Settled.of_blank (hreads : Reads done (Source.after x frames))
    (hreadable : x.Readable (roomIn frames)) (hfits : Fits stack frames) :
    Settled stack ⟨.blank, done⟩ done x frames where
  blank _ h := Token.step_blank done h
  mark _ _ h := Token.step_mark done h
  finish := rfl
  reads := hreads
  readable := hreadable
  fits := hfits

/-- A bare word ends with what cannot be in it. -/
lemma Settled.of_bare (hcs : cs ≠ []) (h : ValueDue stack done)
    (hx : Source.ofBare? cs.reverse = some x) (hreadable : ∀ room, x.Readable room) :
    ∃ frames, Settled stack ⟨.bare cs, done⟩ (.bare cs.reverse :: done) x frames := by
  obtain ⟨opened, frames, hreads, hfits⟩ := h
  refine ⟨frames, fun c hc => ?_, fun c t hc => ?_, rfl, hreads.push ?_, hreadable _, hfits⟩
  · rw [Token.step_of_ends done hcs (by simp [Token.isBare, hc]), Token.step_blank _ hc]
  · rw [Token.step_of_ends done hcs (by simp [Token.isBare, hc]), Token.step_mark _ hc]
  · simp [Source.step, hx]

lemma roomIn_cons (f : Source.Frame) (frames : List Source.Frame) :
    roomIn (f :: frames) = roomIn frames - 1 := by
  simp only [roomIn, List.length_cons]
  omega

lemma roomIn_eq (h : frames.length < maxNesting) : roomIn frames = roomIn frames - 1 + 1 := by
  simp only [roomIn]
  omega

lemma readable_list {items : List Source} (hroom : frames.length < maxNesting)
    (h : ∀ x ∈ items, x.Readable (roomIn frames - 1)) :
    (Source.arr items).Readable (roomIn frames) := by
  rw [roomIn_eq hroom]
  exact Source.readable_arr h

lemma readable_object {members : List (List Piece × Source)} (hroom : frames.length < maxNesting)
    (h : ReadableMembers frames members) : (Source.obj members).Readable (roomIn frames) := by
  rw [roomIn_eq hroom]
  exact Source.readable_obj h

/-- A mark that ends the token before it leads on in the reader. -/
lemma Settled.exists_step {t : Token} {state : Source.State} (h : Settled stack s done x frames)
    (hc : Token.ofMark? c = some t) (ht : Source.step (Source.after x frames) t = some state)
    (hfollows : Reads (t :: done) state → Follows phase' stack' ⟨.blank, t :: done⟩) :
    ∃ s', Token.step s c = some s' ∧ Follows phase' stack' s' :=
  ⟨_, h.mark c t hc, hfollows (h.reads.push ht)⟩

lemma follows_afterValue (h : Settled stack s done x frames)
    (hstep : afterValue stack c = .ok (phase', stack')) :
    ∃ s', Token.step s c = some s' ∧ Follows phase' stack' s' := by
  unfold afterValue at hstep
  split at hstep
  · rename_i hblank
    cases hstep
    exact ⟨_, h.blank c hblank, .next (.of_blank h.reads h.readable h.fits)⟩
  · have hreadable := h.readable
    cases h.fits with
    | nil => cases hstep
    | @list outer frames items hfits hroom hitems =>
      rw [roomIn_cons] at hreadable
      have hall : ∀ y ∈ x :: items, y.Readable (roomIn frames - 1) :=
        List.forall_mem_cons.mpr ⟨hreadable, hitems⟩
      simp only at hstep
      split_ifs at hstep with hcomma hclose
      · cases hstep
        subst hcomma
        exact h.exists_step rfl rfl fun hreads => .item hreads (.list hfits hroom hall)
      · cases hstep
        subst hclose
        refine h.exists_step rfl rfl fun hreads => .next (.of_blank hreads ?_ hfits)
        exact readable_list hroom fun y hy => hall y (List.mem_reverse.mp hy)
      · cases hstep
    | @object outer frames members name hfits hroom hmembers hname =>
      rw [roomIn_cons] at hreadable
      have hall : ReadableMembers frames ((name, x) :: members) :=
        List.forall_mem_cons.mpr ⟨⟨hname, hreadable⟩, hmembers⟩
      simp only at hstep
      split_ifs at hstep with hcomma hclose
      · cases hstep
        subst hcomma
        exact h.exists_step rfl rfl fun hreads =>
          .name ⟨_, _, hreads, ⟨outer, rfl, hfits⟩, hroom, hall⟩
      · cases hstep
        subst hclose
        refine h.exists_step rfl rfl fun hreads => .next (.of_blank hreads ?_ hfits)
        exact readable_object hroom fun m hm => hall m (List.mem_reverse.mp hm)
      · cases hstep

/-! ### Values that begin -/

lemma follows_beginValue (h : ValueDue stack done)
    (hstep : beginValue stack c = .ok (phase', stack')) :
    ∃ s', Token.step ⟨.blank, done⟩ c = some s' ∧ Follows phase' stack' s' := by
  obtain ⟨opened, frames, hreads, hfits⟩ := id h
  unfold beginValue at hstep
  split at hstep
  · cases hstep
    exact ⟨_, rfl, .text h (.plain rfl)⟩
  · split at hstep <;> cases hstep
    rename_i hroom
    rw [hfits.length_eq] at hroom
    exact ⟨_, rfl, .item (hreads.push rfl) (.list hfits hroom (by simp))⟩
  · split at hstep <;> cases hstep
    rename_i hroom
    rw [hfits.length_eq] at hroom
    have hmembers : ReadableMembers frames [] := fun m hm => by cases hm
    exact ⟨_, rfl, .name ⟨_, _, hreads.push rfl, ⟨stack, rfl, hfits⟩, hroom, hmembers⟩⟩
  · cases hstep
    exact ⟨_, rfl, .word h rfl rfl fun _ => rfl⟩
  · cases hstep
    exact ⟨_, rfl, .word h rfl rfl fun _ => rfl⟩
  · cases hstep
    exact ⟨_, rfl, .word h rfl rfl fun _ => rfl⟩
  · cases hstep
    exact ⟨_, rfl, .numeral h (by simp)⟩
  · cases hstep
    exact ⟨_, rfl, .numeral h (by simp)⟩
  · split at hstep <;> cases hstep
    rename_i hdigit
    exact ⟨_, Token.step_first_bare done (Token.isBare_of_isDigit hdigit), .numeral h (by simp)⟩

/-! ### Quoted texts -/

/-- An escape that is none: the search only goes on for the bytes that belong to it. -/
def IsLost : Phase → Prop
  | .text _ (.unit _ _ none) => True
  | _ => False

section Texts

variable {part part' : TextPart} {mode : Mode} {ps : List Piece} {n : ℕ} {second : Bool}

lemma utf8Size_of_hexDigit? {d : ℕ} (h : Text.hexDigit? c = some d) : c.utf8Size = 1 := by
  have hsmall : c.val ≤ 0x7F := by
    unfold Text.hexDigit? at h
    split_ifs at h with hdigit hlower hupper
    · exact UInt32.le_trans hdigit.2 (by decide)
    · exact UInt32.le_trans hlower.2 (by decide)
    · exact UInt32.le_trans hupper.2 (by decide)
  exact if_pos hsmall

/-- An escaped unit ends a pair or stands alone, unless it is the first half of a pair. -/
lemma inText_of_afterUnit (h : BeforeUnit second ps) (hstep : afterUnit second n = .ok part') :
    InText part' (.quoted (.unit n :: ps)) := by
  unfold afterUnit at hstep
  split at hstep
  · cases hstep
  · rename_i hlow
    cases hstep
    rw [not_not] at hlow
    cases second with
    | false =>
      split
      · rename_i hhigh
        exact .backslash ⟨n, ps, rfl, hhigh, h⟩
      · rename_i hhigh
        refine .plain ?_
        rw [List.reverse_cons]
        exact joins_append h (joins_unit (by simpa using hhigh) hlow)
    | true =>
      obtain ⟨m, qs, rfl, hm, hqs⟩ := h
      have hhigh : isHighSurrogate n = false := by
        simp only [isLowSurrogate, isHighSurrogate, Bool.and_eq_true, decide_eq_true_eq,
          Bool.and_eq_false_iff, decide_eq_false_iff_not] at hlow ⊢
        omega
      rw [if_neg (by simp [hhigh])]
      refine .plain ?_
      rw [List.reverse_cons, List.reverse_cons, List.append_assoc]
      exact joins_append hqs (joins_pair hm hlow)

/-- A character of an escaped unit. -/
lemma inText_unit_step {bytes : ℕ} (h : BeforeUnit second ps)
    (hstep : (TextPart.unit second bytes (some n)).step c = .ok (some part'))
    (hlost : ∀ second bytes, part' ≠ .unit second bytes none) :
    ∃ mode', (∀ done, Token.step ⟨.hex ps bytes n, done⟩ c = some ⟨mode', done⟩) ∧
      InText part' mode' := by
  simp only [TextPart.step, Option.bind_some] at hstep
  cases hd : Text.hexDigit? c with
  | none =>
    simp only [hd, Option.map_none] at hstep
    split_ifs at hstep
    cases hstep
    exact absurd rfl (hlost second _)
  | some d =>
    simp only [hd, Option.map_some, utf8Size_of_hexDigit? hd] at hstep
    split_ifs at hstep with hbytes
    · cases hstep
      exact ⟨_, fun done => by simp [Token.step, hd, Nat.not_le.mpr hbytes], .unit h⟩
    · obtain ⟨after, hafter, hsome⟩ := map_eq_ok_iff.mp hstep
      cases hsome
      exact ⟨_, fun done => by simp [Token.step, hd, Nat.not_lt.mp hbytes],
        inText_of_afterUnit h hafter⟩

/-- A character inside of a quoted text. -/
lemma inText_step (h : InText part mode) (hstep : part.step c = .ok (some part'))
    (hlost : ∀ second bytes, part' ≠ .unit second bytes none) :
    ∃ mode', (∀ done, Token.step ⟨mode, done⟩ c = some ⟨mode', done⟩) ∧ InText part' mode' := by
  cases h with
  | plain h =>
    simp only [TextPart.step] at hstep
    split_ifs at hstep with hquote hslash hcontrol
    · cases hstep
    · cases hstep
      exact ⟨_, fun done => by simp [Token.step, hslash], .escape h⟩
    · cases hstep
    · cases hstep
      refine ⟨_, fun done => by simp [Token.step, hquote, hslash, hcontrol]; rfl, .plain ?_⟩
      rw [List.reverse_cons]
      exact joins_append h (joins_char c)
  | escape h =>
    simp only [TextPart.step] at hstep
    split_ifs at hstep with hunit hletter
    · cases hstep
      exact ⟨_, fun done => by simp [Token.step, hunit], .unit h⟩
    · cases hstep
      obtain ⟨e, he⟩ := Option.isSome_iff_exists.mp hletter
      refine ⟨_, fun done => by simp [Token.step, hunit, he]; rfl, .plain ?_⟩
      rw [List.reverse_cons]
      exact joins_append h (joins_char e)
    · cases hstep
  | unit h => exact inText_unit_step h hstep hlost
  | backslash h =>
    simp only [TextPart.step] at hstep
    split_ifs at hstep with hslash
    · cases hstep
      exact ⟨_, fun done => by simp [Token.step, hslash], .letter h⟩
    · cases hstep
  | letter h =>
    simp only [TextPart.step] at hstep
    split_ifs at hstep with hunit
    · cases hstep
      exact ⟨_, fun done => by simp [Token.step, hunit], .unit h⟩
    · cases hstep

/-- A text ends where nothing is missing of a pair. -/
lemma inText_end (h : InText part mode) (hstep : part.step c = .ok none) :
    ∃ ps, Joins ps ∧ ∀ done, Token.step ⟨mode, done⟩ c = some ⟨.blank, .quoted ps :: done⟩ := by
  cases h with
  | @plain ps h =>
    simp only [TextPart.step] at hstep
    split_ifs at hstep with hquote
    · exact ⟨ps.reverse, h, fun done => by simp [Token.step, hquote]⟩
    all_goals cases hstep
  | escape h =>
    simp only [TextPart.step] at hstep
    split_ifs at hstep <;> cases hstep
  | unit h =>
    simp only [TextPart.step] at hstep
    split_ifs at hstep
    · cases hstep
    · split at hstep
      · cases hstep
      · obtain ⟨after, -, hnone⟩ := map_eq_ok_iff.mp hstep
        cases hnone
  | backslash h =>
    simp only [TextPart.step] at hstep
    split_ifs at hstep <;> cases hstep
  | letter h =>
    simp only [TextPart.step] at hstep
    split_ifs at hstep <;> cases hstep

end Texts

/-! ### Numerals -/

lemma isBare_of_part_step {part part' : NumeralPart} (h : part.step c = .ok (some part')) :
    Token.isBare c = true := by
  by_cases hdigit : c.isDigit = true
  · exact Token.isBare_of_isDigit hdigit
  · have hc : c = '0' ∨ c = '.' ∨ c = 'e' ∨ c = 'E' ∨ c = '+' ∨ c = '-' := by
      cases part <;> grind [NumeralPart.step, reject]
    rcases hc with rfl | rfl | rfl | rfl | rfl | rfl <;> rfl

/-- A numeral in range that ends is a value. -/
lemma exists_settled_of_isInRange (hcs : cs ≠ []) (h : ValueDue stack done)
    (hrange : isInRange cs = true) :
    ∃ done' x frames, Settled stack ⟨.bare cs, done⟩ done' x frames := by
  obtain ⟨x, hx, hreadable⟩ := Source.exists_ofBare?_of_isInRange hrange
  obtain ⟨frames, hsettled⟩ := Settled.of_bare hcs h hx hreadable
  exact ⟨_, x, frames, hsettled⟩

/-! ### One character -/

lemma follows_item {opened : Bool} {items : List Source}
    (hreads : Reads done (.value opened (.arr items :: frames)))
    (hfits : Fits stack (.arr items :: frames))
    (hstep : (Phase.item opened).step stack c = .ok (phase', stack')) :
    ∃ s', Token.step ⟨.blank, done⟩ c = some s' ∧ Follows phase' stack' s' := by
  simp only [Phase.step] at hstep
  split_ifs at hstep with hblank hclose hopened
  · cases hstep
    exact ⟨_, Token.step_blank _ hblank, .item hreads hfits⟩
  · cases hstep
    subst hclose hopened
    cases hfits with
    | list hfits hroom hitems =>
      have hempty : (Source.arr []).Readable (roomIn _) :=
        readable_list hroom fun x hx => by cases hx
      exact ⟨_, rfl, .next (.of_blank (hreads.push rfl) hempty hfits)⟩
  · cases hstep
  · exact follows_beginValue ⟨_, _, hreads, hfits⟩ hstep

lemma follows_name {opened : Bool} (h : NameDue opened stack done)
    (hstep : (Phase.name opened).step stack c = .ok (phase', stack')) :
    ∃ s', Token.step ⟨.blank, done⟩ c = some s' ∧ Follows phase' stack' s' := by
  simp only [Phase.step] at hstep
  split_ifs at hstep with hblank hquote hclose hopened
  · cases hstep
    exact ⟨_, Token.step_blank _ hblank, .name h⟩
  · cases hstep
    subst hquote
    exact ⟨_, rfl, .nameText h (.plain rfl)⟩
  · cases hstep
    subst hclose hopened
    obtain ⟨members, frames, hreads, ⟨outer, rfl, hfits⟩, hroom, -⟩ := h
    have hempty : (Source.obj []).Readable (roomIn frames) :=
      readable_object hroom fun m hm => by cases hm
    exact ⟨_, rfl, .next (.of_blank (hreads.push rfl) hempty hfits)⟩
  · cases hstep
  · cases hstep

lemma follows_colon {members : List (List Piece × Source)} {name : List Piece}
    (hreads : Reads done (.colon members name frames)) (h : InObject stack frames members)
    (hname : Joins name) (hstep : Phase.colon.step stack c = .ok (phase', stack')) :
    ∃ s', Token.step ⟨.blank, done⟩ c = some s' ∧ Follows phase' stack' s' := by
  simp only [Phase.step] at hstep
  split_ifs at hstep with hblank hcolon
  · cases hstep
    exact ⟨_, Token.step_blank _ hblank, .colon hreads h hname⟩
  · cases hstep
    subst hcolon
    obtain ⟨⟨outer, rfl, hfits⟩, hroom, hmembers⟩ := h
    exact ⟨_, rfl, .value ⟨_, _, hreads.push rfl, .object hfits hroom hmembers hname⟩⟩
  · cases hstep

lemma follows_word {due : Char} {rest : List Char} (h : ValueDue stack done)
    (hbare : (due :: rest).all Token.isBare = true)
    (hx : Source.ofBare? (cs.reverse ++ due :: rest) = some x)
    (hreadable : ∀ room, x.Readable room)
    (hstep : (Phase.word due rest).step stack c = .ok (phase', stack')) :
    ∃ s', Token.step ⟨.bare cs, done⟩ c = some s' ∧ Follows phase' stack' s' := by
  obtain ⟨hdue, hrest⟩ := Bool.and_eq_true_iff.mp hbare
  simp only [Phase.step] at hstep
  split_ifs at hstep with hc
  · subst hc
    refine ⟨_, Token.step_bare cs done hdue, ?_⟩
    cases rest with
    | nil =>
      cases hstep
      obtain ⟨frames, hsettled⟩ := Settled.of_bare (List.cons_ne_nil c cs) h (by simpa using hx)
        hreadable
      exact .next hsettled
    | cons due rest =>
      cases hstep
      exact .word h hrest (by simpa using hx) hreadable
  · cases hstep

lemma follows_numeral {part : NumeralPart} (h : ValueDue stack done) (hne : cs ≠ [])
    (hstep : (Phase.numeral part cs).step stack c = .ok (phase', stack')) :
    ∃ s', Token.step ⟨.bare cs, done⟩ c = some s' ∧ Follows phase' stack' s' := by
  obtain ⟨found, hpart, hstep⟩ := bind_eq_ok_iff.mp hstep
  cases found with
  | some part' =>
    simp only at hstep
    split_ifs at hstep
    · cases hstep
    · cases hstep
      exact ⟨_, Token.step_bare cs done (isBare_of_part_step hpart),
        .numeral h (List.cons_ne_nil c cs)⟩
  | none =>
    simp only at hstep
    split_ifs at hstep with hrange
    obtain ⟨done', x, frames, hsettled⟩ := exists_settled_of_isInRange hne h hrange
    exact follows_afterValue hsettled hstep

/-- A character of a quoted text. What the text is for shows only when it ends. -/
lemma follows_text {isName : Bool} {part : TextPart} {mode : Mode} (htext : InText part mode)
    (hin : ∀ {part mode}, InText part mode → Follows (.text isName part) stack ⟨mode, done⟩)
    (hend : ∀ ps, Joins ps →
      Follows (if isName then .colon else .next) stack ⟨.blank, .quoted ps :: done⟩)
    (hstep : (Phase.text isName part).step stack c = .ok (phase', stack')) :
    IsLost phase' ∨ ∃ s', Token.step ⟨mode, done⟩ c = some s' ∧ Follows phase' stack' s' := by
  obtain ⟨found, hpart, hstep⟩ := bind_eq_ok_iff.mp hstep
  cases found with
  | some part' =>
    cases hstep
    by_cases hlost : IsLost (.text isName part')
    · exact .inl hlost
    · obtain ⟨mode', hscan, htext'⟩ := inText_step htext hpart
        (by rintro second bytes rfl; exact hlost trivial)
      exact .inr ⟨_, hscan done, hin htext'⟩
  | none =>
    cases hstep
    obtain ⟨ps, hps, hscan⟩ := inText_end htext hpart
    exact .inr ⟨_, hscan done, hend ps hps⟩

/-- After a character the scan and the reader are where the phase says, or the search has seen an
escape that is none. -/
theorem follows_step (h : Follows phase stack s)
    (hstep : phase.step stack c = .ok (phase', stack')) :
    IsLost phase' ∨ ∃ s', Token.step s c = some s' ∧ Follows phase' stack' s' := by
  cases h with
  | value h =>
    simp only [Phase.step] at hstep
    split_ifs at hstep with hblank
    · cases hstep
      exact .inr ⟨_, Token.step_blank _ hblank, .value h⟩
    · exact .inr (follows_beginValue h hstep)
  | item hreads hfits => exact .inr (follows_item hreads hfits hstep)
  | name h => exact .inr (follows_name h hstep)
  | colon hreads h hname => exact .inr (follows_colon hreads h hname hstep)
  | next h => exact .inr (follows_afterValue h hstep)
  | word h hbare hx hreadable => exact .inr (follows_word h hbare hx hreadable hstep)
  | numeral h hne => exact .inr (follows_numeral h hne hstep)
  | text h htext =>
    refine follows_text htext (.text h) (fun ps hps => ?_) hstep
    obtain ⟨opened, frames, hreads, hfits⟩ := h
    exact .next (.of_blank (hreads.push rfl) (Source.readable_text _ hps) hfits)
  | @nameText stack done opened part mode h htext =>
    refine follows_text htext (.nameText h) (fun ps hps => ?_) hstep
    obtain ⟨members, frames, hreads, hobject⟩ := h
    have hname : Source.step (.name opened members frames) (.quoted ps) =
        some (.colon members ps frames) := by cases opened <;> rfl
    exact .colon (hreads.push hname) hobject hps

/-! ### Whole texts -/

lemma isLost_step (h : IsLost phase) (hstep : phase.step stack c = .ok (phase', stack')) :
    IsLost phase' := by
  unfold IsLost at h
  split at h
  · obtain ⟨found, hpart, hstep⟩ := bind_eq_ok_iff.mp hstep
    simp only [TextPart.step, Option.bind_none] at hpart
    split_ifs at hpart
    cases hpart
    cases hstep
    trivial
  · cases h

lemma phase_of_step {search next : Search} (h : search.step c = .ok next) :
    search.phase.step search.stack c = .ok (next.phase, next.stack) := by
  unfold Search.step at h
  split at h
  · rename_i phase stack hphase
    cases h
    exact hphase
  · cases h

lemma isLost_run (cs : List Char) {start after : Search}
    (hrun : cs.foldlM Search.step start = .ok after) (h : IsLost start.phase) :
    IsLost after.phase := by
  induction cs generalizing start with
  | nil =>
    cases hrun
    exact h
  | cons c cs ih =>
    obtain ⟨next, hnext, hrun⟩ := bind_eq_ok_iff.mp hrun
    exact ih hrun (isLost_step h (phase_of_step hnext))

/-- What the phase says holds after some characters too. -/
lemma follows_run (cs : List Char) {start after : Search}
    (hrun : cs.foldlM Search.step start = .ok after) (h : Follows start.phase start.stack s) :
    IsLost after.phase ∨
      ∃ s', cs.foldlM Token.step s = some s' ∧ Follows after.phase after.stack s' := by
  induction cs generalizing start s with
  | nil =>
    cases hrun
    exact .inr ⟨s, rfl, h⟩
  | cons c cs ih =>
    obtain ⟨next, hnext, hrun⟩ := bind_eq_ok_iff.mp hrun
    rcases follows_step h (phase_of_step hnext) with hlost | ⟨s', hs', h⟩
    · exact .inl (isLost_run cs hrun hlost)
    · rw [Token.foldlM_cons, hs']
      exact ih hrun h

/-- What is whole at the end of a text is read. -/
lemma exists_of_ending (h : Follows phase stack s) (hend : phase.ending? stack = none) :
    ∃ done x, Settled [] s done x [] := by
  have hsettled : ∃ done x frames, Settled stack s done x frames ∧ missing? stack = none := by
    cases h with
    | next h => exact ⟨_, _, _, h, hend⟩
    | @numeral stack done part cs h hne =>
      simp only [Phase.ending?] at hend
      split_ifs at hend with hlast hrange
      obtain ⟨done', x, frames, hsettled⟩ := exists_settled_of_isInRange hne h hrange
      exact ⟨done', x, frames, hsettled, hend⟩
    | _ => cases hend
  obtain ⟨done, x, frames, hsettled, hmissing⟩ := hsettled
  cases hsettled.fits with
  | nil => exact ⟨done, x, hsettled⟩
  | _ => cases hmissing

end Steps

lemma isSome_of_settled {text : String} {done : List Token} {x : Source} {s : Scan}
    (hscan : text.toList.foldlM Token.step ⟨.blank, []⟩ = some s) (h : Settled [] s done x []) :
    (ofString? text).isSome := by
  have htokens : Source.ofTokens? done.reverse = some x := by
    have hreads : done.reverse.foldlM Source.step (.value false []) = some (.done x) := h.reads
    simp [Source.ofTokens?, hreads]
  have hsource : Source.ofString? text = some x := by
    simp only [Source.ofString?, Token.scan, hscan, Option.bind_eq_bind, Option.bind_some, h.finish]
    exact htokens
  rw [ofString?, hsource]
  exact h.readable

/-- **A text without a fault is read.** -/
theorem isSome_of_textFault?_eq_none {text : String} (h : textFault? text = none) :
    (ofString? text).isSome := by
  unfold textFault? at h
  split at h
  · cases h
  · rename_i after hrun
    have hend := Option.map_eq_none_iff.mp h
    have hstart : Follows .value [] ⟨.blank, []⟩ := .value ⟨false, [], rfl, .nil⟩
    rcases follows_run text.toList hrun hstart with hlost | ⟨s, hs, hfollows⟩
    · obtain ⟨phase, stack, position⟩ := after
      cases phase <;> first | cases hlost | cases hend
    · obtain ⟨done, x, hsettled⟩ := exists_of_ending hfollows hend
      exact isSome_of_settled hs hsettled

/-- Every text that cannot be read has a fault. -/
theorem exists_textFault {text : String} (h : ofString? text = none) :
    ∃ fault, textFault? text = some fault := by
  refine Option.ne_none_iff_exists'.mp fun hnone => ?_
  have hsome := isSome_of_textFault?_eq_none hnone
  rw [h] at hsome
  cases hsome

end RecordCuration.Json
