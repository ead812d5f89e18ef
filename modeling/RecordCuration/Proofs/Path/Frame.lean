import RecordCuration.Proofs.Json.Members
import RecordCuration.Proofs.Path.Alike

/-!
What a write leaves as it was.

Two paths are apart when neither reads as the beginning of the other. They part at some step, where
they take tokens that differ, so a walk along one meets no value that a write along the other
changes, but for the containers on the way that they share. It gives the same value, or fails at the
same step with the same error.

The containers on the way have other values after the write, but under the same names in the same
order. Only the last of them may get a new member, as its last one.
-/

namespace RecordCuration

open Json

namespace Path

def tokens (p : Path) : List String := p.map Segment.token

/-- Neither path reads as the beginning of the other. -/
def Apart (p q : Path) : Prop := ¬ p.tokens <+: q.tokens ∧ ¬ q.tokens <+: p.tokens

instance (p q : Path) : Decidable (Apart p q) := inferInstanceAs (Decidable (_ ∧ _))

lemma tokens_append_singleton (p : Path) (s : Segment) :
    tokens (p ++ [s]) = p.tokens ++ [s.token] := List.map_append

/-- What reads as a proper beginning of a path reads as a beginning of the way to its last step. -/
lemma prefix_parent {p q : Path} {s : Segment} (hnot : ¬ tokens (p ++ [s]) <+: q.tokens)
    (h : q.tokens <+: tokens (p ++ [s])) : q.tokens <+: p.tokens := by
  rw [tokens_append_singleton] at h hnot
  rcases List.prefix_concat_iff.mp h with he | hpre
  · exact absurd (he ▸ List.prefix_rfl) hnot
  · exact hpre

namespace Apart

variable {p q : Path} {s u : Segment}

lemma not_nil : ¬ Apart [] q := fun h => h.1 List.nil_prefix

lemma ne_nil (h : Apart p q) : q ≠ [] := by
  rintro rfl
  exact h.2 List.nil_prefix

/-- Paths that are apart differ in the first step, or go on apart. -/
lemma cons_iff : Apart (s :: p) (u :: q) ↔ s.token ≠ u.token ∨ Apart p q := by
  unfold Apart tokens
  simp only [List.map_cons, List.cons_prefix_cons, eq_comm (a := u.token)]
  tauto

end Apart

end Path

namespace Json

variable {before p q : Path} {s : Segment} {doc v w x : Json} {written : WriteCursor.Written}

/-! ### One step -/

lemma isContainer_of_child? (h : v.child? s = some w) : v.isContainer = true := by
  cases v with
  | obj ms => rfl
  | arr xs => rfl
  | _ => cases h

lemma isContainer_setChild (x v : Json) : (setChild s x v).isContainer = v.isContainer := by
  cases v with
  | arr xs => cases hs : s.asIndex <;> simp [setChild, hs, isContainer]
  | _ => rfl

/-- A container answers a step by the child alone. -/
lemma step_congr (hv : v.isContainer = true) (hw : w.isContainer = true)
    (h : w.child? s = v.child? s) (path : Path) : w.step path s = v.step path s := by
  simp [step, h, hv, hw]

/-- An array has one item for two steps only if they have one token. -/
lemma asIndex_ne_of_token_ne {s u : Segment} {i j : ℕ} (hs : s.asIndex = some i)
    (hu : u.asIndex = some j) (h : s.token ≠ u.token) : i ≠ j := by
  rintro rfl
  exact h ((Segment.token_of_asIndex hs).trans (Segment.token_of_asIndex hu).symm)

/-- Another container where `v` was, the same for all steps but those that read as `s`. -/
structure AgreesBeside (s : Segment) (v w : Json) : Prop where
  before : v.isContainer = true
  after : w.isContainer = true
  child : ∀ u : Segment, s.token ≠ u.token → w.child? u = v.child? u

lemma agreesBeside_insert (s : Segment) (x : Json) (ms : List (String × Json)) :
    AgreesBeside s (.obj ms) (.obj (Members.insert s.token x ms)) :=
  ⟨rfl, rfl, fun _ hne => Members.lookup_insert_of_ne (Ne.symm hne) _ _⟩

lemma agreesBeside_set {i : ℕ} (hs : s.asIndex = some i) (x : Json) (xs : List Json) :
    AgreesBeside s (.arr xs) (.arr (xs.set i x)) := by
  refine ⟨rfl, rfl, fun u hne => ?_⟩
  rw [child?_arr, child?_arr]
  cases hu : u.asIndex with
  | none => rfl
  | some j =>
    show (xs.set i x)[j]? = xs[j]?
    exact List.getElem?_set_ne (asIndex_ne_of_token_ne hs hu hne)

/-! ### Walks -/

/-- A walk that parts from the place of a change does not notice it. -/
theorem walk_put_of_apart (hv : doc.place? p = some v) (h : AgreesBeside s v w)
    (ha : Path.Apart (p ++ [s]) q) : walk before q (put p w doc) = walk before q doc := by
  induction p generalizing before doc q with
  | nil =>
    obtain rfl : doc = v := Option.some.inj hv
    cases q with
    | nil => exact absurd rfl ha.ne_nil
    | cons u q =>
      have hne : s.token ≠ u.token :=
        (Path.Apart.cons_iff.mp ha).resolve_right Path.Apart.not_nil
      show w.step _ u >>= _ = doc.step _ u >>= _
      rw [step_congr h.before h.after (h.child u hne)]
  | cons a p ih =>
    obtain ⟨x, hx, hxv⟩ := place?_cons.mp hv
    rw [put_cons hx]
    cases q with
    | nil => exact absurd rfl ha.ne_nil
    | cons u q =>
      rw [walk, walk]
      have hdoc := isContainer_of_child? hx
      have hset : (setChild a (put p w x) doc).isContainer = true := by
        rw [isContainer_setChild, hdoc]
      rcases child?_setChild_cases (put p w x) hx u with hsame | ⟨htoken, hux, hput⟩
      · rw [step_congr hdoc hset hsame]
      · -- both go on to the child, and part below it
        have hrest : Path.Apart (p ++ [s]) q :=
          (Path.Apart.cons_iff.mp ha).resolve_left fun hne => hne htoken.symm
        rw [step_eq_ok_iff.mpr hput, step_eq_ok_iff.mpr hux]
        exact ih hxv hrest

/-- **Writes leave what is apart**: reading at a path that is apart from the place of a write gives
what it gave before, a value or an error. -/
theorem Sets.get_of_apart (h : doc.Sets v p written) (ha : Path.Apart p q) :
    written.document.get q = doc.get q := by
  rw [get_eq_walk, get_eq_walk]
  cases h with
  | whole => exact absurd ha Path.Apart.not_nil
  | @member p ms s hp => exact walk_put_of_apart hp (agreesBeside_insert s v ms) ha
  | @item p xs s i old hp hs hold => exact walk_put_of_apart hp (agreesBeside_set hs v xs) ha

/-! ### Objects on the way -/

/-- A step of the same token leads to what was written. -/
lemma child?_setChild_of_token {u : Segment} (hs : v.child? s = some w) (hu : v.child? u = some w)
    (h : s.token = u.token) (x : Json) : (setChild s x v).child? u = some x := by
  have hx : (setChild s x v).child? s = some x := child?_setChild x hs
  rcases child?_setChild_cases x hs u with hsame | ⟨-, -, hput⟩
  · rw [hu] at hsame
    rw [hsame, child?_of_token h hx hsame]
  · exact hput

lemma names_insert_of_lookup {name : String} {ms : List (String × Json)}
    (h : ms.lookup name = some w) (x : Json) :
    (Members.insert name x ms).map Prod.fst = ms.map Prod.fst := by
  rw [Members.keys_insert, if_pos (lookup_isSome_iff.mp (by rw [h]; rfl))]

lemma insert_of_lookup_eq_none {name : String} {ms : List (String × Json)}
    (h : ms.lookup name = none) (x : Json) : Members.insert name x ms = ms ++ [(name, x)] :=
  Members.insert_of_not_mem (fun hm => by simpa [h] using lookup_isSome_iff.mpr hm) x

/-- After a change at a place, an object on the way to it has the names that it had, unless it
stands at the place. -/
lemma names_put {ms : List (String × Json)} (hp : doc.place? p = some v)
    (hq : doc.place? q = some (.obj ms)) (h : q.tokens <+: p.tokens) (w : Json) :
    (p.tokens = q.tokens ∧ v = .obj ms ∧ (put p w doc).place? q = some w) ∨
      ∃ ms', (put p w doc).place? q = some (.obj ms') ∧ ms'.map Prod.fst = ms.map Prod.fst := by
  induction q generalizing doc p with
  | nil =>
    obtain rfl : doc = .obj ms := Option.some.inj hq
    cases p with
    | nil => exact Or.inl ⟨rfl, (Option.some.inj hp).symm, rfl⟩
    | cons s p =>
      obtain ⟨x, hx, -⟩ := place?_cons.mp hp
      rw [put_cons hx]
      exact Or.inr ⟨_, rfl, names_insert_of_lookup hx _⟩
  | cons u q ih =>
    cases p with
    | nil => exact absurd (List.prefix_nil.mp h) (List.cons_ne_nil _ _)
    | cons s p =>
      obtain ⟨htoken, hrest⟩ := List.cons_prefix_cons.mp h
      obtain ⟨x, hx, hxv⟩ := place?_cons.mp hp
      obtain ⟨y, hy, hyq⟩ := place?_cons.mp hq
      -- both paths go on from one child, whatever their steps are
      obtain rfl : x = y := child?_of_token htoken.symm hx hy
      have hchild := child?_setChild_of_token hx hy htoken.symm (put p w x)
      rw [put_cons hx]
      rcases ih hxv hyq hrest with ⟨htokens, hv, hw⟩ | ⟨ms', hms', hnames⟩
      · refine Or.inl ⟨?_, hv, place?_cons.mpr ⟨_, hchild, hw⟩⟩
        exact congrArg₂ List.cons htoken.symm htokens
      · exact Or.inr ⟨ms', place?_cons.mpr ⟨_, hchild, hms'⟩, hnames⟩

/-- An object that is neither at the place of a write nor below it keeps its names in their order,
or gets the last token of the place as a new name, the last one. -/
theorem Sets.names {ms : List (String × Json)} (h : doc.Sets v p written)
    (hnot : ¬ p.tokens <+: q.tokens) (hq : doc.place? q = some (.obj ms)) :
    ∃ ms', written.document.place? q = some (.obj ms') ∧
      (ms'.map Prod.fst = ms.map Prod.fst ∨
        written.previous = none ∧ ∃ name, p.tokens = q.tokens ++ [name] ∧
          ms'.map Prod.fst = ms.map Prod.fst ++ [name]) := by
  by_cases habove : q.tokens <+: p.tokens
  case neg =>
    -- the object is apart from the place
    have hsame := h.get_of_apart ⟨hnot, habove⟩
    rw [get_eq_ok_iff.mpr hq, get_eq_ok_iff] at hsame
    exact ⟨ms, hsame, Or.inl rfl⟩
  cases h with
  | whole => exact absurd List.nil_prefix hnot
  | @member p os s hp =>
    have hparent := Path.prefix_parent hnot habove
    rcases names_put hp hq hparent (.obj (Members.insert s.token v os)) with
      ⟨htokens, hos, hput⟩ | ⟨ms', hput, hnames⟩
    · obtain rfl : os = ms := Json.obj.inj hos
      refine ⟨_, hput, ?_⟩
      cases hlookup : os.lookup s.token with
      | some old => exact Or.inl (names_insert_of_lookup hlookup v)
      | none =>
        refine Or.inr ⟨rfl, s.token, ?_, ?_⟩
        · rw [Path.tokens_append_singleton, htokens]
        · rw [insert_of_lookup_eq_none hlookup, List.map_append]
          rfl
    · exact ⟨ms', hput, Or.inl hnames⟩
  | @item p xs s i old hp hs hold =>
    have hparent := Path.prefix_parent hnot habove
    rcases names_put hp hq hparent (.arr (xs.set i v)) with ⟨-, hobj, -⟩ | ⟨ms', hput, hnames⟩
    · cases hobj
    · exact ⟨ms', hput, Or.inl hnames⟩

/-- A member that a write creates is the last of its object. -/
lemma Sets.member_last (h : doc.Sets v p written) (hnew : written.previous = none) :
    ∃ q s ms, p = q ++ [s] ∧ doc.place? q = some (.obj ms) ∧
      written.document.place? q = some (.obj (ms ++ [(s.token, v)])) := by
  cases h with
  | whole => cases hnew
  | @member p ms s hp =>
    refine ⟨p, s, ms, rfl, hp, ?_⟩
    rw [← insert_of_lookup_eq_none hnew v]
    exact place?_put _ hp
  | item hp hs hold => cases hnew

/-! ### Paths below the place -/

/-- Below the place of a write is what the value has there. -/
lemma Sets.get_below {r : Path} (h : doc.Sets v p written) (hq : q.Alike (p ++ r)) :
    written.document.get q = .ok x ↔ v.get r = .ok x := by
  have hplace := get_eq_ok_iff.mp h.get
  rw [get_eq_walk, walk_alike .nil hq, ← get_eq_walk, get_eq_ok_iff, get_eq_ok_iff, place?_append]
  constructor
  · rintro ⟨y, hy, hx⟩
    rwa [Option.some.inj (hplace.symm.trans hy)]
  · exact fun hx => ⟨v, hplace, hx⟩

/-- **A write touches its place alone.** What is apart from the place reads as before, a value or an
error. What goes on from the place reads as it does in the value written, whatever the steps are, if
only they read alike. Every object that is not at the place or below it keeps its members in their
order, but for the last object on the way, where a new member may come last; and it does so if the
write found nothing. -/
theorem write_touches_place (h : doc.set p v = .ok written) :
    (∀ q, Path.Apart p q → written.document.get q = doc.get q) ∧
    (∀ q r, Path.Alike q (p ++ r) → ∀ x, written.document.get q = .ok x ↔ v.get r = .ok x) ∧
    (∀ q ms, ¬ p.tokens <+: q.tokens → doc.get q = .ok (.obj ms) →
      ∃ ms', written.document.get q = .ok (.obj ms') ∧
        (ms'.map Prod.fst = ms.map Prod.fst ∨
          written.previous = none ∧ ∃ name, p.tokens = q.tokens ++ [name] ∧
            ms'.map Prod.fst = ms.map Prod.fst ++ [name])) ∧
    (written.previous = none → ∃ q s ms, p = q ++ [s] ∧ doc.get q = .ok (.obj ms) ∧
      written.document.get q = .ok (.obj (ms ++ [(s.token, v)]))) := by
  have hsets := set_eq_ok_iff.mp h
  refine ⟨fun q ha => hsets.get_of_apart ha, fun q r hq x => hsets.get_below hq,
    fun q ms hnot hq => ?_, fun hnew => ?_⟩
  · obtain ⟨ms', hplace, hnames⟩ := hsets.names hnot (get_eq_ok_iff.mp hq)
    exact ⟨ms', get_eq_ok_iff.mpr hplace, hnames⟩
  · obtain ⟨q, s, ms, rfl, hbefore, hafter⟩ := hsets.member_last hnew
    exact ⟨q, s, ms, rfl, get_eq_ok_iff.mpr hbefore, get_eq_ok_iff.mpr hafter⟩

/-- Two sites and a code. -/
def network : Json :=
  .obj [("Sites", .arr [.obj [("Name", .str "a")], .obj [("Name", .str "b")]]), ("Code", .int 7)]

/-- The second site gets a height. The first one and the code are as before, an error below the code
included; the height is found with a key for the position too; and it is the last member. -/
theorem network_write_touches_place : ∃ written,
    network.set [.key "Sites", .index 1, .key "Height"] (.obj [("m", .int 20)]) = .ok written ∧
      written.document.get [.key "Sites", .key "0"] = network.get [.key "Sites", .key "0"] ∧
      written.document.get [.key "Code", .key "m"] = .error (.typeMismatch "/Code/m" "integer") ∧
      written.document.get [.key "Sites", .key "1", .key "Height", .key "m"] = .ok (.int 20) ∧
      (∃ ms', written.document.get [.key "Sites", .key "1"] = .ok (.obj ms') ∧
        (ms'.map Prod.fst = ["Name"] ∨ ms'.map Prod.fst = ["Name", "Height"])) ∧
      written.previous = none ∧ ∃ q s ms,
        [.key "Sites", .index 1, .key "Height"] = q ++ [s] ∧ network.get q = .ok (.obj ms) ∧
        written.document.get q = .ok (.obj (ms ++ [(s.token, .obj [("m", .int 20)])])) := by
  have hset : network.set [.key "Sites", .index 1, .key "Height"] (.obj [("m", .int 20)]) =
    .ok _ := rfl
  obtain ⟨hapart, hbelow, hnames, hlast⟩ := write_touches_place hset
  have hfirst := hapart [.key "Sites", .key "0"] (by decide)
  have hcode := hapart [.key "Code", .key "m"] (by decide)
  have halike : Path.Alike [.key "Sites", .key "1", .key "Height", .key "m"]
      ([.key "Sites", .index 1, .key "Height"] ++ [.key "m"]) :=
    .cons ⟨rfl, rfl⟩ (.cons ⟨by decide, by decide⟩ (.cons ⟨rfl, rfl⟩ (.cons ⟨rfl, rfl⟩ .nil)))
  have hmetres := (hbelow _ _ halike (.int 20)).mpr rfl
  obtain ⟨ms', hms', horder⟩ :=
    hnames [.key "Sites", .key "1"] [("Name", .str "b")] (by decide) rfl
  refine ⟨_, hset, hfirst, hcode.trans rfl, hmetres, ⟨ms', hms', ?_⟩, rfl, hlast rfl⟩
  exact horder.imp_right fun ⟨_, name, hname, hnew⟩ => by
    obtain ⟨-, rfl⟩ : toString 1 = "1" ∧ "Height" = name := by
      simpa [Path.tokens, Segment.token] using hname
    exact hnew

end Json

end RecordCuration
