import RecordCuration.Model.Reader
import RecordCuration.Proofs.Outcome

/-!
What is written of a model.

A record holds the fields that its members name, or that stand in its list by position: each is
written once, or not at all where a default stands for it. A table has the members that are written,
in their order, and has each name once. A model is read exactly from what writes it so.
-/

namespace RecordCuration

namespace Model

variable {σ α : Type}

/-! ### What is written -/

/-- The values that members have under a name, in their order. -/
def under (name : String) (ms : List (String × σ)) : List σ :=
  (ms.filter (·.1 = name)).map Prod.snd

/-- What is written for a field gives it its value: one thing where it has one, else nothing. -/
def Gives (writes : σ → α → Prop) (vs : List σ) (x : Option α) : Prop :=
  List.Forall₂ writes vs x.toList

section Notations

variable [Notation σ]

open Notation

/-- What is written for a field of a record: under its name, or at its position in a list. -/
def slots (v : σ) (name : String) (position : ℕ) : List σ :=
  match members? v, fields? v with
  | some ms, _ => under name ms
  | none, some vs => vs[position]?.toList
  | none, none => []

/-- The value is members, or a list of at most so many fields. -/
def IsRecord (length : ℕ) (v : σ) : Prop :=
  (members? v).isSome ∨ members? v = none ∧ ∃ vs, fields? v = some vs ∧ vs.length ≤ length

def WritesText (v : σ) (s : String) : Prop := text v = .ok s

def WritesTexts (v : σ) (ss : List String) : Prop :=
  ∃ vs, items? v = some vs ∧ List.Forall₂ WritesText vs ss

/-- A dictionary entry with what is written for its fields. -/
structure EntryFrom (slots : String → ℕ → List σ) (e : TypeEntry) : Prop where
  tag : ∃ name, Gives WritesText (slots "type" 0) (some name) ∧ e.tag = .ofName name
  definition : ∃ s, Gives WritesText (slots "definition" 1) s ∧ e.definition = s.getD ""
  subElements : ∃ ss, Gives WritesTexts (slots "subElements" 2) ss ∧ e.subElements = ss.getD []
  allowedValues :
    ∃ ss, Gives WritesTexts (slots "allowedValues" 3) ss ∧ e.allowedValues = ss.getD []

def WritesEntry (v : σ) (e : TypeEntry) : Prop := IsRecord 4 v ∧ EntryFrom (slots v) e

structure UseFrom (slots : String → ℕ → List σ) (f : FieldUse) : Prop where
  object : Gives WritesText (slots "object" 0) (some f.object)
  occurrence : Gives WritesText (slots "occurrence" 1) (some f.occurrence)

def WritesUse (v : σ) (f : FieldUse) : Prop := IsRecord 2 v ∧ UseFrom (slots v) f

/-- The entries of the table are the members that are written, in their order. -/
def WritesTable (writes : σ → α → Prop) (v : σ) (t : Table α) : Prop :=
  ∃ ms, members? v = some ms ∧
    List.Forall₂ (fun m e => e.1 = m.1 ∧ writes m.2 e.2) ms t.entries

def WritesVersion (v : σ) (version : Option String) : Prop :=
  if isNull v then version = none else ∃ s, WritesText v s ∧ version = some s

structure ModelFrom (slots : String → ℕ → List σ) (m : Model) : Prop where
  version : ∃ x, Gives WritesVersion (slots "version" 0) x ∧ m.version = x.getD none
  dictionary : Gives (WritesTable WritesEntry) (slots "dictionary" 1) (some m.dictionary)
  ontology : Gives (WritesTable (WritesTable WritesUse)) (slots "ontology" 2) (some m.ontology)

/-- The value is written for the model. -/
def Writes (v : σ) (m : Model) : Prop := IsRecord 3 v ∧ ModelFrom (slots v) m

end Notations

/-! ### Tables -/

section Tables

variable {read : σ → Except ShapeFault α} {m : String × σ} {t u : Table α}

/-- Puts a member into a table that is being read. -/
def pushMember (read : σ → Except ShapeFault α) (t : Table α) (m : String × σ) :
    Except ShapeFault (Table α) := do
  let x ← read m.2
  match t.push? m.1 x with
  | some t => pure t
  | none => .error (.duplicateKey m.1)

lemma pushMember_eq_ok_iff : pushMember read t m = .ok u ↔
    ∃ x, read m.2 = .ok x ∧ t.push? m.1 x = some u := by
  rw [pushMember, bind_eq_ok_iff]
  refine exists_congr fun x => and_congr_right fun _ => ?_
  cases t.push? m.1 x <;> simp [pure, Except.pure]

lemma foldlM_pushMember_eq_ok_iff {ms : List (String × σ)} :
    ms.foldlM (pushMember read) t = .ok u ↔ ∃ es, u.entries = t.entries ++ es ∧
      List.Forall₂ (fun m e => e.1 = m.1 ∧ read m.2 = .ok e.2) ms es := by
  induction ms generalizing t with
  | nil =>
    constructor
    · rintro ⟨⟩
      exact ⟨[], by simp, .nil⟩
    · rintro ⟨es, hes, ⟨⟩⟩
      rw [Table.ext (hes.trans (List.append_nil _))]
      rfl
  | cons m ms ih =>
    rw [List.foldlM_cons, bind_eq_ok_iff]
    constructor
    · rintro ⟨t', hpush, hrest⟩
      obtain ⟨x, hx, hpush⟩ := pushMember_eq_ok_iff.mp hpush
      obtain ⟨es, hes, hall⟩ := ih.mp hrest
      refine ⟨(m.1, x) :: es, ?_, .cons ⟨rfl, hx⟩ hall⟩
      rw [hes, Table.entries_push hpush, List.append_assoc]
      rfl
    · rintro ⟨es, hes, hall⟩
      cases hall with
      | @cons _ e _ es he hall =>
        obtain ⟨k, x⟩ := e
        obtain ⟨rfl, hx⟩ := he
        -- the name is new to `t`, as it stands after the names of `t` in a table
        have hnew : m.1 ∉ t.names := by
          have hnodup := u.nodup
          rw [hes, List.map_append, List.nodup_append] at hnodup
          exact fun hmem => hnodup.2.2 _ hmem m.1 (by simp) rfl
        obtain ⟨t', hpush⟩ := Option.ne_none_iff_exists'.mp
          (Table.push?_eq_none_iff.not.mpr hnew : t.push? m.1 x ≠ none)
        refine ⟨t', pushMember_eq_ok_iff.mpr ⟨x, hx, hpush⟩, ih.mpr ⟨es, ?_, hall⟩⟩
        rw [hes, Table.entries_push hpush, List.append_assoc]
        rfl

/-- The entries of a table are the members, each read under its name, in their order. -/
theorem table_eq_ok_iff [Notation σ] {v : σ} : table read v = .ok t ↔
    ∃ ms, Notation.members? v = some ms ∧
      List.Forall₂ (fun m e => e.1 = m.1 ∧ read m.2 = .ok e.2) ms t.entries := by
  cases hms : Notation.members? v with
  | none => simp [table, hms]
  | some ms =>
    have hread : table read v = ms.foldlM (pushMember read) Table.empty := by
      simp only [table, hms]
      rfl
    rw [hread, foldlM_pushMember_eq_ok_iff]
    simp [Table.empty]

end Tables

/-! ### Fields -/

section Fields

variable {read : σ → Except ShapeFault α} {name : String} {v : σ} {vs : List σ} {x y : Option α}
  {z : α}

lemma under_cons (name : String) (m : String × σ) (ms : List (String × σ)) :
    under name (m :: ms) = if m.1 = name then m.2 :: under name ms else under name ms := by
  by_cases h : m.1 = name <;> simp [under, h]

/-- The values under a name go into its field one after the other. -/
def fillAll (name : String) (read : σ → Except ShapeFault α) (x : Option α) (vs : List σ) :
    Except ShapeFault (Option α) :=
  vs.foldlM (fun x v => fill name x read v) x

@[simp] lemma fillAll_nil : fillAll name read x [] = .ok x := rfl

lemma fillAll_cons_eq_ok_iff : fillAll name read x (v :: vs) = .ok y ↔
    ∃ w, fill name x read v = .ok w ∧ fillAll name read w vs = .ok y := by
  rw [fillAll, List.foldlM_cons, bind_eq_ok_iff]
  rfl

lemma fillAll_some_eq_ok_iff : fillAll name read (some z) vs = .ok y ↔ vs = [] ∧ y = some z := by
  cases vs with
  | nil => simp [eq_comm]
  | cons v vs => simp [fillAll_cons_eq_ok_iff, fill]

/-- A field is filled once at most. -/
lemma fillAll_none_eq_ok_iff :
    fillAll name read none vs = .ok x ↔ Gives (fun v x => read v = .ok x) vs x := by
  cases vs with
  | nil => cases x <;> simp [Gives]
  | cons v vs =>
    have hfill : ∀ w, fill name none read v = .ok w ↔ ∃ z, read v = .ok z ∧ some z = w :=
      fun w => map_eq_ok_iff
    rw [fillAll_cons_eq_ok_iff]
    simp only [hfill, ↓existsAndEq, and_true, fillAll_some_eq_ok_iff]
    cases x with
    | none => simp [Gives]
    | some z => cases vs <;> simp [Gives]

lemma need_eq_ok_iff : need name x = .ok z ↔ x = some z := by
  cases x <;> simp [need]

lemma item_eq_ok_iff {position : ℕ} {expected : String} :
    item read position expected vs = .ok z ↔
      Gives (fun v x => read v = .ok x) vs[position]?.toList (some z) := by
  cases hv : vs[position]? <;> simp [item, hv, Gives]

lemma itemOr_eq_ok_iff {position : ℕ} {default : α} :
    itemOr default read position vs = .ok z ↔
      ∃ x, Gives (fun v x => read v = .ok x) vs[position]?.toList x ∧ z = x.getD default := by
  constructor
  · intro h
    cases hv : vs[position]? with
    | none =>
      rw [itemOr, hv] at h
      cases h
      exact ⟨none, .nil, rfl⟩
    | some v =>
      rw [itemOr, hv] at h
      exact ⟨some z, .cons h .nil, rfl⟩
  · rintro ⟨x, hx, rfl⟩
    cases hv : vs[position]? with
    | none =>
      rw [hv] at hx
      cases x with
      | none => simp [itemOr, hv]
      | some z => cases hx
    | some v =>
      rw [hv] at hx
      cases x with
      | none => cases hx
      | some z =>
        obtain ⟨hread, -⟩ := List.forall₂_cons.mp hx
        simp [itemOr, hv, hread]

lemma ended_eq_ok_iff {length : ℕ} {u : Unit} : ended length vs = .ok u ↔ vs.length ≤ length := by
  unfold ended
  split_ifs with h <;> simp [h]

end Fields

section Records

variable [Notation σ] {v : σ} {vs : List σ} {ms : List (String × σ)}

open Notation

/-! ### Records -/

/-- A record is read when both of its forms are read as it is written in them. -/
lemma record_eq_ok_iff {β : Type} {length : ℕ} {expected : String}
    {ofMembers : List (String × σ) → Except ShapeFault β} {ofItems : List σ → Except ShapeFault β}
    {b : β} {P : (String → ℕ → List σ) → Prop}
    (hmembers : ∀ ms, ofMembers ms = .ok b ↔ P fun name _ => under name ms)
    (hitems : ∀ vs, ofItems vs = .ok b ↔
      P (fun _ position => vs[position]?.toList) ∧ vs.length ≤ length) :
    record expected ofMembers ofItems v = .ok b ↔ IsRecord length v ∧ P (slots v) := by
  unfold record IsRecord
  cases hms : members? v with
  | some ms =>
    have hslots : slots v = fun name _ => under name ms := by
      funext name position
      simp only [slots, hms]
    simp [hslots, hmembers]
  | none =>
    cases hvs : fields? v with
    | some vs =>
      have hslots : slots v = fun _ position => vs[position]?.toList := by
        funext name position
        simp only [slots, hms, hvs]
      simp [hslots, hitems, and_comm]
    | none => simp

lemma texts_eq_ok_iff {ss : List String} : texts v = .ok ss ↔ WritesTexts v ss := by
  unfold texts WritesTexts
  cases items? v with
  | none => simp
  | some vs =>
    simp only [Option.some.injEq, exists_eq_left']
    exact mapM_eq_ok_iff

lemma optionalText_eq_ok_iff {version : Option String} :
    optionalText v = .ok version ↔ WritesVersion v version := by
  unfold optionalText WritesVersion
  split_ifs
  · rw [Except.ok.injEq, eq_comm]
  · rw [map_eq_ok_iff]
    simp only [WritesText, eq_comm (b := version)]

/-- The members of an entry fill its fields each for itself. -/
lemma foldlM_entryMember_eq_ok_iff {p q : PartialEntry} :
    ms.foldlM entryMember p = .ok q ↔
      fillAll "type" text p.tag (under "type" ms) = .ok q.tag ∧
      fillAll "definition" text p.definition (under "definition" ms) = .ok q.definition ∧
      fillAll "subElements" texts p.subElements (under "subElements" ms) = .ok q.subElements ∧
      fillAll "allowedValues" texts p.allowedValues (under "allowedValues" ms) =
        .ok q.allowedValues := by
  induction ms generalizing p with
  | nil =>
    obtain ⟨_, _, _, _⟩ := p
    obtain ⟨_, _, _, _⟩ := q
    simp [under, pure, Except.pure]
  | cons m ms ih =>
    rw [List.foldlM_cons, bind_eq_ok_iff]
    simp only [ih]
    unfold entryMember
    split
    case h_5 htype hdefinition hsubElements hallowedValues =>
      simp only [↓existsAndEq, Except.ok.injEq, true_and, under_cons, if_neg htype,
        if_neg hdefinition, if_neg hsubElements, if_neg hallowedValues]
    all_goals
      simp_all only [map_eq_ok_iff, ↓existsAndEq, true_and, under_cons, String.reduceEq, ↓reduceIte,
        fillAll_cons_eq_ok_iff, ← exists_and_left, ← exists_and_right, and_assoc, and_left_comm]

lemma entryOfMembers_eq_ok_iff {e : TypeEntry} :
    entryOfMembers ms = .ok e ↔ EntryFrom (fun name _ => under name ms) e := by
  simp only [entryOfMembers, bind_eq_ok_iff, foldlM_entryMember_eq_ok_iff, need_eq_ok_iff,
    fillAll_none_eq_ok_iff, texts_eq_ok_iff, pure, Except.pure, Except.ok.injEq]
  constructor
  · rintro ⟨p, ⟨htag, hdefinition, hsubElements, hallowedValues⟩, name, hname, rfl⟩
    exact ⟨⟨name, hname ▸ htag, rfl⟩, ⟨_, hdefinition, rfl⟩, ⟨_, hsubElements, rfl⟩,
      ⟨_, hallowedValues, rfl⟩⟩
  · obtain ⟨tag, definition, subElements, allowedValues⟩ := e
    rintro ⟨⟨name, htag, rfl⟩, ⟨s, hs, rfl⟩, ⟨ss, hss, rfl⟩, ⟨ss', hss', rfl⟩⟩
    exact ⟨⟨some name, s, ss, ss'⟩, ⟨htag, hs, hss, hss'⟩, name, rfl, rfl⟩

lemma entryOfItems_eq_ok_iff {e : TypeEntry} : entryOfItems vs = .ok e ↔
    EntryFrom (fun _ position => vs[position]?.toList) e ∧ vs.length ≤ 4 := by
  simp only [entryOfItems, bind_eq_ok_iff, item_eq_ok_iff, itemOr_eq_ok_iff, ended_eq_ok_iff,
    texts_eq_ok_iff, pure, Except.pure, Except.ok.injEq]
  constructor
  · rintro ⟨name, htag, _, hdefinition, _, hsubElements, _, hallowedValues, -, hlength, rfl⟩
    exact ⟨⟨⟨name, htag, rfl⟩, hdefinition, hsubElements, hallowedValues⟩, hlength⟩
  · obtain ⟨tag, definition, subElements, allowedValues⟩ := e
    rintro ⟨⟨⟨name, htag, rfl⟩, hdefinition, hsubElements, hallowedValues⟩, hlength⟩
    exact ⟨name, htag, _, hdefinition, _, hsubElements, _, hallowedValues, (), hlength, rfl⟩

lemma entry_eq_ok_iff {e : TypeEntry} : entry v = .ok e ↔ WritesEntry v e :=
  record_eq_ok_iff (P := fun slots => EntryFrom slots e) (fun _ => entryOfMembers_eq_ok_iff)
    fun _ => entryOfItems_eq_ok_iff

lemma foldlM_useMember_eq_ok_iff {p q : PartialUse} :
    ms.foldlM useMember p = .ok q ↔
      fillAll "object" text p.object (under "object" ms) = .ok q.object ∧
      fillAll "occurrence" text p.occurrence (under "occurrence" ms) = .ok q.occurrence := by
  induction ms generalizing p with
  | nil =>
    obtain ⟨_, _⟩ := p
    obtain ⟨_, _⟩ := q
    simp [under, pure, Except.pure]
  | cons m ms ih =>
    rw [List.foldlM_cons, bind_eq_ok_iff]
    simp only [ih]
    unfold useMember
    split
    case h_3 hobject hoccurrence =>
      simp only [↓existsAndEq, Except.ok.injEq, true_and, under_cons, if_neg hobject,
        if_neg hoccurrence]
    all_goals
      simp_all only [map_eq_ok_iff, ↓existsAndEq, true_and, under_cons, String.reduceEq, ↓reduceIte,
        fillAll_cons_eq_ok_iff, ← exists_and_left, ← exists_and_right, and_assoc, and_left_comm]

lemma useOfMembers_eq_ok_iff {f : FieldUse} :
    useOfMembers ms = .ok f ↔ UseFrom (fun name _ => under name ms) f := by
  simp only [useOfMembers, bind_eq_ok_iff, foldlM_useMember_eq_ok_iff, need_eq_ok_iff,
    fillAll_none_eq_ok_iff, pure, Except.pure, Except.ok.injEq]
  constructor
  · rintro ⟨p, ⟨hobject, hoccurrence⟩, object, ho, occurrence, hc, rfl⟩
    exact ⟨ho ▸ hobject, hc ▸ hoccurrence⟩
  · rintro ⟨hobject, hoccurrence⟩
    exact ⟨⟨some f.object, some f.occurrence⟩, ⟨hobject, hoccurrence⟩, _, rfl, _, rfl, rfl⟩

lemma useOfItems_eq_ok_iff {f : FieldUse} : useOfItems vs = .ok f ↔
    UseFrom (fun _ position => vs[position]?.toList) f ∧ vs.length ≤ 2 := by
  simp only [useOfItems, bind_eq_ok_iff, item_eq_ok_iff, ended_eq_ok_iff, pure, Except.pure,
    Except.ok.injEq]
  constructor
  · rintro ⟨object, hobject, occurrence, hoccurrence, -, hlength, rfl⟩
    exact ⟨⟨hobject, hoccurrence⟩, hlength⟩
  · rintro ⟨⟨hobject, hoccurrence⟩, hlength⟩
    exact ⟨_, hobject, _, hoccurrence, (), hlength, rfl⟩

lemma use_eq_ok_iff {f : FieldUse} : use v = .ok f ↔ WritesUse v f :=
  record_eq_ok_iff (P := fun slots => UseFrom slots f) (fun _ => useOfMembers_eq_ok_iff)
    fun _ => useOfItems_eq_ok_iff

/-! ### Models -/

lemma table_eq_ok_iff_writes {read : σ → Except ShapeFault α} {writes : σ → α → Prop}
    (h : ∀ v x, read v = .ok x ↔ writes v x) {t : Table α} :
    table read v = .ok t ↔ WritesTable writes v t := by
  simp only [table_eq_ok_iff, WritesTable, h]

lemma dictionaryOf_eq_ok_iff {d : Dictionary} :
    dictionaryOf v = .ok d ↔ WritesTable WritesEntry v d :=
  table_eq_ok_iff_writes fun _ _ => entry_eq_ok_iff

lemma ontologyOf_eq_ok_iff {o : Ontology} :
    ontologyOf v = .ok o ↔ WritesTable (WritesTable WritesUse) v o :=
  table_eq_ok_iff_writes fun _ _ => table_eq_ok_iff_writes fun _ _ => use_eq_ok_iff

lemma foldlM_modelMember_eq_ok_iff {p q : PartialModel} :
    ms.foldlM modelMember p = .ok q ↔
      fillAll "version" optionalText p.version (under "version" ms) = .ok q.version ∧
      fillAll "dictionary" dictionaryOf p.dictionary (under "dictionary" ms) = .ok q.dictionary ∧
      fillAll "ontology" ontologyOf p.ontology (under "ontology" ms) = .ok q.ontology := by
  induction ms generalizing p with
  | nil =>
    obtain ⟨_, _, _⟩ := p
    obtain ⟨_, _, _⟩ := q
    simp [under, pure, Except.pure]
  | cons m ms ih =>
    rw [List.foldlM_cons, bind_eq_ok_iff]
    simp only [ih]
    unfold modelMember
    split
    case h_4 hversion hdictionary hontology =>
      simp only [↓existsAndEq, Except.ok.injEq, true_and, under_cons, if_neg hversion,
        if_neg hdictionary, if_neg hontology]
    all_goals
      simp_all only [map_eq_ok_iff, ↓existsAndEq, true_and, under_cons, String.reduceEq, ↓reduceIte,
        fillAll_cons_eq_ok_iff, ← exists_and_left, ← exists_and_right, and_assoc, and_left_comm]

lemma ofMembers_eq_ok_iff {m : Model} :
    ofMembers ms = .ok m ↔ ModelFrom (fun name _ => under name ms) m := by
  simp only [ofMembers, bind_eq_ok_iff, foldlM_modelMember_eq_ok_iff, need_eq_ok_iff,
    fillAll_none_eq_ok_iff, optionalText_eq_ok_iff, dictionaryOf_eq_ok_iff, ontologyOf_eq_ok_iff,
    pure, Except.pure, Except.ok.injEq]
  constructor
  · rintro ⟨p, ⟨hversion, hdictionary, hontology⟩, d, hd, o, ho, rfl⟩
    exact ⟨⟨_, hversion, rfl⟩, hd ▸ hdictionary, ho ▸ hontology⟩
  · obtain ⟨version, dictionary, ontology⟩ := m
    rintro ⟨⟨x, hversion, rfl⟩, hdictionary, hontology⟩
    exact ⟨⟨x, some dictionary, some ontology⟩, ⟨hversion, hdictionary, hontology⟩, _, rfl, _,
      rfl, rfl⟩

lemma ofItems_eq_ok_iff {m : Model} : ofItems vs = .ok m ↔
    ModelFrom (fun _ position => vs[position]?.toList) m ∧ vs.length ≤ 3 := by
  simp only [ofItems, bind_eq_ok_iff, item_eq_ok_iff, itemOr_eq_ok_iff, ended_eq_ok_iff,
    optionalText_eq_ok_iff, dictionaryOf_eq_ok_iff, ontologyOf_eq_ok_iff, pure, Except.pure,
    Except.ok.injEq]
  constructor
  · rintro ⟨_, hversion, d, hdictionary, o, hontology, -, hlength, rfl⟩
    exact ⟨⟨hversion, hdictionary, hontology⟩, hlength⟩
  · rintro ⟨⟨hversion, hdictionary, hontology⟩, hlength⟩
    exact ⟨_, hversion, _, hdictionary, _, hontology, (), hlength, rfl⟩

/-- **A model is read exactly from what writes it.** -/
theorem read_eq_ok_iff {m : Model} : Model.read v = .ok m ↔ Writes v m :=
  record_eq_ok_iff (P := fun slots => ModelFrom slots m) (fun _ => ofMembers_eq_ok_iff)
    fun _ => ofItems_eq_ok_iff

end Records

end Model

end RecordCuration
