import RecordCuration.Proofs.Model.Reread

/-!
Names that a text writes twice.

A model that is read from a text has the members that are written there, each once. A table in which
a name is written twice is therefore never read, however far apart the two are and however their
names are escaped.
-/

namespace RecordCuration

open Json

lemma forall₂_trans {α β γ : Type} {R : α → β → Prop} {S : β → γ → Prop} {T : α → γ → Prop}
    (h : ∀ a b c, R a b → S b c → T a c) {xs : List α} {ys : List β} {zs : List γ}
    (hxy : List.Forall₂ R xs ys) (hyz : List.Forall₂ S ys zs) : List.Forall₂ T xs zs := by
  induction hxy generalizing zs with
  | nil => cases hyz; exact .nil
  | cons hab _ ih =>
    obtain ⟨c, zs, hbc, hrest, rfl⟩ := List.forall₂_cons_left_iff.mp hyz
    exact .cons (h _ _ _ hab hbc) (ih hrest)

namespace Json.Source

/-- Two members, however far apart, have names that read as one. -/
inductive Repeats : Source → Prop where
  | twice {ms : List (List Piece × Source)} {ps qs : List Piece} {x y : Source} {name : String}
    (h : [(ps, x), (qs, y)].Sublist ms) (hps : text? ps = some name) (hqs : text? qs = some name) :
    Repeats (.obj ms)

/-- A record with a value that is written for one of its fields. -/
inductive HasField (name : String) (position : ℕ) : Source → Source → Prop where
  | member {ms : List (List Piece × Source)} {ps : List Piece} {x : Source} (h : (ps, x) ∈ ms)
    (hps : text? ps = some name) : HasField name position (.obj ms) x
  | item {vs : List Source} {x : Source} (h : vs[position]? = some x) :
    HasField name position (.arr vs) x

/-- A name is written twice in the dictionary, the ontology or the fields of a container. -/
inductive RepeatsName (v : Source) : Prop where
  | dictionary {d : Source} (h : v.HasField "dictionary" 1 d) (hd : d.Repeats)
  | ontology {o : Source} (h : v.HasField "ontology" 2 o) (ho : o.Repeats)
  | container {ms : List (List Piece × Source)} {m : List Piece × Source}
    (h : v.HasField "ontology" 2 (.obj ms)) (hm : m ∈ ms) (hfields : m.2.Repeats)

/-- The members are the entries of the table, each under the name that its own reads as. -/
inductive Lists {α : Type} (writes : Source → α → Prop) (t : Table α) : Source → Prop where
  | members {ms : List (List Piece × Source)}
    (h : List.Forall₂ (fun m e => text? m.1 = some e.1 ∧ writes m.2 e.2) ms t.entries) :
    Lists writes t (.obj ms)

variable {α : Type} {writes : Source → α → Prop} {t : Table α} {v x : Source}
  {ms : List (List Piece × Source)} {named : List (String × Source)} {name : String}
  {position length : ℕ}

lemma namedMembers?_eq_some_iff : namedMembers? (.obj ms) = some named ↔
    List.Forall₂ (fun m n => text? m.1 = some n.1 ∧ m.2 = n.2) ms named := by
  show ms.mapM (fun m => (text? m.1).map (·, m.2)) = some named ↔ _
  induction ms generalizing named with
  | nil => simp [eq_comm]
  | cons m ms ih =>
    simp only [List.mapM_cons, bind, Option.bind_eq_some_iff, Option.map_eq_some_iff, pure,
      Option.some.injEq, ih, List.forall₂_cons_left_iff]
    constructor
    · rintro ⟨_, ⟨name, hname, rfl⟩, rest, hrest, rfl⟩
      exact ⟨_, _, ⟨hname, rfl⟩, hrest, rfl⟩
    · rintro ⟨⟨name, x⟩, rest, ⟨hname, rfl⟩, hrest, rfl⟩
      exact ⟨_, ⟨name, hname, rfl⟩, rest, hrest, rfl⟩

lemma lists_of_writesTable {lists : Source → α → Prop} (h : Model.WritesTable writes v t)
    (hlists : ∀ x a, writes x a → lists x a) : v.Lists lists t := by
  obtain ⟨named, hnamed, hall⟩ := h
  cases v with
  | obj ms =>
    refine .members (forall₂_trans ?_ (namedMembers?_eq_some_iff.mp hnamed) hall)
    rintro ⟨ps, x⟩ ⟨name, x⟩ ⟨_, a⟩ ⟨hps, rfl⟩ ⟨rfl, ha⟩
    exact ⟨hps, hlists x a ha⟩
  | _ => cases hnamed

/-- A table has no name twice. -/
lemma Lists.not_repeats (h : v.Lists writes t) : ¬ v.Repeats := by
  intro hrepeats
  cases hrepeats with
  | @twice ms ps qs x y name hsublist hps hqs =>
    cases h with
    | members h =>
      have hnames : ms.map (fun m => text? m.1) = (t.entries.map Prod.fst).map some := by
        rw [List.map_map]
        exact List.forall₂_eq_eq_eq ▸ List.forall₂_map_left_iff.mpr
          (List.forall₂_map_right_iff.mpr (h.imp fun _ _ he => he.1))
      have hnodup : ((t.entries.map Prod.fst).map some).Nodup :=
        t.nodup.map (Option.some_injective _)
      have hsub := hsublist.map fun m => text? m.1
      rw [hnames] at hsub
      simp only [List.map_cons, hps, hqs, List.map_nil] at hsub
      exact List.nodup_iff_sublist.mp hnodup _ hsub

lemma mem_under_iff : x ∈ Model.under name named ↔ (name, x) ∈ named := by
  simp [Model.under]

/-- What is read for a field of a record is what the record has for it. -/
lemma mem_slots_iff (hv : Model.IsRecord length v) :
    x ∈ Model.slots v name position ↔ v.HasField name position x := by
  cases v with
  | obj ms =>
    have hsome : (namedMembers? (.obj ms)).isSome := by
      rcases hv with h | ⟨-, _, hvs, -⟩
      · exact h
      · cases hvs
    obtain ⟨named, hnamed⟩ := Option.isSome_iff_exists.mp hsome
    have hslots : Model.slots (.obj ms) name position = Model.under name named := by
      simp only [Model.slots, Notation.members?, hnamed]
    rw [hslots, mem_under_iff]
    obtain ⟨hfrom, hto⟩ := exists_of_forall₂ (namedMembers?_eq_some_iff.mp hnamed)
    constructor
    · intro hx
      obtain ⟨⟨ps, _⟩, hm, hps, rfl⟩ := hto _ hx
      exact .member hm hps
    · intro hx
      cases hx with
      | member hm hps =>
        obtain ⟨⟨_, _⟩, hn, hname, rfl⟩ := hfrom _ hm
        obtain rfl := Option.some.inj (hps.symm.trans hname)
        exact hn
  | arr vs =>
    show x ∈ vs[position]?.toList ↔ _
    rw [Option.mem_toList]
    exact ⟨fun h => .item h, fun h => by cases h with | item h => exact h⟩
  | _ => rcases hv with h | ⟨-, _, h, -⟩ <;> cases h

end Json.Source

namespace Model

variable {α : Type} {text name : String} {v w : Source} {position length : ℕ}
  {writes : Source → α → Prop} {x : α}

/-- A field that is there is written once. -/
lemma exists_hasField_iff (hv : IsRecord length v)
    (h : Gives writes (slots v name position) (some x)) :
    ∃ w, writes w x ∧ ∀ u, v.HasField name position u ↔ u = w := by
  obtain ⟨w, _, hw, hrest, hslots⟩ := List.forall₂_cons_right_iff.mp h
  obtain rfl := List.forall₂_nil_right_iff.mp hrest
  exact ⟨w, hw, fun u => by rw [← Source.mem_slots_iff hv, hslots, List.mem_singleton]⟩

/-- The one dictionary and the one ontology that are written, as lists of their members. -/
structure ListedIn (v : Source) (m : Model) (d o : Source) : Prop where
  dictionary : d.Lists WritesEntry m.dictionary
  onlyDictionary : ∀ u, v.HasField "dictionary" 1 u ↔ u = d
  ontology : o.Lists (fun fields t => fields.Lists WritesUse t) m.ontology
  onlyOntology : ∀ u, v.HasField "ontology" 2 u ↔ u = o

lemma exists_listedIn {m : Model} (h : Writes v m) : ∃ d o, ListedIn v m d o := by
  obtain ⟨hform, hfrom⟩ := h
  obtain ⟨d, hd, honlyDictionary⟩ := exists_hasField_iff hform hfrom.dictionary
  obtain ⟨o, ho, honlyOntology⟩ := exists_hasField_iff hform hfrom.ontology
  refine ⟨d, o, Source.lists_of_writesTable hd fun _ _ he => he, honlyDictionary, ?_,
    honlyOntology⟩
  exact Source.lists_of_writesTable ho fun _ _ hfields =>
    Source.lists_of_writesTable hfields fun _ _ hf => hf

lemma ListedIn.not_repeatsName {m : Model} {d o : Source} (h : ListedIn v m d o) :
    ¬ v.RepeatsName := by
  intro hrepeats
  cases hrepeats with
  | dictionary hfield hrepeats =>
    obtain rfl := (h.onlyDictionary _).mp hfield
    exact h.dictionary.not_repeats hrepeats
  | ontology hfield hrepeats =>
    obtain rfl := (h.onlyOntology _).mp hfield
    exact h.ontology.not_repeats hrepeats
  | container hfield hm hrepeats =>
    obtain rfl := (h.onlyOntology _).mp hfield
    cases h.ontology with
    | members hall =>
      obtain ⟨e, -, -, hfields⟩ := (exists_of_forall₂ hall).1 _ hm
      exact hfields.not_repeats hrepeats

/-- **Reading drops and merges nothing.** A model is read from a text exactly when the text writes
it. The text then has one dictionary and one ontology, and they and the fields of each container
are the members that are written there, each once, in their order and with what is written under
them. None is read when a name is written twice in one of them. -/
theorem reading_drops_nothing (h : Source.ofString? text = some v) :
    (∀ m, ofJsonText text = .ok m ↔ Writes v m) ∧
    (∀ m, ofJsonText text = .ok m → ∃ d o, ListedIn v m d o) ∧
    (v.RepeatsName → ∃ e, ofJsonText text = .error e) := by
  have hread : ∀ m, ofJsonText text = .ok m ↔ Writes v m := fun m => by
    simp only [ofJsonText_eq_ok_iff, h, Option.some.injEq, exists_eq_left', read_eq_ok_iff]
  refine ⟨hread, fun m hm => exists_listedIn ((hread m).mp hm), fun hrepeats => ?_⟩
  cases hm : ofJsonText text with
  | error e => exact ⟨e, rfl⟩
  | ok m =>
    obtain ⟨d, o, hlisted⟩ := exists_listedIn ((hread m).mp hm)
    exact absurd hrepeats hlisted.not_repeatsName

/-- A text that has a name at both ends of its dictionary, once with an escape. -/
def twiceNamedText : String :=
  "\x7b\"dictionary\":\x7b\"Name\":\x7b\"type\":\"Text\"\x7d,\"Rank\":[\"Text\"],"
    ++ "\"N\\u0061me\":\x7b\"type\":\"Text\"\x7d\x7d,\"ontology\":\x7b\x7d\x7d"

def twiceNamed : Source :=
  let entry := .obj [(pieces "type", .text (pieces "Text"))]
  .obj [(pieces "dictionary", .obj [(pieces "Name", entry),
      (pieces "Rank", .arr [.text (pieces "Text")]),
      ([.char 'N', .unit 0x61, .char 'm', .char 'e'], entry)]),
    (pieces "ontology", .obj [])]

/-- The one document is read with all that it writes, the other is not read. -/
theorem crew_reading_drops_nothing :
    (ofJsonText crewDocument.compact = .ok crewModel ∧
      ∃ d o, ListedIn crewDocument.source crewModel d o) ∧
    Source.ofString? twiceNamedText = some twiceNamed ∧ twiceNamed.RepeatsName ∧
      ∃ e, ofJsonText twiceNamedText = .error e := by
  have hmeasureless : crewDocument.Measureless := by simp [crewDocument]
  have hcrew := Source.ofString?_compact hmeasureless.legible
  have hread : ofJsonText crewDocument.compact = .ok crewModel :=
    ofJsonText_eq_ok_iff.mpr ⟨_, hcrew, rfl⟩
  have htwice : Source.ofString? twiceNamedText = some twiceNamed := rfl
  have hrepeats : twiceNamed.RepeatsName :=
    .dictionary (.member (.head _) rfl)
      (.twice (.cons_cons _ (.cons _ (.cons_cons _ .slnil))) rfl rfl)
  exact ⟨⟨hread, (reading_drops_nothing hcrew).2.1 _ hread⟩, htwice, hrepeats,
    (reading_drops_nothing htwice).2.2 hrepeats⟩

end Model

end RecordCuration
