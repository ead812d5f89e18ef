import RecordCuration.Proofs.Graph.Built

/-!
Ids of a graph schema under additions.

Whatever is added to a schema that is empty or was read, the ids taken stay those of the entries,
each once. So an entry is refused exactly when some entry has its id, and what a name finds is the
one entry of that id.
-/

namespace RecordCuration

namespace GraphSchema

variable {g g' start : GraphSchema} {entries : List GraphEntry} {name : String}
  {answers : List (Except GraphError Unit)}

/-- Adds entries, one after the other, refused or not; gives the schema at the end and every
answer. -/
def addAll (g : GraphSchema) : List GraphEntry → GraphSchema × List (Except GraphError Unit)
  | [] => (g, [])
  | entry :: entries =>
    let (next, answer) := g.add entry
    let (last, answers) := next.addAll entries
    (last, answer :: answers)

lemma Built.add {entry : GraphEntry} {answer : Except GraphError Unit} (hg : Built g)
    (h : g.add entry = (g', answer)) : Built g' := by
  cases answer with
  | ok => exact hg.push (by rw [GraphSchema.push, h])
  | error e =>
    rw [add_eq] at h
    split_ifs at h
    · cases h
      exact hg
    · cases h

lemma Built.addAll (hg : Built g) (h : g.addAll entries = (g', answers)) : Built g' := by
  induction entries generalizing g answers with
  | nil =>
    cases h
    exact hg
  | cons entry entries ih =>
    rcases hadd : g.add entry with ⟨next, answer⟩
    rcases hrest : next.addAll entries with ⟨last, rest⟩
    simp only [GraphSchema.addAll, hadd, hrest] at h
    cases h
    exact ih (hg.add hadd) hrest

/-- An entry is the only one of its id. -/
lemma Built.filter_id_eq_iff (h : Built g) {e : GraphEntry} :
    g.entries.filter (·.id = name) = [e] ↔ e.id = name ∧ e ∈ g.entries := by
  constructor
  · intro hfilter
    have hmem : e ∈ g.entries.filter (·.id = name) := hfilter ▸ List.mem_singleton_self e
    simpa [and_comm] using hmem
  · rintro ⟨rfl, hmem⟩
    have hnodup : g.entries.Nodup := (h.ids.1 ▸ h.ids.2).of_map
    rw [← List.perm_singleton,
      List.perm_ext_iff_of_nodup (hnodup.filter _) (List.nodup_singleton e)]
    intro e'
    rw [List.mem_filter, decide_eq_true_eq, List.mem_singleton]
    constructor
    · rintro ⟨hmem', hid⟩
      exact h.eq_of_id hmem' hmem hid
    · rintro rfl
      exact ⟨hmem, rfl⟩

/-- **Every id stays the id of one entry.** In a schema that is empty or was read, to which
entries were added, refused or not, the ids taken are those of the enumerations and the classes,
all distinct. Another entry is refused, as a duplicate of its id, exactly when an entry of either
kind has the id, and the schema is as it was then; otherwise the entry comes last. A name finds a
class when that is the only entry of the name, an enumeration when that is, and never both. -/
theorem additions_keep_ids_unique (h : start.addAll entries = (g, answers))
    (hstart : (∃ context, start = empty context) ∨ ∃ v, ofJson v = .ok start) :
    (g.ids = g.entries.map GraphEntry.id ∧ g.ids.Nodup) ∧
      (∀ entry, g.add entry =
        if entry.id ∈ g.entries.map GraphEntry.id then (g, .error (.duplicateId entry.id))
        else (⟨g.context, g.entries ++ [entry], g.ids ++ [entry.id]⟩, .ok ())) ∧
      (∀ name c, g.class? name = some c ↔
        g.entries.filter (·.id = name) = [.classEntry c]) ∧
      (∀ name e, g.enumeration? name = some e ↔
        g.entries.filter (·.id = name) = [.enumEntry e]) ∧
      ∀ name, g.class? name = none ∨ g.enumeration? name = none := by
  have hbuilt : Built start := by
    rcases hstart with ⟨context, rfl⟩ | ⟨v, hv⟩
    · exact .empty context
    · exact built_ofJson hv
  have hg : Built g := hbuilt.addAll h
  refine ⟨hg.ids, fun entry => ?_, fun name c => ?_, fun name e => ?_, fun name => ?_⟩
  · rw [add_eq, hg.ids.1]
  · rw [hg.class?_eq_some_iff, hg.filter_id_eq_iff, GraphEntry.id]
  · rw [hg.enumeration?_eq_some_iff, hg.filter_id_eq_iff, GraphEntry.id]
  · cases hc : g.class? name with
    | none => exact .inl rfl
    | some c =>
      obtain ⟨rfl, hmem⟩ := hg.class?_eq_some_iff.mp hc
      exact .inr (hg.enumeration?_of_class hmem)

/-- A kind of craft, a class of that name, and a class of another. -/
def craftEntries : List GraphEntry :=
  [.enumEntry ⟨"Craft", ["Rocket", "Balloon"]⟩, .classEntry ⟨"Craft", "", [], []⟩,
    .classEntry ⟨"Mission", "", [], []⟩]

/-- The class that is called like the kind is refused, and the other is found. -/
theorem crafts_keep_ids_unique : ∃ g answers,
    (empty .standard).addAll craftEntries = (g, answers) ∧
      answers = [.ok (), .error (.duplicateId "Craft"), .ok ()] ∧ g.ids.Nodup ∧
      g.entries.filter (·.id = "Mission") = [.classEntry ⟨"Mission", "", [], []⟩] ∧
      (g.class? "Craft" = none ∨ g.enumeration? "Craft" = none) := by
  have h : (empty .standard).addAll craftEntries =
      (((empty .standard).addAll craftEntries).1,
        [.ok (), .error (.duplicateId "Craft"), .ok ()]) := rfl
  obtain ⟨⟨-, hnodup⟩, -, hclass, -, hboth⟩ :=
    additions_keep_ids_unique h (.inl ⟨.standard, rfl⟩)
  exact ⟨_, _, h, rfl, hnodup, (hclass _ _).mp rfl, hboth "Craft"⟩

end GraphSchema

end RecordCuration
