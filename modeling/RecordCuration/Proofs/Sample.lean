import RecordCuration.Graph.Basic

/-!
A small model whose containers contain each other.

A mission has time spans, and a time span may name the mission that it belongs to. Every occurrence
marker that counts is used.
-/

namespace RecordCuration

def sampleModel : Model where
  version := none
  dictionary := ⟨[
    ("Mission", ⟨.container, "", ["Name", "Alias", "Kind", "TimeSpan"], []⟩),
    ("Name", ⟨.named "Text", "", [], []⟩),
    ("Alias", ⟨.named "Text", "", [], []⟩),
    ("Kind", ⟨.named "MissionKind", "", [], []⟩),
    ("MissionKind", ⟨.enumeration, "", [], ["Rocket", "Balloon"]⟩),
    ("TimeSpan", ⟨.container, "", ["StartDate", "StopDate", "Note", "Mission"], []⟩),
    ("StartDate", ⟨.named "DateTime", "", [], []⟩),
    ("StopDate", ⟨.named "DateTime", "", [], []⟩),
    ("Note", ⟨.named "Text", "", [], []⟩)], by decide⟩
  ontology := ⟨[
    ("Mission", ⟨[("Name", ⟨"Name", "1"⟩), ("Alias", ⟨"Alias", "*"⟩), ("Kind", ⟨"Kind", "0"⟩),
      ("TimeSpan", ⟨"TimeSpan", "+"⟩)], by decide⟩),
    ("TimeSpan", ⟨[("StartDate", ⟨"StartDate", "1"⟩), ("StopDate", ⟨"StopDate", "1"⟩),
      ("Note", ⟨"Note", "*"⟩), ("Mission", ⟨"Mission", "0"⟩)], by decide⟩)], by decide⟩

def sampleGraph : GraphSchema :=
  match GraphSchema.ofModel sampleModel .standard with
  | .ok g => g
  | .error _ => .empty .standard

theorem sample_accepted : GraphSchema.ofModel sampleModel .standard = .ok sampleGraph := rfl

end RecordCuration
