import RecordCuration.Proofs.Draft7.Depth
import RecordCuration.Proofs.Draft7.Wholeness
import RecordCuration.Proofs.Envelope
import RecordCuration.Proofs.JsonSchema.Existence

/-!
Members that an object of a class can do without.

The schema of a class names the members that must be there. An object that the schema accepts is
still accepted when another member is taken out: what is left are members of the object as it was,
in it nothing nests deeper, and no other check looks at a member that is not there.
-/

namespace RecordCuration

open Json

/-- A schema asks for a member. -/
def JsonSchema.Requires (source : Json) (name : String) : Prop :=
  ∃ names, source.member? "required" = some (.arr names) ∧ .str name ∈ names

lemma Json.depth_remove_le (name : String) (ms : List (String × Json)) :
    (Json.obj (Members.remove name ms)).depth ≤ (Json.obj ms).depth := by
  obtain ⟨room, hroom⟩ : ∃ room, (Json.obj ms).depth = room + 1 := ⟨_, rfl⟩
  rw [hroom, depth_obj_le_iff]
  exact fun m hm => depth_obj_le_iff.mp hroom.le m (Members.mem_of_mem_remove hm)

namespace Draft7.Check

variable {path : Path} {ms : List (String × Json)}

/-- A closed object has listed members only, and these pass. -/
lemma closed_eq_nil_iff {listed : List (String × Check)} :
    closed listed path (.obj ms) = [] ↔
      ∀ m ∈ ms, ∃ c, listed.lookup m.1 = some c ∧ c (path ++ [.key m.1]) m.2 = [] := by
  have hstray : unlisted listed ms = [] ↔ ∀ m ∈ ms, ∃ c, listed.lookup m.1 = some c := by
    simp only [unlisted, List.map_eq_nil_iff, List.filter_eq_nil_iff, Bool.not_eq_true,
      Option.isNone_eq_false_iff, Option.isSome_iff_exists]
  rw [closed, List.append_eq_nil_iff, List.flatMap_eq_nil_iff, stray_eq_nil_iff, hstray,
    ← forall₂_and]
  refine forall₂_congr fun m _ => ?_
  unfold ifListed
  cases listed.lookup m.1 <;> simp

end Draft7.Check

namespace JsonSchema

open Draft7

variable {rules : Rules} {fr : Frame} {path : Path} {ms : List (String × Json)} {name : String}

/-- An object passes the checks of a class without a member that is not due. -/
lemma check_class_remove (hms : (ms.map Prod.fst).Nodup) (hname : name ∉ fr.due)
    (h : (classSchema fr).check rules path (.obj ms) = []) :
    (classSchema fr).check rules path (.obj (Members.remove name ms)) = [] := by
  have hparts : ∀ ns, (classSchema fr).check rules path (.obj ns) = [] ↔
      Check.required fr.due path (.obj ns) = [] ∧
        Check.closed (Schema.namedChecks rules.inside (listed fr)) path (.obj ns) = [] := by
    intro ns
    simp [classSchema, Schema.check, Schema.checks, Check.every, Check.test, TypeName.admits]
  obtain ⟨hrequired, hclosed⟩ := (hparts ms).mp h
  rw [required_eq_nil_iff] at hrequired
  rw [Check.closed_eq_nil_iff] at hclosed
  refine (hparts _).mpr ⟨required_eq_nil_iff.mpr fun other hother => ?_,
    Check.closed_eq_nil_iff.mpr fun m hm => hclosed m (Members.mem_of_mem_remove hm)⟩
  obtain ⟨v, hv⟩ := hrequired other hother
  have hne : other ≠ name := by rintro rfl; exact hname hother
  exact ⟨v, (Members.mem_remove hms).mpr ⟨hv, hne⟩⟩

variable {m : Model} {context : GraphContext} {g : GraphSchema} {c : String} {source : Json}
  {e : Engine} {config : ValidationConfig}

/-- What a class requires is what is due in its frame. -/
lemma requires_iff {definitions : List (String × Json)} :
    Requires (.obj (("definitions", .obj definitions) :: shallow fr)) name ↔ name ∈ fr.due := by
  have hmember : (Json.obj (("definitions", .obj definitions) :: shallow fr)).member? "required" =
      some (Json.strings fr.due) := rfl
  simp [Requires, hmember, Json.strings]

/-- **What a class does not require can be left out.** A document that the engine for a class of an
accepted model finds valid is valid without a member that the schema of the class does not ask
for. -/
theorem validate_remove (hg : GraphSchema.ofModel m context = .ok g)
    (hsource : g.schemaForClass c = .ok source) (he : Engine.compile source config = .ok e)
    (hms : (ms.map Prod.fst).Nodup) (hname : ¬ Requires source name)
    (h : e.validate (.obj ms) = []) : e.validate (.obj (Members.remove name ms)) = [] := by
  obtain ⟨root, definitions, hroot, rfl, -⟩ := GraphSchema.parts_of_schema hsource
  obtain ⟨-, hd⟩ := GraphSchema.describes_of_frame hg hroot
  obtain ⟨lib, -, rfl⟩ := Engine.parts_of_compile he
  rw [requires_iff] at hname
  rw [Engine.validate_eq_nil_iff, Engine.faults, Library.faults, ofJson_definitions,
    ofJson_shallow "unknown" hd.nodup] at h ⊢
  -- the levels of the whole document serve for what is left of it
  rw [lib.check_rules _ _ le_rfl (Json.depth_remove_le name ms)]
  exact check_class_remove hms hname h

end JsonSchema

end RecordCuration
