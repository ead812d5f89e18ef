import RecordCuration.Engine
import RecordCuration.Proofs.Json.WellFormed
import RecordCuration.Proofs.Outcome

/-!
Libraries collected from references.

Collecting is a search in depth: an entry is in the library before the references of its schema are
followed, and all of them are when the call returns. When the references that can occur are some of
a list, no more schemas are added one inside the other than the list is long.
-/

namespace RecordCuration.Draft7.Library

open Schema (Need)

variable {formats : Bool} {source : Json} {targets : List String} {lib lib' : Library}
  {needs : List Need}

/-- References of a list lead to schemas whose references are in the list. -/
def ClosedUnder (formats : Bool) (source : Json) (targets : List String) : Prop :=
  ∀ t ∈ targets, ∀ s, Reference.schemaAt source t = .ok s →
    ∀ u, Need.target u ∈ s.needs formats → u ∈ targets

/-- A library of schemas for references of a list, each once. -/
structure Part (source : Json) (targets : List String) (lib : Library) : Prop where
  nodup : (lib.map Prod.fst).Nodup
  subset : lib.map Prod.fst ⊆ targets
  entry : ∀ p ∈ lib, Reference.schemaAt source p.1 = .ok p.2

/-- Every need that names a reference finds it in a library. -/
def Meets (lib : Library) (needs : List Need) : Prop :=
  ∀ u, Need.target u ∈ needs → (lib.lookup u).isSome

/-- A later library: nothing is lost, and what is new has all that its schema needs. -/
structure Grows (formats : Bool) (lib lib' : Library) : Prop where
  keeps : ∀ t s, lib.lookup t = some s → lib'.lookup t = some s
  closed : ∀ t s, lib'.lookup t = some s → lib.lookup t = none → Meets lib' (s.needs formats)
  length_le : lib.length ≤ lib'.length

namespace Grows

lemma refl (lib : Library) : Grows formats lib lib :=
  ⟨fun _ _ h => h, fun t s h hn => (by rw [h] at hn; cases hn), le_rfl⟩

lemma isSome (h : Grows formats lib lib') {t : String} (ht : (lib.lookup t).isSome) :
    (lib'.lookup t).isSome := by
  obtain ⟨s, hs⟩ := Option.isSome_iff_exists.mp ht
  rw [h.keeps t s hs]; rfl

lemma meets (h : Grows formats lib lib') (hm : Meets lib needs) : Meets lib' needs :=
  fun u hu => h.isSome (hm u hu)

lemma trans {mid : Library} (h : Grows formats lib mid) (h' : Grows formats mid lib') :
    Grows formats lib lib' := by
  refine ⟨fun t s ht => h'.keeps t s (h.keeps t s ht), fun t s ht hn => ?_,
    h.length_le.trans h'.length_le⟩
  cases hm : mid.lookup t with
  | none => exact h'.closed t s ht hm
  | some s' =>
    obtain rfl : s' = s := Option.some.inj ((h'.keeps t s' hm).symm.trans ht)
    exact h'.meets (h.closed t s' hm hn)

end Grows

lemma lookup_snoc (lib : Library) (t u : String) (s : Schema) :
    List.lookup u (lib ++ [(t, s)]) =
      (lib.lookup u).or (if u = t then some s else none) := by
  rw [List.lookup_append]
  by_cases h : u = t
  · simp [h]
  · simp [h, List.lookup_cons, beq_false_of_ne h]

/-- What one need does to a library. -/
def meet (formats : Bool) (source : Json) (room : ℕ) (lib : Library) :
    Need → Except SchemaFault Library
  | .never cause => .error (.misfit cause)
  | .target t =>
    if (lib.lookup t).isSome then .ok lib
    else do
      let s ← (Reference.schemaAt source t).mapError .reference
      collect formats source room (s.needs formats) (lib ++ [(t, s)])

lemma collect_succ (room : ℕ) (needs : List Need) (lib : Library) :
    collect formats source (room + 1) needs lib = needs.foldlM (meet formats source room) lib := by
  cases needs with
  | nil => rfl
  | cons need needs =>
    rw [collect]
    · refine congrArg (fun f => List.foldlM f lib (need :: needs)) ?_
      funext lib need
      cases need <;> rfl
    · exact List.cons_ne_nil need needs

lemma Part.snoc (h : Part source targets lib) {t : String} {s : Schema}
    (hnone : lib.lookup t = none) (ht : t ∈ targets)
    (hs : Reference.schemaAt source t = .ok s) : Part source targets (lib ++ [(t, s)]) := by
  have hnot : t ∉ lib.map Prod.fst := by
    rw [← Json.lookup_isSome_iff, hnone]; simp
  refine ⟨?_, ?_, ?_⟩
  · rw [List.map_append, List.nodup_append]
    refine ⟨h.nodup, by simp, fun a ha b hb => ?_⟩
    have hb : b = t := by simpa using hb
    rintro rfl
    exact hnot (hb ▸ ha)
  · rw [List.map_append, List.append_subset]
    exact ⟨h.subset, by simpa using ht⟩
  · intro p hp
    rcases List.mem_append.mp hp with hp | hp
    · exact h.entry p hp
    · rw [List.mem_singleton] at hp
      subst hp; exact hs

/-- What a call on a part of the library achieves. -/
def Collects (formats : Bool) (source : Json) (targets : List String)
    (call : Library → Except SchemaFault Library) (needs : List Need) (room : ℕ) : Prop :=
  ∀ {lib lib' : Library}, Part source targets lib → targets.length < room + lib.length →
    call lib = .ok lib' → Part source targets lib' ∧ Grows formats lib lib' ∧ Meets lib' needs

lemma collects_meet (hc : ClosedUnder formats source targets) {room : ℕ}
    (ih : ∀ needs, (∀ u, Need.target u ∈ needs → u ∈ targets) →
      Collects formats source targets (collect formats source room needs) needs room)
    {need : Need} (hneed : ∀ u, need = .target u → u ∈ targets) :
    Collects formats source targets (fun lib => meet formats source room lib need) [need]
      (room + 1) := by
  intro lib lib' hp hroom h
  cases need with
  | never cause => cases h
  | target t =>
    have ht := hneed t rfl
    have hmeets : ∀ {l : Library}, (l.lookup t).isSome → Meets l [.target t] := by
      intro l hl u hu
      rw [List.mem_singleton] at hu
      cases hu; exact hl
    simp only [meet] at h
    split_ifs at h with hsome
    · cases h; exact ⟨hp, .refl lib, hmeets hsome⟩
    · obtain ⟨s, hs, hrec⟩ := bind_eq_ok_iff.mp h
      rw [mapError_eq_ok_iff] at hs
      have hnone : lib.lookup t = none := Option.not_isSome_iff_eq_none.mp hsome
      have hlength : targets.length < room + (lib ++ [(t, s)]).length := by
        rw [List.length_append, List.length_singleton]; omega
      obtain ⟨hp', hg, hm⟩ := ih _ (hc t ht s hs) (hp.snoc hnone ht hs) hlength hrec
      have hself : (lib ++ [(t, s)]).lookup t = some s := by simp [lookup_snoc, hnone]
      refine ⟨hp', ⟨fun u s' hu => hg.keeps u s' ?_, fun u s' hu hn => ?_, ?_⟩, hmeets ?_⟩
      · simp [lookup_snoc, hu]
      · by_cases he : u = t
        · subst he
          obtain rfl : s = s' := Option.some.inj ((hg.keeps u s hself).symm.trans hu)
          exact hm
        · exact hg.closed u s' hu (by simp [lookup_snoc, hn, he])
      · have := hg.length_le
        rw [List.length_append, List.length_singleton] at this
        omega
      · rw [hg.keeps t s hself]; rfl

lemma collects_foldlM {step : Library → Need → Except SchemaFault Library} {room : ℕ}
    (hstep : ∀ need ∈ needs,
      Collects formats source targets (fun lib => step lib need) [need] room) :
    Collects formats source targets (needs.foldlM step) needs room := by
  intro lib lib' hp hroom h
  induction needs generalizing lib with
  | nil => cases h; exact ⟨hp, .refl _, fun u hu => by cases hu⟩
  | cons need needs ih =>
    obtain ⟨hfirst, hrest⟩ := List.forall_mem_cons.mp hstep
    obtain ⟨mid, hmid, h⟩ := bind_eq_ok_iff.mp h
    obtain ⟨hp1, hg1, hm1⟩ := hfirst hp hroom hmid
    have := hg1.length_le
    obtain ⟨hp2, hg2, hm2⟩ := ih hrest hp1 (by omega) h
    refine ⟨hp2, hg1.trans hg2, fun u hu => ?_⟩
    rcases List.mem_cons.mp hu with rfl | hu
    · exact hg2.isSome (hm1 u (by simp))
    · exact hm2 u hu

/-- **Collecting is complete**: when the list of references that can occur is shorter than the room
and the library together, a call ends with all that its needs lead to. -/
theorem collects (hc : ClosedUnder formats source targets) (room : ℕ) (needs : List Need)
    (hneeds : ∀ u, Need.target u ∈ needs → u ∈ targets) :
    Collects formats source targets (collect formats source room needs) needs room := by
  induction room generalizing needs with
  | zero =>
    -- as many schemas as there are references, and one more
    intro lib lib' hp hroom _
    have hle := (List.subperm_of_subset hp.nodup hp.subset).length_le
    rw [List.length_map] at hle
    omega
  | succ room ih =>
    intro lib lib' hp hroom h
    rw [collect_succ] at h
    exact collects_foldlM (fun need hm => collects_meet hc ih fun u hu => hneeds u (hu ▸ hm))
      hp hroom h

end RecordCuration.Draft7.Library

namespace RecordCuration

open Draft7

/-- An engine has the schema that is read from its source and the library collected for it. -/
lemma Engine.parts_of_compile {source : Json} {config : ValidationConfig} {e : Engine}
    (h : Engine.compile source config = .ok e) :
    ∃ lib, Library.ofSchema config.formats source (Schema.ofJson "unknown" source) = .ok lib ∧
      e = ⟨Schema.ofJson "unknown" source, lib, config⟩ := by
  unfold Engine.compile at h
  split at h
  · cases h
  · obtain ⟨lib, hlib, rfl⟩ := map_eq_ok_iff.mp h
    exact ⟨lib, hlib, rfl⟩

end RecordCuration
