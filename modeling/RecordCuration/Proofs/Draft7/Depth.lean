import RecordCuration.Draft7.Check
import RecordCuration.Proofs.Json.Size

/-!
The faults of a value do not depend on how deep the document is that it stands in.

A library follows references level by level, as many levels as the document nests. Of these a value
only meets those that it nests itself: every schema finds the same in it by rules that agree on
what nests less than a bound, when the value does.
-/

namespace RecordCuration.Draft7

open Json

/-- Checks that find the same in values that nest less than a bound. -/
def Check.AgreeBelow (bound : ℕ) (c d : Check) : Prop :=
  ∀ path v, v.depth < bound → c path v = d path v

/-- Rules by which references lead to such checks, at a value and at its parts. -/
structure Rules.AgreeBelow (bound : ℕ) (r q : Rules) : Prop where
  formats : r.formats = q.formats
  follow : ∀ target, (r.follow target).AgreeBelow bound (q.follow target)
  step : ∀ target, (r.step target).AgreeBelow (bound - 1) (q.step target)

lemma Rules.AgreeBelow.inside {bound : ℕ} {r q : Rules} (h : r.AgreeBelow bound q) :
    r.inside.AgreeBelow (bound - 1) q.inside :=
  ⟨h.formats, h.step, fun target path v hv => h.step target path v (by omega)⟩

/-! ### Schemas -/

namespace Schema

/-- A schema that finds the same by rules that agree. -/
def Steady (s : Schema) : Prop :=
  ∀ (bound : ℕ) (r q : Rules), r.AgreeBelow bound q →
    (s.check r).AgreeBelow bound (s.check q)

variable {s rest : Schema} {ss : List Schema} {ps : List (String × Schema)}

/-- A check that no reference is in. -/
lemma steady_of_plain (h : ∀ r q : Rules, r.formats = q.formats → s.check r = s.check q) :
    s.Steady := by
  intro bound r q hrules path v _
  rw [h r q hrules.formats]

lemma steady_reference (target : String) : (reference target).Steady :=
  fun _ _ _ hrules => hrules.follow target

lemma steady_all (h : ∀ s ∈ ss, s.Steady) : (all ss).Steady := by
  intro bound r q hrules path v hv
  simp only [check, checks_eq, Check.every, List.flatMap_map]
  exact List.flatMap_congr fun s hs => h s hs bound r q hrules path v hv

/-! Schemas of parts -/

lemma steady_properties (h : ∀ p ∈ ps, p.2.Steady) : (properties ps).Steady := by
  intro bound r q hrules path v hv
  cases v with
  | obj ms =>
    simp only [check, namedChecks_eq, Check.properties, List.flatMap_map]
    refine List.flatMap_congr fun p hp => ?_
    cases hw : ms.lookup p.1 with
    | none => rfl
    | some w =>
      have hlt : w.depth < (Json.obj ms).depth := depth_lt_of_member (mem_of_lookup hw)
      exact h p hp _ _ _ hrules.inside _ w (by omega)
  | _ => rfl

lemma steady_closed (h : ∀ p ∈ ps, p.2.Steady) : (closed ps).Steady := by
  intro bound r q hrules path v hv
  cases v with
  | obj ms =>
    have hmember : ∀ m ∈ ms, Check.ifListed (namedChecks r.inside ps) path m =
        Check.ifListed (namedChecks q.inside ps) path m := by
      intro m hm
      have hlt := depth_lt_of_member hm
      simp only [Check.ifListed, lookup_namedChecks]
      cases hs : ps.lookup m.1 with
      | none => rfl
      | some s => exact h _ (mem_of_lookup hs) _ _ _ hrules.inside _ m.2 (by omega)
    simp only [check, Check.closed, Check.unlisted, List.flatMap_congr hmember, lookup_namedChecks,
      Option.isNone_map]
  | _ => rfl

lemma steady_others (h : ∀ p ∈ ps, p.2.Steady) (hrest : rest.Steady) :
    (others ps rest).Steady := by
  intro bound r q hrules path v hv
  cases v with
  | obj ms =>
    simp only [check, Check.others, lookup_namedChecks]
    refine List.flatMap_congr fun m hm => ?_
    have hlt := depth_lt_of_member hm
    cases hs : ps.lookup m.1 with
    | none => exact hrest _ _ _ hrules.inside _ m.2 (by omega)
    | some s => exact h _ (mem_of_lookup hs) _ _ _ hrules.inside _ m.2 (by omega)
  | _ => rfl

lemma steady_items (h : s.Steady) : (items s).Steady := by
  intro bound r q hrules path v hv
  cases v with
  | arr xs =>
    refine List.flatMap_congr fun x hx => ?_
    have hlt := depth_lt_of_item (List.fst_mem_of_mem_zipIdx hx)
    exact h _ _ _ hrules.inside _ x.1 (by omega)
  | _ => rfl

lemma steady_itemsInTurn (h : ∀ s ∈ ss, s.Steady) : (itemsInTurn ss).Steady := by
  intro bound r q hrules path v hv
  cases v with
  | arr xs =>
    simp only [check, checks_eq, Check.itemsInTurn, List.zip_map_left, List.zipIdx_map,
      List.flatMap_map]
    refine List.flatMap_congr fun x hx => ?_
    have hmem := List.of_mem_zip (List.fst_mem_of_mem_zipIdx hx)
    have hlt : x.1.2.depth < (Json.arr xs).depth := depth_lt_of_item hmem.2
    exact h _ hmem.1 _ _ _ hrules.inside _ x.1.2 (by omega)
  | _ => rfl

/-! Schemas that only ask whether others find nothing -/

lemma Steady.passes_eq (h : s.Steady) {bound : ℕ} {r q : Rules} (hrules : r.AgreeBelow bound q)
    (path : Path) {v : Json} (hv : v.depth < bound) :
    (s.check r).passes path v = (s.check q).passes path v :=
  congrArg List.isEmpty (h bound r q hrules path v hv)

lemma steady_not (h : s.Steady) (source : Json) : (Schema.not s source).Steady := by
  intro bound r q hrules path v hv
  simp only [check, notCheck, h.passes_eq hrules path hv]

lemma steady_anyOf (h : ∀ s ∈ ss, s.Steady) : (anyOf ss).Steady := by
  intro bound r q hrules path v hv
  have hany : (ss.any fun s => (s.check r).passes path v) =
      ss.any fun s => (s.check q).passes path v := by
    rw [Bool.eq_iff_iff, List.any_eq_true, List.any_eq_true]
    exact exists_congr fun s => and_congr_right fun hs => by
      rw [(h s hs).passes_eq hrules path hv]
  simp only [check, anyOfCheck, checks_eq, List.any_map, Function.comp_def, hany]

lemma steady_oneOf (h : ∀ s ∈ ss, s.Steady) : (oneOf ss).Steady := by
  intro bound r q hrules path v hv
  have hfilter : (ss.filter fun s => (s.check r).passes path v) =
      ss.filter fun s => (s.check q).passes path v :=
    List.filter_congr fun s hs => (h s hs).passes_eq hrules path hv
  simp only [check, oneOfCheck, checks_eq, List.filter_map, List.length_map, Function.comp_def,
    hfilter]

mutual
theorem steady : ∀ s : Schema, s.Steady
  | .all ss => steady_all (steady_list ss)
  | .reference target => steady_reference target
  | .properties ps => steady_properties (steady_named ps)
  | .closed ps => steady_closed (steady_named ps)
  | .others ps rest => steady_others (steady_named ps) (steady rest)
  | .items s => steady_items (steady s)
  | .itemsInTurn ss => steady_itemsInTurn (steady_list ss)
  | .not s source => steady_not (steady s) source
  | .anyOf ss => steady_anyOf (steady_list ss)
  | .oneOf ss => steady_oneOf (steady_list ss)
  | .format f => steady_of_plain fun r q h => by simp only [check, h]
  | .never _ | .misfit _ | .type _ | .required _ | .noMembers | .enum _ | .const _
  | .atLeast _ _ | .atMost _ _ | .bound _ _ | .unique => steady_of_plain fun _ _ _ => rfl
theorem steady_list : ∀ ss : List Schema, ∀ s ∈ ss, s.Steady
  | [] => by simp
  | s :: ss => List.forall_mem_cons.mpr ⟨steady s, steady_list ss⟩
theorem steady_named : ∀ ps : List (String × Schema), ∀ p ∈ ps, p.2.Steady
  | [] => by simp
  | (_, s) :: ps => List.forall_mem_cons.mpr ⟨steady s, steady_named ps⟩
end

end Schema

/-! ### Libraries -/

namespace Library

variable (lib : Library) (formats : Bool) {bound levels more : ℕ}

lemma followFrom_agree {step other : String → Check}
    (h : ∀ target, (step target).AgreeBelow bound (other target)) (hops : ℕ) (target : String) :
    (lib.followFrom formats step hops target).AgreeBelow (bound + 1)
      (lib.followFrom formats other hops target) := by
  induction hops generalizing target with
  | zero => exact fun _ _ _ => rfl
  | succ hops ih =>
    unfold followFrom
    split
    · exact fun _ _ _ => rfl
    · exact Schema.steady _ _ _ _ ⟨rfl, ih, h⟩

/-- More levels lead nowhere else, at a value that nests less than there are. -/
lemma follow_agree (h : levels ≤ more) (target : String) :
    (lib.follow formats levels target).AgreeBelow levels (lib.follow formats more target) := by
  induction levels generalizing more target with
  | zero => exact fun _ _ hv => absurd hv (Nat.not_lt_zero _)
  | succ levels ih =>
    obtain ⟨more, rfl⟩ : ∃ n, more = n + 1 := ⟨more - 1, by omega⟩
    exact lib.followFrom_agree formats (fun target => ih (by omega) target) _ target

lemma rules_agree (h : levels ≤ more) :
    (lib.rules formats levels).AgreeBelow (levels + 1) (lib.rules formats more) :=
  ⟨rfl, lib.follow_agree formats (by omega), lib.follow_agree formats h⟩

/-- **Only the depth of a value counts**: at a value that nests no more than `levels`, every schema
finds by more levels what it finds by these. -/
theorem check_rules (s : Schema) {v : Json} (hv : v.depth ≤ levels) (h : levels ≤ more)
    (path : Path) :
    s.check (lib.rules formats levels) path v = s.check (lib.rules formats more) path v :=
  s.steady _ _ _ (lib.rules_agree formats h) path v (by omega)

end Library

end RecordCuration.Draft7
