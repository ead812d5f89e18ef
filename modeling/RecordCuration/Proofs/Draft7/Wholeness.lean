import RecordCuration.Engine
import RecordCuration.Proofs.Draft7.Library
import RecordCuration.Proofs.Json.Number

/-!
What validation sees of a double.

A schema in which no number stands, and nothing is `true`, measures no number: it sets no bound and
no constant to one, and compares no items. All that it tells of a double is whether the double is
whole. So a document keeps to such a schema, or fails it, whatever other doubles stand in the places
of its own, as long as those that are whole stay so.
-/

namespace RecordCuration

namespace Draft7

open Decimal (Double)
open Json

variable {f : Double → Double}

/-- A check that a value passes whatever other doubles stand in it. -/
def Check.Blind (f : Double → Double) (c : Check) : Prop :=
  ∀ path v, c path (v.mapReals f) = [] ↔ c path v = []

/-- Rules by which references lead to such checks. -/
structure Rules.Blind (f : Double → Double) (r : Rules) : Prop where
  follow : ∀ target, (r.follow target).Blind f
  step : ∀ target, (r.step target).Blind f

lemma Rules.Blind.inside {r : Rules} (h : r.Blind f) : r.inside.Blind f := ⟨h.step, h.step⟩

namespace Check

variable {c : Check} {cs : List Check} {listed : List (String × Check)}

lemma Blind.passes_eq (h : c.Blind f) (path : Path) (v : Json) :
    c.passes path (v.mapReals f) = c.passes path v := by
  rw [Bool.eq_iff_iff, passes, passes, List.isEmpty_iff, List.isEmpty_iff]
  exact h path v

lemma blind_nothing : Blind f fun _ _ => [] := fun _ _ => Iff.rfl

lemma blind_fault (violation : Violation) : (fault violation).Blind f := by
  intro path v
  simp [fault]

lemma blind_test {ok : Json → Bool} {violation : Violation}
    (h : ∀ v, ok (v.mapReals f) = ok v) : (test ok violation).Blind f := by
  intro path v
  cases hok : ok v <;> simp [test, h, hok, fault]

lemma blind_every (h : ∀ c ∈ cs, c.Blind f) : (every cs).Blind f := by
  intro path v
  simp only [every, List.flatMap_eq_nil_iff]
  exact forall₂_congr fun c hc => h c hc path v

lemma blind_required (names : List String) : (required names).Blind f := by
  intro path v
  cases v with
  | obj ms => simp [required, Members.lookup_map, fault]
  | arr xs => simp [required]
  | _ => exact Iff.rfl

lemma blind_properties (h : ∀ p ∈ listed, p.2.Blind f) : (properties listed).Blind f := by
  intro path v
  cases v with
  | obj ms =>
    simp only [mapReals_obj, properties, List.flatMap_eq_nil_iff, Members.lookup_map]
    refine forall₂_congr fun p hp => ?_
    cases ms.lookup p.1 with
    | none => exact Iff.rfl
    | some w => exact h p hp _ w
  | arr xs => simp [properties]
  | _ => exact Iff.rfl

lemma unlisted_mapReals (ms : List (String × Json)) :
    unlisted listed (ms.map fun m => (m.1, m.2.mapReals f)) = unlisted listed ms := by
  induction ms with
  | nil => rfl
  | cons m ms ih =>
    obtain ⟨k, v⟩ := m
    simp only [unlisted, List.map_cons, List.filter_cons] at ih ⊢
    split_ifs <;> simp [ih]

lemma blind_stray (names : List String) : (stray names).Blind f :=
  fun _ _ => stray_eq_nil_iff.trans stray_eq_nil_iff.symm

lemma blind_closed (h : ∀ p ∈ listed, p.2.Blind f) : (closed listed).Blind f := by
  intro path v
  cases v with
  | obj ms =>
    simp only [mapReals_obj, closed, unlisted_mapReals, List.append_eq_nil_iff,
      List.flatMap_eq_nil_iff, List.forall_mem_map]
    refine and_congr (forall₂_congr fun m _ => ?_) ?_
    · simp only [ifListed]
      cases hc : listed.lookup m.1 with
      | none => exact Iff.rfl
      | some c => exact h _ (mem_of_lookup hc) _ m.2
    · rw [← mapReals_obj]
      exact blind_stray _ path (.obj ms)
  | arr xs => simp [closed]
  | _ => exact Iff.rfl

lemma blind_others (h : ∀ p ∈ listed, p.2.Blind f) (hc : c.Blind f) :
    (others listed c).Blind f := by
  intro path v
  cases v with
  | obj ms =>
    simp only [mapReals_obj, others, List.flatMap_eq_nil_iff, List.forall_mem_map]
    refine forall₂_congr fun m _ => ?_
    cases hl : listed.lookup m.1 with
    | none => exact hc _ m.2
    | some d => exact h _ (mem_of_lookup hl) _ m.2
  | arr xs => simp [others]
  | _ => exact Iff.rfl

lemma blind_noMembers : noMembers.Blind f := by
  intro path v
  cases v with
  | obj ms => cases ms <;> simp [noMembers]
  | arr xs => simp [noMembers]
  | _ => exact Iff.rfl

lemma blind_items (hc : c.Blind f) : (items c).Blind f := by
  intro path v
  cases v with
  | arr xs =>
    simp only [mapReals_arr, items, List.zipIdx_map, List.flatMap_eq_nil_iff, List.forall_mem_map]
    exact forall₂_congr fun x _ => hc _ x.1
  | obj ms => simp [items]
  | _ => exact Iff.rfl

lemma blind_itemsInTurn (h : ∀ c ∈ cs, c.Blind f) : (itemsInTurn cs).Blind f := by
  intro path v
  cases v with
  | arr xs =>
    simp only [mapReals_arr, itemsInTurn, List.zip_map_right, List.zipIdx_map,
      List.flatMap_eq_nil_iff, List.forall_mem_map]
    refine forall₂_congr fun x hx => ?_
    have hzip := List.mem_of_getElem? (List.mem_zipIdx_iff_getElem?.mp hx)
    exact h _ (List.of_mem_zip hzip).1 _ x.1.2
  | obj ms => simp [itemsInTurn]
  | _ => exact Iff.rfl

end Check

/-! ### Values under constraints -/

section Constraints

variable {o v : Json}

lemma TypeName.admits_mapReals (hf : ∀ x, (f x).isWhole = x.isWhole) (t : TypeName) (v : Json) :
    t.admits (v.mapReals f) = t.admits v := by
  cases v with
  | real x =>
    cases t with
    | integer => exact hf x
    | _ => rfl
  | arr xs => cases t <;> simp [admits]
  | obj ms => cases t <;> simp [admits]
  | _ => rfl

lemma equalItems_mapReals {os : List Json}
    (h : ∀ o ∈ os, ∀ v, equal o (v.mapReals f) = equal o v) (xs : List Json) :
    equalItems os (xs.map (mapReals f)) = equalItems os xs := by
  induction os generalizing xs with
  | nil => cases xs <;> rfl
  | cons o os ih =>
    obtain ⟨ho, hos⟩ := List.forall_mem_cons.mp h
    cases xs with
    | nil => rfl
    | cons x xs => rw [List.map_cons, equalItems, equalItems, ho, ih hos]

lemma equalMembers_mapReals {os : List (String × Json)}
    (h : ∀ o ∈ os, ∀ v, equal o.2 (v.mapReals f) = equal o.2 v) (ms : List (String × Json)) :
    equalMembers os (ms.map fun m => (m.1, m.2.mapReals f)) = equalMembers os ms := by
  induction os generalizing ms with
  | nil => cases ms <;> rfl
  | cons o os ih =>
    obtain ⟨k, o⟩ := o
    obtain ⟨ho, hos⟩ := List.forall_mem_cons.mp h
    cases ms with
    | nil => rfl
    | cons m ms => rw [List.map_cons, equalMembers, equalMembers, ho, ih hos]

/-- What holds no number is equal to a value or not, whatever doubles stand there. -/
lemma equal_mapReals (ho : o.Measureless) (v : Json) : equal o (v.mapReals f) = equal o v := by
  induction o generalizing v with
  | int n => exact absurd trivial (ho _ .self).1
  | real x => exact absurd trivial (ho _ .self).1
  | arr os ih =>
    cases v with
    | arr xs =>
      rw [mapReals_arr, equal, equal]
      exact equalItems_mapReals (fun o hmem => ih o hmem (ho.item hmem)) xs
    | obj ms => simp [equal]
    | _ => rfl
  | obj os ih =>
    cases v with
    | obj ms =>
      rw [mapReals_obj, equal, equal]
      exact equalMembers_mapReals (fun o hmem => ih o hmem (ho.member hmem)) ms
    | arr xs => simp [equal]
    | _ => rfl
  | _ =>
    cases v with
    | arr xs => simp [equal]
    | obj ms => simp [equal]
    | _ => rfl

lemma isConst_mapReals (ho : o.Measureless) (v : Json) :
    isConst o (v.mapReals f) = isConst o v := by
  have hunits : nearestUnits? o = none := by
    cases o with
    | int n => exact absurd trivial (ho _ .self).1
    | real x => exact absurd trivial (ho _ .self).1
    | _ => rfl
  simp [isConst, hunits, equal_mapReals ho]

lemma size?_mapReals (m : Measure) (v : Json) : m.size? (v.mapReals f) = m.size? v := by
  cases v with
  | arr xs => cases m <;> simp [Measure.size?]
  | obj ms => cases m <;> simp [Measure.size?]
  | _ => cases m <;> rfl

lemma FormatName.admitsValue_mapReals (format : FormatName) (v : Json) :
    format.admitsValue (v.mapReals f) = format.admitsValue v := by
  cases v with
  | arr xs => simp [admitsValue]
  | obj ms => simp [admitsValue]
  | _ => rfl

end Constraints

/-! ### Schemas -/

namespace Schema

open Check

variable {r : Rules} {s : Schema} {place : String} {value : Json} {part : Part} {ps : Parts}

/-- A schema whose check is blind where references lead to such checks. -/
def Blind (f : Double → Double) (s : Schema) : Prop := ∀ r : Rules, r.Blind f → (s.check r).Blind f

lemma blind_checks (hr : r.Blind f) {ss : List Schema} (h : ∀ s ∈ ss, s.Blind f) :
    ∀ c ∈ checks r ss, c.Blind f := by
  rw [checks_eq, List.forall_mem_map]
  exact fun s hs => h s hs r hr

lemma blind_namedChecks (hr : r.Blind f) {listed : List (String × Schema)}
    (h : ∀ p ∈ listed, p.2.Blind f) : ∀ p ∈ namedChecks r listed, p.2.Blind f := by
  rw [namedChecks_eq, List.forall_mem_map]
  exact fun p hp => h p hp r hr

lemma blind_anyOf {ss : List Schema} (h : ∀ s ∈ ss, s.Blind f) : (anyOf ss).Blind f := by
  intro r hr path v
  have hany : (checks r ss).any (·.passes path (v.mapReals f)) =
      (checks r ss).any (·.passes path v) := by
    rw [Bool.eq_iff_iff, List.any_eq_true, List.any_eq_true]
    exact exists_congr fun c => and_congr_right fun hc => by
      rw [(blind_checks hr h c hc).passes_eq path v]
  show anyOfCheck (checks r ss) path (v.mapReals f) = [] ↔ anyOfCheck (checks r ss) path v = []
  simp only [anyOfCheck, hany]
  split <;> simp [fault]

lemma blind_oneOf {ss : List Schema} (h : ∀ s ∈ ss, s.Blind f) : (oneOf ss).Blind f := by
  intro r hr path v
  have hone : (checks r ss).filter (·.passes path (v.mapReals f)) =
      (checks r ss).filter (·.passes path v) :=
    List.filter_congr fun c hc => (blind_checks hr h c hc).passes_eq path v
  show oneOfCheck (checks r ss) path (v.mapReals f) = [] ↔ oneOfCheck (checks r ss) path v = []
  simp only [oneOfCheck, hone]
  split <;> simp [fault]

lemma blind_not (h : s.Blind f) (source : Json) : (Schema.not s source).Blind f := by
  intro r hr path v
  show notCheck (s.check r) source path (v.mapReals f) = [] ↔
    notCheck (s.check r) source path v = []
  simp only [notCheck, (h r hr).passes_eq path v]
  split <;> simp [fault]

/-- The schemas in the value of a keyword are blind. -/
def Part.Blind (f : Double → Double) : Part → Prop
  | .plain => True
  | .schema s => s.Blind f
  | .list ss => ∀ s ∈ ss, s.Blind f
  | .named listed => ∀ p ∈ listed, p.2.Blind f

lemma blind_misfit (cause : Misfit) : (misfit cause).Blind f :=
  fun _ _ => blind_nothing

lemma blind_checked {α : Type} {make : α → Schema} {x : Except Misfit α}
    (h : ∀ a, x = .ok a → (make a).Blind f) : (checked make x).Blind f := by
  cases x with
  | ok a => exact h a rfl
  | error cause => exact blind_misfit cause

lemma blind_plainSchema (place : String) (value : Json) :
    (plainSchema place value).Blind f := by
  unfold plainSchema
  split
  · exact fun _ _ => blind_every fun c hc => by simp [checks] at hc
  · exact fun _ _ => blind_fault _
  · exact blind_misfit _

lemma blind_schemaOf (h : part.Blind f) : (schemaOf place value part).Blind f := by
  cases part with
  | schema s => exact h
  | _ => exact blind_plainSchema place value

lemma blind_of_schemasOf (h : part.Blind f) {ss : List Schema}
    (hss : schemasOf value part = .ok ss) : ∀ s ∈ ss, s.Blind f := by
  cases part <;> cases hss
  exact h

lemma blind_of_namedOf (h : part.Blind f) {listed : List (String × Schema)}
    (hlisted : namedOf value part = .ok listed) : ∀ p ∈ listed, p.2.Blind f := by
  cases part <;> cases hlisted
  exact h

lemma blind_type (hf : ∀ x, (f x).isWhole = x.isWhole) (names : List TypeName) :
    (type names).Blind f :=
  fun _ _ => blind_test fun v => by simp only [TypeName.admits_mapReals hf]

lemma blind_enum {options : List Json} (h : ∀ o ∈ options, o.Measureless) :
    (enum options).Blind f := by
  refine fun _ _ => blind_test fun v => ?_
  rw [Bool.eq_iff_iff, List.any_eq_true, List.any_eq_true]
  exact exists_congr fun o => and_congr_right fun ho => by rw [equal_mapReals (h o ho)]

lemma blind_format (format : FormatName) : (Schema.format format).Blind f :=
  fun _ _ => blind_test fun v => by rw [format.admitsValue_mapReals]

lemma blind_atLeast (m : Measure) (n : ℕ) : (atLeast m n).Blind f :=
  fun _ _ => blind_test fun v => by rw [size?_mapReals]

lemma blind_atMost (m : Measure) (n : ℕ) : (atMost m n).Blind f :=
  fun _ _ => blind_test fun v => by rw [size?_mapReals]

/-- What holds no number is no bound. -/
lemma blind_bound (hvalue : value.Measureless) (kind : Bound) :
    (checked (bound kind) (numberOf value)).Blind f := by
  refine blind_checked fun limit hlimit => ?_
  cases value with
  | int n => exact absurd trivial (hvalue _ .self).1
  | real x => exact absurd trivial (hvalue _ .self).1
  | _ => cases hlimit

lemma blind_of_formatCheck? (h : formatCheck? value = some s) : s.Blind f := by
  unfold formatCheck? at h
  split at h
  · split at h
    · cases h
      exact blind_format _
    · split_ifs at h
      cases h
      exact blind_misfit _
  · cases h
    exact blind_misfit _

lemma blind_of_itemsCheck? (hpart : part.Blind f)
    (h : itemsCheck? place value part = some s) : s.Blind f := by
  unfold itemsCheck? at h
  split at h <;> cases h
  · exact fun r hr => blind_items (hpart _ hr.inside)
  · exact fun r hr => blind_itemsInTurn (blind_checks hr.inside hpart)
  · exact fun r hr => blind_items (blind_fault _)

lemma blind_of_properties (hps : ∀ p ∈ ps, p.2.2.Blind f) {listed : List (String × Schema)}
    (h : ps.properties = some (.ok listed)) : ∀ p ∈ listed, p.2.Blind f := by
  obtain ⟨p, hp, hlisted⟩ := Option.map_eq_some_iff.mp h
  exact blind_of_namedOf (hps _ (mem_of_lookup hp)) hlisted

lemma blind_of_additionalCheck? (hpart : part.Blind f) (hps : ∀ p ∈ ps, p.2.2.Blind f)
    (h : additionalCheck? place ps value part = some s) : s.Blind f := by
  unfold additionalCheck? at h
  split at h
  · cases h
  · split at h
    · cases h
      exact fun _ _ => blind_noMembers
    · rename_i listed hlisted
      cases h
      refine blind_checked fun names hnames r hr => ?_
      subst hnames
      exact blind_closed (blind_namedChecks hr.inside (blind_of_properties hps hlisted))
  · cases h
    refine blind_checked fun names hnames r hr => ?_
    refine blind_others (blind_namedChecks hr.inside ?_) (blind_schemaOf hpart _ hr.inside)
    cases hlisted : ps.properties with
    | none =>
      rw [hlisted] at hnames
      cases hnames
      simp
    | some listed =>
      rw [hlisted] at hnames
      exact blind_of_properties hps (hlisted.trans (congrArg some hnames))

/-- The check that a keyword stands for, where its value measures nothing. -/
lemma blind_of_checkOf? (hf : ∀ x, (f x).isWhole = x.isWhole) (hvalue : value.Measureless)
    (hpart : part.Blind f) (hps : ∀ p ∈ ps, p.2.2.Blind f) {keyword : String}
    (h : checkOf? place ps keyword value part = some s) : s.Blind f := by
  unfold checkOf? at h
  split at h
  · cases h; exact blind_checked fun names _ => blind_type hf names
  · cases h; exact blind_checked fun names _ _ _ => blind_required names
  · split_ifs at h
    cases h
    exact blind_checked fun listed hlisted r hr =>
      blind_properties (blind_namedChecks hr.inside (blind_of_namedOf hpart hlisted))
  · exact blind_of_additionalCheck? hpart hps h
  · exact blind_of_itemsCheck? hpart h
  · cases h
    refine blind_checked fun options hoptions => blind_enum fun o ho => ?_
    cases value <;> cases hoptions
    exact hvalue.item ho
  · cases h; exact fun _ _ => blind_test (isConst_mapReals hvalue)
  · exact blind_of_formatCheck? h
  · cases h; exact blind_checked fun n _ => blind_atLeast _ n
  · cases h; exact blind_checked fun n _ => blind_atMost _ n
  · cases h; exact blind_checked fun n _ => blind_atLeast _ n
  · cases h; exact blind_checked fun n _ => blind_atMost _ n
  · cases h; exact blind_checked fun n _ => blind_atLeast _ n
  · cases h; exact blind_checked fun n _ => blind_atMost _ n
  · cases h; exact blind_bound hvalue _
  · cases h; exact blind_bound hvalue _
  · cases h; exact blind_bound hvalue _
  · cases h; exact blind_bound hvalue _
  · -- items are compared where this is `true`
    split_ifs at h with htrue
    split at htrue
    · exact absurd rfl (hvalue _ .self).2
    · cases htrue
  · cases h; exact blind_not (blind_schemaOf hpart) _
  · cases h; exact blind_checked fun ss hss => blind_anyOf (blind_of_schemasOf hpart hss)
  · cases h; exact blind_checked fun ss hss => blind_oneOf (blind_of_schemasOf hpart hss)
  · cases h
    exact blind_checked fun ss hss r hr =>
      blind_every (blind_checks hr (blind_of_schemasOf hpart hss))
  · split_ifs at h
    cases h
    exact blind_misfit _

lemma blind_assemble (hf : ∀ x, (f x).isWhole = x.isWhole)
    (hps : ∀ p ∈ ps, p.2.1.Measureless ∧ p.2.2.Blind f) : (assemble place ps).Blind f := by
  unfold assemble
  split
  · exact blind_checked fun target _ r hr => hr.follow target
  · refine fun r hr => blind_every (blind_checks hr fun s hs => ?_)
    obtain ⟨p, hp, hs⟩ := List.mem_filterMap.mp hs
    exact blind_of_checkOf? hf (hps p hp).1 (hps p hp).2 (fun q hq => (hps q hq).2) hs

lemma blind_partsOf {place : String} {ms : List (String × Json)}
    (h : ∀ m ∈ ms, m.2.Measureless ∧ ∀ place isMap, (partOf place isMap m.2).Blind f) :
    ∀ p ∈ partsOf place ms, p.2.1.Measureless ∧ p.2.2.Blind f := by
  induction ms with
  | nil => simp [partsOf]
  | cons m ms ih =>
    obtain ⟨k, v⟩ := m
    obtain ⟨hv, hms⟩ := List.forall_mem_cons.mp h
    exact List.forall_mem_cons.mpr ⟨⟨hv.1, hv.2 _ _⟩, ih hms⟩

lemma blind_listOf {place : String} {xs : List Json}
    (h : ∀ x ∈ xs, (ofJson place x).Blind f) : ∀ s ∈ listOf place xs, s.Blind f := by
  induction xs with
  | nil => simp [listOf]
  | cons x xs ih =>
    obtain ⟨hx, hxs⟩ := List.forall_mem_cons.mp h
    exact List.forall_mem_cons.mpr ⟨hx, ih hxs⟩

lemma blind_membersOf {place : String} {ms : List (String × Json)}
    (h : ∀ m ∈ ms, ∀ place, (ofJson place m.2).Blind f) :
    ∀ p ∈ membersOf place ms, p.2.Blind f := by
  induction ms with
  | nil => simp [membersOf]
  | cons m ms ih =>
    obtain ⟨hm, hms⟩ := List.forall_mem_cons.mp h
    exact List.forall_mem_cons.mpr ⟨hm _, ih hms⟩

/-- **Schemas without numbers do not see what doubles stand in a value.** -/
theorem blind_ofJson (hf : ∀ x, (f x).isWhole = x.isWhole) {v : Json} (hv : v.Measureless) :
    (∀ place, (ofJson place v).Blind f) ∧ ∀ place isMap, (partOf place isMap v).Blind f := by
  induction v with
  | arr xs ih =>
    exact ⟨fun place => blind_plainSchema place (.arr xs), fun place _ =>
      blind_listOf fun x hx => (ih x hx (hv.item hx)).1 place⟩
  | obj ms ih =>
    have hobject : ∀ place, (assemble place (partsOf place ms)).Blind f := fun place =>
      blind_assemble hf (blind_partsOf fun m hm =>
        ⟨hv.member hm, (ih m hm (hv.member hm)).2⟩)
    refine ⟨hobject, fun place isMap => ?_⟩
    cases isMap with
    | false => exact hobject place
    | true => exact blind_membersOf fun m hm => (ih m hm (hv.member hm)).1
  | _ =>
    refine ⟨fun place => ?_, fun _ _ => trivial⟩
    simp only [ofJson]
    exact blind_plainSchema place _

end Schema

/-! ### Libraries -/

lemma Reference.part_of_resolve {root w : Json} {target : String}
    (h : resolve root target = .ok w) : Part w root := by
  have hstep : ∀ pointer token v w, Part v root → step pointer v token = .ok w → Part w root := by
    intro pointer token v w hv hw
    unfold step at hw
    split at hw
    · split at hw
      · cases hw
      · split at hw
        · rename_i hx
          cases hw
          exact .trans (.item (List.mem_of_getElem? hx) .self) hv
        · cases hw
    · split at hw
      · rename_i hx
        cases hw
        exact .trans (.of_member hx) hv
      · cases hw
  unfold resolve at h
  split at h
  · cases h
    exact .self
  · cases h
    exact .self
  · extract_lets pointer at h
    split at h
    · cases h
    · exact foldlM_keeps (fun token _ v w hv => hstep pointer token v w hv) .self h
  · cases h
  · cases h

namespace Library

variable {formats : Bool} {root : Json} {lib lib' : Library}

/-- Every schema of a library is read from a part of the whole. -/
def ReadFrom (root : Json) (lib : Library) : Prop :=
  ∀ p ∈ lib, ∃ w, Json.Part w root ∧ p.2 = Schema.ofJson "$ref" w

lemma readFrom_of_collect {room : ℕ} {needs : List Schema.Need} (hlib : lib.ReadFrom root)
    (h : collect formats root room needs lib = .ok lib') : lib'.ReadFrom root := by
  induction room generalizing needs lib lib' with
  | zero => cases h; exact hlib
  | succ room ih =>
    rw [collect_succ] at h
    refine foldlM_keeps (fun need _ l l' hl hl' => ?_) hlib h
    cases need with
    | never cause => cases hl'
    | target t =>
      simp only [meet] at hl'
      split_ifs at hl' with hsome
      · cases hl'
        exact hl
      · obtain ⟨s, hs, hl'⟩ := bind_eq_ok_iff.mp hl'
        obtain ⟨w, hw, rfl⟩ := map_eq_ok_iff.mp (mapError_eq_ok_iff.mp hs)
        refine ih (fun p hp => ?_) hl'
        rcases List.mem_append.mp hp with hp | hp
        · exact hl p hp
        · obtain rfl := List.mem_singleton.mp hp
          exact ⟨w, Reference.part_of_resolve hw, rfl⟩

lemma blind_followFrom (hf : ∀ x, (f x).isWhole = x.isWhole) (hroot : root.Measureless)
    (hlib : lib.ReadFrom root) {step : String → Check} (hstep : ∀ target, (step target).Blind f)
    (hops : ℕ) (target : String) : (lib.followFrom formats step hops target).Blind f := by
  induction hops generalizing target with
  | zero => exact Check.blind_nothing
  | succ hops ih =>
    unfold followFrom
    split
    · exact Check.blind_nothing
    · rename_i s hs
      obtain ⟨w, hw, hread⟩ := hlib _ (mem_of_lookup hs)
      obtain rfl : s = Schema.ofJson "$ref" w := hread
      exact (Schema.blind_ofJson hf (hroot.part hw)).1 "$ref" _ ⟨ih, hstep⟩

lemma blind_follow (hf : ∀ x, (f x).isWhole = x.isWhole) (hroot : root.Measureless)
    (hlib : lib.ReadFrom root) (levels : ℕ) (target : String) :
    (lib.follow formats levels target).Blind f := by
  induction levels generalizing target with
  | zero => exact Check.blind_nothing
  | succ levels ih => exact blind_followFrom hf hroot hlib ih _ target

lemma blind_rules (hf : ∀ x, (f x).isWhole = x.isWhole) (hroot : root.Measureless)
    (hlib : lib.ReadFrom root) (levels : ℕ) : (lib.rules formats levels).Blind f :=
  ⟨blind_follow hf hroot hlib _, blind_follow hf hroot hlib _⟩

end Library

end Draft7

namespace Engine

open Draft7 Json

variable {e : Engine} {source doc : Json} {config : ValidationConfig}

/-- However few issues are kept, none are only where there is no fault. -/
lemma validate_eq_nil_iff : e.validate doc = [] ↔ e.faults doc = [] :=
  Validator.validate_eq_nil_iff.trans List.map_eq_nil_iff

/-- **Validation sees of a double whether it is whole.** An engine for a schema in which no number
stands finds a document valid exactly if it is valid with other doubles in the places of its own,
whole ones in the places of whole ones. -/
theorem validate_mapReals (hcompile : Engine.compile source config = .ok e)
    (hsource : source.Measureless) {f : Decimal.Double → Decimal.Double}
    (hf : ∀ x, (f x).isWhole = x.isWhole) :
    e.validate (doc.mapReals f) = [] ↔ e.validate doc = [] := by
  obtain ⟨lib, hlib, rfl⟩ := Engine.parts_of_compile hcompile
  have hread : lib.ReadFrom source :=
    Library.readFrom_of_collect (fun p hp => by cases hp) hlib
  rw [validate_eq_nil_iff, validate_eq_nil_iff, Engine.faults, Engine.faults, Library.faults,
    Library.faults, depth_mapReals]
  exact (Schema.blind_ofJson hf hsource).1 _ _ (Library.blind_rules hf hsource hread _) [] doc

end Engine

end RecordCuration
