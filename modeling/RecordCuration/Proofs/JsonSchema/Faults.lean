import RecordCuration.Draft7.Check
import RecordCuration.Proofs.Draft7.Emitted
import RecordCuration.Proofs.Json.Size

/-!
The faults of a document by the frames of its classes.

A slot is a type, or an array of it. The faults of a value in a slot follow the value: an array
goes to its items, an object of a class to its members. A check by a library that serves the
classes finds these faults, when it can follow more references than values nest.
-/

namespace RecordCuration

open Draft7

/-- A fault of a part as one of the whole; `s` is the step to the part. -/
def Draft7.Fault.under (s : Segment) (f : Fault) : Fault := { f with path := s :: f.path }

namespace JsonSchema

def demand (ok : Bool) (violation : Violation) : List Violation := if ok then [] else [violation]

def ofType (type : TypeName) (v : Json) : List Violation :=
  demand (type.admits v) (.wrongType [type])

def ofFormat (formats : Bool) (format : FormatName) (v : Json) : List Violation :=
  demand (!formats || format.admitsValue v) (.wrongFormat format)

/-- What is wrong with a value that has no parts of the type to look into. -/
def leafViolations (formats : Bool) (v : Json) : FrameType → List Violation
  | .scalar .string => ofType .string v
  | .scalar .timestamp => ofType .string v ++ ofFormat formats .dateTime v
  | .scalar .float => ofType .number v
  | .scalar .duration => ofType .string v ++ ofFormat formats .duration v
  | .scalar .integer => ofType .integer v
  | .enumeration _ values => ofType .string v ++
      demand ((values.map Json.str).any (equal · v)) (.notAmong (values.map .str))
  | .classRef _ => ofType .object v

def leafFaults (formats : Bool) (t : FrameType) : Check := fun path v =>
  (leafViolations formats v t).map (⟨path, v, ·⟩)

def loneFault : Check := Check.fault (.wrongType [.array])

/-- One fault for all members that are no fields. -/
def strayFaults (fr : Frame) (path : Path) (ms : List (String × Json)) : List Fault :=
  Check.stray ((ms.filter fun m => (fr.field? m.1).isNone).map Prod.fst) path (.obj ms)

mutual
/-- The faults of a value in a slot. -/
def slotFaults (formats : Bool) (resolver : Resolver) (array : Bool) (t : FrameType)
    (path : Path) : Json → List Fault
  | .arr xs =>
    if array then itemFaults formats resolver t path 0 xs else leafFaults formats t path (.arr xs)
  | .obj ms =>
    if array then loneFault path (.obj ms)
    else match t with
      | .classRef name =>
        match resolver name with
        | .ok fr => Check.required fr.due path (.obj ms) ++
            (memberFaults formats resolver fr path ms ++ strayFaults fr path ms)
        | .error _ => []
      | t => leafFaults formats t path (.obj ms)
  | v => if array then loneFault path v else leafFaults formats t path v
def itemFaults (formats : Bool) (resolver : Resolver) (t : FrameType) (path : Path) :
    ℕ → List Json → List Fault
  | _, [] => []
  | n, x :: xs => slotFaults formats resolver false t (path ++ [.index n]) x ++
      itemFaults formats resolver t path (n + 1) xs
def memberFaults (formats : Bool) (resolver : Resolver) (fr : Frame) (path : Path) :
    List (String × Json) → List Fault
  | [] => []
  | (name, v) :: ms =>
    (match fr.field? name with
      | some f => slotFaults formats resolver f.cardinality.isArray f.type (path ++ [.key name]) v
      | none => []) ++ memberFaults formats resolver fr path ms
end

section Slots

variable {formats : Bool} {resolver : Resolver} {t : FrameType} {fr : Frame} {path : Path}

lemma slotFaults_list (xs : List Json) :
    slotFaults formats resolver true t path (.arr xs) =
      itemFaults formats resolver t path 0 xs := by
  simp [slotFaults]

lemma slotFaults_lone {v : Json} (h : v.items? = none) :
    slotFaults formats resolver true t path v = [⟨path, v, .wrongType [.array]⟩] := by
  cases v <;> simp_all [slotFaults, Json.items?, loneFault, Check.fault]

lemma slotFaults_class {name : String} {fr : Frame} (h : resolver name = .ok fr)
    (ms : List (String × Json)) :
    slotFaults formats resolver false (.classRef name) path (.obj ms) =
      Check.required fr.due path (.obj ms) ++
        (memberFaults formats resolver fr path ms ++ strayFaults fr path ms) := by
  simp [slotFaults, h]

lemma slotFaults_leaf {v : Json} (h : ∀ name, t = .classRef name → v.members? = none) :
    slotFaults formats resolver false t path v = leafFaults formats t path v := by
  cases v with
  | obj ms =>
    cases t with
    | classRef name => simp [Json.members?] at h
    | scalar s => simp [slotFaults]
    | enumeration id values => simp [slotFaults]
  | _ => simp [slotFaults]

lemma itemFaults_eq (n : ℕ) (xs : List Json) :
    itemFaults formats resolver t path n xs = (xs.zipIdx n).flatMap fun x =>
      slotFaults formats resolver false t (path ++ [.index x.2]) x.1 := by
  induction xs generalizing n with
  | nil => rfl
  | cons x xs ih => rw [itemFaults, ih]; rfl

lemma memberFaults_eq (ms : List (String × Json)) :
    memberFaults formats resolver fr path ms = ms.flatMap fun m =>
      match fr.field? m.1 with
      | some f =>
        slotFaults formats resolver f.cardinality.isArray f.type (path ++ [.key m.1]) m.2
      | none => [] := by
  induction ms with
  | nil => rfl
  | cons m ms ih => obtain ⟨k, v⟩ := m; rw [memberFaults, ih]; rfl

/-! ### No faults -/

variable {v : Json}

lemma leafFaults_eq_nil_iff {t : FrameType} :
    leafFaults formats t path v = [] ↔ leafViolations formats v t = [] := List.map_eq_nil_iff

lemma demand_eq_nil_iff {ok : Bool} {violation : Violation} :
    demand ok violation = [] ↔ ok = true := by
  unfold demand; split <;> simp_all

lemma required_eq_nil_iff {names : List String} {ms : List (String × Json)} :
    Check.required names path (.obj ms) = [] ↔ ∀ name ∈ names, ∃ v, (name, v) ∈ ms := by
  unfold Check.required
  rw [List.flatMap_eq_nil_iff]
  refine forall₂_congr fun name _ => ?_
  have hiff : (ms.lookup name).isSome = true ↔ ∃ v, (name, v) ∈ ms := by
    rw [Json.lookup_isSome_iff]; simp
  rw [← hiff]
  cases (ms.lookup name).isSome <;> simp [Check.fault]

lemma strayFaults_eq_nil_iff {fr : Frame} {ms : List (String × Json)} :
    strayFaults fr path ms = [] ↔ ∀ p ∈ ms, ∃ f, fr.field? p.1 = some f := by
  rw [strayFaults, Check.stray_eq_nil_iff, List.map_eq_nil_iff, List.filter_eq_nil_iff]
  refine forall₂_congr fun p _ => ?_
  cases fr.field? p.1 <;> simp

lemma memberFaults_eq_nil_iff {fr : Frame} {ms : List (String × Json)} :
    memberFaults formats resolver fr path ms = [] ↔ ∀ p ∈ ms, ∀ f, fr.field? p.1 = some f →
      slotFaults formats resolver f.cardinality.isArray f.type (path ++ [.key p.1]) p.2 = [] := by
  rw [memberFaults_eq, List.flatMap_eq_nil_iff]
  refine forall₂_congr fun p _ => ?_
  cases fr.field? p.1 <;> simp

lemma itemFaults_eq_nil_iff {t : FrameType} {n : ℕ} {xs : List Json} :
    itemFaults formats resolver t path n xs = [] ↔ ∀ x ∈ xs.zipIdx n,
      slotFaults formats resolver false t (path ++ [.index x.2]) x.1 = [] := by
  rw [itemFaults_eq, List.flatMap_eq_nil_iff]

end Slots

/-! ### Faults of a part -/

section Parts

variable {formats array : Bool} {resolver : Resolver} {t : FrameType} {path : Path} {v : Json}

lemma leafFaults_under (s : Segment) :
    leafFaults formats t (s :: path) v = (leafFaults formats t path v).map (Fault.under s) := by
  simp [leafFaults, Fault.under]

lemma required_under (s : Segment) (names : List String) (ms : List (String × Json)) :
    Check.required names (s :: path) (.obj ms) =
      (Check.required names path (.obj ms)).map (Fault.under s) := by
  unfold Check.required
  rw [List.map_flatMap]
  refine List.flatMap_congr fun name _ => ?_
  split <;> rfl

lemma strayFaults_under (s : Segment) (fr : Frame) (ms : List (String × Json)) :
    strayFaults fr (s :: path) ms = (strayFaults fr path ms).map (Fault.under s) := by
  unfold strayFaults Check.stray
  split <;> rfl

/-- The faults of a part do not depend on where it stands, but for their paths. -/
lemma slotFaults_under (s : Segment) :
    slotFaults formats resolver array t (s :: path) v =
      (slotFaults formats resolver array t path v).map (Fault.under s) := by
  induction v generalizing array t path with
  | arr xs ih =>
    cases array with
    | true =>
      rw [slotFaults_list, slotFaults_list, itemFaults_eq, itemFaults_eq, List.map_flatMap]
      refine List.flatMap_congr fun x hx => ?_
      exact ih x.1 (List.fst_mem_of_mem_zipIdx hx)
    | false =>
      rw [slotFaults_leaf fun _ _ => rfl, slotFaults_leaf fun _ _ => rfl, leafFaults_under]
  | obj ms ih =>
    cases array with
    | true => rw [slotFaults_lone rfl, slotFaults_lone rfl]; rfl
    | false =>
      cases t with
      | scalar s => rw [slotFaults_leaf (by simp), slotFaults_leaf (by simp), leafFaults_under]
      | enumeration id values =>
        rw [slotFaults_leaf (by simp), slotFaults_leaf (by simp), leafFaults_under]
      | classRef name =>
        cases hname : resolver name with
        | error e => simp [slotFaults, hname]
        | ok fr =>
          rw [slotFaults_class hname, slotFaults_class hname, List.map_append, List.map_append,
            required_under, strayFaults_under, memberFaults_eq, memberFaults_eq, List.map_flatMap]
          congr 2
          refine List.flatMap_congr fun p hp => ?_
          cases fr.field? p.1 with
          | none => rfl
          | some f => exact ih p hp
  | _ =>
    cases array with
    | true => rw [slotFaults_lone rfl, slotFaults_lone rfl]; rfl
    | false => rw [slotFaults_leaf fun _ _ => rfl, slotFaults_leaf fun _ _ => rfl, leafFaults_under]

lemma slotFaults_eq_nil_iff (path : Path) :
    slotFaults formats resolver array t path v = [] ↔
      slotFaults formats resolver array t [] v = [] := by
  induction path with
  | nil => exact Iff.rfl
  | cons s path ih => rw [slotFaults_under, List.map_eq_nil_iff, ih]

lemma slotFaults_list_eq_nil_iff {xs : List Json} :
    slotFaults formats resolver true t path (.arr xs) = [] ↔
      ∀ x ∈ xs, slotFaults formats resolver false t [] x = [] := by
  rw [slotFaults_list, itemFaults_eq_nil_iff]
  constructor
  · intro h x hx
    obtain ⟨i, hi, rfl⟩ := List.getElem_of_mem hx
    have hmem : (xs[i], i) ∈ xs.zipIdx := List.mk_mem_zipIdx_iff_getElem?.mpr (by simp)
    exact (slotFaults_eq_nil_iff _).mp (h _ hmem)
  · intro h x hx
    exact (slotFaults_eq_nil_iff _).mpr (h x.1 (List.fst_mem_of_mem_zipIdx hx))

end Parts

/-! ### Checks by a library -/

/-- The text of a reference to a class. -/
def target (name : String) : String := "#/definitions/" ++ name

/-- A library serves a frame: it has the checks of every class that the frame leads to. -/
structure Served (lib : Library) (resolver : Resolver) (root : Frame) : Prop where
  root : ∀ name, root.Names name → (lib.lookup (target name)).isSome
  entry : ∀ name s, lib.lookup (target name) = some s → ∃ fr, resolver name = .ok fr ∧
    s = classSchema fr ∧ ∀ other, fr.Names other → (lib.lookup (target other)).isSome

section Checks

variable {formats : Bool} {resolver : Resolver} {t : FrameType} {fr : Frame} {path : Path}
  {rules : Rules}

lemma lookup_listed (fr : Frame) (name : String) :
    (listed fr).lookup name =
      (fr.field? name).map fun f => slotSchema f.cardinality.isArray f.type := by
  unfold listed Frame.field?
  induction fr.fields with
  | nil => rfl
  | cons f fs ih =>
    rw [List.map_cons, List.lookup_cons, List.find?_cons, ih]
    by_cases h : f.name = name
    · simp [h]
    · simp [h, beq_false_of_ne (Ne.symm h)]

/-- The checks of a class find the faults of an object, when those of its fields do. -/
lemma check_class {ms : List (String × Json)}
    (h : ∀ m ∈ ms, ∀ f, fr.field? m.1 = some f →
      (slotSchema f.cardinality.isArray f.type).check rules.inside (path ++ [.key m.1]) m.2 =
        slotFaults formats resolver f.cardinality.isArray f.type (path ++ [.key m.1]) m.2) :
    (classSchema fr).check rules path (.obj ms) = Check.required fr.due path (.obj ms) ++
      (memberFaults formats resolver fr path ms ++ strayFaults fr path ms) := by
  have hmembers : ms.flatMap (Check.ifListed (Schema.namedChecks rules.inside (listed fr)) path) =
      memberFaults formats resolver fr path ms := by
    rw [memberFaults_eq]
    refine List.flatMap_congr fun m hm => ?_
    rw [Check.ifListed, Schema.lookup_namedChecks, lookup_listed]
    cases hf : fr.field? m.1 with
    | none => rfl
    | some f => exact h m hm f hf
  have hstray : Check.unlisted (Schema.namedChecks rules.inside (listed fr)) ms =
      (ms.filter fun m => (fr.field? m.1).isNone).map Prod.fst := by
    unfold Check.unlisted
    simp [Schema.lookup_namedChecks, lookup_listed]
  have hclosed : Check.closed (Schema.namedChecks rules.inside (listed fr)) path (.obj ms) =
      memberFaults formats resolver fr path ms ++ strayFaults fr path ms := by
    rw [Check.closed, hmembers, hstray, strayFaults]
  simp [classSchema, Schema.check, Schema.checks, Check.every, Check.test, TypeName.admits, hclosed]

lemma check_class_of_not_obj {v : Json} (h : v.members? = none) :
    (classSchema fr).check rules path v = [⟨path, v, .wrongType [.object]⟩] := by
  cases v <;> simp_all [Json.members?, classSchema, Schema.check, Schema.checks, Check.every,
    Check.test, Check.fault, Check.required, Check.closed, TypeName.admits]

lemma check_leaf {v : Json} (h : ∀ name, t ≠ .classRef name) :
    (typeSchema t).check rules path v = leafFaults rules.formats t path v := by
  have htest : ∀ ok violation, Check.test ok violation path v =
      (demand (ok v) violation).map (⟨path, v, ·⟩) := by
    intro ok violation
    unfold Check.test demand Check.fault
    split <;> rfl
  cases t with
  | classRef name => exact absurd rfl (h name)
  | scalar s =>
    cases s <;> simp [typeSchema, Schema.check, Schema.checks, Check.every, htest, leafFaults,
      leafViolations, ofType, ofFormat]
  | enumeration id values =>
    simp [typeSchema, Schema.check, Schema.checks, Check.every, htest, leafFaults, leafViolations,
      ofType]

/-- References to the classes of a library lead to their faults, at values that nest less than
`bound`. -/
def LeadsToClasses (lib : Library) (formats : Bool) (resolver : Resolver) (bound : ℕ)
    (follow : String → Check) : Prop :=
  ∀ name, (lib.lookup (target name)).isSome → ∀ path v, v.depth < bound →
    follow (target name) path v = slotFaults formats resolver false (.classRef name) path v

section Library

variable {lib : Library} {root : Frame} {v : Json} {bound : ℕ} {follow step : String → Check}

/-- The checks of a slot inside of a value. -/
lemma check_slot (hstep : LeadsToClasses lib formats resolver bound step) {array : Bool}
    (hdepth : v.depth < bound)
    (ht : ∀ name, t = .classRef name → (lib.lookup (target name)).isSome) :
    (slotSchema array t).check ⟨formats, step, step⟩ path v =
      slotFaults formats resolver array t path v := by
  have htype : ∀ path w, w.depth < bound → (typeSchema t).check ⟨formats, step, step⟩ path w =
      slotFaults formats resolver false t path w := by
    intro path w hw
    by_cases hclass : ∃ name, t = .classRef name
    · obtain ⟨name, rfl⟩ := hclass
      exact hstep name (ht name rfl) path w hw
    · have hnot : ∀ name, t ≠ .classRef name := fun name h => hclass ⟨name, h⟩
      rw [check_leaf hnot, slotFaults_leaf fun name h => absurd h (hnot name)]
  cases array with
  | false => exact htype path v hdepth
  | true =>
    cases hv : v.items? with
    | none =>
      rw [slotFaults_lone hv]
      cases v <;> simp_all [Json.items?, slotSchema, Schema.check, Schema.checks, Check.every,
        Check.test, Check.fault, Check.items, TypeName.admits]
    | some xs =>
      obtain rfl : v = .arr xs := by cases v <;> simp_all [Json.items?]
      have heach : (xs.zipIdx.flatMap fun x =>
          (typeSchema t).check ⟨formats, step, step⟩ (path ++ [.index x.2]) x.1) =
          itemFaults formats resolver t path 0 xs := by
        rw [itemFaults_eq]
        refine List.flatMap_congr fun x hx => htype _ _ ?_
        have hlt := Json.depth_lt_of_item (List.fst_mem_of_mem_zipIdx hx)
        omega
      rw [slotFaults_list, ← heach]
      simp [slotSchema, Schema.check, Schema.checks, Check.every, Check.test, Check.items,
        TypeName.admits, Rules.inside]

/-- The checks of a class that is served. -/
lemma check_served {fr : Frame}
    (hfr : ∀ other, fr.Names other → (lib.lookup (target other)).isSome)
    (hstep : LeadsToClasses lib formats resolver bound step)
    {name : String} (hname : resolver name = .ok fr) (hdepth : v.depth ≤ bound) :
    (classSchema fr).check ⟨formats, follow, step⟩ path v =
      slotFaults formats resolver false (.classRef name) path v := by
  cases hv : v.members? with
  | none =>
    rw [check_class_of_not_obj hv, slotFaults_leaf fun _ _ => hv]
    cases v <;> simp_all [Json.members?, leafFaults, leafViolations, ofType, demand,
      TypeName.admits]
  | some ms =>
    obtain rfl : v = .obj ms := by cases v <;> simp_all [Json.members?]
    rw [slotFaults_class hname]
    refine check_class fun m hm f hf => ?_
    have hlt := Json.depth_lt_of_member hm
    exact check_slot hstep (by omega : m.2.depth < bound) fun other ht =>
      hfr other (Frame.names_of_field? hf ht)

variable (hlib : Served lib resolver root)
include hlib

lemma leadsToClasses_followFrom (hstep : LeadsToClasses lib formats resolver bound step)
    (hops : ℕ) :
    LeadsToClasses lib formats resolver (bound + 1)
      (lib.followFrom formats step (hops + 1)) := by
  intro name hname path v hdepth
  obtain ⟨s, hs⟩ := Option.isSome_iff_exists.mp hname
  obtain ⟨fr, hfr, rfl, hnames⟩ := hlib.entry name s hs
  simp only [Library.followFrom, hs]
  exact check_served hnames hstep hfr (by omega)

lemma leadsToClasses_follow (levels : ℕ) :
    LeadsToClasses lib formats resolver levels (lib.follow formats levels) := by
  induction levels with
  | zero => exact fun _ _ _ _ hdepth => absurd hdepth (Nat.not_lt_zero _)
  | succ levels ih => exact leadsToClasses_followFrom hlib ih _

/-- **Faults by frames**: a library that serves a frame finds in a document the faults that the
frame and those it leads to say. -/
theorem faults_of_served {name : String} (hroot : resolver name = .ok root) (doc : Json) :
    lib.faults formats (classSchema root) doc =
      slotFaults formats resolver false (.classRef name) [] doc :=
  check_served hlib.root (leadsToClasses_follow hlib doc.depth) hroot le_rfl

end Library

end Checks

end JsonSchema

end RecordCuration
