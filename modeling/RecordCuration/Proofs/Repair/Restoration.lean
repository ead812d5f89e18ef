import RecordCuration.Proofs.JsonSchema.Reference
import RecordCuration.Proofs.Repair.Shorn
import RecordCuration.Proofs.Repair.Under
import RecordCuration.Proofs.Repair.Run

/-!
Lists of one item come back.

When lists of one item in a valid document were replaced by the item, the faults of what is left are
the outermost of these places, and a pass of the standard rules puts each back into a list. So every
pass takes one level away, and a run restores the document.
-/

namespace RecordCuration

open Json Draft7 JsonSchema

lemma toIssue_under (s : Segment) (f : Fault) :
    (f.under s).toIssue = f.toIssue.under s.canonical := by
  have hpath : (f.under s).toIssue.path = s.canonical :: f.toIssue.path := by
    show Issue.pathOf (Path.pointer (s :: f.path)) = s.canonical :: Issue.pathOf f.path.pointer
    rw [Issue.pathOf_pointer, Issue.pathOf_pointer, List.map_cons]
  exact Issue.mk.injEq .. ▸ ⟨hpath, rfl, rfl, rfl, rfl⟩

/-! ### One pass -/

/-- The issues of a value in a slot. -/
def issuesOf (formats : Bool) (resolver : Resolver) (array : Bool) (t : FrameType) (w : Json) :
    List Issue :=
  (slotFaults formats resolver array t [] w).map Fault.toIssue

/-- A pass over the issues of a shorn value takes one level away, and writes nothing only when there
was nothing to do. -/
def Regains (m : Model) (formats : Bool) (resolver : Resolver) (array : Bool) (t : FrameType)
    (n : ℕ) (v w : Json) : Prop :=
  ∃ x p, Catalogue.standard.pass (issuesOf formats resolver array t w) w = (x, .ok p) ∧
    Shorn m array t (n - 1) v x ∧
    (p.fixes = [] → slotFaults formats resolver array t [] w = [] ∧ w = v)

section Pass

variable {m : Model} {formats : Bool} {resolver : Resolver} {array : Bool} {t : FrameType} {n : ℕ}
  {v w : Json}

lemma issues_under (s : Segment) :
    (slotFaults formats resolver array t [s] w).map Fault.toIssue =
      (issuesOf formats resolver array t w).map (Issue.under s.canonical) := by
  rw [slotFaults_under, issuesOf, List.map_map, List.map_map]
  exact List.map_congr_left fun f _ => toIssue_under s f

lemma child?_append_cons {pre ys : List Json} {y : Json} (h : pre.length < indexBound) :
    (Json.arr (pre ++ y :: ys)).child? (Segment.index pre.length).canonical = some y := by
  have hindex : (Segment.index pre.length).canonical.asIndex = some pre.length := by
    rw [Segment.asIndex_canonical]
    exact Option.filter_eq_some_iff.mpr ⟨rfl, by simpa using h⟩
  simp [child?_arr, hindex]

lemma setChild_append_cons {pre ys : List Json} {y : Json} (h : pre.length < indexBound)
    (z : Json) :
    setChild (Segment.index pre.length).canonical z (.arr (pre ++ y :: ys)) =
      .arr (pre ++ z :: ys) := by
  rw [setChild_canonical (child?_append_cons h)]
  simp [setChild, Segment.asIndex]

/-- Items in turn: `pre` are the items that the pass has left behind. -/
lemma regains_items {xs ys : List Json}
    (h : List.Forall₂ (fun x y => x.WellFormed ∧ Regains m formats resolver false t n x y) xs ys)
    (pre : List Json) (hlength : pre.length + ys.length ≤ indexBound)
    (hwf : (Json.arr (pre ++ ys)).WellFormed) :
    ∃ zs p, Catalogue.standard.pass
        ((itemFaults formats resolver t [] pre.length ys).map Fault.toIssue) (.arr (pre ++ ys)) =
          (.arr (pre ++ zs), .ok p) ∧ ShornItems m t (n - 1) xs zs ∧
      (p.fixes = [] → itemFaults formats resolver t [] pre.length ys = [] ∧ ys = xs) := by
  induction h generalizing pre with
  | nil => exact ⟨[], ⟨false, [], []⟩, rfl, .nil, fun _ => ⟨rfl, rfl⟩⟩
  | @cons x y xs ys hxy _ ih =>
    obtain ⟨hx, z, p, hp, hz, hnone⟩ := hxy
    rw [List.length_cons] at hlength
    have hlt : pre.length < indexBound := by omega
    have hset : setChild (.canonical (.index pre.length)) z (.arr (pre ++ y :: ys)) =
        .arr (pre ++ z :: ys) := setChild_append_cons hlt z
    have hwf' := wellFormed_setChild (.canonical (.index pre.length)) (hz.wellFormed hx) hwf
    rw [hset, List.append_cons] at hwf'
    obtain ⟨zs, r, hr, hzs, hrnone⟩ := ih (pre ++ [z]) (by simp; omega) hwf'
    rw [← List.append_cons, ← List.append_cons, ← hset, List.length_append,
      List.length_singleton] at hr
    obtain ⟨all, hall, hallnone⟩ := Catalogue.pass_part hwf (child?_append_cons hlt) hp hr
    refine ⟨z :: zs, all, ?_, .cons hz hzs, fun hf => ?_⟩
    · rw [itemFaults, List.map_append, List.nil_append, issues_under]
      exact hall
    · obtain ⟨hpf, hrf⟩ := hallnone.mp hf
      obtain ⟨hfaults, rfl⟩ := hnone hpf
      obtain ⟨hrest, rfl⟩ := hrnone hrf
      rw [List.length_append, List.length_singleton] at hrest
      rw [itemFaults, slotFaults_eq_nil_iff _ |>.mpr hfaults, hrest]
      exact ⟨rfl, rfl⟩

lemma insert_append_cons {pre ns : List (String × Json)} {k : String} (h : k ∉ pre.map Prod.fst)
    (v w : Json) : Members.insert k w (pre ++ (k, v) :: ns) = pre ++ (k, w) :: ns := by
  induction pre with
  | nil => simp [Members.insert]
  | cons p pre ih =>
    obtain ⟨l, x⟩ := p
    rw [List.map_cons, List.mem_cons, not_or] at h
    rw [List.cons_append, Members.insert, if_neg (Ne.symm h.1), ih h.2]
    rfl

lemma child?_obj_append_cons {pre ns : List (String × Json)} {k : String}
    (h : k ∉ pre.map Prod.fst) (v : Json) :
    (Json.obj (pre ++ (k, v) :: ns)).child? (Segment.key k).canonical = some v := by
  have hnone : pre.lookup k = none :=
    Option.not_isSome_iff_eq_none.mp fun hs => h (lookup_isSome_iff.mp hs)
  rw [child?_obj, Segment.token_canonical, Segment.token, List.lookup_append, hnone,
    List.lookup_cons_self]
  rfl

lemma setChild_obj_append_cons {pre ns : List (String × Json)} {k : String}
    (h : k ∉ pre.map Prod.fst) (v w : Json) :
    setChild (Segment.key k).canonical w (.obj (pre ++ (k, v) :: ns)) =
      .obj (pre ++ (k, w) :: ns) := by
  rw [setChild, Segment.token_canonical]
  exact congrArg Json.obj (insert_append_cons h v w)

/-- Members in turn: `pre` are the members that the pass has left behind. -/
lemma regains_members {container : String} {fr : Frame} {ms ns : List (String × Json)}
    (h : List.Forall₂ (fun p q => p.1 = q.1 ∧ p.2.WellFormed ∧ ∃ f, fr.field? p.1 = some f ∧
      m.Slot container p.1 f.cardinality.isArray f.type ∧
      Regains m formats resolver f.cardinality.isArray f.type n p.2 q.2) ms ns)
    (pre : List (String × Json)) (hwf : (Json.obj (pre ++ ns)).WellFormed) :
    ∃ os p, Catalogue.standard.pass
        ((memberFaults formats resolver fr [] ns).map Fault.toIssue) (.obj (pre ++ ns)) =
          (.obj (pre ++ os), .ok p) ∧ ShornMembers m container (n - 1) ms os ∧
      (p.fixes = [] → memberFaults formats resolver fr [] ns = [] ∧ ns = ms) := by
  induction h generalizing pre with
  | nil => exact ⟨[], ⟨false, [], []⟩, rfl, .nil, fun _ => ⟨rfl, rfl⟩⟩
  | @cons mem mem' ms ns hmem _ ih =>
    obtain ⟨k, v⟩ := mem
    obtain ⟨k', w⟩ := mem'
    obtain ⟨rfl, hv, f, hf, hslot, z, p, hp, hz, hnone⟩ := hmem
    dsimp only at hf hv hslot hp hz hnone
    have hnot : k ∉ pre.map Prod.fst := by
      intro hk
      have hnodup := (wellFormed_obj.mp hwf).1
      rw [List.map_append, List.nodup_append] at hnodup
      exact hnodup.2.2 k hk k (by simp) rfl
    have hset : setChild (.canonical (.key k)) z (.obj (pre ++ (k, w) :: ns)) =
        .obj (pre ++ (k, z) :: ns) := setChild_obj_append_cons hnot w z
    have hwf' := wellFormed_setChild (.canonical (.key k)) (hz.wellFormed hv) hwf
    rw [hset, List.append_cons] at hwf'
    obtain ⟨os, r, hr, hos, hrnone⟩ := ih (pre ++ [(k, z)]) hwf'
    rw [← List.append_cons, ← List.append_cons, ← hset] at hr
    obtain ⟨all, hall, hallnone⟩ :=
      Catalogue.pass_part hwf (child?_obj_append_cons hnot w) hp hr
    have hfaults : memberFaults formats resolver fr [] ((k, w) :: ns) =
        slotFaults formats resolver f.cardinality.isArray f.type [.key k] w ++
          memberFaults formats resolver fr [] ns := by
      simp [memberFaults, hf]
    refine ⟨(k, z) :: os, all, ?_, .cons hslot hz hos, fun hempty => ?_⟩
    · rw [hfaults, List.map_append, issues_under]
      exact hall
    · obtain ⟨hpf, hrf⟩ := hallnone.mp hempty
      obtain ⟨hnil, rfl⟩ := hnone hpf
      obtain ⟨hrest, rfl⟩ := hrnone hrf
      rw [hfaults, (slotFaults_eq_nil_iff _).mpr hnil, hrest]
      exact ⟨rfl, rfl⟩

/-- A lone value goes back into a list. -/
lemma regains_alone (hw : w.items? = none) (hwf : w.WellFormed) (h : Shorn m false t n v w) :
    Regains m formats resolver true t (n + 1) (.arr [v]) w := by
  have hissues : issuesOf formats resolver true t w =
      [⟨[], .typeMismatch "array" w.typeName, .str "array", w,
        (Violation.wrongType [.array]).message w⟩] := by
    rw [issuesOf, slotFaults_lone hw]
    rfl
  obtain ⟨fix, ht⟩ := Catalogue.treat_of_mend (i := ⟨[], .typeMismatch "array" w.typeName,
    .str "array", w, (Violation.wrongType [.array]).message w⟩) hwf rfl (same_refl hwf) (.wrap hw)
  refine ⟨.arr [w], ⟨true, [fix], []⟩, ?_, .items (.cons h .nil), fun hf => by cases hf⟩
  rw [hissues, Catalogue.pass_fixed_iff ht]
  exact ⟨⟨false, [], []⟩, rfl, rfl⟩

lemma items?_of_valid (h : slotFaults formats resolver false t [] v = []) : v.items? = none := by
  cases v with
  | arr xs =>
    rw [slotFaults_leaf fun _ _ => rfl, leafFaults_eq_nil_iff] at h
    cases t with
    | scalar s => cases s <;> simp [leafViolations, ofType, demand, TypeName.admits] at h
    | enumeration id values => simp [leafViolations, ofType, demand, TypeName.admits] at h
    | classRef name => simp [leafViolations, ofType, demand, TypeName.admits] at h
  | _ => rfl

/-- An object of a class loses and gains no member when it is shorn. -/
lemma issuesOf_class {name : String} {fr : Frame} (hname : resolver name = .ok fr)
    {ms ns : List (String × Json)} (hkeys : ms.map Prod.fst = ns.map Prod.fst)
    (hvalid : slotFaults formats resolver false (.classRef name) [] (.obj ms) = []) :
    slotFaults formats resolver false (.classRef name) [] (.obj ns) =
      memberFaults formats resolver fr [] ns := by
  rw [slotFaults_class hname, List.append_eq_nil_iff, List.append_eq_nil_iff,
    required_eq_nil_iff, strayFaults_eq_nil_iff] at hvalid
  obtain ⟨hdue, -, hknown⟩ := hvalid
  have hmem : ∀ k, (∃ v, (k, v) ∈ ns) ↔ ∃ v, (k, v) ∈ ms := by
    intro k
    have hk : k ∈ ns.map Prod.fst ↔ k ∈ ms.map Prod.fst := by rw [hkeys]
    simpa using hk
  have hrequired : Check.required fr.due [] (.obj ns) = [] :=
    required_eq_nil_iff.mpr fun k hk => (hmem k).mpr (hdue k hk)
  have hstray : strayFaults fr [] ns = [] := by
    refine strayFaults_eq_nil_iff.mpr fun q hq => ?_
    obtain ⟨v, hv⟩ := (hmem q.1).mp ⟨q.2, hq⟩
    exact hknown (q.1, v) hv
  rw [slotFaults_class hname, hrequired, hstray, List.append_nil, List.nil_append]

end Pass

/-- **A pass takes one level away**: over the issues of a value that was shorn of what is valid. -/
theorem regains {m : Model} {context : GraphContext} {g : GraphSchema}
    (hg : GraphSchema.ofModel m context = .ok g) {formats array : Bool} {t : FrameType} {n : ℕ}
    {v w : Json} (h : Shorn m array t n v w) (ht : ∀ c, t = .classRef c → c ∈ m.containers)
    (hvalid : slotFaults formats g.frame array t [] v = []) (hwf : v.WellFormed)
    (haddr : v.Addressable) : Regains m formats g.frame array t n v w := by
  induction h using Shorn.nestedInduction with
  | same array t n v =>
    exact ⟨v, ⟨false, [], []⟩, by rw [issuesOf, hvalid]; rfl, .same, fun _ => ⟨hvalid, rfl⟩⟩
  | alone t n x y hxy ih =>
    rw [slotFaults_list, itemFaults_eq_nil_iff] at hvalid
    have hx := (slotFaults_eq_nil_iff _).mp (hvalid (x, 0) (by simp))
    have hnone := items?_of_valid hx
    exact regains_alone (hxy.items?_eq_none hnone)
      (hxy.wellFormed (wellFormed_arr.mp hwf x (by simp))) hxy
  | items t n xs ys hs h =>
    have hwf' := (Shorn.items hs).wellFormed hwf
    clear hs
    have hall := slotFaults_list_eq_nil_iff.mp hvalid
    have hitems : List.Forall₂
        (fun x y => x.WellFormed ∧ Regains m formats g.frame false t n x y) xs ys := by
      refine ((List.forall₂_and_left xs ys).mpr ⟨fun x hx => hx, h⟩).imp ?_
      rintro x y ⟨hx, hxy, ih⟩
      have hwfx := wellFormed_arr.mp hwf x hx
      exact ⟨hwfx, ih ht (hall x hx) hwfx (haddr.item hx)⟩
    have hlength : ([] : List Json).length + ys.length ≤ indexBound := by
      have := haddr [] xs rfl
      rw [List.length_nil, ← h.length_eq]
      omega
    obtain ⟨zs, p, hp, hzs, hnone⟩ := regains_items hitems [] hlength hwf'
    refine ⟨.arr zs, p, ?_, .items hzs, fun hf => ?_⟩
    · rw [issuesOf, slotFaults_list]
      exact hp
    · obtain ⟨hnil, rfl⟩ := hnone hf
      exact ⟨by rw [slotFaults_list]; exact hnil, rfl⟩
  | members container n ms ns hs h =>
    have hkeys := Shorn.names_of_forall₂ h
    have hwf' := (Shorn.members hs).wellFormed hwf
    clear hs
    obtain ⟨fr, hfr, hd⟩ := GraphSchema.exists_frame hg (ht container rfl)
    obtain ⟨hnodup, hall⟩ := wellFormed_obj.mp hwf
    have hvalid' := hvalid
    rw [slotFaults_class hfr, List.append_eq_nil_iff, List.append_eq_nil_iff,
      memberFaults_eq_nil_iff, strayFaults_eq_nil_iff] at hvalid'
    obtain ⟨-, hmembers, hknown⟩ := hvalid'
    have hfields : List.Forall₂ (fun p q => p.1 = q.1 ∧ p.2.WellFormed ∧ ∃ f,
        fr.field? p.1 = some f ∧ m.Slot container p.1 f.cardinality.isArray f.type ∧
        Regains m formats g.frame f.cardinality.isArray f.type n p.2 q.2) ms ns := by
      refine ((List.forall₂_and_left ms ns).mpr ⟨fun p hp => hp, h⟩).imp ?_
      rintro p q ⟨hp, hk, array, t, hslot, hshorn, ih⟩
      obtain ⟨f, hf⟩ := hknown p hp
      obtain ⟨rfl, rfl⟩ := hd.slot_eq hf hslot
      have hchild : (Json.obj ms).child? (.key p.1) = some p.2 := lookup_of_mem hnodup hp
      refine ⟨hk, hall p hp, f, hf, hslot, ih (fun c hc => ?_) ?_ (hall p hp) (haddr.child hchild)⟩
      · exact (hc ▸ hslot.1).mem_containers
      · exact (slotFaults_eq_nil_iff _).mp (hmembers p hp f hf)
    obtain ⟨os, p, hp, hos, hnone⟩ := regains_members hfields [] hwf'
    refine ⟨.obj os, p, ?_, .members hos, fun hf => ?_⟩
    · rw [issuesOf, issuesOf_class hfr hkeys hvalid]
      exact hp
    · obtain ⟨hnil, rfl⟩ := hnone hf
      exact ⟨hvalid, rfl⟩

/-! ### Runs -/

lemma runWith_restores {m : Model} {context : GraphContext} {g : GraphSchema}
    (hg : GraphSchema.ofModel m context = .ok g) {container : String}
    (hc : container ∈ m.containers) {engine : Engine} (hall : engine.config.maxErrors = 0)
    (hfaults : ∀ doc, engine.faults doc =
      slotFaults engine.config.formats g.frame false (.classRef container) [] doc)
    {doc : Json} (hdoc : doc.WellFormed) (haddr : doc.Addressable) (hvalid : engine.faults doc = [])
    {passes n : ℕ} {now : Json} (h : Shorn m false (.classRef container) n doc now)
    (hn : n ≤ passes) :
    ∃ r, Repairer.runWith engine .standard passes now = .ok r ∧ r.outcome = .valid ∧
      r.document = doc := by
  have hvalidate : ∀ v, engine.validate v =
      issuesOf engine.config.formats g.frame false (.classRef container) v := by
    intro v
    rw [Engine.validate_of_unlimited hall, Engine.issues, hfaults]
    rfl
  have hdone : engine.validate doc = [] := by
    rw [Engine.validate_of_unlimited hall, Engine.issues, hvalid]
    rfl
  induction passes generalizing n now with
  | zero =>
    obtain rfl := h.eq_of_zero (by omega)
    exact ⟨_, Repairer.runWith_of_valid _ hdone, rfl, rfl⟩
  | succ passes ih =>
    obtain ⟨next, p, hp, hnext, hnone⟩ := regains hg h (fun c ht => by cases ht; exact hc)
      (hfaults doc ▸ hvalid) hdoc haddr
    by_cases hf : p.fixes = []
    · obtain ⟨-, rfl⟩ := hnone hf
      exact ⟨_, Repairer.runWith_of_valid _ hdone, rfl, rfl⟩
    · obtain ⟨r, hr, hout, hrdoc⟩ := ih hnext (by omega)
      rw [← hvalidate] at hp
      rw [Repairer.runWith_of_applied hp hf, hr]
      exact ⟨r.after p.fixes, rfl, hout, hrdoc⟩

/-- **Lists of one come back**: when lists of one item in a valid document, at fields that repeat,
were replaced by the item, a run that may pass as often as such lists lay inside each other ends
with the document as it was. The engine reports every issue, and references resolve by name. -/
theorem run_restores {m : Model} {context : GraphContext} {g : GraphSchema}
    (hg : GraphSchema.ofModel m context = .ok g) {container : String}
    (hc : container ∈ m.containers) {source : Json}
    (hsource : g.schemaForClass container = .ok source) (hrefs : ResolvesByName source)
    {config : ValidationConfig} (hall : config.maxErrors = 0) {engine : Engine}
    (hcompile : Engine.compile source config = .ok engine) {doc shorn : Json}
    (hdoc : doc.WellFormed) (haddr : doc.Addressable) (hvalid : engine.isValid doc = true)
    {n passes : ℕ} (h : Shorn m false (.classRef container) n doc shorn) (hn : n ≤ passes) :
    ∃ r, Repairer.run ⟨engine, .standard, passes⟩ shorn = .ok r ∧ r.outcome = .valid ∧
      r.document = doc := by
  obtain ⟨source', root, he⟩ := exists_emitted hg hc
  obtain rfl : source' = source := Except.ok.inj (he.schema.symm.trans hsource)
  obtain ⟨rfl, hfaults⟩ := faults_of_compile hg he hrefs hcompile
  have hnone : engine.faults doc = [] := List.isEmpty_iff.mp hvalid
  exact runWith_restores hg hc hall hfaults hdoc haddr hnone h hn

/-- A mission with one time span and one note on it. -/
def voyager : Json :=
  .obj [("Name", .str "Voyager"), ("TimeSpan", .arr [.obj [
    ("StartDate", .str "1977-09-05T12:56:00Z"), ("StopDate", .str "1989-10-02T00:00:00Z"),
    ("Note", .arr [.str "Ended at Neptune"])]])]

/-- The same with neither list. -/
def voyagerAlone : Json :=
  .obj [("Name", .str "Voyager"), ("TimeSpan", .obj [
    ("StartDate", .str "1977-09-05T12:56:00Z"), ("StopDate", .str "1989-10-02T00:00:00Z"),
    ("Note", .str "Ended at Neptune")])]

lemma voyagerAlone_shorn :
    Shorn sampleModel false (.classRef "Mission") 2 voyager voyagerAlone := by
  have hname : sampleModel.Slot "Mission" "Name" false (.scalar .string) :=
    ⟨.scalar rfl rfl rfl, by decide⟩
  have hspan : sampleModel.Slot "Mission" "TimeSpan" true (.classRef "TimeSpan") :=
    ⟨.container rfl rfl, by decide⟩
  have hstart : sampleModel.Slot "TimeSpan" "StartDate" false (.scalar .timestamp) :=
    ⟨.scalar rfl rfl rfl, by decide⟩
  have hstop : sampleModel.Slot "TimeSpan" "StopDate" false (.scalar .timestamp) :=
    ⟨.scalar rfl rfl rfl, by decide⟩
  have hnote : sampleModel.Slot "TimeSpan" "Note" true (.scalar .string) :=
    ⟨.scalar rfl rfl rfl, by decide⟩
  refine .members (.cons hname .same (.cons hspan (.alone (.members ?_)) .nil))
  exact .cons hstart .same (.cons hstop .same (.cons hnote (.alone .same) .nil))

theorem voyager_run_restores :
    Shorn sampleModel false (.classRef "Mission") 2 voyager voyagerAlone ∧
      ∃ r, Repairer.run ⟨sampleEngine, .standard, 2⟩ voyagerAlone = .ok r ∧
        r.outcome = .valid ∧ r.document = voyager := by
  have hwf : voyager.WellFormed := by simp [voyager, WellFormed, WellFormedItems, WellFormedMembers]
  have haddr : voyager.Addressable := addressable_of_size_le (by decide)
  have hvalid : sampleEngine.isValid voyager = true := by
    rw [Engine.isValid, sampleEngine_faults]
    decide +kernel
  refine ⟨voyagerAlone_shorn, ?_⟩
  exact run_restores sample_accepted (by decide) sampleSource_emitted sampleSource_resolves rfl
    sampleEngine_compiled hwf haddr hvalid voyagerAlone_shorn le_rfl

end RecordCuration
