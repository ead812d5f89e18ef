import RecordCuration.Proofs.Draft7.Wholeness
import RecordCuration.Proofs.JsonSchema.Reach
import RecordCuration.Proofs.JsonSchema.Reference
import RecordCuration.Proofs.Repair.Ending
import RecordCuration.Proofs.Repair.Recovery

/-!
A stop date that was copied ends up equal to the start date.

The copy may be made before the start date was repaired, and the two dates are then repaired each in
its own time. But all repairs of a date lead to one value, the settled form of what stood there at
first: a list where a list is wanted, a text where one is wanted, with a suffix if it is no time.
Every mend keeps the settled form. So two dates of the same slot that had the same form once have it
in the end, where a valid date is its own settled form.
-/

namespace RecordCuration

open Json Draft7 JsonSchema

/-! ### Settled dates -/

/-- What repairs make of a text in a slot for a time. -/
def settledText (formats : Bool) (text : String) : String :=
  if formats = true ∧ FormatName.dateTime.admits text = false ∧ text.toList.getLast? ≠ some 'Z' then
    text ++ "Z"
  else text

/-- What repairs make of a value in a slot for one time. -/
def settledTime (formats : Bool) : Json → Json
  | .str text => .str (settledText formats text)
  | .arr (x :: _) => .str (settledText formats (Rule.asText x))
  | v => v

/-- What repairs make of a value in a slot for a time or for times. -/
def settled (formats array : Bool) (v : Json) : Json :=
  if array then .arr ((v.items?.getD [v]).map (settledTime formats)) else settledTime formats v

section Settled

variable {formats array : Bool} {resolver : Resolver} {path : Path} {v w : Json}

lemma settled_list (xs : List Json) :
    settled formats true (.arr xs) = .arr (xs.map (settledTime formats)) := rfl

lemma settled_lone (h : v.items? = none) :
    settled formats true v = .arr [settledTime formats v] := by
  rw [settled, if_pos rfl, h]
  rfl

lemma settledText_suffixed (text : String) : settledText formats (text ++ "Z") = text ++ "Z" := by
  have hz : (text ++ "Z").toList.getLast? = some 'Z' := by simp
  rw [settledText, if_neg fun h => h.2.2 hz]

lemma settledTime_of_mends (h : Mends formats resolver false (.scalar .timestamp) v w) :
    settledTime formats w = settledTime formats v := by
  cases h with
  | first => rfl
  | utc hformats hbad hz =>
    rw [settledTime, settledTime, settledText_suffixed, settledText, if_pos ⟨hformats, hbad, hz⟩]

/-- **Mends keep the settled form** of dates. -/
theorem settled_of_mends (h : Mends formats resolver array (.scalar .timestamp) v w) :
    settled formats array w = settled formats array v := by
  cases array with
  | false => exact settledTime_of_mends h
  | true =>
    cases h with
    | wrap hv =>
      rw [settled_list, settled_lone hv]
      rfl
    | @item _ xs i x y hx hxy =>
      obtain ⟨hi, rfl⟩ := List.getElem?_eq_some_iff.mp hx
      rw [settled_list, settled_list, List.map_set, settledTime_of_mends hxy,
        ← List.map_set, List.set_getElem_self]

lemma settledTime_of_valid
    (h : slotFaults formats resolver false (.scalar .timestamp) path v = []) :
    settledTime formats v = v := by
  rw [slotFaults_leaf (by simp), leafFaults_eq_nil_iff] at h
  simp only [leafViolations, ofType, ofFormat, List.append_eq_nil_iff, demand_eq_nil_iff] at h
  obtain ⟨htype, hformat⟩ := h
  cases v <;> simp only [TypeName.admits, Bool.false_eq_true] at htype
  rename_i text
  have hfine : ¬ (formats = true ∧ FormatName.dateTime.admits text = false ∧
      text.toList.getLast? ≠ some 'Z') := by
    rintro ⟨rfl, hbad, -⟩
    simp [FormatName.admitsValue, hbad] at hformat
  rw [settledTime, settledText, if_neg hfine]

/-- A valid date is its own settled form. -/
theorem settled_of_valid
    (h : slotFaults formats resolver array (.scalar .timestamp) path v = []) :
    settled formats array v = v := by
  cases array with
  | false => exact settledTime_of_valid h
  | true =>
    cases hv : v.items? with
    | none =>
      rw [slotFaults_lone hv] at h
      cases h
    | some xs =>
      obtain rfl : v = .arr xs := by cases v <;> simp_all [items?]
      rw [slotFaults_list_eq_nil_iff] at h
      have hmap : xs.map (settledTime formats) = xs :=
        (List.map_congr_left fun x hx => settledTime_of_valid (h x hx)).trans (List.map_id' xs)
      rw [settled_list, hmap]

end Settled

/-! ### Objects with both dates -/

/-- The start date and the stop date of an object have one settled form. -/
def SameDates (formats array : Bool) (u : Json) : Prop :=
  ∃ ms start stop, u = .obj ms ∧ ms.lookup "StartDate" = some start ∧
    ms.lookup "StopDate" = some stop ∧ settled formats array start = settled formats array stop

/-- The fields of a frame under a name are times, or lists of times. -/
def Frame.Times (fr : Frame) (array : Bool) (name : String) : Prop :=
  ∀ f, fr.field? name = some f → f.cardinality.isArray = array ∧ f.type = .scalar .timestamp

section Objects

variable {formats array : Bool} {resolver : Resolver} {name k : String} {fr : Frame}
  {f : FrameField} {ms : List (String × Json)} {u v w x : Json}

/-- Mending one member of an object keeps the settled forms of all dates. -/
lemma lookup_settled (hf : fr.field? k = some f) (hv : ms.lookup k = some v)
    (h : Mends formats resolver f.cardinality.isArray f.type v w) (htimes : fr.Times array name)
    (hx : ms.lookup name = some x) : ∃ y, (Members.insert k w ms).lookup name = some y ∧
      settled formats array y = settled formats array x := by
  by_cases hk : name = k
  · subst hk
    obtain rfl : v = x := Option.some.inj (hv.symm.trans hx)
    obtain ⟨rfl, ht⟩ := htimes f hf
    rw [ht] at h
    exact ⟨w, Members.lookup_insert_self _ _ _, settled_of_mends h⟩
  · exact ⟨x, by rw [Members.lookup_insert_of_ne hk, hx], rfl⟩

/-- Mends keep the dates of an object alike. -/
lemma SameDates.of_mends (h : SameDates formats array u) (hname : resolver name = .ok fr)
    (hstart : fr.Times array "StartDate") (hstop : fr.Times array "StopDate")
    (hc : Mends formats resolver false (.classRef name) u w) : SameDates formats array w := by
  obtain ⟨ms, start, stop, rfl, hlookstart, hlookstop, hsame⟩ := h
  cases hc with
  | stopDate _ _ hnone _ =>
    rw [hlookstop] at hnone
    cases hnone
  | member hname' hf hv hvw =>
    obtain rfl := Except.ok.inj (hname.symm.trans hname')
    obtain ⟨start', hstart', hsettled⟩ := lookup_settled hf hv hvw hstart hlookstart
    obtain ⟨stop', hstop', hsettled'⟩ := lookup_settled hf hv hvw hstop hlookstop
    exact ⟨_, start', stop', rfl, hstart', hstop', by rw [hsettled, hsettled', hsame]⟩

/-- In a valid object dates of one settled form are equal. -/
lemma SameDates.eq_of_valid (h : SameDates formats array u) (hname : resolver name = .ok fr)
    (hstart : fr.Times array "StartDate") (hstop : fr.Times array "StopDate") {path : Path}
    (hvalid : slotFaults formats resolver false (.classRef name) path u = []) :
    ∃ ms date, u = .obj ms ∧ ms.lookup "StartDate" = some date ∧
      ms.lookup "StopDate" = some date := by
  obtain ⟨ms, start, stop, rfl, hlookstart, hlookstop, hsame⟩ := h
  rw [slotFaults_class hname, List.append_eq_nil_iff, List.append_eq_nil_iff,
    memberFaults_eq_nil_iff, strayFaults_eq_nil_iff] at hvalid
  obtain ⟨-, hmembers, hknown⟩ := hvalid
  have hsettled : ∀ {key x}, ms.lookup key = some x → fr.Times array key →
      settled formats array x = x := by
    intro key x hx htimes
    have hmem := mem_of_lookup hx
    obtain ⟨f, hf⟩ := hknown _ hmem
    obtain ⟨rfl, ht⟩ := htimes f hf
    have hnone := hmembers _ hmem f hf
    rw [ht] at hnone
    exact settled_of_valid hnone
  rw [hsettled hlookstart hstart, hsettled hlookstop hstop] at hsame
  exact ⟨ms, start, rfl, hlookstart, hsame ▸ hlookstop⟩

end Objects

/-! ### Spots with both dates -/

section Spots

variable {formats array array' : Bool} {resolver : Resolver} {t t' : FrameType} {name : String}
  {fr : Frame} {p : Path} {u v last : Json}

/-- A valid value is valid at all its spots. -/
lemma Spot.valid (h : Spot resolver array t u array' t' p v)
    (hvalid : slotFaults formats resolver array' t' [] v = []) :
    slotFaults formats resolver array t [] u = [] := by
  induction h with
  | here => exact hvalid
  | item hx _ ih => exact ih (slotFaults_list_eq_nil_iff.mp hvalid _ (List.mem_of_getElem? hx))
  | member hname hf hv _ ih =>
    rw [slotFaults_class hname, List.append_eq_nil_iff, List.append_eq_nil_iff,
      memberFaults_eq_nil_iff] at hvalid
    exact ih ((slotFaults_eq_nil_iff _).mp (hvalid.2.1 _ (mem_of_lookup hv) _ hf))

/-- However a document recovers, an object in it keeps its place and class, and its dates stay
alike. -/
lemma exists_sameDates_of_recovers (hname : resolver name = .ok fr)
    (hstart : fr.Times array "StartDate") (hstop : fr.Times array "StopDate")
    (h : Recovers formats resolver array' t' v last)
    (hspot : Spot resolver false (.classRef name) u array' t' p v)
    (hu : SameDates formats array u) :
    ∃ u', Spot resolver false (.classRef name) u' array' t' p last ∧
      SameDates formats array u' := by
  induction h with
  | refl => exact ⟨u, hspot, hu⟩
  | tail _ hc ih =>
    obtain ⟨u', hspot', hu'⟩ := ih
    obtain ⟨u'', hspot'', rfl | hmend⟩ := hspot'.of_mends hc
    · exact ⟨u'', hspot'', hu'⟩
    · exact ⟨u'', hspot'', hu'.of_mends hname hstart hstop hmend⟩

end Spots

/-! ### Copies -/

namespace Catalogue

variable {i : Issue} {doc next : Json} {fix : AppliedFix}

/-- The rule that copies the start date is the only one of its name. -/
lemma copies_of_propose {v : Json} {f : Fix}
    (h : standard.propose i v = some ("stop-date-from-start-date", f)) :
    ∃ ms start, v = .obj ms ∧ ms.lookup "StopDate" = none ∧ ms.lookup "StartDate" = some start ∧
      f = ⟨i.path ++ [.key "StopDate"], start⟩ := by
  obtain ⟨r, hr, hp⟩ := List.exists_of_findSome?_eq_some h
  obtain ⟨f', hf, he⟩ := Option.map_eq_some_iff.mp hp
  obtain ⟨hrule, rfl⟩ := Prod.mk.inj he
  simp only [standard, List.mem_cons, List.not_mem_nil, or_false] at hr
  rcases hr with rfl | rfl | rfl | rfl
  · exact absurd hrule (by decide)
  · simp only [Rule.stopDateFromStartDate] at hf
    split at hf <;> try cases hf
    split_ifs at hf with hc
    obtain ⟨start, hstart, rfl⟩ := Option.map_eq_some_iff.mp hf
    exact ⟨_, start, rfl, by simpa using hc.2, hstart, rfl⟩
  · exact absurd hrule (by decide)
  · exact absurd hrule (by decide)

/-- After a copy the dates of the object at the place of the issue are alike. -/
lemma sameDates_of_copy (h : standard.treat doc i = .fixed fix next)
    (hrule : fix.rule = "stop-date-from-start-date") (formats array : Bool) :
    ∃ u, next.place? i.path = some u ∧ SameDates formats array u := by
  obtain ⟨v, f, w, hv, hp, hw, rfl, -⟩ := treat_eq_fixed h
  rw [hrule] at hp
  obtain ⟨ms, start, rfl, -, hstart, rfl⟩ := copies_of_propose hp
  rw [set_member hv] at hw
  cases hw
  refine ⟨_, place?_put _ hv, _, start, start, rfl, ?_, Members.lookup_insert_self _ _ _, rfl⟩
  rw [Members.lookup_insert_of_ne (by decide), hstart]

end Catalogue

/-- An object of a class stands at a path of a document of the class `root`, by way of the fields of
the classes between. -/
abbrev ObjectAt (resolver : Resolver) (root name : String) (p : Path) (u doc : Json) : Prop :=
  Spot resolver false (.classRef name) u false (.classRef root) p doc

/-- A copy that was made in an object of a class, in the course of repairs that end with a valid
document. -/
lemma dates_of_mended {formats array : Bool} {resolver : Resolver} {root name : String} {fr : Frame}
    {r : Treated} {fix : AppliedFix} {last : Json}
    (hname : resolver name = .ok fr) (hstart : fr.Times array "StartDate")
    (hstop : fr.Times array "StopDate") (hr : r.Mended formats resolver false (.classRef root) last)
    (hfix : r.fix = some fix) (hrule : fix.rule = "stop-date-from-start-date")
    (hvalid : slotFaults formats resolver false (.classRef root) [] last = []) {p : Path} {u : Json}
    (hp : r.issue.path = Issue.pathOf p.pointer)
    (hu : ObjectAt resolver root name p u r.before) :
    ∃ ms date, ObjectAt resolver root name p (.obj ms) last ∧
      ms.lookup "StartDate" = some date ∧ ms.lookup "StopDate" = some date := by
  obtain ⟨next, ht, hmend, hrest⟩ := hr fix hfix
  obtain ⟨w, hw, hsame⟩ := Catalogue.sameDates_of_copy ht hrule formats array
  rw [hp, Issue.pathOf_pointer] at hw
  obtain ⟨u', hu', -⟩ := hu.of_mends hmend
  obtain rfl : u' = w := Option.some.inj (hu'.place?.symm.trans (place?_of_canonical hw))
  obtain ⟨v, hv, hdates⟩ := exists_sameDates_of_recovers hname hstart hstop hrest hu' hsame
  obtain ⟨ms, date, rfl, hlookstart, hlookstop⟩ :=
    hdates.eq_of_valid hname hstart hstop (hv.valid hvalid)
  exact ⟨ms, date, hv, hlookstart, hlookstop⟩

/-- **Copied dates end up equal.** Let a model be accepted, and a container of it have start and
stop dates that are times and have one occurrence marker. An engine is compiled from the schema of a
container, in which references resolve by name. In a course of passes by the standard rules, which
may treat the issues of each validation in any order, the stop date of an object of the container is
copied from its start date. If the document is valid in the end, the object still stands at its
place then, and its dates are equal. Every run that ends as valid is such a course. -/
theorem copied_dates_equal {m : Model} {context : GraphContext} {g : GraphSchema}
    (hg : GraphSchema.ofModel m context = .ok g) {root name : String} (hroot : root ∈ m.containers)
    (hname : name ∈ m.containers) (hstart : m.Means "StartDate" (.scalar .timestamp))
    (hstop : m.Means "StopDate" (.scalar .timestamp))
    (hmarker : m.marker? name "StartDate" = m.marker? name "StopDate") {source : Json}
    (hsource : g.schemaForClass root = .ok source) (hrefs : ResolvesByName source)
    {config : ValidationConfig} {engine : Engine}
    (hcompile : Engine.compile source config = .ok engine) {doc : Json} (hdoc : doc.WellFormed) :
    (∀ treated last, Repairer.Course engine .standard doc treated last →
      engine.validate last = [] → ∀ r ∈ treated, ∀ fix, r.fix = some fix →
      fix.rule = "stop-date-from-start-date" → ∀ p u, r.issue.path = Issue.pathOf p.pointer →
      ObjectAt g.frame root name p u r.before →
      ∃ ms date, ObjectAt g.frame root name p (.obj ms) last ∧
        ms.lookup "StartDate" = some date ∧ ms.lookup "StopDate" = some date) ∧
    ∀ passes r, Repairer.run ⟨engine, .standard, passes⟩ doc = .ok r → r.outcome = .valid →
      ∃ treated, Repairer.Course engine .standard doc treated r.document ∧
        treated.filterMap Treated.fix = r.fixes ∧ engine.validate r.document = [] := by
  obtain ⟨emitted, he⟩ := emitted_of_schema hg hroot hsource
  obtain ⟨rfl, hfaults⟩ := faults_of_compile hg he hrefs hcompile
  obtain ⟨fr, hfr, hd⟩ := GraphSchema.exists_frame hg hname
  have htimes : ∀ element, m.Means element (.scalar .timestamp) →
      m.marker? name element = m.marker? name "StartDate" →
      fr.Times (decide (m.Repeats name "StartDate")) element := by
    intro element hmeans hsame f hf
    have hslot : m.Slot name element (decide (m.Repeats name "StartDate")) (.scalar .timestamp) :=
      ⟨hmeans, by rw [decide_eq_true_iff, Model.Repeats, Model.Repeats, hsame]⟩
    obtain ⟨harray, ht⟩ := hd.slot_eq hf hslot
    exact ⟨harray.symm, ht.symm⟩
  refine ⟨fun treated last hcourse hvalid r hr fix hfix hrule p u hp hu => ?_,
    fun passes r hrun hout => ?_⟩
  · have hnone := Engine.validate_eq_nil_iff.mp hvalid
    rw [hfaults] at hnone
    exact dates_of_mended hfr (htimes _ hstart rfl) (htimes _ hstop hmarker.symm)
      ((course_mends hfaults hcourse hdoc).2 r hr) hfix hrule hnone hp hu
  · have hruns := Repairer.runWith_eq_ok_iff.mp hrun
    obtain ⟨treated, hcourse, hfixes⟩ := hruns.exists_course
    exact ⟨treated, hcourse, hfixes, hruns.validate_document.trans (by rw [hout]; rfl)⟩

/-! ### A launch without an offset -/

/-- A mission with one time span, which has some dates. -/
def missionOver (dates : List (String × Json)) : Json :=
  .obj [("Name", .str "Voyager"), ("TimeSpan", .arr [.obj dates])]

/-- A time without an offset, and the same as universal time. -/
def launch : Json := .str "1977-09-05T12:56:00"

def launchZulu : Json := .str "1977-09-05T12:56:00Z"

def launchOnly : Json := missionOver [("StartDate", launch)]

def launchHalf : Json := missionOver [("StartDate", launchZulu), ("StopDate", launch)]

def launchMended : Json := missionOver [("StartDate", launchZulu), ("StopDate", launchZulu)]

def stopIssue : Issue :=
  ⟨[.key "TimeSpan", .index 0], .missingRequired "StopDate", .str "StopDate",
    .obj [("StartDate", launch)], "\"StopDate\" is a required property"⟩

def dateIssue (name : String) : Issue :=
  ⟨[.key "TimeSpan", .index 0, .key name], .formatViolation "date-time", .str "date-time", launch,
    "\"1977-09-05T12:56:00\" is not a \"date-time\""⟩

def dateFix (rule name : String) : AppliedFix := ⟨rule, [.key "TimeSpan", .index 0, .key name]⟩

/-- The launch is copied before it is mended. -/
def stopCopied : Treated :=
  ⟨stopIssue, launchOnly, some (dateFix "stop-date-from-start-date" "StopDate")⟩

def startMended : Treated :=
  ⟨dateIssue "StartDate", missionOver [("StartDate", launch), ("StopDate", launch)],
    some (dateFix "utc-suffix" "StartDate")⟩

/-- The copy is mended in a second pass. -/
def stopMended : Treated :=
  ⟨dateIssue "StopDate", launchHalf, some (dateFix "utc-suffix" "StopDate")⟩

lemma launch_treats :
    sampleEngine.issues launchOnly = [stopCopied, startMended].map Treated.issue ∧
      Catalogue.standard.Treats launchOnly [stopCopied, startMended] launchHalf ∧
      sampleEngine.issues launchHalf = [stopMended].map Treated.issue ∧
      Catalogue.standard.Treats launchHalf [stopMended] launchMended := by
  refine ⟨?_, .fixed ?_ (.fixed ?_ (.done _)), ?_, .fixed ?_ (.done _)⟩
  · rw [Engine.issues, sampleEngine_faults]
    rfl
  · rfl
  · rfl
  · rw [Engine.issues, sampleEngine_faults]
    rfl
  · rfl

lemma launchMended_valid : sampleEngine.validate launchMended = [] := by
  rw [Engine.validate_eq_nil_iff, sampleEngine_faults]
  rfl

lemma launch_run : Repairer.run ⟨sampleEngine, .standard, 2⟩ launchOnly =
    .ok ⟨.valid, launchMended, 2, [("stop-date-from-start-date", 1), ("utc-suffix", 2)],
      [dateFix "stop-date-from-start-date" "StopDate",
      dateFix "utc-suffix" "StartDate", dateFix "utc-suffix" "StopDate"]⟩ := by
  obtain ⟨hfirst, htreats, hsecond, htreats'⟩ := launch_treats
  have hpass := htreats.pass
  have hpass' := htreats'.pass
  rw [← hfirst, ← sampleEngine_validate] at hpass
  rw [← hsecond, ← sampleEngine_validate] at hpass'
  refine Repairer.runWith_eq_ok_iff.mpr ?_
  exact .applied hpass (List.cons_ne_nil _ _) (.applied hpass' (List.cons_ne_nil _ _)
    (.valid launchMended_valid))

/-- The run ends as valid, and the copied date is the mended one. -/
theorem launch_copied_dates_equal :
    ∃ r, Repairer.run ⟨sampleEngine, .standard, 2⟩ launchOnly = .ok r ∧ r.outcome = .valid ∧
      dateFix "stop-date-from-start-date" "StopDate" ∈ r.fixes ∧
      (∃ treated, Repairer.Course sampleEngine .standard launchOnly treated r.document ∧
        treated.filterMap Treated.fix = r.fixes ∧ sampleEngine.validate r.document = []) ∧
      ∃ ms date, ObjectAt sampleGraph.frame "Mission" "TimeSpan" [.key "TimeSpan", .index 0]
          (.obj ms) r.document ∧
        ms.lookup "StartDate" = some date ∧ ms.lookup "StopDate" = some date := by
  have hwf : launchOnly.WellFormed := by
    simp [launchOnly, missionOver, launch, WellFormed, WellFormedItems, WellFormedMembers]
  have hmission : "Mission" ∈ sampleModel.containers := by decide
  have hclass : "TimeSpan" ∈ sampleModel.containers := by decide
  obtain ⟨hcourses, hruns⟩ := copied_dates_equal sample_accepted hmission hclass
    (.scalar rfl rfl rfl) (.scalar rfl rfl rfl) rfl sampleSource_emitted sampleSource_resolves
    sampleEngine_compiled hwf
  obtain ⟨hfirst, htreats, hsecond, htreats'⟩ := launch_treats
  have hcourse : Repairer.Course sampleEngine .standard launchOnly
      ([stopCopied, startMended] ++ ([stopMended] ++ [])) launchMended :=
    .pass htreats (by simp [hfirst, stopCopied, startMended])
      (.pass htreats' (by simp [hsecond, stopMended]) (.done _))
  have hspan : ObjectAt sampleGraph.frame "Mission" "TimeSpan" [.key "TimeSpan", .index 0]
      (.obj [("StartDate", launch)]) launchOnly := by
    have hframe : sampleGraph.frame "Mission" = .ok missionFrame := rfl
    have hfield : missionFrame.field? "TimeSpan" =
        some ⟨"TimeSpan", .classRef "TimeSpan", .list⟩ := rfl
    exact .member hframe hfield rfl (.item rfl .here)
  exact ⟨_, launch_run, rfl, List.mem_cons_self, hruns 2 _ launch_run rfl,
    hcourses _ _ hcourse launchMended_valid stopCopied List.mem_cons_self _ rfl rfl _ _ rfl hspan⟩

end RecordCuration
