import RecordCuration.Proofs.JsonSchema.Existence

/-!
The order in which building a schema asks for classes.

A class is asked for when it is first met, and its fields are gone through before what else is
pending. `DepthFirst` says so without pools: a class that was asked for is known, finished or not.
The classes that a pool knows are always those that it asked for, so building follows that order to
its end or to the first error. How deep definitions may nest does not show, once there is room for
all classes that are reached.
-/

namespace RecordCuration

/-- The class that a field refers to. -/
def FrameField.class? (f : FrameField) : Option String :=
  match f.type with
  | .classRef name => some name
  | _ => none

/-- The classes that the fields of a frame refer to, in order. -/
def Frame.classes (fr : Frame) : List String := fr.fields.filterMap FrameField.class?

lemma FrameField.class?_eq_some {f : FrameField} {name : String} :
    f.class? = some name ↔ f.type = .classRef name := by
  unfold class?
  cases f.type <;> simp

lemma Frame.mem_classes {fr : Frame} {name : String} : name ∈ fr.classes ↔ fr.Names name := by
  simp only [classes, List.mem_filterMap, FrameField.class?_eq_some, Names]

namespace JsonSchema

/-- The classes reached from a root by way of the fields of frames. -/
inductive Reachable (resolver : Resolver) (root : String) : String → Prop where
  | root : Reachable resolver root root
  | step {name other : String} {fr : Frame} (h : Reachable resolver root name)
    (hfr : resolver name = .ok fr) (hn : fr.Names other) : Reachable resolver root other

namespace Reachable

variable {resolver : Resolver} {root name other : String}

/-- What holds of the root and goes on by way of fields holds of all that is reached. -/
lemma of_closed {S : String → Prop} (h : Reachable resolver root name) (hroot : S root)
    (hS : ∀ name fr, S name → resolver name = .ok fr → ∀ other, fr.Names other → S other) :
    S name := by
  induction h with
  | root => exact hroot
  | step _ hfr hn ih => exact hS _ _ ih hfr _ hn

lemma trans (h : Reachable resolver root name) (hn : Reachable resolver name other) :
    Reachable resolver root other :=
  hn.of_closed h fun _ _ hc hfr _ ho => hc.step hfr ho

end Reachable

/-- The order of first visits. Of classes that were asked for and classes that are pending, the
first pending one is passed over when it is known; else it is asked for, and its classes come before
what else is pending. It ends with all that was asked for, and at an error if there is one. -/
inductive DepthFirst (resolver : Resolver) :
    List String → List String → List String → Option GraphError → Prop where
  | done (asked : List String) : DepthFirst resolver asked [] asked none
  | known {name : String} {asked pending all : List String} {fault : Option GraphError}
    (h : name ∈ asked) (hrest : DepthFirst resolver asked pending all fault) :
    DepthFirst resolver asked (name :: pending) all fault
  | failed {name : String} {asked : List String} {e : GraphError} (pending : List String)
    (h : name ∉ asked) (he : resolver name = .error e) :
    DepthFirst resolver asked (name :: pending) (asked ++ [name]) (some e)
  | visit {name : String} {fr : Frame} {asked pending all : List String}
    {fault : Option GraphError} (h : name ∉ asked) (hfr : resolver name = .ok fr)
    (hrest : DepthFirst resolver (asked ++ [name]) (fr.classes ++ pending) all fault) :
    DepthFirst resolver asked (name :: pending) all fault

namespace DepthFirst

variable {resolver : Resolver} {asked pending all : List String} {fault : Option GraphError}

lemma isPrefix (h : DepthFirst resolver asked pending all fault) : asked <+: all := by
  induction h with
  | done asked => exact List.prefix_refl asked
  | known _ _ ih => exact ih
  | failed _ _ _ => exact List.prefix_append _ _
  | visit _ _ _ ih => exact (List.prefix_append _ _).trans ih

/-- No class is asked for twice. -/
theorem nodup (h : DepthFirst resolver asked pending all fault) (hn : asked.Nodup) :
    all.Nodup := by
  have hnext : ∀ {name : String} {asked : List String}, name ∉ asked → asked.Nodup →
      (asked ++ [name]).Nodup := fun hname hasked =>
    List.nodup_append.mpr ⟨hasked, List.nodup_singleton _, fun a ha b hb he =>
      hname (List.mem_singleton.mp hb ▸ he ▸ ha)⟩
  induction h with
  | done asked => exact hn
  | known _ _ ih => exact ih hn
  | failed _ h _ => exact hnext h hn
  | visit h _ _ ih => exact ih (hnext h hn)

/-- Nothing is asked for beside classes of a kind that fields do not lead out of. -/
theorem within {S : String → Prop} (hS : ∀ name fr, S name → resolver name = .ok fr →
      ∀ other, fr.Names other → S other) (h : DepthFirst resolver asked pending all fault)
    (hasked : ∀ name ∈ asked, S name) (hpending : ∀ name ∈ pending, S name) :
    ∀ name ∈ all, S name := by
  induction h with
  | done asked => exact hasked
  | known _ _ ih => exact ih hasked (List.forall_mem_cons.mp hpending).2
  | failed _ _ _ =>
    have hname := (List.forall_mem_cons.mp hpending).1
    exact List.forall_mem_append.mpr ⟨hasked, by simpa using hname⟩
  | @visit name fr _ _ _ _ _ hfr _ ih =>
    obtain ⟨hname, hrest⟩ := List.forall_mem_cons.mp hpending
    have hclasses : ∀ other ∈ fr.classes, S other := fun other ho =>
      hS name fr hname hfr other (Frame.mem_classes.mp ho)
    exact ih (List.forall_mem_append.mpr ⟨hasked, by simpa using hname⟩)
      (List.forall_mem_append.mpr ⟨hclasses, hrest⟩)

/-- The first class to be asked for is the first that is pending. -/
lemma head? {name : String} (h : DepthFirst resolver [] (name :: pending) all fault) :
    all.head? = some name := by
  cases h with
  | known h _ => cases h
  | failed _ _ _ => rfl
  | visit _ _ hrest =>
    obtain ⟨others, rfl⟩ := hrest.isPrefix
    rfl

/-- Without an error all that was pending is asked for, and so are the classes of what is asked for
on the way. -/
theorem closed (h : DepthFirst resolver asked pending all none) :
    (∀ name ∈ pending, name ∈ all) ∧ ∀ name ∈ all, name ∉ asked →
      ∃ fr, resolver name = .ok fr ∧ ∀ other, fr.Names other → other ∈ all := by
  generalize hf : (none : Option GraphError) = fault at h
  induction h with
  | done asked => exact ⟨by simp, fun name hn hnot => absurd hn hnot⟩
  | known h hrest ih =>
    obtain ⟨hpending, hall⟩ := ih hf
    exact ⟨List.forall_mem_cons.mpr ⟨hrest.isPrefix.subset h, hpending⟩, hall⟩
  | failed _ _ _ => cases hf
  | @visit name fr asked pending all fault h hfr hrest ih =>
    obtain ⟨hpending, hall⟩ := ih hf
    obtain ⟨hclasses, hpending⟩ := List.forall_mem_append.mp hpending
    have hname : name ∈ all := hrest.isPrefix.subset (by simp)
    refine ⟨List.forall_mem_cons.mpr ⟨hname, hpending⟩, fun other ho hnot => ?_⟩
    by_cases he : other = name
    · subst he
      exact ⟨fr, hfr, fun c hc => hclasses c (Frame.mem_classes.mpr hc)⟩
    · exact hall other ho (by simp [hnot, he])

/-- An error is that of the last class asked for, and the first. -/
theorem stops {e : GraphError} (h : DepthFirst resolver asked pending all (some e)) :
    ∃ before last, all = before ++ [last] ∧ resolver last = .error e ∧
      ∀ name ∈ before, name ∉ asked → ∃ fr, resolver name = .ok fr := by
  generalize hf : some e = fault at h
  induction h with
  | done asked => cases hf
  | known _ _ ih => exact ih hf
  | failed _ _ he =>
    cases hf
    exact ⟨_, _, rfl, he, fun name hn hnot => absurd hn hnot⟩
  | @visit name fr _ _ _ _ _ hfr _ ih =>
    obtain ⟨before, last, rfl, he, hall⟩ := ih hf
    refine ⟨before, last, rfl, he, fun other ho hnot => ?_⟩
    by_cases hname : other = name
    · exact ⟨fr, hname ▸ hfr⟩
    · exact hall other ho (by simp [hnot, hname])

end DepthFirst

/-! ### Pools -/

namespace Pool

variable {name : String} {body : Json} {p q : Pool}

/-- What is known is what was asked for. -/
def AskedForKnown (p : Pool) : Prop := ∀ name, p.isKnown name = true ↔ name ∈ p.asked

lemma AskedForKnown.enter (h : p.AskedForKnown) : (p.enter name).AskedForKnown := by
  intro other
  have hp := h other
  rw [isKnown_iff] at hp ⊢
  show (_ ∨ other ∈ name :: p.inProgress) ↔ other ∈ p.asked ++ [name]
  rw [List.mem_cons, List.mem_append, List.mem_singleton, ← hp]
  exact or_left_comm.trans or_comm

lemma AskedForKnown.leave (h : q.AskedForKnown) (hname : name ∈ q.inProgress) :
    (q.leave name body).AskedForKnown := by
  intro other
  have hq := h other
  rw [isKnown_iff] at hq ⊢
  rw [← show other ∈ q.asked ↔ other ∈ (q.leave name body).asked from Iff.rfl, ← hq]
  by_cases he : other = name
  · subst he
    exact iff_of_true (Or.inl ⟨_, lookup_leave_self⟩) (Or.inr hname)
  · rw [lookup_leave_of_ne he]
    show (_ ∨ other ∈ q.inProgress.filter (· ≠ name)) ↔ _
    simp [he]

end Pool

/-! ### Building -/

section Building

variable {resolver : Resolver} {α β : Type} {classes : List String} {names : List String}
  {budget : ℕ} {name : String} {root : Frame} {p q : Pool} {e : GraphError}

/-- What a build came to that goes over classes in turn: it asked as if they were pending, whatever
is pending behind them. -/
inductive Follows (resolver : Resolver) (classes : List String) (p : Pool) :
    EStateM.Result GraphError Pool α → Prop where
  | ok {a : α} {q : Pool} (hin : q.inProgress = p.inProgress) (hq : q.AskedForKnown)
    (hfirst : ∀ pending all fault, DepthFirst resolver q.asked pending all fault →
      DepthFirst resolver p.asked (classes ++ pending) all fault) :
    Follows resolver classes p (.ok a q)
  | error {e : GraphError} {q : Pool} (hfirst : ∀ pending,
      DepthFirst resolver p.asked (classes ++ pending) q.asked (some e)) :
    Follows resolver classes p (.error e q)

/-- What a build comes to when it goes on with more classes. -/
lemma Follows.bind {x : Build α} {f : α → Build β} {more : List String}
    (hx : Follows resolver classes p (x p))
    (hf : ∀ a q, q.inProgress = p.inProgress → q.AskedForKnown → Follows resolver more q (f a q)) :
    Follows resolver (classes ++ more) p ((x >>= f) p) := by
  generalize hrun : x p = result at hx
  cases hx with
  | error hfirst =>
    rw [bind_of_error hrun]
    refine .error fun pending => ?_
    rw [List.append_assoc]
    exact hfirst _
  | @ok a q hin hq hfirst =>
    rw [bind_of_ok hrun]
    generalize hrest : f a q = rest
    have hfollows := hrest ▸ hf a q hin hq
    cases hfollows with
    | error hsecond =>
      refine .error fun pending => ?_
      rw [List.append_assoc]
      exact hfirst _ _ _ (hsecond pending)
    | ok hin' hr hsecond =>
      refine .ok (hin'.trans hin) hr fun pending all fault h => ?_
      rw [List.append_assoc]
      exact hfirst _ _ _ (hsecond _ _ _ h)

lemma visitField_eq (make : String → Build Unit) (f : FrameField) : visitField make f =
    match f.class? with
    | some name => make name >>= fun _ => modify (Pool.refer name)
    | none => pure () := by
  unfold visitField FrameField.class?
  cases f.type <;> rfl

/-- The fields of a frame are gone through in order, when each makes the definition of its class in
order. -/
lemma visits_follow {make : String → Build Unit} {fs : List FrameField}
    (hmake : ∀ name ∈ fs.filterMap FrameField.class?, ∀ q, q.inProgress = p.inProgress →
      q.AskedForKnown → Follows resolver [name] q (make name q)) (hp : p.AskedForKnown) :
    Follows resolver (fs.filterMap FrameField.class?) p (fs.forM (visitField make) p) := by
  induction fs generalizing p with
  | nil => exact .ok rfl hp fun _ _ _ h => h
  | cons f fs ih =>
    show Follows resolver _ p ((visitField make f >>= fun _ => fs.forM (visitField make)) p)
    rw [visitField_eq]
    cases hclass : f.class? with
    | none =>
      rw [List.filterMap_cons_none hclass] at hmake ⊢
      exact ih hmake hp
    | some name =>
      rw [List.filterMap_cons_some hclass] at hmake ⊢
      obtain ⟨hname, hothers⟩ := List.forall_mem_cons.mp hmake
      have hmade : Follows resolver [name] p
          ((make name >>= fun _ => modify (Pool.refer name)) p) :=
        (hname p rfl hp).bind fun _ q _ hq => .ok rfl hq fun _ _ _ h => h
      refine hmade.bind fun _ q hin hq => ih (fun other ho r hr => ?_) hq
      exact hothers other ho r (hr.trans hin)

/-- The classes of a frame that is entered have room, and what is reached from them is reached. -/
lemma room_of_classes (hnames : ∀ c, Reachable resolver name c → c ∈ names)
    (hroom : p.Room names (budget + 1)) (hnot : name ∉ p.inProgress) {fr : Frame}
    (hfr : resolver name = .ok fr) : (p.enter name).Room names budget ∧
      ∀ other ∈ fr.classes, ∀ c, Reachable resolver other c → c ∈ names := by
  refine ⟨hroom.enter (hnames name .root) hnot, fun other ho c hc => hnames c ?_⟩
  exact (Reachable.root.step hfr (Frame.mem_classes.mp ho)).trans hc

/-- **Definitions ask in order**, when there is room for all classes that are reached. -/
theorem define_follows (hnames : ∀ c, Reachable resolver name c → c ∈ names)
    (hp : p.AskedForKnown) (hroom : p.Room names budget) :
    Follows resolver [name] p (define resolver budget name p) := by
  induction budget generalizing name p with
  | zero => exact hroom.ne_zero.elim
  | succ budget ih =>
    by_cases hk : p.isKnown name = true
    · rw [define_of_known hk]
      exact .ok rfl hp fun _ _ _ h => .known ((hp name).mp hk) h
    have hnot : name ∉ p.asked := fun h => hk ((hp name).mpr h)
    have hout : name ∉ p.inProgress := fun h => hk (Pool.isKnown_iff.mpr (Or.inr h))
    cases hanswer : resolver name with
    | error e =>
      rw [define_of_error hk hanswer]
      exact .error fun pending => .failed pending hnot hanswer
    | ok fr =>
      rw [define_of_frame hk hanswer]
      obtain ⟨hinner, hclasses⟩ := room_of_classes hnames hroom hout hanswer
      have hvisits : Follows resolver fr.classes (p.enter name)
          (fr.fields.forM (visitField (define resolver budget)) (p.enter name)) :=
        visits_follow (fun other ho q hin hq => ih (hclasses other ho) hq
          (hinner.of_inProgress hin)) hp.enter
      generalize hrun : fr.fields.forM (visitField (define resolver budget)) (p.enter name) = result
        at hvisits
      cases hvisits with
      | error hfirst =>
        rw [bind_of_error hrun]
        exact .error fun pending => .visit hnot hanswer (hfirst pending)
      | ok hin hq hfirst =>
        rw [bind_of_ok hrun]
        exact .ok (Pool.inProgress_leave hout hin) (hq.leave (hin ▸ List.mem_cons_self))
          fun pending all fault h => .visit hnot hanswer (hfirst pending all fault h)

lemma bind_congr_at {x y : Build α} {f g : α → Build β} (hx : x p = y p)
    (hf : ∀ a q, y p = .ok a q → f a q = g a q) : (x >>= f) p = (y >>= g) p := by
  cases hrun : y p with
  | error e q => rw [bind_of_error (hx.trans hrun), bind_of_error hrun]
  | ok a q => rw [bind_of_ok (hx.trans hrun), bind_of_ok hrun, hf a q hrun]

lemma visits_congr {make make' : String → Build Unit} {fs : List FrameField}
    (hmake : ∀ name ∈ fs.filterMap FrameField.class?, ∀ q, q.inProgress = p.inProgress →
      q.AskedForKnown → Follows resolver [name] q (make name q) ∧ make' name q = make name q)
    (hp : p.AskedForKnown) :
    fs.forM (visitField make') p = fs.forM (visitField make) p := by
  induction fs generalizing p with
  | nil => rfl
  | cons f fs ih =>
    show (visitField make' f >>= fun _ => fs.forM (visitField make')) p =
      (visitField make f >>= fun _ => fs.forM (visitField make)) p
    rw [visitField_eq, visitField_eq]
    cases hclass : f.class? with
    | none =>
      rw [List.filterMap_cons_none hclass] at hmake
      exact ih hmake hp
    | some name =>
      rw [List.filterMap_cons_some hclass] at hmake
      obtain ⟨hname, hothers⟩ := List.forall_mem_cons.mp hmake
      obtain ⟨hfollows, hsame⟩ := hname p rfl hp
      simp only [bind_assoc]
      refine bind_congr_at hsame fun _ q hrun => ?_
      rw [hrun] at hfollows
      cases hfollows with
      | ok hin hq _ =>
        rw [modify_bind, modify_bind]
        exact ih (fun other ho r hr => hothers other ho r (hr.trans hin)) hq

/-- How deep definitions may nest does not show. -/
theorem define_budget (hnames : ∀ c, Reachable resolver name c → c ∈ names)
    (hp : p.AskedForKnown) (hroom : p.Room names budget) {more : ℕ} (hmore : p.Room names more) :
    define resolver more name p = define resolver budget name p := by
  induction budget generalizing name p more with
  | zero => exact hroom.ne_zero.elim
  | succ budget ih =>
    cases more with
    | zero => exact hmore.ne_zero.elim
    | succ more =>
      by_cases hk : p.isKnown name = true
      · rw [define_of_known hk, define_of_known hk]
      have hout : name ∉ p.inProgress := fun h => hk (Pool.isKnown_iff.mpr (Or.inr h))
      cases hanswer : resolver name with
      | error e => rw [define_of_error hk hanswer, define_of_error hk hanswer]
      | ok fr =>
        rw [define_of_frame hk hanswer, define_of_frame hk hanswer]
        obtain ⟨hinner, hclasses⟩ := room_of_classes hnames hroom hout hanswer
        obtain ⟨hinner', -⟩ := room_of_classes hnames hmore hout hanswer
        have hsame : ∀ other ∈ fr.classes, ∀ q, q.inProgress = (p.enter name).inProgress →
            q.AskedForKnown → Follows resolver [other] q (define resolver budget other q) ∧
              define resolver more other q = define resolver budget other q :=
          fun other ho q hin hq =>
            ⟨define_follows (hclasses other ho) hq (hinner.of_inProgress hin),
              ih (hclasses other ho) hq (hinner.of_inProgress hin) (hinner'.of_inProgress hin)⟩
        exact bind_congr_at (visits_congr hsame hp.enter) fun _ _ _ => rfl

lemma ofFrame_of_error
    (h : root.fields.forM (visitField (define resolver budget)) (p.start root.name) = .error e q) :
    ofFrame resolver budget root p = .error e q := by
  rw [ofFrame, modify_bind, objectSchema, bind_assoc, bind_of_error h]

lemma asked_finish (root : Frame) (q : Pool) : (q.finish root).asked = q.asked := by
  unfold Pool.finish
  split_ifs <;> rfl

lemma ofClass_of_error (he : resolver name = .error e) :
    ofClass resolver budget name p = .error e (p.ask name) := by
  unfold ofClass resolve
  rw [he]
  rfl

lemma ofClass_of_frame (hroot : resolver name = .ok root) :
    ofClass resolver budget name p = ofFrame resolver budget root (p.ask name) :=
  bind_of_ok (resolve_eq_ok.mpr ⟨hroot, rfl⟩)

lemma finish_of_ok {build : Build Json} {schema : Json} (h : build Pool.empty = .ok schema p) :
    finish build = (.ok schema, p.asked) := by
  unfold finish EStateM.run
  rw [h]

lemma finish_of_error {build : Build Json} (h : build Pool.empty = .error e p) :
    finish build = (.error e, p.asked) := by
  unfold finish EStateM.run
  rw [h]

/-- Where the fields of a root begin to be visited: it was asked for and is in progress. -/
def Pool.opened (name : String) : Pool := (Pool.empty.ask name).start name

lemma Pool.askedForKnown_opened : (Pool.opened name).AskedForKnown := by
  intro other
  simp [isKnown_iff, opened, start, ask, empty]

lemma Pool.room_opened (hn : name ∈ names) (hb : names.length ≤ budget) :
    (Pool.opened name).Room names budget :=
  ⟨List.nodup_singleton name, by simpa [opened, start, ask, empty] using hn, by
    show names.length < budget + 1
    omega⟩

/-- The fields of a root are visited in order, and how deep definitions may nest does not show. -/
lemma visits_root (hnames : ∀ c, Reachable resolver name c → c ∈ names)
    (hroot : resolver name = .ok root) :
    ∃ result : EStateM.Result GraphError Pool PUnit,
      Follows resolver root.classes (.opened name) result ∧ ∀ budget, names.length ≤ budget →
        root.fields.forM (visitField (define resolver budget)) (.opened name) = result := by
  have hclasses : ∀ other ∈ root.classes, ∀ c, Reachable resolver other c → c ∈ names :=
    fun other ho c hc => hnames c ((Reachable.root.step hroot (Frame.mem_classes.mp ho)).trans hc)
  have hroom : ∀ budget, names.length ≤ budget → (Pool.opened name).Room names budget :=
    fun budget hb => Pool.room_opened (hnames name .root) hb
  have hfollows : ∀ other ∈ root.classes, ∀ q, q.inProgress = (Pool.opened name).inProgress →
      q.AskedForKnown → Follows resolver [other] q (define resolver names.length other q) :=
    fun other ho q hin hq => define_follows (hclasses other ho) hq
      ((hroom names.length le_rfl).of_inProgress hin)
  refine ⟨_, visits_follow hfollows Pool.askedForKnown_opened, fun budget hb => ?_⟩
  refine visits_congr (fun other ho q hin hq => ⟨hfollows other ho q hin hq, ?_⟩)
    Pool.askedForKnown_opened
  exact define_budget (hclasses other ho) hq ((hroom names.length le_rfl).of_inProgress hin)
    ((hroom budget hb).of_inProgress hin)

/-- Building the schema of a class asks in the order of first visits, and comes to a schema or to
the error that the order ends with. -/
lemma exists_depthFirst (hframe : ∀ c fr, resolver c = .ok fr → fr.name = c)
    (hnames : ∀ c, Reachable resolver name c → c ∈ names) :
    ∃ result all fault, DepthFirst resolver [] [name] all fault ∧
      (∀ budget, names.length ≤ budget → finish (ofClass resolver budget name) = (result, all)) ∧
      (fault = none ∧ (∃ schema, result = .ok schema) ∨
        ∃ e, fault = some e ∧ result = .error e) := by
  cases hroot : resolver name with
  | error e =>
    refine ⟨.error e, [name], some e, .failed [] (List.not_mem_nil) hroot, fun budget _ => ?_,
      Or.inr ⟨e, rfl, rfl⟩⟩
    exact finish_of_error (ofClass_of_error hroot)
  | ok root =>
    obtain rfl := hframe name root hroot
    obtain ⟨result, hfollows, hresult⟩ := visits_root hnames hroot
    cases hfollows with
    | @error e q hfirst =>
      refine ⟨.error e, q.asked, some e, .visit List.not_mem_nil hroot (hfirst []),
        fun budget hb => ?_, Or.inr ⟨e, rfl, rfl⟩⟩
      apply finish_of_error
      rw [ofClass_of_frame hroot]
      exact ofFrame_of_error (hresult budget hb)
    | @ok u q hin hq hfirst =>
      refine ⟨.ok (.obj (("definitions", .obj (q.finish root).definitions) :: shallow root)),
        q.asked, none, .visit List.not_mem_nil hroot (hfirst _ _ _ (.done _)), fun budget hb => ?_,
        Or.inl ⟨rfl, _, rfl⟩⟩
      rw [← asked_finish root q]
      apply finish_of_ok
      rw [ofClass_of_frame hroot]
      exact ofFrame_eq_ok_iff.mpr ⟨q, hresult budget hb, rfl, rfl⟩

/-- **Classes are asked for once each**: let a resolver answer for a class with a frame of that
class or fail, and let finitely many classes be reached from a root. Building the schema of the root
comes to the same result however deep definitions may nest, from the number of those classes on. It
asks for classes in the order of their first visits, the root first, none twice and none that is not
reached. With a schema as the result all that are reached were asked for; an error is that of the
last class asked for, and all before had frames. -/
theorem classes_asked_once (hframe : ∀ c fr, resolver c = .ok fr → fr.name = c)
    (hnames : ∀ c, Reachable resolver name c → c ∈ names) :
    ∃ result asked fault,
      (∀ budget, names.length ≤ budget → finish (ofClass resolver budget name) = (result, asked)) ∧
      DepthFirst resolver [] [name] asked fault ∧ asked.head? = some name ∧ asked.Nodup ∧
      (∀ c ∈ asked, Reachable resolver name c) ∧
      ((fault = none ∧ (∃ schema, result = .ok schema) ∧
          ∀ c, Reachable resolver name c → c ∈ asked) ∨
        ∃ e before last, fault = some e ∧ result = .error e ∧ asked = before ++ [last] ∧
          resolver last = .error e ∧ ∀ c ∈ before, ∃ fr, resolver c = .ok fr) := by
  obtain ⟨result, asked, fault, horder, hbuild, hresult⟩ := exists_depthFirst hframe hnames
  have hwithin : ∀ c ∈ asked, Reachable resolver name c :=
    horder.within (fun _ _ hc hfr _ ho => hc.step hfr ho) (by simp) (by simpa using Reachable.root)
  refine ⟨result, asked, fault, hbuild, horder, horder.head?, horder.nodup List.nodup_nil, hwithin,
    ?_⟩
  rcases hresult with ⟨rfl, hschema⟩ | ⟨e, rfl, rfl⟩
  · obtain ⟨hroot, hclosed⟩ := horder.closed
    refine Or.inl ⟨rfl, hschema, fun c hc => ?_⟩
    refine hc.of_closed (hroot name (List.mem_singleton_self name)) fun c fr hmem hfr => ?_
    obtain ⟨fr', hfr', hall⟩ := hclosed c hmem List.not_mem_nil
    rw [hfr] at hfr'
    cases hfr'
    exact hall
  · obtain ⟨before, last, hasked, he, hbefore⟩ := horder.stops
    exact Or.inr ⟨e, before, last, rfl, rfl, hasked, he, fun c hc => hbefore c hc List.not_mem_nil⟩

end Building

lemma mission_reachable {name : String} (h : Reachable sampleGraph.frame "Mission" name) :
    name ∈ ["Mission", "TimeSpan"] := by
  have hclosed : ∀ name ∈ ["Mission", "TimeSpan"],
      ∀ other ∈ ((sampleGraph.frame name).toOption.map Frame.classes).getD [],
        other ∈ ["Mission", "TimeSpan"] := by decide
  refine h.of_closed List.mem_cons_self fun name fr hname hfr other ho => ?_
  have hall := hclosed name hname
  rw [hfr] at hall
  exact hall other (Frame.mem_classes.mpr ho)

/-- Missions have time spans, which name missions again; either is asked for once. -/
theorem mission_classes_asked_once :
    (∀ c fr, sampleGraph.frame c = .ok fr → fr.name = c) ∧
      (∀ c, Reachable sampleGraph.frame "Mission" c → c ∈ ["Mission", "TimeSpan"]) ∧
      ∃ result fault, (∀ budget, 2 ≤ budget →
          finish (ofClass sampleGraph.frame budget "Mission") = (result, ["Mission", "TimeSpan"])) ∧
        DepthFirst sampleGraph.frame [] ["Mission"] ["Mission", "TimeSpan"] fault := by
  have hframe : ∀ c fr, sampleGraph.frame c = .ok fr → fr.name = c := by
    intro c fr hfr
    obtain ⟨-, -, -, hname⟩ := GraphSchema.exists_class_of_frame hfr
    exact hname
  have hnames : ∀ c, Reachable sampleGraph.frame "Mission" c → c ∈ ["Mission", "TimeSpan"] :=
    fun c hc => mission_reachable hc
  obtain ⟨result, asked, fault, hbuild, horder, -⟩ := classes_asked_once hframe hnames
  have hasked : asked = ["Mission", "TimeSpan"] := by
    have hrun : (finish (ofClass sampleGraph.frame 2 "Mission")).2 = ["Mission", "TimeSpan"] := by
      decide
    rw [hbuild 2 le_rfl] at hrun
    exact hrun
  subst hasked
  exact ⟨hframe, hnames, result, fault, hbuild, horder⟩

end JsonSchema

end RecordCuration
