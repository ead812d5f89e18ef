import RecordCuration.JsonSchema
import RecordCuration.Proofs.Frame
import RecordCuration.Proofs.Json.WellFormed

/-!
The pool of definitions that building a schema leaves.

While a class is being built its name is in progress, and what is defined refers to names that are
known. So in the end every reference leads to the shallow schema of the class that it names. On a
closed set of classes building succeeds when more definitions may nest than there are classes.
-/

namespace RecordCuration

namespace JsonSchema

open Json

/-! ### Steps of building -/

section Steps

variable {α β : Type} {p p' q : Pool}

lemma bind_of_ok {x : Build α} {f : α → Build β} {a : α} (h : x p = .ok a q) :
    (x >>= f) p = f a q := by
  show EStateM.bind x f p = _
  rw [EStateM.bind, h]

lemma bind_of_error {x : Build α} {f : α → Build β} {e : GraphError} (h : x p = .error e q) :
    (x >>= f) p = .error e q := by
  show EStateM.bind x f p = _
  rw [EStateM.bind, h]

lemma bind_eq_ok {x : Build α} {f : α → Build β} {b : β} :
    (x >>= f) p = .ok b p' ↔ ∃ a q, x p = .ok a q ∧ f a q = .ok b p' := by
  cases hrun : x p with
  | ok a q => simp [bind_of_ok hrun]
  | error e q => simp [bind_of_error hrun]

lemma get_bind (f : Pool → Build β) : (get >>= f) p = f p p := rfl

lemma modify_bind (g : Pool → Pool) (f : PUnit → Build β) : (modify g >>= f) p = f ⟨⟩ (g p) := rfl

lemma pure_eq_ok {a b : α} : (pure a : Build α) p = .ok b p' ↔ a = b ∧ p = p' := by
  show EStateM.Result.ok a p = .ok b p' ↔ _
  simp

lemma modify_eq_ok {f : Pool → Pool} {u : PUnit} :
    (modify f : Build PUnit) p = .ok u p' ↔ f p = p' := by
  show EStateM.Result.ok _ (f p) = .ok u p' ↔ _
  simp

lemma get_eq_ok : (get : Build Pool) p = .ok q p' ↔ p = q ∧ p = p' := by
  show EStateM.Result.ok p p = .ok q p' ↔ _
  simp

lemma resolve_eq_ok {resolver : Resolver} {name : String} {fr : Frame} :
    resolve resolver name p = .ok fr p' ↔ resolver name = .ok fr ∧ p.ask name = p' := by
  unfold resolve
  simp only [bind_eq_ok, modify_eq_ok]
  cases resolver name with
  | ok fr' => simp [pure_eq_ok]
  | error e =>
    have hthrow : ∀ q : Pool, (throw e : Build Frame) q ≠ .ok fr p' := fun q h => by cases h
    simp [hthrow]

end Steps

/-- The pool when the frame of a class has been given. -/
def Pool.enter (name : String) (p : Pool) : Pool := ((p.start name).ask name).count

/-- The pool when a class is finished. -/
def Pool.leave (name : String) (body : Json) (p : Pool) : Pool := (p.stop name).define name body

section Define

variable {resolver : Resolver} {budget : ℕ} {name : String} {fr : Frame} {e : GraphError}
  {p p' : Pool}

lemma define_of_known (h : p.isKnown name = true) :
    define resolver (budget + 1) name p = .ok () p := by
  rw [define, bind_eq_ok]
  exact ⟨p, p, get_eq_ok.mpr ⟨rfl, rfl⟩, by simp only [h, ↓reduceIte]; rfl⟩

lemma define_of_error (h : ¬ p.isKnown name = true) (he : resolver name = .error e) :
    define resolver (budget + 1) name p = .error e ((p.start name).ask name) := by
  have hresolve : resolve resolver name (p.start name) = .error e ((p.start name).ask name) := by
    unfold resolve
    rw [he]
    rfl
  rw [define, get_bind, if_neg h, modify_bind, bind_of_error hresolve]

lemma define_of_frame (h : ¬ p.isKnown name = true) (hfr : resolver name = .ok fr) :
    define resolver (budget + 1) name p =
      (fr.fields.forM (visitField (define resolver budget)) >>= fun _ =>
        modify (Pool.leave name (.obj (shallow fr)))) (p.enter name) := by
  have hresolve : resolve resolver name (p.start name) = .ok fr ((p.start name).ask name) :=
    resolve_eq_ok.mpr ⟨hfr, rfl⟩
  rw [define, get_bind, if_neg h, modify_bind, bind_of_ok hresolve, modify_bind, objectSchema]
  simp only [bind_assoc, pure_bind]
  rfl

/-- Making the definition of a class that is not known. -/
lemma define_eq_ok_iff (h : ¬ p.isKnown name = true) :
    define resolver (budget + 1) name p = .ok () p' ↔ ∃ fr q, resolver name = .ok fr ∧
      fr.fields.forM (visitField (define resolver budget)) (p.enter name) = .ok () q ∧
      q.leave name (.obj (shallow fr)) = p' := by
  cases hanswer : resolver name with
  | error e => simp [define_of_error h hanswer]
  | ok fr =>
    rw [define_of_frame h hanswer, bind_eq_ok]
    constructor
    · rintro ⟨u, q, hq, hleave⟩
      exact ⟨fr, q, rfl, hq, modify_eq_ok.mp hleave⟩
    · rintro ⟨fr', q, hfr, hq, hleave⟩
      cases hfr
      exact ⟨(), q, hq, modify_eq_ok.mpr hleave⟩

lemma visits_cons_eq_ok_iff {make : String → Build Unit} {f : FrameField}
    {fs : List FrameField} :
    (f :: fs).forM (visitField make) p = .ok () p' ↔
      ∃ q, visitField make f p = .ok () q ∧ fs.forM (visitField make) q = .ok () p' := by
  show (visitField make f >>= fun _ => fs.forM (visitField make)) p = .ok () p' ↔ _
  rw [bind_eq_ok]
  exact ⟨fun ⟨_, q, h⟩ => ⟨q, h⟩, fun ⟨q, h⟩ => ⟨(), q, h⟩⟩

lemma visitField_eq_ok_iff {make : String → Build Unit} {f : FrameField} :
    visitField make f p = .ok () p' ↔
      (∃ name q, f.type = .classRef name ∧ make name p = .ok () q ∧ q.refer name = p') ∨
      (∀ name, f.type ≠ .classRef name) ∧ p = p' := by
  unfold visitField
  cases f.type with
  | classRef name =>
    simp only [bind_eq_ok, modify_eq_ok, FrameType.classRef.injEq]
    constructor
    · rintro ⟨u, q, hq, rfl⟩; exact Or.inl ⟨name, q, rfl, hq, rfl⟩
    · rintro (⟨other, q, rfl, hq, rfl⟩ | ⟨hno, -⟩)
      · exact ⟨(), q, hq, rfl⟩
      · exact absurd rfl (hno name)
  | scalar s => simp [pure_eq_ok]
  | enumeration id values => simp [pure_eq_ok]

end Define

/-! ### What building keeps -/

/-- Every definition is the schema of its class, and every name that was referred to is known. -/
structure Pool.Sound (resolver : Resolver) (p : Pool) : Prop where
  body : ∀ name b, p.definitions.lookup name = some b → ∃ fr, resolver name = .ok fr ∧
    b = .obj (shallow fr) ∧ ∀ other, fr.Names other → other ∈ p.referenced
  known : ∀ name ∈ p.referenced, p.isKnown name = true

/-- A later pool: the same classes in progress, and nothing forgotten. -/
structure Pool.Extends (p p' : Pool) : Prop where
  inProgress : p'.inProgress = p.inProgress
  definitions : ∀ name b, p.definitions.lookup name = some b → p'.definitions.lookup name = some b
  referenced : ∀ name ∈ p.referenced, name ∈ p'.referenced

namespace Pool

variable {resolver : Resolver} {name other : String} {body : Json} {p p' q : Pool}

lemma isKnown_iff :
    p.isKnown name = true ↔ (∃ b, p.definitions.lookup name = some b) ∨ name ∈ p.inProgress := by
  simp [isKnown, Option.isSome_iff_exists]

lemma Extends.refl (p : Pool) : p.Extends p := ⟨rfl, fun _ _ h => h, fun _ h => h⟩

lemma Extends.trans (h : p.Extends q) (h' : q.Extends p') : p.Extends p' :=
  ⟨h'.inProgress.trans h.inProgress, fun n b hb => h'.definitions n b (h.definitions n b hb),
    fun n hn => h'.referenced n (h.referenced n hn)⟩

lemma Extends.isKnown (h : p.Extends p') (hk : p.isKnown name = true) :
    p'.isKnown name = true := by
  rw [isKnown_iff] at hk ⊢
  rw [h.inProgress]
  exact hk.imp_left fun ⟨b, hb⟩ => ⟨b, h.definitions _ _ hb⟩

lemma extends_refer : p.Extends (p.refer name) :=
  ⟨rfl, fun _ _ h => h, fun _ h => List.mem_cons_of_mem _ h⟩

lemma Sound.refer (h : p.Sound resolver) (hk : p.isKnown name = true) :
    (p.refer name).Sound resolver := by
  refine ⟨fun n b hb => ?_, fun n hn => ?_⟩
  · obtain ⟨fr, hfr, hs, hn⟩ := h.body n b hb
    exact ⟨fr, hfr, hs, fun o ho => List.mem_cons_of_mem _ (hn o ho)⟩
  · rcases List.mem_cons.mp hn with rfl | hn
    · exact hk
    · exact h.known n hn

lemma Sound.enter (h : p.Sound resolver) : (p.enter name).Sound resolver := by
  refine ⟨h.body, fun n hn => ?_⟩
  have := isKnown_iff.mp (h.known n hn)
  exact isKnown_iff.mpr (this.imp_right (List.mem_cons_of_mem _))

lemma lookup_leave_self : (p.leave name body).definitions.lookup name = some body :=
  Members.lookup_insert_self _ _ _

lemma lookup_leave_of_ne (h : other ≠ name) :
    (p.leave name body).definitions.lookup other = p.definitions.lookup other :=
  Members.lookup_insert_of_ne h _ _

lemma Sound.leave (h : p.Sound resolver) {fr : Frame} (hfr : resolver name = .ok fr)
    (hn : ∀ other, fr.Names other → other ∈ p.referenced) :
    (p.leave name (.obj (shallow fr))).Sound resolver := by
  refine ⟨fun n b hb => ?_, fun n hr => ?_⟩
  · by_cases he : n = name
    · subst he
      rw [lookup_leave_self] at hb
      exact ⟨fr, hfr, (Option.some.inj hb).symm, hn⟩
    · rw [lookup_leave_of_ne he] at hb
      exact h.body n b hb
  · rw [isKnown_iff]
    by_cases he : n = name
    · subst he; exact Or.inl ⟨_, lookup_leave_self⟩
    · rw [lookup_leave_of_ne he]
      refine (isKnown_iff.mp (h.known n hr)).imp_right fun hp => ?_
      exact List.mem_filter.mpr ⟨hp, by simpa using he⟩

/-- A class that enters and leaves is in progress no more. -/
lemma inProgress_leave (hname : name ∉ p.inProgress)
    (h : q.inProgress = (p.enter name).inProgress) :
    (q.leave name body).inProgress = p.inProgress := by
  show q.inProgress.filter (· ≠ name) = p.inProgress
  rw [h]
  show (name :: p.inProgress).filter (· ≠ name) = p.inProgress
  rw [List.filter_cons_of_neg (by simp), List.filter_eq_self]
  intro n hn
  have hne : n ≠ name := by rintro rfl; exact hname hn
  simpa using hne

/-- A class that was not known leaves the pool as it was, but for its definition. -/
lemma extends_leave (hk : ¬ p.isKnown name = true) (h : (p.enter name).Extends q) :
    p.Extends (q.leave name body) := by
  rw [isKnown_iff, not_or, not_exists] at hk
  refine ⟨inProgress_leave hk.2 h.inProgress, fun n b hb => ?_, fun n hn => h.referenced n hn⟩
  have hne : n ≠ name := by rintro rfl; exact hk.1 b hb
  rw [lookup_leave_of_ne hne]
  exact h.definitions n b hb

end Pool

/-- What a step of building that makes one name known does. -/
def Keeps (resolver : Resolver) (make : String → Build Unit) : Prop :=
  ∀ {name : String} {p p' : Pool}, p.Sound resolver → make name p = .ok () p' →
    p'.Sound resolver ∧ p.Extends p' ∧ p'.isKnown name = true

section Kept

variable {resolver : Resolver} {p p' : Pool}

lemma Keeps.visits {make : String → Build Unit} (hmake : Keeps resolver make)
    {fs : List FrameField} (hp : p.Sound resolver)
    (h : fs.forM (visitField make) p = .ok () p') :
    p'.Sound resolver ∧ p.Extends p' ∧
      ∀ f ∈ fs, ∀ name, f.type = .classRef name → name ∈ p'.referenced := by
  induction fs generalizing p with
  | nil =>
    obtain rfl : p = p' := (pure_eq_ok.mp h).2
    exact ⟨hp, .refl p, by simp⟩
  | cons f fs ih =>
    obtain ⟨q, hq, hrest⟩ := visits_cons_eq_ok_iff.mp h
    rcases visitField_eq_ok_iff.mp hq with ⟨name, r, hf, hr, rfl⟩ | ⟨hf, rfl⟩
    · obtain ⟨hrs, hre, hrk⟩ := hmake hp hr
      obtain ⟨hs, he, hn⟩ := ih (hrs.refer hrk) hrest
      refine ⟨hs, (hre.trans Pool.extends_refer).trans he, List.forall_mem_cons.mpr ⟨?_, hn⟩⟩
      intro n hfn
      obtain rfl : name = n := by rw [hf] at hfn; exact FrameType.classRef.inj hfn
      exact he.referenced name (by simp [Pool.refer])
    · obtain ⟨hs, he, hn⟩ := ih hp hrest
      exact ⟨hs, he, List.forall_mem_cons.mpr ⟨fun n hfn => absurd hfn (hf n), hn⟩⟩

/-- Making a definition keeps a pool sound, forgets nothing, and makes the name known. -/
theorem keeps_define (resolver : Resolver) (budget : ℕ) :
    Keeps resolver (define resolver budget) := by
  induction budget with
  | zero => intro name p p' _ h; cases h
  | succ budget ih =>
    intro name p p' hp h
    by_cases hk : p.isKnown name = true
    · rw [define_of_known hk] at h
      cases h; exact ⟨hp, .refl p, hk⟩
    · obtain ⟨fr, q, hfr, hq, rfl⟩ := (define_eq_ok_iff hk).mp h
      obtain ⟨hs, he, hn⟩ := ih.visits hp.enter hq
      have hnames : ∀ other, fr.Names other → other ∈ q.referenced :=
        fun other ⟨f, hf, ht⟩ => hn f hf other ht
      exact ⟨hs.leave hfr hnames, Pool.extends_leave hk he,
        Pool.isKnown_iff.mpr (Or.inl ⟨_, Pool.lookup_leave_self⟩)⟩

end Kept

/-! ### Building succeeds -/

/-- The resolver answers for all names of a list, with frames that stay in it. -/
def Closed (resolver : Resolver) (names : List String) : Prop :=
  ∀ name ∈ names, ∃ fr, resolver name = .ok fr ∧ ∀ other, fr.Names other → other ∈ names

/-- The classes in progress are some of the names, each once, and fewer definitions may nest than
are left. -/
structure Pool.Room (names : List String) (budget : ℕ) (p : Pool) : Prop where
  nodup : p.inProgress.Nodup
  subset : p.inProgress ⊆ names
  budget : names.length < budget + p.inProgress.length

namespace Pool.Room

variable {names : List String} {budget : ℕ} {name : String} {p p' : Pool}

lemma of_inProgress (h : p.Room names budget) (he : p'.inProgress = p.inProgress) :
    p'.Room names budget := by
  obtain ⟨hn, hs, hb⟩ := h
  exact ⟨he ▸ hn, he ▸ hs, he ▸ hb⟩

/-- No more classes can be in progress than there are names. -/
lemma ne_zero (h : p.Room names 0) : False := by
  have hle := (List.subperm_of_subset h.nodup h.subset).length_le
  have hbudget := h.budget
  omega

lemma enter (h : p.Room names (budget + 1)) (hn : name ∈ names) (hnot : name ∉ p.inProgress) :
    (p.enter name).Room names budget := by
  refine ⟨List.nodup_cons.mpr ⟨hnot, h.nodup⟩, List.cons_subset.mpr ⟨hn, h.subset⟩, ?_⟩
  have hbudget := h.budget
  show names.length < budget + (name :: p.inProgress).length
  rw [List.length_cons]
  omega

end Pool.Room

section Total

variable {resolver : Resolver} {names : List String}

lemma exists_visits {budget : ℕ} {fs : List FrameField}
    (hmake : ∀ {name : String} {p : Pool}, name ∈ names → p.Sound resolver → p.Room names budget →
      ∃ p', define resolver budget name p = .ok () p')
    (hfs : ∀ f ∈ fs, ∀ name, f.type = .classRef name → name ∈ names) {p : Pool}
    (hp : p.Sound resolver) (hr : p.Room names budget) :
    ∃ p', fs.forM (visitField (define resolver budget)) p = .ok () p' := by
  induction fs generalizing p with
  | nil => exact ⟨p, rfl⟩
  | cons f fs ih =>
    obtain ⟨hf, hfs⟩ := List.forall_mem_cons.mp hfs
    simp only [visits_cons_eq_ok_iff, visitField_eq_ok_iff]
    cases ht : f.type with
    | classRef name =>
      obtain ⟨q, hq⟩ := hmake (hf name ht) hp hr
      obtain ⟨hqs, hqe, hqk⟩ := keeps_define resolver budget hp hq
      obtain ⟨p', hp'⟩ := ih hfs (hqs.refer hqk) (hr.of_inProgress hqe.inProgress)
      exact ⟨p', _, Or.inl ⟨name, q, rfl, hq, rfl⟩, hp'⟩
    | scalar s =>
      obtain ⟨p', hp'⟩ := ih hfs hp hr
      exact ⟨p', p, Or.inr ⟨by simp, rfl⟩, hp'⟩
    | enumeration id values =>
      obtain ⟨p', hp'⟩ := ih hfs hp hr
      exact ⟨p', p, Or.inr ⟨by simp, rfl⟩, hp'⟩

/-- On a closed set of classes every definition can be made. -/
theorem exists_define (hc : Closed resolver names) {budget : ℕ} {name : String} {p : Pool}
    (hn : name ∈ names) (hp : p.Sound resolver) (hr : p.Room names budget) :
    ∃ p', define resolver budget name p = .ok () p' := by
  induction budget generalizing name p with
  | zero => exact hr.ne_zero.elim
  | succ budget ih =>
    by_cases hk : p.isKnown name = true
    · exact ⟨p, define_of_known hk⟩
    · obtain ⟨fr, hfr, hin⟩ := hc name hn
      have hnot : name ∉ p.inProgress := fun h => hk (Pool.isKnown_iff.mpr (Or.inr h))
      obtain ⟨q, hq⟩ := exists_visits (fun h1 h2 h3 => ih h1 h2 h3)
        (fun f hf other ht => hin other ⟨f, hf, ht⟩) hp.enter (hr.enter hn hnot)
      exact ⟨_, (define_eq_ok_iff hk).mpr ⟨fr, q, hfr, hq, rfl⟩⟩

end Total

/-! ### Whole schemas -/

/-- Definitions for all classes that a frame leads to: each is the shallow schema of its class. -/
structure Pooled (resolver : Resolver) (root : Frame) (definitions : List (String × Json)) :
    Prop where
  body : ∀ name b, definitions.lookup name = some b → ∃ fr, resolver name = .ok fr ∧
    b = .obj (shallow fr) ∧ ∀ other, fr.Names other → ∃ b', definitions.lookup other = some b'
  root : ∀ other, root.Names other → ∃ b, definitions.lookup other = some b

section Whole

variable {resolver : Resolver} {names : List String} {budget : ℕ} {name : String} {root : Frame}

/-- When the fields of the root have been visited, all that is missing is the root itself. -/
lemma pooled_of_visits (hroot : resolver name = .ok root) {p q : Pool}
    (hp : p.Sound resolver) (hprogress : p.inProgress = [name])
    (h : root.fields.forM (visitField (define resolver budget)) p = .ok () q) :
    Pooled resolver root
      (if name ∈ q.referenced then (q.leave name (.obj (shallow root))).definitions
      else q.definitions) := by
  obtain ⟨hs, he, hn⟩ := Keeps.visits (keeps_define resolver budget) hp h
  have hnames : ∀ other, root.Names other → other ∈ q.referenced :=
    fun other ⟨f, hf, ht⟩ => hn f hf other ht
  split_ifs with href
  · have hl := hs.leave hroot hnames
    have hdef : ∀ other ∈ q.referenced,
        ∃ b, (q.leave name (.obj (shallow root))).definitions.lookup other = some b := by
      intro other ho
      refine (Pool.isKnown_iff.mp (hl.known other ho)).resolve_right fun hin => ?_
      have hin : other ∈ q.inProgress.filter (· ≠ name) := hin
      rw [he.inProgress, hprogress] at hin
      simp at hin
    exact ⟨fun n b hb => by
      obtain ⟨fr, hfr, hbody, hin⟩ := hl.body n b hb
      exact ⟨fr, hfr, hbody, fun o ho => hdef o (hin o ho)⟩, fun o ho => hdef o (hnames o ho)⟩
  · have hdef : ∀ other ∈ q.referenced, ∃ b, q.definitions.lookup other = some b := by
      intro other ho
      refine (Pool.isKnown_iff.mp (hs.known other ho)).resolve_right fun hin => ?_
      rw [he.inProgress, hprogress, List.mem_singleton] at hin
      exact href (hin ▸ ho)
    exact ⟨fun n b hb => by
      obtain ⟨fr, hfr, hbody, hin⟩ := hs.body n b hb
      exact ⟨fr, hfr, hbody, fun o ho => hdef o (hin o ho)⟩, fun o ho => hdef o (hnames o ho)⟩

lemma ofClass_of_visits (hroot : resolver root.name = .ok root) {q : Pool}
    (h : root.fields.forM (visitField (define resolver budget))
      ((Pool.empty.ask root.name).start root.name) = .ok () q) :
    ofClass resolver budget root.name Pool.empty =
      .ok (.obj (("definitions", .obj (if root.name ∈ q.referenced then
        (q.leave root.name (.obj (shallow root))).definitions else q.definitions)) :: shallow root))
        (if root.name ∈ q.referenced then q.leave root.name (.obj (shallow root))
          else q.stop root.name) := by
  have hbody : objectSchema (define resolver budget) root
      ((Pool.empty.ask root.name).start root.name) = .ok (shallow root) q := by
    rw [objectSchema, bind_eq_ok]
    exact ⟨(), q, h, rfl⟩
  unfold ofClass ofFrame
  simp only [bind_eq_ok, resolve_eq_ok, modify_eq_ok, get_eq_ok]
  refine ⟨root, _, ⟨hroot, rfl⟩, (), _, rfl, _, _, hbody, (), _, rfl, _, _, ⟨rfl, rfl⟩, ?_⟩
  have hstop : (q.stop root.name).referenced = q.referenced := rfl
  rw [hstop]
  by_cases href : root.name ∈ q.referenced
  · simp only [href, ↓reduceIte]; rfl
  · simp only [href, ↓reduceIte]; rfl

/-- **Schemas of closed classes**: the schema of a class among a closed set is its shallow schema
after the definitions of all classes that it leads to. -/
theorem exists_ofClass (hc : Closed resolver names) (hn : name ∈ names)
    (hb : names.length ≤ budget) (hroot : resolver name = .ok root) (hname : root.name = name) :
    ∃ definitions, (finish (ofClass resolver budget name)).1 =
        .ok (.obj (("definitions", .obj definitions) :: shallow root)) ∧
      Pooled resolver root definitions := by
  obtain ⟨fr, hfr, hin⟩ := hc name hn
  obtain rfl : root = fr := by rw [hroot] at hfr; exact Except.ok.inj hfr
  have hsound : ((Pool.empty.ask name).start name).Sound resolver :=
    ⟨fun _ _ h => (by cases h), fun _ h => (by cases h)⟩
  have hroom : ((Pool.empty.ask name).start name).Room names budget :=
    ⟨List.nodup_singleton name, by simpa [Pool.start, Pool.ask, Pool.empty] using hn, by
      show names.length < budget + 1; omega⟩
  obtain ⟨q, hq⟩ := exists_visits (fun h1 h2 h3 => exists_define hc h1 h2 h3)
    (fun f hf other ht => hin other ⟨f, hf, ht⟩) hsound hroom
  refine ⟨_, ?_, pooled_of_visits hroot hsound rfl hq⟩
  subst hname
  simp only [finish, EStateM.run, ofClass_of_visits hroot hq]

end Whole

end JsonSchema

end RecordCuration
