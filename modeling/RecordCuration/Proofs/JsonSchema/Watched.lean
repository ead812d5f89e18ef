import RecordCuration.Proofs.JsonSchema.Pool

/-!
Builds that are watched.

A watched build does what a build does, step by step, and writes down a moment where the schema of a
frame begins and one where it ends: the pool then, and the classes whose definitions are being made,
which are handed down as definitions nest. What was written down stays when the build fails.

Without what is written down a watched build is the build. Where definitions may nest deeper, the
moments are the same and go on from where they stopped.
-/

namespace RecordCuration

namespace JsonSchema

/-- The schema of a frame begins to be built, or has been built. -/
inductive Turn where
  | begins
  | ends
  deriving DecidableEq, Repr

/-- A turn of a build, the classes whose definitions are being made, the innermost first, and the
pool. -/
structure Moment where
  turn : Turn
  making : List String
  pool : Pool

/-- A step of building beside which moments are written down. -/
abbrev Watched := EStateM GraphError (Pool × List Moment)

namespace Watched

/-- A step of building beside which nothing is written down. -/
def quietly {α : Type} (x : Build α) : Watched α := fun s =>
  match x s.1 with
  | .ok a p => .ok a (p, s.2)
  | .error e p => .error e (p, s.2)

def note (turn : Turn) (making : List String) : Watched Unit :=
  modify fun s => (s.1, s.2 ++ [⟨turn, making, s.1⟩])

def visitField (define : String → Watched Unit) (f : FrameField) : Watched Unit :=
  match f.type with
  | .classRef name => do
    define name
    quietly (modify (Pool.refer name))
  | _ => pure ()

def objectSchema (define : String → Watched Unit) (making : List String) (frame : Frame) :
    Watched (List (String × Json)) := do
  note .begins making
  frame.fields.forM (visitField define)
  note .ends making
  pure (shallow frame)

/-- Makes a definition while others are being made. -/
def define (resolver : Resolver) : (budget : ℕ) → (making : List String) → String → Watched Unit
  | 0, _, name => throw (.notFound name)
  | budget + 1, making, name => do
    if (← quietly get).isKnown name then pure ()
    else
      quietly (modify (Pool.start name))
      let frame ← quietly (resolve resolver name)
      quietly (modify Pool.count)
      let body ← objectSchema (define resolver budget (name :: making)) (name :: making) frame
      quietly (modify (Pool.stop name))
      quietly (modify (Pool.define name (.obj body)))

def ofFrame (resolver : Resolver) (budget : ℕ) (frame : Frame) : Watched Json := do
  quietly (modify (Pool.start frame.name))
  let body ← objectSchema (define resolver budget []) [] frame
  quietly (modify (Pool.stop frame.name))
  if frame.name ∈ (← quietly get).referenced then
    quietly (modify (Pool.define frame.name (.obj body)))
  let definitions := (← quietly get).definitions
  pure (.obj (("definitions", .obj definitions) :: body))

end Watched

/-- What a watched build came to, without what was written down. -/
def forget {α : Type} : EStateM.Result GraphError (Pool × List Moment) α →
    EStateM.Result GraphError Pool α
  | .ok a s => .ok a s.1
  | .error e s => .error e s.1

/-- The pool and the moments that a watched build left. -/
def left {α : Type} : EStateM.Result GraphError (Pool × List Moment) α → Pool × List Moment
  | .ok _ s => s
  | .error _ s => s

/-- The watched build of the schema of a root from nothing, whatever was asked for before. -/
def watch (resolver : Resolver) (budget : ℕ) (root : Frame) (asked : List String) :
    EStateM.Result GraphError (Pool × List Moment) Json :=
  Watched.ofFrame resolver budget root ({ Pool.empty with asked := asked }, [])

def moments (resolver : Resolver) (budget : ℕ) (root : Frame) (asked : List String) : List Moment :=
  (left (watch resolver budget root asked)).2

namespace Watched

variable {α β : Type} {resolver : Resolver} {budget more : ℕ}

/-- What relates the visits of single fields and goes on from step to step relates visits of all. -/
lemma visits_related {M : Type → Type} [Monad M] {R : Watched Unit → M Unit → Prop}
    {visit : FrameField → Watched Unit} {visit' : FrameField → M Unit}
    (hdone : R (pure ()) (pure ()))
    (hnext : ∀ {w x w' x'}, R w x → R w' x' → R (w >>= fun _ => w') (x >>= fun _ => x'))
    (hvisit : ∀ f, R (visit f) (visit' f)) (fs : List FrameField) :
    R (fs.forM visit) (fs.forM visit') := by
  induction fs with
  | nil => exact hdone
  | cons f fs ih => exact hnext (hvisit f) ih

/-! ### Watching changes nothing -/

/-- A watched build that comes to what a build does. -/
def Shadows (w : Watched α) (x : Build α) : Prop := ∀ p log, forget (w (p, log)) = x p

lemma Shadows.bind {w : Watched α} {x : Build α} {f : α → Watched β} {g : α → Build β}
    (hw : Shadows w x) (hf : ∀ a, Shadows (f a) (g a)) : Shadows (w >>= f) (x >>= g) := by
  intro p log
  show forget (EStateM.bind w f (p, log)) = EStateM.bind x g p
  rw [EStateM.bind, EStateM.bind, ← hw p log]
  cases w (p, log) with
  | ok a s => exact hf a s.1 s.2
  | error e s => rfl

lemma shadows_pure (a : α) : Shadows (pure a) (pure a) := fun _ _ => rfl

lemma shadows_quietly (x : Build α) : Shadows (quietly x) x := by
  intro p log
  unfold quietly
  cases x p <;> rfl

/-- To write something down is no step of building. -/
lemma Shadows.note_bind {w : Watched α} {x : Build α} (h : Shadows w x) (turn : Turn)
    (making : List String) : Shadows (note turn making >>= fun _ => w) x := by
  intro p log
  show forget (w (p, log ++ [(⟨turn, making, p⟩ : Moment)])) = x p
  exact h p _

lemma shadows_objectSchema {make : String → Watched Unit} {make' : String → Build Unit}
    (hmake : ∀ name, Shadows (make name) (make' name)) (making : List String) (fr : Frame) :
    Shadows (objectSchema make making fr) (JsonSchema.objectSchema make' fr) := by
  have hvisit : ∀ f, Shadows (visitField make f) (JsonSchema.visitField make' f) := by
    intro f
    unfold visitField JsonSchema.visitField
    cases f.type with
    | classRef name => exact (hmake name).bind fun _ => shadows_quietly _
    | scalar s => exact shadows_pure ()
    | enumeration id values => exact shadows_pure ()
  have hvisits : Shadows (fr.fields.forM (visitField make))
      (fr.fields.forM (JsonSchema.visitField make')) :=
    visits_related (shadows_pure ()) (fun h h' => h.bind fun _ => h') hvisit fr.fields
  refine Shadows.note_bind ?_ _ _
  exact hvisits.bind fun _ => (shadows_pure _).note_bind _ _

lemma shadows_define (budget : ℕ) (making : List String) (name : String) :
    Shadows (define resolver budget making name) (JsonSchema.define resolver budget name) := by
  induction budget generalizing making name with
  | zero => exact fun _ _ => rfl
  | succ budget ih =>
    refine (shadows_quietly get).bind fun p => ?_
    split_ifs
    · exact shadows_pure ()
    · refine (shadows_quietly _).bind fun _ => (shadows_quietly _).bind fun fr => ?_
      refine (shadows_quietly _).bind fun _ => ?_
      refine (shadows_objectSchema (ih (name :: making)) (name :: making) fr).bind fun body => ?_
      exact (shadows_quietly _).bind fun _ => shadows_quietly _

/-- **Watching changes nothing**: what was written down apart, a watched build comes to what the
build does. -/
theorem shadows_ofFrame (resolver : Resolver) (budget : ℕ) (root : Frame) :
    Shadows (ofFrame resolver budget root) (JsonSchema.ofFrame resolver budget root) := by
  refine (shadows_quietly _).bind fun _ => ?_
  refine (shadows_objectSchema (shadows_define budget []) [] root).bind fun body => ?_
  refine (shadows_quietly _).bind fun _ => (shadows_quietly get).bind fun p => ?_
  split_ifs
  · refine (shadows_quietly _).bind fun _ => (shadows_quietly get).bind fun _ => ?_
    exact shadows_pure _
  · exact (shadows_quietly get).bind fun _ => shadows_pure _

/-! ### Nesting deeper -/

/-- A watched build that comes to what another does, or fails having written down less. Neither
takes back what was written down before. -/
def CutShort (w w' : Watched α) : Prop := ∀ s, s.2 <+: (left (w' s)).2 ∧
  (w s = w' s ∨ ∃ e s', w s = .error e s' ∧ s'.2 <+: (left (w' s)).2)

lemma CutShort.bind {w w' : Watched α} {f f' : α → Watched β} (hw : CutShort w w')
    (hf : ∀ a, CutShort (f a) (f' a)) : CutShort (w >>= f) (w' >>= f') := by
  intro s
  obtain ⟨hmore, hsame⟩ := hw s
  show s.2 <+: (left (EStateM.bind w' f' s)).2 ∧ (EStateM.bind w f s = EStateM.bind w' f' s ∨
    ∃ e s', EStateM.bind w f s = .error e s' ∧ s'.2 <+: (left (EStateM.bind w' f' s)).2)
  rw [EStateM.bind, EStateM.bind]
  cases hrun : w' s with
  | error e t =>
    rw [hrun] at hmore hsame
    rcases hsame with he | ⟨e, s', he, hs'⟩ <;> rw [he]
    · exact ⟨hmore, Or.inl rfl⟩
    · exact ⟨hmore, Or.inr ⟨e, s', rfl, hs'⟩⟩
  | ok a t =>
    rw [hrun] at hmore hsame
    obtain ⟨hrest, hsame'⟩ := hf a t
    rcases hsame with he | ⟨e, s', he, hs'⟩ <;> rw [he]
    · exact ⟨hmore.trans hrest, hsame'⟩
    · exact ⟨hmore.trans hrest, Or.inr ⟨e, s', rfl, hs'.trans hrest⟩⟩

lemma cutShort_of_prefix {w : Watched α} (h : ∀ s, s.2 <+: (left (w s)).2) : CutShort w w :=
  fun s => ⟨h s, Or.inl rfl⟩

lemma cutShort_pure (a : α) : CutShort (pure a) (pure a) :=
  cutShort_of_prefix fun _ => List.prefix_refl _

lemma cutShort_quietly (x : Build α) : CutShort (quietly x) (quietly x) := by
  refine cutShort_of_prefix fun s => ?_
  unfold quietly
  cases x s.1 <;> exact List.prefix_refl _

lemma cutShort_note (turn : Turn) (making : List String) :
    CutShort (note turn making) (note turn making) :=
  cutShort_of_prefix fun _ => List.prefix_append _ _

lemma cutShort_objectSchema {make make' : String → Watched Unit}
    (hmake : ∀ name, CutShort (make name) (make' name)) (making : List String) (fr : Frame) :
    CutShort (objectSchema make making fr) (objectSchema make' making fr) := by
  have hvisit : ∀ f, CutShort (visitField make f) (visitField make' f) := by
    intro f
    unfold visitField
    cases f.type with
    | classRef name => exact (hmake name).bind fun _ => cutShort_quietly _
    | scalar s => exact cutShort_pure ()
    | enumeration id values => exact cutShort_pure ()
  have hvisits : CutShort (fr.fields.forM (visitField make))
      (fr.fields.forM (visitField make')) :=
    visits_related (cutShort_pure ()) (fun h h' => h.bind fun _ => h') hvisit fr.fields
  refine (cutShort_note _ _).bind fun _ => hvisits.bind fun _ => ?_
  exact (cutShort_note _ _).bind fun _ => cutShort_pure _

/-- A definition is cut short where those that it nests are. -/
lemma cutShort_define_succ (h : ∀ making name,
      CutShort (define resolver budget making name) (define resolver more making name))
    (making : List String) (name : String) :
    CutShort (define resolver (budget + 1) making name)
      (define resolver (more + 1) making name) := by
  refine (cutShort_quietly get).bind fun p => ?_
  split_ifs
  · exact cutShort_pure ()
  · refine (cutShort_quietly _).bind fun _ => (cutShort_quietly _).bind fun fr => ?_
    refine (cutShort_quietly _).bind fun _ => ?_
    refine (cutShort_objectSchema (h (name :: making)) (name :: making) fr).bind fun body => ?_
    exact (cutShort_quietly _).bind fun _ => cutShort_quietly _

lemma cutShort_define_self (resolver : Resolver) (budget : ℕ) (making : List String)
    (name : String) :
    CutShort (define resolver budget making name) (define resolver budget making name) := by
  induction budget generalizing making name with
  | zero => exact cutShort_of_prefix fun _ => List.prefix_refl _
  | succ budget ih => exact cutShort_define_succ ih making name

lemma cutShort_define (h : budget ≤ more) (making : List String) (name : String) :
    CutShort (define resolver budget making name) (define resolver more making name) := by
  induction budget generalizing more making name with
  | zero =>
    -- nothing was written down yet, and the deeper build only adds
    intro s
    obtain ⟨hmore, -⟩ := cutShort_define_self resolver more making name s
    exact ⟨hmore, Or.inr ⟨_, s, rfl, hmore⟩⟩
  | succ budget ih =>
    obtain _ | more := more
    · omega
    · exact cutShort_define_succ (fun making name => ih (by omega) making name) making name

/-- **Nesting deeper**: where definitions may nest deeper, a watched build comes to the same, unless
it failed and goes on from there. -/
theorem cutShort_ofFrame (resolver : Resolver) (h : budget ≤ more) (root : Frame) :
    CutShort (ofFrame resolver budget root) (ofFrame resolver more root) := by
  refine (cutShort_quietly _).bind fun _ => ?_
  refine (cutShort_objectSchema (cutShort_define h []) [] root).bind fun body => ?_
  refine (cutShort_quietly _).bind fun _ => (cutShort_quietly get).bind fun p => ?_
  split_ifs
  · refine (cutShort_quietly _).bind fun _ => (cutShort_quietly get).bind fun _ => ?_
    exact cutShort_pure _
  · exact (cutShort_quietly get).bind fun _ => cutShort_pure _

end Watched

end JsonSchema

end RecordCuration
