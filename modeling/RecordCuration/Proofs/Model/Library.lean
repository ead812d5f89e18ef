import Mathlib.Tactic
import RecordCuration.Model.Library

/-!
What a library keeps while it is asked for models and the files change.

A model is put among the kept ones only under a version that has none, so that one that is there
stays, and a version that has one is answered without a look at the files. Every request meets the
files as they are then.
-/

namespace RecordCuration

/-- What a library can be asked for or told. -/
inductive LibraryRequest where
  | load (version : String)
  | loadLatest
  | loadFile (path : String)
  | available
  | addPath (path : String)

inductive LibraryAnswer where
  | model (result : Except ModelError Model)
  | versions (vs : List Version)
  | added

/-- The answer is an error. -/
def LibraryAnswer.Fails : LibraryAnswer → Prop
  | .model (.error _) => True
  | _ => False

/-- The request is for a model by its version. -/
def LibraryRequest.IsVersioned : LibraryRequest → Prop
  | .load _ => True
  | .loadLatest => True
  | _ => False

namespace ModelLibrary

variable {l l' : ModelLibrary} {view : FileView} {version : String} {m : Model}

/-- Meets a request; gives the library after it and the answer. -/
def answer (l : ModelLibrary) (view : FileView) : LibraryRequest → ModelLibrary × LibraryAnswer
  | .load version => ((l.load view version).1, .model (l.load view version).2)
  | .loadLatest => ((l.loadLatest view).1, .model (l.loadLatest view).2)
  | .loadFile path => (l, .model (modelAt view path))
  | .available => (l, .versions (l.available view))
  | .addPath path => (l.addPath path, .added)

/-- Meets requests one after the other, each with the files as they are at its time. -/
def answerAll (l : ModelLibrary) :
    List (FileView × LibraryRequest) → ModelLibrary × List LibraryAnswer
  | [] => (l, [])
  | (view, request) :: requests =>
    let (next, answer) := l.answer view request
    let (last, answers) := next.answerAll requests
    (last, answer :: answers)

/-! ### One request -/

/-- What becomes of a library that a version is loaded from, and the answer. -/
inductive Loads (l : ModelLibrary) (view : FileView) (version : String) :
    ModelLibrary → Except ModelError Model → Prop where
  | kept {m : Model} (h : l.get? version = some m) : Loads l view version l (.ok m)
  | fetched {m : Model} (hnew : l.get? version = none) (h : l.fetch view version = .ok m) :
    Loads l view version { l with kept := (version, m) :: l.kept } (.ok m)
  | failed {e : ModelError} (hnew : l.get? version = none) (h : l.fetch view version = .error e) :
    Loads l view version l (.error e)

lemma loads_load (l : ModelLibrary) (view : FileView) (version : String) :
    l.Loads view version (l.load view version).1 (l.load view version).2 := by
  unfold load
  cases hget : l.get? version with
  | some m => exact .kept hget
  | none =>
    cases hfetch : l.fetch view version with
    | ok m => exact .fetched hget hfetch
    | error e => exact .failed hget hfetch

lemma load_of_get? (view : FileView) (h : l.get? version = some m) :
    l.load view version = (l, .ok m) := by
  rw [load, h]

lemma load_of_new (h : l.get? version = none) :
    (l.load view version).2 = l.fetch view version := by
  rw [load, h]
  cases l.fetch view version <;> rfl

lemma get?_cons_self (l : ModelLibrary) (version : String) (m : Model) :
    ModelLibrary.get? { l with kept := (version, m) :: l.kept } version = some m :=
  List.lookup_cons_self

lemma get?_cons_of_ne {other : String} (h : other ≠ version) (l : ModelLibrary) (m : Model) :
    ModelLibrary.get? { l with kept := (version, m) :: l.kept } other = l.get? other := by
  rw [get?, List.lookup_cons, beq_false_of_ne h]
  rfl

/-- A request leaves the kept models as they are, or adds one under a version that had none. -/
inductive Keeps (l l' : ModelLibrary) : Prop where
  | same (h : l'.kept = l.kept) : Keeps l l'
  | more {version : String} {m : Model} (hnew : l.get? version = none)
    (h : l'.kept = (version, m) :: l.kept) : Keeps l l'

lemma Loads.keeps {result : Except ModelError Model} (h : l.Loads view version l' result) :
    l.Keeps l' := by
  cases h with
  | kept => exact .same rfl
  | fetched hnew => exact .more hnew rfl
  | failed => exact .same rfl

/-- **Every request keeps what is kept.** -/
lemma keeps_answer (l : ModelLibrary) (view : FileView) (request : LibraryRequest) :
    l.Keeps (l.answer view request).1 := by
  cases request with
  | load version => exact (loads_load l view version).keeps
  | loadLatest =>
    simp only [answer, loadLatest]
    cases (l.available view).getLast? with
    | some v => exact (loads_load l view v.shown).keeps
    | none => exact .same rfl
  | loadFile | available | addPath => exact .same rfl

lemma Keeps.get? (h : l.Keeps l') (hm : l.get? version = some m) : l'.get? version = some m := by
  cases h with
  | same h => rwa [ModelLibrary.get?, h]
  | @more new n hnew h =>
    have hne : version ≠ new := by
      rintro rfl
      rw [hnew] at hm
      cases hm
    rw [ModelLibrary.get?, h, List.lookup_cons, beq_false_of_ne hne]
    exact hm

lemma Loads.kept_of_error {e : ModelError} (h : l.Loads view version l' (.error e)) :
    l'.kept = l.kept := by
  cases h with
  | failed => rfl

lemma kept_load_of_fails (h : (LibraryAnswer.model (l.load view version).2).Fails) :
    (l.load view version).1.kept = l.kept := by
  have hl := loads_load l view version
  cases hresult : (l.load view version).2 with
  | error e => exact (hresult ▸ hl).kept_of_error
  | ok m =>
    rw [hresult] at h
    exact h.elim

lemma kept_answer_of_fails {request : LibraryRequest} (h : (l.answer view request).2.Fails) :
    (l.answer view request).1.kept = l.kept := by
  cases request with
  | load version => exact kept_load_of_fails h
  | loadLatest =>
    simp only [answer, loadLatest] at h ⊢
    cases hlast : (l.available view).getLast? with
    | some v =>
      rw [hlast] at h
      exact kept_load_of_fails h
    | none => rfl
  | loadFile | available | addPath => rfl

lemma kept_answer_of_not_versioned {request : LibraryRequest} (h : ¬ request.IsVersioned) :
    (l.answer view request).1.kept = l.kept := by
  cases request with
  | load | loadLatest => exact absurd trivial h
  | loadFile | available | addPath => rfl

/-! ### Requests in turn -/

lemma get?_answerAll {requests : List (FileView × LibraryRequest)} (h : l.get? version = some m) :
    (l.answerAll requests).1.get? version = some m := by
  induction requests generalizing l with
  | nil => exact h
  | cons request requests ih => exact ih ((keeps_answer l request.1 request.2).get? h)

/-- **A model that is kept is kept for good.** Whatever is asked of a library after it kept a model
under a version, and however the files change meanwhile, it keeps that model, and gives it when the
version is loaded. A version that is loaded is kept then, and no other is touched. A request that
fails, and one that is not for a version, leaves what is kept. -/
theorem keeps_for_good (l : ModelLibrary) :
    (∀ requests version m, l.get? version = some m →
      (l.answerAll requests).1.get? version = some m ∧
        ∀ view, (l.answerAll requests).1.load view version =
          ((l.answerAll requests).1, .ok m)) ∧
    (∀ view version m, (l.load view version).2 = .ok m →
      (l.load view version).1.get? version = some m ∧
        ∀ other ≠ version, (l.load view version).1.get? other = l.get? other) ∧
    ∀ view request, ((l.answer view request).2.Fails ∨ ¬ request.IsVersioned) →
      (l.answer view request).1.kept = l.kept := by
  refine ⟨fun requests version m hm => ?_, fun view version m hm => ?_, fun view request h => ?_⟩
  · have hkept : (l.answerAll requests).1.get? version = some m := get?_answerAll hm
    exact ⟨hkept, fun view => load_of_get? view hkept⟩
  · have hl := loads_load l view version
    generalize l.load view version = outcome at hm hl
    obtain ⟨next, result⟩ := outcome
    cases hl with
    | kept h =>
      cases hm
      exact ⟨h, fun _ _ => rfl⟩
    | fetched =>
      cases hm
      exact ⟨get?_cons_self l version m, fun other hne => get?_cons_of_ne hne l m⟩
    | failed => cases hm
  · exact h.elim kept_answer_of_fails kept_answer_of_not_versioned

/-- A library with one directory, in which nothing was sought yet. -/
def freshLibrary : ModelLibrary := ofPaths ["models"]

/-- That directory with one version, and after the file of that version was lost. -/
def oneVersion : FileView := fun path =>
  if path = "models" then some (.directory ["spase-2.6.0.json"])
  else if path = "models/spase-2.6.0.json" then
    some (.file (some "\x7b\"dictionary\":\x7b\x7d,\"ontology\":\x7b\x7d\x7d"))
  else none

def noVersion : FileView := fun path =>
  if path = "models" then some (.directory []) else none

def emptyModel : Model := ⟨some "2.6.0", ⟨[], by decide⟩, ⟨[], by decide⟩⟩

/-- The one version is loaded, its file is lost, and it is loaded again; another version fails. -/
theorem freshLibrary_keeps_for_good :
    let loaded := (freshLibrary.load oneVersion "2.6.0").1
    loaded.get? "2.6.0" = some emptyModel ∧
      (loaded.answerAll [(noVersion, .available), (noVersion, .loadLatest)]).1.load noVersion
        "2.6.0" = ((loaded.answerAll [(noVersion, .available), (noVersion, .loadLatest)]).1,
          .ok emptyModel) ∧
      (loaded.answer noVersion .loadLatest).1.kept = loaded.kept := by
  intro loaded
  have hload : (freshLibrary.load oneVersion "2.6.0").2 = .ok emptyModel := by
    with_unfolding_all decide
  have hkept := ((keeps_for_good freshLibrary).2.1 oneVersion "2.6.0" emptyModel hload).1
  have hfails : (loaded.answer noVersion .loadLatest).2.Fails := by
    have : (loaded.available noVersion).getLast? = none := by with_unfolding_all decide
    simp [answer, loadLatest, this, LibraryAnswer.Fails]
  exact ⟨hkept, ((keeps_for_good loaded).1 _ _ _ hkept).2 noVersion,
    (keeps_for_good loaded).2.2 _ _ (Or.inl hfails)⟩

end ModelLibrary

end RecordCuration
