import RecordCuration.Proofs.Json.Members
import RecordCuration.Proofs.JsonSchema.Watched

/-!
The books of a pool while a schema is built.

`Pool.Accounts` says what a pool holds against the classes whose definitions are being made: these
and the root are in progress, nothing in progress is defined, and each frame that was given is
accounted for by a definition or by a class that is being made. To enter a class and to leave it
keeps the books, so they are in order whenever the schema of a frame begins or ends.
-/

namespace RecordCuration

namespace JsonSchema

/-! ### The books of a pool -/

/-- What a pool holds while definitions are being made for some classes, the innermost first, on
the way to the schema of a root. The classes in progress and those defined are lists that stand for
sets, none with a name twice. -/
structure Pool.Accounts (resolver : Resolver) (root : String) (making : List String) (p : Pool) :
    Prop where
  inProgress : p.inProgress = making ++ [root]
  nodup : p.inProgress.Nodup
  defined : (p.definitions.map Prod.fst).Nodup
  apart : p.inProgress.Disjoint (p.definitions.map Prod.fst)
  referenced : ∀ name ∈ p.referenced, name ∈ p.definitions.map Prod.fst ∨ name ∈ p.inProgress
  body : ∀ name b, (name, b) ∈ p.definitions →
    ∃ fr, resolver name = .ok fr ∧ b = .obj (shallow fr)
  resolved : p.resolved = p.definitions.length + making.length

namespace Pool

variable {resolver : Resolver} {root name : String} {making : List String} {p : Pool}

lemma isKnown_iff_mem : p.isKnown name = true ↔
    name ∈ p.definitions.map Prod.fst ∨ name ∈ p.inProgress := by
  rw [isKnown_iff, ← Option.isSome_iff_exists, Json.lookup_isSome_iff]

lemma Accounts.refer (h : p.Accounts resolver root making) (hk : p.isKnown name = true) :
    (p.refer name).Accounts resolver root making :=
  { h with referenced := List.forall_mem_cons.mpr ⟨isKnown_iff_mem.mp hk, h.referenced⟩ }

/-- A class that was not known is one more that is in progress, and one more that has a frame. -/
lemma Accounts.enter (h : p.Accounts resolver root making) (hk : ¬ p.isKnown name = true) :
    (p.enter name).Accounts resolver root (name :: making) := by
  rw [isKnown_iff_mem, not_or] at hk
  refine ⟨?_, List.nodup_cons.mpr ⟨hk.2, h.nodup⟩, h.defined, ?_, ?_, h.body, ?_⟩
  · show name :: p.inProgress = name :: making ++ [root]
    rw [h.inProgress, List.cons_append]
  · exact List.disjoint_cons_left.mpr ⟨hk.1, h.apart⟩
  · exact fun n hn => (h.referenced n hn).imp_right (List.mem_cons_of_mem _)
  · show p.resolved + 1 = p.definitions.length + (name :: making).length
    rw [h.resolved, List.length_cons, Nat.add_assoc]

/-- A class in progress is no definition yet, so that finishing it adds one at the end. -/
lemma Accounts.definitions_leave (h : p.Accounts resolver root (name :: making)) (body : Json) :
    (p.leave name body).definitions = p.definitions ++ [(name, body)] :=
  Members.insert_of_not_mem (h.apart (by simp [h.inProgress])) body

lemma Accounts.inProgress_leave (h : p.Accounts resolver root (name :: making)) (body : Json) :
    (p.leave name body).inProgress = making ++ [root] := by
  have hnodup := h.nodup
  rw [h.inProgress, List.cons_append, List.nodup_cons] at hnodup
  exact Pool.inProgress_leave (p := { p with inProgress := making ++ [root] }) hnodup.1 h.inProgress

/-- The innermost class is finished: its definition takes the place of a class in progress. -/
lemma Accounts.leave (h : p.Accounts resolver root (name :: making)) {fr : Frame}
    (hfr : resolver name = .ok fr) :
    (p.leave name (.obj (shallow fr))).Accounts resolver root making := by
  have hin := h.inProgress_leave (.obj (shallow fr))
  have hdefs := h.definitions_leave (.obj (shallow fr))
  have hnodup := h.nodup
  have hapart := h.apart
  have hreferenced := h.referenced
  rw [h.inProgress, List.cons_append] at hnodup hapart hreferenced
  rw [List.nodup_cons] at hnodup
  rw [List.disjoint_cons_left] at hapart
  refine ⟨hin, hin ▸ hnodup.2, ?_, ?_, fun n hn => ?_, fun n b hb => ?_, ?_⟩
  · rw [hdefs, List.map_append]
    exact List.nodup_append_comm.mp (List.nodup_cons.mpr ⟨hapart.1, h.defined⟩)
  · rw [hin, hdefs, List.map_append]
    refine List.disjoint_append_right.mpr ⟨hapart.2, ?_⟩
    simpa using hnodup.1
  · rw [hin, hdefs, List.map_append]
    rcases hreferenced n hn with hd | hp
    · exact Or.inl (List.mem_append_left _ hd)
    · rcases List.mem_cons.mp hp with rfl | hp
      · exact Or.inl (by simp)
      · exact Or.inr hp
  · rw [hdefs] at hb
    rcases List.mem_append.mp hb with hb | hb
    · exact h.body n b hb
    · obtain ⟨rfl, rfl⟩ := Prod.mk.inj (List.mem_singleton.mp hb)
      exact ⟨fr, hfr, rfl⟩
  · rw [hdefs]
    show p.resolved = _
    rw [h.resolved]
    simp only [List.length_append, List.length_cons, List.length_nil]
    omega

end Pool

/-! ### Moments -/

/-- How far the schema of the innermost frame is. -/
inductive Phase where
  | before
  | within
  | after

def Phase.begun : Phase → ℕ
  | .before => 0
  | _ => 1

def Phase.ended : Phase → ℕ
  | .after => 1
  | _ => 0

def Turn.start : Turn → Phase
  | .begins => .before
  | .ends => .within

def Turn.finish : Turn → Phase
  | .begins => .within
  | .ends => .after

/-- What was written down up to a pool: at each moment the pool was in order, and the schemas of the
root and of every frame that was given have begun. -/
structure Attested (resolver : Resolver) (root : String) (s : Pool × List Moment) : Prop where
  moments : ∀ m ∈ s.2, m.pool.Accounts resolver root m.making
  begins : s.2.countP (·.turn = .begins) = s.1.resolved + 1

/-- All that has begun has ended. -/
structure Balanced (resolver : Resolver) (root : String) (s : Pool × List Moment) : Prop
    extends Attested resolver root s where
  ends : s.2.countP (·.turn = .ends) = s.2.countP (·.turn = .begins)

/-- A state of a watched build, where the pool is in order as well. Beside the root a schema has
begun for each frame that was given and has ended for each class that is defined, but for the
innermost: its phase says whether it has begun, and whether it has ended before it is defined. -/
structure Standing (resolver : Resolver) (root : String) (making : List String) (phase : Phase)
    (s : Pool × List Moment) : Prop where
  pool : s.1.Accounts resolver root making
  moments : ∀ m ∈ s.2, m.pool.Accounts resolver root m.making
  begins : s.2.countP (·.turn = .begins) = s.1.resolved + phase.begun
  ends : s.2.countP (·.turn = .ends) = s.1.definitions.length + phase.ended

namespace Watched

variable {α β : Type} {resolver : Resolver} {root name : String} {making : List String}
  {P : Pool × List Moment → Prop} {p : Pool} {log : List Moment} {budget : ℕ}

/-- A value and a state that fit, or a failure with what was written down in order. -/
def ComesTo (resolver : Resolver) (root : String) (Q : α → Pool × List Moment → Prop) :
    EStateM.Result GraphError (Pool × List Moment) α → Prop
  | .ok a s => Q a s
  | .error _ s => Attested resolver root s

/-- What a watched build comes to from states of one kind. -/
def Leads (resolver : Resolver) (root : String) (P : Pool × List Moment → Prop) (w : Watched α)
    (Q : α → Pool × List Moment → Prop) : Prop :=
  ∀ s, P s → ComesTo resolver root Q (w s)

lemma Leads.bind {w : Watched α} {f : α → Watched β} {Q : α → Pool × List Moment → Prop}
    {R : β → Pool × List Moment → Prop} (hw : Leads resolver root P w Q)
    (hf : ∀ a, Leads resolver root (Q a) (f a) R) : Leads resolver root P (w >>= f) R := by
  intro s hs
  have hs' := hw s hs
  show ComesTo resolver root R (EStateM.bind w f s)
  rw [EStateM.bind]
  cases hrun : w s with
  | ok a s' =>
    rw [hrun] at hs'
    exact hf a s' hs'
  | error e s' =>
    rw [hrun] at hs'
    exact hs'

lemma leads_pure (a : α) : Leads resolver root P (pure a) (fun _ => P) := fun _ hs => hs

lemma leads_note (turn : Turn) : Leads resolver root (Standing resolver root making turn.start)
    (note turn making) (fun _ => Standing resolver root making turn.finish) := by
  intro s hs
  have hcount : ∀ t, (s.2 ++ [(⟨turn, making, s.1⟩ : Moment)]).countP (·.turn = t) =
      s.2.countP (·.turn = t) + if turn = t then 1 else 0 := by
    intro t
    simp [List.countP_append, List.countP_cons]
  refine ⟨hs.pool, List.forall_mem_append.mpr ⟨hs.moments, by simpa using hs.pool⟩, ?_, ?_⟩
  · rw [hcount, hs.begins]
    cases turn <;> rfl
  · rw [hcount, hs.ends]
    cases turn <;> rfl

/-- Making the definition of any class keeps a pool in order, and the class is known then. -/
def KeepsAccounts (resolver : Resolver) (root : String) (making : List String)
    (make : String → Watched Unit) : Prop :=
  ∀ name, Leads resolver root (Standing resolver root making .within) (make name)
    fun _ s => Standing resolver root making .within s ∧ s.1.isKnown name = true

lemma KeepsAccounts.visits {make : String → Watched Unit}
    (hmake : KeepsAccounts resolver root making make) (fs : List FrameField) :
    Leads resolver root (Standing resolver root making .within) (fs.forM (visitField make))
      (fun _ => Standing resolver root making .within) := by
  have hvisit : ∀ f, Leads resolver root (Standing resolver root making .within)
      (visitField make f) (fun _ => Standing resolver root making .within) := by
    intro f
    unfold visitField
    cases f.type with
    | classRef name =>
      refine (hmake name).bind fun _ s hs => ?_
      exact ⟨hs.1.pool.refer hs.2, hs.1.moments, hs.1.begins, hs.1.ends⟩
    | scalar s => exact leads_pure ()
    | enumeration id values => exact leads_pure ()
  induction fs with
  | nil => exact leads_pure ()
  | cons f fs ih => exact (hvisit f).bind fun _ => ih

lemma KeepsAccounts.objectSchema {make : String → Watched Unit}
    (hmake : KeepsAccounts resolver root making make) (fr : Frame) :
    Leads resolver root (Standing resolver root making .before) (objectSchema make making fr)
      (fun body s => body = shallow fr ∧ Standing resolver root making .after s) := by
  refine (leads_note .begins).bind fun _ => (hmake.visits fr.fields).bind fun _ => ?_
  exact (leads_note .ends).bind fun _ _ hs => ⟨rfl, hs⟩

lemma define_of_known (hk : p.isKnown name = true) :
    define resolver (budget + 1) making name (p, log) = .ok () (p, log) := by
  show (if p.isKnown name = true then pure () else _ : Watched Unit) (p, log) = _
  rw [if_pos hk]
  rfl

lemma define_of_error (hk : ¬ p.isKnown name = true) {e : GraphError}
    (he : resolver name = .error e) : define resolver (budget + 1) making name (p, log) =
      .error e ((p.start name).ask name, log) := by
  show (if p.isKnown name = true then pure () else _ : Watched Unit) (p, log) = _
  rw [if_neg hk]
  show EStateM.bind (quietly (resolve resolver name)) _ (p.start name, log) = _
  unfold resolve
  rw [he]
  rfl

lemma define_of_frame (hk : ¬ p.isKnown name = true) {fr : Frame}
    (hfr : resolver name = .ok fr) : define resolver (budget + 1) making name (p, log) =
      (objectSchema (define resolver budget (name :: making)) (name :: making) fr >>= fun body =>
        quietly (modify (Pool.leave name (.obj body)))) (p.enter name, log) := by
  show (if p.isKnown name = true then pure () else _ : Watched Unit) (p, log) = _
  rw [if_neg hk]
  show EStateM.bind (quietly (resolve resolver name)) _ (p.start name, log) = _
  unfold resolve
  rw [hfr]
  rfl

/-- Definitions keep a pool in order below the classes that are being made. -/
theorem keepsAccounts_define (budget : ℕ) (making : List String) :
    KeepsAccounts resolver root making (define resolver budget making) := by
  induction budget generalizing making with
  | zero => exact fun _ s hs => ⟨hs.moments, hs.begins⟩
  | succ budget ih =>
    rintro name ⟨p, log⟩ hs
    by_cases hk : p.isKnown name = true
    · rw [define_of_known hk]
      exact ⟨hs, hk⟩
    cases hanswer : resolver name with
    | error e =>
      rw [define_of_error hk hanswer]
      exact ⟨hs.moments, hs.begins⟩
    | ok fr =>
      rw [define_of_frame hk hanswer]
      -- inside, the class is one more that is being made; when it is left it is defined instead
      have hinner : Standing resolver root (name :: making) .before (p.enter name, log) :=
        ⟨hs.pool.enter hk, hs.moments, hs.begins, hs.ends⟩
      refine ((ih (name :: making)).objectSchema fr).bind (fun body s hbody => ?_) _ hinner
      obtain ⟨rfl, hs'⟩ := hbody
      refine ⟨⟨hs'.pool.leave hanswer, hs'.moments, hs'.begins, ?_⟩,
        Pool.isKnown_iff.mpr (Or.inl ⟨_, Pool.lookup_leave_self⟩)⟩
      show _ = (s.1.leave name (.obj (shallow fr))).definitions.length + 0
      rw [hs'.pool.definitions_leave, hs'.ends, List.length_append]
      rfl

/-- When the schema of the root has ended no class is left that has only begun. -/
lemma balanced_of_standing {s : Pool × List Moment}
    (h : Standing resolver root [] .after s) : Balanced resolver root s := by
  refine ⟨⟨h.moments, h.begins⟩, ?_⟩
  rw [h.begins, h.ends, h.pool.resolved]
  rfl

lemma leads_modify (f : Pool → Pool) (hf : ∀ p, (f p).resolved = p.resolved) :
    Leads resolver root (Balanced resolver root) (quietly (modify f))
      (fun _ => Balanced resolver root) :=
  fun s hs => ⟨⟨hs.moments, hs.begins.trans (congrArg (· + 1) (hf s.1).symm)⟩, hs.ends⟩

lemma leads_get : Leads resolver root (Balanced resolver root) (quietly get)
    (fun _ => Balanced resolver root) := fun _ hs => hs

/-- What is written down on the way from nothing to a schema is in order. -/
lemma leads_ofFrame (resolver : Resolver) (budget : ℕ) (fr : Frame) (asked : List String) :
    Leads resolver fr.name (· = ({ Pool.empty with asked := asked }, []))
      (ofFrame resolver budget fr) (fun _ => Balanced resolver fr.name) := by
  have hstart : Leads resolver fr.name (· = ({ Pool.empty with asked := asked }, []))
      (quietly (modify (Pool.start fr.name)))
      (fun _ => Standing resolver fr.name [] .before) := by
    rintro _ rfl
    exact ⟨⟨rfl, List.nodup_singleton _, List.nodup_nil, List.disjoint_nil_right _,
      by simp [Pool.start, Pool.empty], by simp [Pool.start, Pool.empty], rfl⟩, by simp, rfl, rfl⟩
  refine hstart.bind fun _ => ((keepsAccounts_define budget []).objectSchema fr).bind fun body => ?_
  have hstop : Leads resolver fr.name
      (fun s => body = shallow fr ∧ Standing resolver fr.name [] .after s)
      (quietly (modify (Pool.stop fr.name))) (fun _ => Balanced resolver fr.name) :=
    fun s hs => leads_modify (Pool.stop fr.name) (fun _ => rfl) s (balanced_of_standing hs.2)
  refine hstop.bind fun _ => leads_get.bind fun p => ?_
  split_ifs
  · refine (leads_modify (Pool.define fr.name (.obj body)) fun _ => rfl).bind fun _ => ?_
    exact leads_get.bind fun _ => leads_pure _
  · exact leads_get.bind fun _ => leads_pure _

end Watched

/-- **The books are in order.** A watched build comes to what the build of a schema from nothing
comes to. At each of its moments, when it fails later as well, the root and the classes whose
definitions are being made are in progress and no others; none of them is defined, and what was
referred to is one of them or is defined. Each definition is the schema of the frame that its class
was given, and as many frames were given as there are definitions made and being made. No moment is
missed: the root and each frame that was given begin once, and with a schema as the result all of
them end. Where definitions may nest deeper, the moments go on from these. To make the definition of
a known class does nothing. -/
theorem pool_accounts_throughout (resolver : Resolver) (budget : ℕ) (root : Frame)
    (asked : List String) :
    forget (watch resolver budget root asked) =
        ofFrame resolver budget root { Pool.empty with asked := asked } ∧
      (∀ m ∈ moments resolver budget root asked, m.pool.Accounts resolver root.name m.making) ∧
      ((moments resolver budget root asked).countP (·.turn = .begins) =
          (left (watch resolver budget root asked)).1.resolved + 1 ∧
        ∀ schema s, watch resolver budget root asked = .ok schema s →
          s.2.countP (·.turn = .ends) = s.2.countP (·.turn = .begins)) ∧
      (∀ more, budget ≤ more →
        moments resolver budget root asked <+: moments resolver more root asked) ∧
      ∀ depth name p, p.isKnown name = true → define resolver (depth + 1) name p = .ok () p := by
  have hleads : Watched.ComesTo resolver root.name (fun _ => Balanced resolver root.name)
      (watch resolver budget root asked) := Watched.leads_ofFrame resolver budget root asked _ rfl
  have hdeeper : ∀ more, budget ≤ more →
      moments resolver budget root asked <+: moments resolver more root asked := by
    intro more h
    obtain ⟨-, hsame⟩ := Watched.cutShort_ofFrame resolver h root
      ({ Pool.empty with asked := asked }, [])
    unfold moments watch
    rcases hsame with he | ⟨e, s, he, hprefix⟩ <;> rw [he]
    exact hprefix
  refine ⟨Watched.shadows_ofFrame resolver budget root _ _, ?_⟩
  unfold moments at hdeeper ⊢
  cases hrun : watch resolver budget root asked with
  | ok schema s =>
    rw [hrun] at hleads hdeeper
    refine ⟨hleads.moments, ⟨hleads.begins, ?_⟩, hdeeper, fun _ _ _ => define_of_known⟩
    rintro _ _ ⟨⟩
    exact hleads.ends
  | error e s =>
    rw [hrun] at hleads hdeeper
    exact ⟨hleads.moments, ⟨hleads.begins, nofun⟩, hdeeper, fun _ _ _ => define_of_known⟩

/-! ### Stations -/

/-- Stations have a mast and sensors. -/
def stationFrame : Frame :=
  ⟨"Station", "", [],
    [⟨"Mast", .classRef "Mast", .required⟩, ⟨"Sensor", .classRef "Sensor", .list⟩]⟩

/-- Masts carry sensors, and sensors name the mast and the station that they belong to. -/
def stationFrames : Resolver
  | "Station" => .ok stationFrame
  | "Mast" => .ok ⟨"Mast", "", [], [⟨"Sensor", .classRef "Sensor", .set⟩]⟩
  | "Sensor" => .ok ⟨"Sensor", "", [],
      [⟨"Mast", .classRef "Mast", .optional⟩, ⟨"Station", .classRef "Station", .optional⟩]⟩
  | name => .error (.notFound name)

/-- The turns of the station's build, with the classes that are being made and those defined. -/
def stationTurns : List (Turn × List String × List String) :=
  [(.begins, [], []), (.begins, ["Mast"], []), (.begins, ["Sensor", "Mast"], []),
    (.ends, ["Sensor", "Mast"], []), (.ends, ["Mast"], ["Sensor"]), (.ends, [], ["Sensor", "Mast"])]

/-- Sensors begin and end while masts are being made, and all that begins ends. Definitions that may
not nest as deep are cut short. -/
theorem station_pool_accounts :
    ((moments stationFrames 3 stationFrame []).map fun m =>
        (m.turn, m.making, m.pool.definitions.map Prod.fst)) = stationTurns ∧
      (∃ m ∈ moments stationFrames 3 stationFrame [], m.making = ["Sensor", "Mast"] ∧
        m.pool.Accounts stationFrames "Station" m.making ∧ m.pool.isKnown "Mast" = true ∧
        define stationFrames 1 "Mast" m.pool = .ok () m.pool) ∧
      (∃ schema s, watch stationFrames 3 stationFrame [] = .ok schema s ∧
        s.2.countP (·.turn = .ends) = s.2.countP (·.turn = .begins)) ∧
      1 ≤ 3 ∧
      moments stationFrames 1 stationFrame [] <+: moments stationFrames 3 stationFrame [] := by
  obtain ⟨-, haccounts, ⟨-, hended⟩, -, hknown⟩ :=
    pool_accounts_throughout stationFrames 3 stationFrame []
  obtain ⟨-, -, -, hdeeper, -⟩ := pool_accounts_throughout stationFrames 1 stationFrame []
  have hturns : ((moments stationFrames 3 stationFrame []).map fun m =>
      (m.turn, m.making, m.pool.definitions.map Prod.fst)) = stationTurns := by decide +kernel
  refine ⟨hturns, ?_, ?_, by decide, hdeeper 3 (by decide)⟩
  · have hsensor : (.begins, ["Sensor", "Mast"], []) ∈ stationTurns := by decide
    obtain ⟨m, hm, hparts⟩ := List.mem_map.mp (hturns ▸ hsensor)
    simp only [Prod.mk.injEq] at hparts
    have hmast : m.pool.isKnown "Mast" = true := by
      rw [Pool.isKnown_iff_mem, (haccounts m hm).inProgress, hparts.2.1]
      exact Or.inr (by decide)
    exact ⟨m, hm, hparts.2.1, haccounts m hm, hmast, hknown 0 "Mast" m.pool hmast⟩
  · have hok : (match watch stationFrames 3 stationFrame [] with
        | .ok _ _ => true
        | .error _ _ => false) = true := by decide +kernel
    cases hrun : watch stationFrames 3 stationFrame [] with
    | ok schema s => exact ⟨schema, s, rfl, hended schema s hrun⟩
    | error e s =>
      rw [hrun] at hok
      cases hok

end JsonSchema

end RecordCuration
