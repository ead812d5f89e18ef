import Mathlib.Tactic
import RecordCuration.Store.Basic

/-!
What an insert does, and what is seen of it later.

An insert stores its document, or refuses it for its type or for its id. A document that names no
id is given the next one of its type, and that id is gone even when the document is then refused.
Ids that are given out differ, so a refusal shows in later answers exactly when an id had been
given out for it.
-/

namespace RecordCuration

/-- A document that is offered as one of a type. -/
structure Offer where
  document : Json
  type : String

namespace Store

variable {s s' t : Store} {doc : Json} {type : String}

/-! ### One insert -/

/-- The document names the type that it is offered as, and no id. -/
def Unnamed (doc : Json) (type : String) : Prop := namedType doc = type ∧ namedId? doc = none

instance (doc : Json) (type : String) : Decidable (Unnamed doc type) :=
  inferInstanceAs (Decidable (_ ∧ _))

/-- An id as it is given out for a type. -/
def assignedId (type : String) (n : ℕ) : String := type ++ "/" ++ toString n

/-- The id that a document would be stored under: its own, or the next one of its type. -/
def idFor (s : Store) (doc : Json) (type : String) : String :=
  (namedId? doc).getD (assignedId type (s.counter type + 1))

/-- The store with an id given out for a document in want of one. -/
def counted (s : Store) (doc : Json) (type : String) : Store :=
  if Unnamed doc type then (s.nextId type).1 else s

@[simp] lemma documents_counted : (s.counted doc type).documents = s.documents := by
  unfold counted
  split_ifs <;> rfl

@[simp] lemma ids_counted : (s.counted doc type).ids = s.ids := by
  unfold counted
  split_ifs <;> rfl

lemma lookup_filter_ne {other : String} (h : other ≠ type) (counters : List (String × ℕ)) :
    (counters.filter (·.1 ≠ type)).lookup other = counters.lookup other := by
  induction counters with
  | nil => rfl
  | cons c counters ih =>
    obtain ⟨name, n⟩ := c
    by_cases hname : name = type
    · subst hname
      simp [List.lookup_cons, beq_false_of_ne h, ← ih]
    · simp [hname, List.lookup_cons, ← ih]

lemma counter_nextId (other : String) : (s.nextId type).1.counter other =
    s.counter other + if other = type then 1 else 0 := by
  by_cases h : other = type
  · subst h
    simp [nextId, counter]
  · have hlookup := lookup_filter_ne h s.counters
    simp [nextId, counter, h, List.lookup_cons, beq_false_of_ne h, ← hlookup]

lemma counter_counted (other : String) : (s.counted doc type).counter other =
    s.counter other + if other = type ∧ Unnamed doc type then 1 else 0 := by
  unfold counted
  split_ifs <;> simp_all [counter_nextId]

/-- What an insert makes of a store and answers. -/
inductive Inserts (s : Store) (doc : Json) (type : String) :
    Store → Except StoreFault String → Prop where
  | mismatched (htype : namedType doc ≠ type) :
    Inserts s doc type s (.error (.typeMismatch type (namedType doc)))
  | duplicate (htype : namedType doc = type) (hused : s.idFor doc type ∈ s.ids) :
    Inserts s doc type (s.counted doc type) (.error (.duplicate (s.idFor doc type)))
  | stored (htype : namedType doc = type) (hnew : s.idFor doc type ∉ s.ids) :
    Inserts s doc type
      { s.counted doc type with
        documents := s.documents ++ [⟨s.idFor doc type, type, doc⟩]
        ids := s.idFor doc type :: s.ids }
      (.ok (s.idFor doc type))

lemma insert_of_type (htype : namedType doc = type) :
    s.insert doc type = (s.counted doc type).insertAs doc type (s.idFor doc type) := by
  cases hid : namedId? doc with
  | some id => simp [insert, counted, idFor, Unnamed, htype, hid]
  | none => simp [insert, counted, idFor, Unnamed, htype, hid, nextId, assignedId]

/-- **Every insert is a mismatch, a duplicate or a document more.** -/
lemma inserts_of_insert {result : Except StoreFault String}
    (h : s.insert doc type = (s', result)) : Inserts s doc type s' result := by
  by_cases htype : namedType doc = type
  · rw [insert_of_type htype, insertAs] at h
    by_cases hused : s.idFor doc type ∈ s.ids
    · simp only [ids_counted, List.contains_eq_mem, hused, decide_true, ↓reduceIte] at h
      cases h
      exact .duplicate htype hused
    · simp only [ids_counted, List.contains_eq_mem, hused, decide_false, Bool.false_eq_true,
        ↓reduceIte, documents_counted] at h
      cases h
      exact .stored htype hused
  · rw [insert, if_pos htype] at h
    cases h
    exact .mismatched htype

/-! ### Ids that are given out -/

lemma toList_assignedId (type : String) (n : ℕ) :
    (assignedId type n).toList = type.toList ++ '/' :: Nat.toDigits 10 n := by
  simp [assignedId]

lemma slash_not_mem_toDigits (n : ℕ) : '/' ∉ Nat.toDigits 10 n := fun h =>
  absurd (Nat.isDigit_of_mem_toDigits (by norm_num) (by norm_num) h) (by decide)

/-- What stands before and after the last separator. -/
lemma append_separator_inj {α : Type} {x : α} {as bs cs ds : List α} (hb : x ∉ bs) (hd : x ∉ ds)
    (h : as ++ x :: bs = cs ++ x :: ds) : as = cs ∧ bs = ds := by
  rcases List.append_eq_append_iff.mp h with ⟨mid, rfl, hrest⟩ | ⟨mid, rfl, hrest⟩
  · cases mid with
    | nil => simpa using hrest
    | cons y mid =>
      obtain ⟨rfl, rfl⟩ := List.cons.inj hrest
      exact absurd List.mem_append_cons_self hb
  · cases mid with
    | nil => simpa using hrest.symm
    | cons y mid =>
      obtain ⟨rfl, rfl⟩ := List.cons.inj hrest
      exact absurd List.mem_append_cons_self hd

/-- An id that was given out shows its type and its number, also when the type has slashes and
digits of its own. -/
lemma assignedId_inj {type' : String} {m n : ℕ} :
    assignedId type m = assignedId type' n ↔ type = type' ∧ m = n := by
  refine ⟨fun h => ?_, fun ⟨htype, hn⟩ => by rw [htype, hn]⟩
  have hlist := congrArg String.toList h
  rw [toList_assignedId, toList_assignedId] at hlist
  obtain ⟨htype, hdigits⟩ := append_separator_inj (slash_not_mem_toDigits m)
    (slash_not_mem_toDigits n) hlist
  refine ⟨String.toList_inj.mp htype, ?_⟩
  rw [← @Nat.ofDigitChars_ten_toDigits m, hdigits, Nat.ofDigitChars_ten_toDigits]

lemma idFor_of_unnamed (h : Unnamed doc type) :
    s.idFor doc type = assignedId type (s.counter type + 1) := by
  rw [idFor, h.2, Option.getD_none]

lemma answer_of_type (htype : namedType doc = type) :
    (s.insert doc type).2 = if s.idFor doc type ∈ s.ids then .error (.duplicate (s.idFor doc type))
      else .ok (s.idFor doc type) := by
  rw [insert_of_type htype, insertAs]
  split_ifs <;> simp_all

/-- Each time that a document without an id is put in, the answer names another id. -/
lemma answer_ne_of_counter (h : Unnamed doc type)
    (hcounter : s.counter type ≠ t.counter type) :
    (s.insert doc type).2 ≠ (t.insert doc type).2 := by
  have hid : s.idFor doc type ≠ t.idFor doc type := by
    rw [idFor_of_unnamed h, idFor_of_unnamed h, Ne, assignedId_inj]
    omega
  rw [answer_of_type h.1, answer_of_type h.1]
  split_ifs <;> simp [hid]

/-! ### Refusals -/

/-- Puts in documents, one after the other; gives the store at the end and every answer. -/
def insertAll (s : Store) : List Offer → Store × List (Except StoreFault String)
  | [] => (s, [])
  | offer :: offers =>
    let (next, result) := s.insert offer.document offer.type
    let (last, results) := next.insertAll offers
    (last, result :: results)

lemma counted_of_refused {fault : StoreFault} (h : s.insert doc type = (s', .error fault)) :
    s' = s.counted doc type := by
  cases inserts_of_insert h with
  | mismatched htype => exact (if_neg fun hu : Unnamed doc type => htype hu.1).symm
  | duplicate => rfl

/-- **Refusals that leave no trace.** A refused insert changes no document and no id, and no count
but the one of its type, which goes up when the document names the type and no id. Whatever is put
in later is answered as if the refused insert had not been, exactly when this is not the case. -/
theorem refusal_untraced_iff {fault : StoreFault} (h : s.insert doc type = (s', .error fault)) :
    s'.documents = s.documents ∧ s'.ids = s.ids ∧
      (∀ other, s'.counter other =
        s.counter other + if other = type ∧ Unnamed doc type then 1 else 0) ∧
      ((∀ offers, (s'.insertAll offers).2 = (s.insertAll offers).2) ↔ ¬ Unnamed doc type) := by
  obtain rfl := counted_of_refused h
  refine ⟨documents_counted, ids_counted, counter_counted, fun hsame hu => ?_, fun hnamed => ?_⟩
  · have hcounter : (s.counted doc type).counter type ≠ s.counter type := by
      simp [counter_counted, hu]
    have hanswers := hsame [⟨doc, type⟩]
    exact answer_ne_of_counter hu hcounter (List.cons.inj hanswers).1
  · rw [counted, if_neg hnamed]
    exact fun _ => rfl

/-- A person who has no id. -/
def person : Json := .obj [("@type", .str "Person")]

/-- A person who names the id that the first person without one would get. -/
def personNamed : Json := .obj [("@type", .str "Person"), ("@id", .str "Person/1")]

/-- A store of that one person. -/
def namedStore : Store := (empty.insert personNamed "Person").1

/-- The person without an id is refused there, and this counts. -/
theorem person_refusal_counted : ∃ s,
    namedStore.insert person "Person" = (s, .error (.duplicate "Person/1")) ∧
      s.documents = namedStore.documents ∧ s.counter "Person" = namedStore.counter "Person" + 1 ∧
      ¬ ∀ offers, (s.insertAll offers).2 = (namedStore.insertAll offers).2 := by
  have h : namedStore.insert person "Person" =
      ((namedStore.insert person "Person").1, .error (.duplicate "Person/1")) := rfl
  have hu : Unnamed person "Person" := by decide
  obtain ⟨hdocs, -, hcounter, htrace⟩ := refusal_untraced_iff h
  refine ⟨_, h, hdocs, ?_, fun hsame => htrace.mp hsame hu⟩
  rw [hcounter, if_pos ⟨rfl, hu⟩]

/-- Put in once more, that person is stored. Had the refused insert not been, the person would be
refused then. -/
theorem person_refusal_traced :
    (empty.insertAll [⟨personNamed, "Person"⟩, ⟨person, "Person"⟩, ⟨person, "Person"⟩]).2 =
        [.ok "Person/1", .error (.duplicate "Person/1"), .ok "Person/2"] ∧
      (empty.insertAll [⟨personNamed, "Person"⟩, ⟨person, "Person"⟩]).2 =
        [.ok "Person/1", .error (.duplicate "Person/1")] :=
  ⟨rfl, rfl⟩

end Store

end RecordCuration
