import Mathlib.Tactic
import RecordCuration.Json.Members

/-!
Writes of distinct names.

Such writes only append, so that the members are the writes themselves.
-/

namespace RecordCuration.Members

variable {α : Type}

lemma insert_of_not_mem {name : String} {ms : List (String × α)} (h : name ∉ ms.map Prod.fst)
    (v : α) : insert name v ms = ms ++ [(name, v)] := by
  induction ms with
  | nil => rfl
  | cons m ms ih =>
    obtain ⟨k, w⟩ := m
    rw [List.map_cons, List.mem_cons, not_or] at h
    rw [insert, if_neg (Ne.symm h.1), ih h.2]
    rfl

lemma writes_of_nodup {ms writes : List (String × α)} (h : ((ms ++ writes).map Prod.fst).Nodup) :
    writes.foldl (fun ms m => insert m.1 m.2 ms) ms = ms ++ writes := by
  induction writes generalizing ms with
  | nil => simp
  | cons m writes ih =>
    have hnot : m.1 ∉ ms.map Prod.fst := by
      rw [List.map_append, List.nodup_append] at h
      exact fun hm => h.2.2 _ hm m.1 (by simp) rfl
    rw [List.foldl_cons, insert_of_not_mem hnot, ih (by simpa using h), List.append_assoc]
    rfl

lemma ofWrites_of_nodup {writes : List (String × α)} (h : (writes.map Prod.fst).Nodup) :
    ofWrites writes = writes := writes_of_nodup h

end RecordCuration.Members
