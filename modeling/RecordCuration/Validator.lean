import RecordCuration.Issue

/-!
Validators: what finds the issues of documents, by whatever means.

Repairs need no more of a validator than the issues it gives.
-/

namespace RecordCuration

/-- Every issue of a document in order, and how many of them are kept; a limit of zero is none. -/
structure Validator where
  issues : Json → List Issue
  maxErrors : Nat

namespace Validator

/-- The issues of a document up to the limit. -/
def validate (validator : Validator) (doc : Json) : List Issue :=
  if validator.maxErrors = 0 then validator.issues doc
  else (validator.issues doc).take validator.maxErrors

variable {validator : Validator} {doc : Json}

theorem mem_issues_of_mem_validate {i : Issue} (h : i ∈ validator.validate doc) :
    i ∈ validator.issues doc := by
  unfold validate at h
  split at h
  · exact h
  · exact List.mem_of_mem_take h

/-- However few issues are kept, none are only where there is none. -/
theorem validate_eq_nil_iff : validator.validate doc = [] ↔ validator.issues doc = [] := by
  unfold validate
  split
  · rfl
  · rename_i h
    simp [List.take_eq_nil_iff, h]

end Validator

end RecordCuration
