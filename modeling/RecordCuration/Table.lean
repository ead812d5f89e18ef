/-!
Tables: entries by name, each name once, in the order of their writing.
-/

namespace RecordCuration

structure Table (α : Type) where
  entries : List (String × α)
  nodup : (entries.map Prod.fst).Nodup

namespace Table

variable {α : Type}

def empty : Table α := ⟨[], by simp⟩

instance : Inhabited (Table α) := ⟨empty⟩

def names (t : Table α) : List String := t.entries.map Prod.fst

def size (t : Table α) : Nat := t.entries.length

def get? (t : Table α) (name : String) : Option α := t.entries.lookup name

def contains (t : Table α) (name : String) : Bool := name ∈ t.names

/-- Adds an entry at the end; `none` when the name is taken. -/
def push? (t : Table α) (name : String) (v : α) : Option (Table α) :=
  if h : name ∈ t.entries.map Prod.fst then none
  else some ⟨t.entries ++ [(name, v)], by
    rw [List.map_append, List.nodup_append]
    exact ⟨t.nodup, by simp, by simpa using fun a b hb => fun e => h (by simpa using ⟨b, e ▸ hb⟩)⟩⟩

theorem ext {t u : Table α} (h : t.entries = u.entries) : t = u := by
  cases t; cases u; cases h; rfl

instance [DecidableEq α] : DecidableEq (Table α) := fun t u =>
  if h : t.entries = u.entries then .isTrue (ext h) else .isFalse fun e => h (e ▸ rfl)

theorem push?_eq_none_iff {t : Table α} {name : String} {v : α} :
    t.push? name v = none ↔ name ∈ t.names := by
  unfold push? names
  split <;> simp_all

theorem entries_push {t u : Table α} {name : String} {v : α} (h : t.push? name v = some u) :
    u.entries = t.entries ++ [(name, v)] := by
  unfold push? at h
  split at h
  · cases h
  · cases h; rfl

end Table

end RecordCuration
