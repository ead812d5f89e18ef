import RecordCuration.Proofs.Repair.Spot

/-!
How much can still be mended in a value.

The debt of a value in a slot goes down whenever a place of it is mended. A missing `StopDate` is
the difficulty: it brings a copy of what `StartDate` holds into a slot of another type. So an
object without one keeps in reserve what that value could cost in any slot, its cap; mending raises
no cap.
-/

namespace RecordCuration

open Json JsonSchema

mutual
/-- The most that a value can cost in a slot that is a list, or is none. -/
def cap (array : Bool) : Json → ℕ
  | .arr xs => if array then max 2 (capItems xs) else 2
  | .obj ms => capMembers ms + (if (ms.lookup "StopDate").isNone then capStart ms else 0) +
      (if array then 2 else 1)
  | _ => if array then 2 else 1
def capItems : List Json → ℕ
  | [] => 0
  | x :: xs => cap false x + capItems xs
def capMembers : List (String × Json) → ℕ
  | [] => 0
  | (_, v) :: ms => cap true v + capMembers ms
def capStart : List (String × Json) → ℕ
  | [] => 0
  | (k, v) :: ms => if k = "StartDate" then 1 + cap true v else capStart ms
end

/-- What an object without a `StopDate` keeps for one. -/
def reserve (ms : List (String × Json)) : ℕ :=
  if (ms.lookup "StopDate").isNone then capStart ms else 0

mutual
/-- What is left to mend in a value in a slot. -/
def debt (resolver : Resolver) (array : Bool) (t : FrameType) : Json → ℕ
  | .arr xs => if array then debtItems resolver t xs else 2
  | .obj ms => (if array then 1 else 0) +
      match t with
      | .classRef name =>
        match resolver name with
        | .ok fr => debtMembers resolver fr ms + reserve ms
        | .error _ => 0
      | _ => 0
  | .str text => (if array then 1 else 0) + (if text.toList.getLast? = some 'Z' then 0 else 1)
  | _ => if array then 1 else 0
def debtItems (resolver : Resolver) (t : FrameType) : List Json → ℕ
  | [] => 0
  | x :: xs => debt resolver false t x + debtItems resolver t xs
def debtMembers (resolver : Resolver) (fr : Frame) : List (String × Json) → ℕ
  | [] => 0
  | (k, v) :: ms =>
    (match fr.field? k with
      | some f => debt resolver f.cardinality.isArray f.type v
      | none => 0) + debtMembers resolver fr ms
end

/-! ### Sums -/

lemma sum_set {α : Type} {xs : List α} {i : ℕ} {x : α} (h : xs[i]? = some x) (f : α → ℕ) (y : α) :
    ((xs.set i y).map f).sum + f x = (xs.map f).sum + f y := by
  induction xs generalizing i with
  | nil => simp at h
  | cons z xs ih =>
    cases i with
    | zero =>
      obtain rfl : z = x := by simpa using h
      simp only [List.set_cons_zero, List.map_cons, List.sum_cons]
      omega
    | succ i =>
      have := ih (i := i) (by simpa using h)
      simp only [List.set_cons_succ, List.map_cons, List.sum_cons]
      omega

lemma sum_insert {ms : List (String × Json)} {k : String} {v : Json} (h : ms.lookup k = some v)
    (f : String × Json → ℕ) (w : Json) :
    ((Members.insert k w ms).map f).sum + f (k, v) = (ms.map f).sum + f (k, w) := by
  induction ms with
  | nil => cases h
  | cons m ms ih =>
    obtain ⟨l, x⟩ := m
    by_cases hl : l = k
    · subst hl
      obtain rfl : x = v := by simpa using h
      simp only [Members.insert, ↓reduceIte, List.map_cons, List.sum_cons]
      omega
    · rw [List.lookup_cons, beq_false_of_ne (Ne.symm hl)] at h
      have := ih h
      simp only [Members.insert, hl, ↓reduceIte, List.map_cons, List.sum_cons]
      omega

lemma sum_insert_new {ms : List (String × Json)} {k : String} (h : ms.lookup k = none)
    (f : String × Json → ℕ) (w : Json) :
    ((Members.insert k w ms).map f).sum = (ms.map f).sum + f (k, w) := by
  induction ms with
  | nil => simp [Members.insert]
  | cons m ms ih =>
    obtain ⟨l, x⟩ := m
    have hl : l ≠ k := by rintro rfl; simp at h
    rw [List.lookup_cons, beq_false_of_ne (Ne.symm hl)] at h
    simp only [Members.insert, hl, ↓reduceIte, List.map_cons, List.sum_cons, ih h]
    omega

lemma capItems_eq (xs : List Json) : capItems xs = (xs.map (cap false)).sum := by
  induction xs with
  | nil => rfl
  | cons x xs ih => rw [capItems, ih]; rfl

lemma capMembers_eq (ms : List (String × Json)) :
    capMembers ms = (ms.map fun m => cap true m.2).sum := by
  induction ms with
  | nil => rfl
  | cons m ms ih => obtain ⟨k, v⟩ := m; rw [capMembers, ih]; rfl

lemma capStart_eq (ms : List (String × Json)) :
    capStart ms = ((ms.lookup "StartDate").map fun v => 1 + cap true v).getD 0 := by
  induction ms with
  | nil => rfl
  | cons m ms ih =>
    obtain ⟨k, v⟩ := m
    by_cases hk : k = "StartDate"
    · subst hk; simp [capStart]
    · rw [capStart, if_neg hk, ih, List.lookup_cons, beq_false_of_ne (Ne.symm hk)]

section Debt

variable {formats array : Bool} {resolver : Resolver} {t : FrameType} {v w : Json}

lemma debtItems_eq (xs : List Json) :
    debtItems resolver t xs = (xs.map (debt resolver false t)).sum := by
  induction xs with
  | nil => rfl
  | cons x xs ih => rw [debtItems, ih]; rfl

/-- What a member of an object of a class costs. -/
def memberDebt (resolver : Resolver) (fr : Frame) (m : String × Json) : ℕ :=
  match fr.field? m.1 with
  | some f => debt resolver f.cardinality.isArray f.type m.2
  | none => 0

lemma debtMembers_eq (fr : Frame) (ms : List (String × Json)) :
    debtMembers resolver fr ms = (ms.map (memberDebt resolver fr)).sum := by
  induction ms with
  | nil => rfl
  | cons m ms ih => obtain ⟨k, v⟩ := m; rw [debtMembers, ih]; rfl

lemma debt_class {name : String} {fr : Frame} (h : resolver name = .ok fr)
    (ms : List (String × Json)) :
    debt resolver false (.classRef name) (.obj ms) = debtMembers resolver fr ms + reserve ms := by
  simp [debt, h]

lemma debt_lone (h : v.items? = none) : debt resolver true t v = debt resolver false t v + 1 := by
  cases v <;> simp_all [debt, items?, Nat.add_comm]

/-! ### Caps -/

lemma cap_lone (h : v.items? = none) : cap true v = cap false v + 1 := by
  cases v <;> simp_all [cap, items?]

lemma cap_pos : 0 < cap array v := by
  cases v <;> cases array <;> simp [cap]

lemma cap_le_cap_true (v : Json) : cap array v ≤ cap true v := by
  cases array with
  | true => exact le_rfl
  | false =>
    cases hv : v.items? with
    | none => rw [cap_lone hv]; omega
    | some xs =>
      obtain rfl : v = .arr xs := by cases v <;> simp_all [items?]
      simp [cap]

lemma cap_obj (ms : List (String × Json)) :
    cap array (.obj ms) = capMembers ms + reserve ms + (if array then 2 else 1) := rfl

/-- A cap is the most that a value can cost. -/
theorem debt_le_cap (v : Json) (array : Bool) (t : FrameType) :
    debt resolver array t v ≤ cap array v := by
  induction v generalizing array t with
  | arr xs ih =>
    cases array with
    | true =>
      have hsum : debtItems resolver t xs ≤ capItems xs := by
        rw [debtItems_eq, capItems_eq]
        exact List.sum_le_sum fun x hx => ih x hx false t
      simp only [debt, cap, ↓reduceIte]
      omega
    | false => simp [debt, cap]
  | obj ms ih =>
    have hmembers : ∀ fr, debtMembers resolver fr ms ≤ capMembers ms := by
      intro fr
      rw [debtMembers_eq, capMembers_eq]
      refine List.sum_le_sum fun m hm => ?_
      unfold memberDebt
      cases fr.field? m.1 with
      | none => exact Nat.zero_le _
      | some f => exact (ih m hm _ _).trans (cap_le_cap_true _)
    have hplain : debt resolver false t (.obj ms) ≤ capMembers ms + reserve ms := by
      cases t with
      | classRef name =>
        cases hname : resolver name with
        | ok fr =>
          rw [debt_class hname]
          exact Nat.add_le_add_right (hmembers fr) _
        | error e => simp [debt, hname]
      | _ => simp [debt]
    cases array with
    | true =>
      rw [debt_lone rfl, cap_obj, if_pos rfl]
      omega
    | false =>
      rw [cap_obj]
      omega
  | str text =>
    have hle : (if text.toList.getLast? = some 'Z' then 0 else 1) ≤ 1 := by split <;> omega
    cases array <;> simp only [debt, cap, Bool.false_eq_true, ↓reduceIte] <;> omega
  | _ => cases array <;> simp [debt, cap]

/-! ### Mending -/

lemma reserve_of_start {ms : List (String × Json)} {start : Json}
    (hstop : ms.lookup "StopDate" = none) (hstart : ms.lookup "StartDate" = some start) :
    reserve ms = 1 + cap true start := by
  simp [reserve, hstop, capStart_eq, hstart]

lemma reserve_insert_stop (ms : List (String × Json)) :
    reserve (Members.insert "StopDate" v ms) = 0 := by
  simp [reserve, Members.lookup_insert_self]

lemma reserve_insert_le {ms : List (String × Json)} {k : String} (hv : ms.lookup k = some v)
    (hle : cap true w ≤ cap true v) : reserve (Members.insert k w ms) ≤ reserve ms := by
  have hstart : capStart (Members.insert k w ms) ≤ capStart ms := by
    rw [capStart_eq, capStart_eq]
    by_cases hk : k = "StartDate"
    · subst hk
      rw [Members.lookup_insert_self, hv]
      exact Nat.add_le_add_left hle 1
    · rw [Members.lookup_insert_of_ne (Ne.symm hk)]
  unfold reserve
  by_cases hk : k = "StopDate"
  · subst hk
    simp [Members.lookup_insert_self]
  · rw [Members.lookup_insert_of_ne (Ne.symm hk)]
    split
    · exact hstart
    · exact le_rfl

/-- Mending raises no cap. -/
theorem cap_mends (h : Mends formats resolver array t v w) :
    cap true w ≤ cap true v ∧ (array = false → cap false w ≤ cap false v) := by
  induction h with
  | @wrap t v hv =>
    have hpos : 0 < cap false v := cap_pos
    refine ⟨?_, fun h => by cases h⟩
    rw [cap_lone hv]
    simp only [cap, capItems, ↓reduceIte]
    omega
  | first => simp [cap]
  | utc _ _ _ => simp [cap]
  | @stopDate name fr f ms start _ _ hstop hstart =>
    have hmembers : capMembers (Members.insert "StopDate" start ms) =
        capMembers ms + cap true start := by
      rw [capMembers_eq, capMembers_eq, sum_insert_new hstop]
    have hreserve := reserve_of_start hstop hstart
    have hnone : reserve (Members.insert "StopDate" start ms) = 0 := reserve_insert_stop ms
    simp only [cap_obj, hmembers, hnone, hreserve]
    exact ⟨by omega, fun _ => by omega⟩
  | @item t xs i x y hx _ ih =>
    have hsum := sum_set hx (cap false) y
    have hle := ih.2 rfl
    refine ⟨?_, fun h => by cases h⟩
    simp only [cap, ↓reduceIte, capItems_eq]
    omega
  | @member name k fr f ms v w _ _ hv _ ih =>
    have hsum := sum_insert hv (fun m => cap true m.2) w
    dsimp only at hsum
    have hle := ih.1
    have hreserve := reserve_insert_le hv hle
    simp only [cap_obj, capMembers_eq]
    exact ⟨by omega, fun _ => by omega⟩

lemma debt_str_le (text : String) : debt resolver false t (.str text) ≤ 1 := by
  simp only [debt, Bool.false_eq_true, ↓reduceIte]
  split <;> omega

/-- **Mending pays off**: it lowers the debt of the value. -/
theorem debt_mends (h : Mends formats resolver array t v w) :
    debt resolver array t w < debt resolver array t v := by
  induction h with
  | @wrap t v hv =>
    rw [debt_lone hv]
    simp only [debt, debtItems, ↓reduceIte]
    omega
  | @first t x xs =>
    have hstr : debt resolver false t (.str (Rule.asText x)) ≤ 1 := debt_str_le _
    simp only [debt, Bool.false_eq_true, ↓reduceIte] at hstr ⊢
    omega
  | utc _ _ hz =>
    simp [debt, hz]
  | @stopDate name fr f ms start hname hf hstop hstart =>
    have hcopy : memberDebt resolver fr ("StopDate", start) ≤ cap true start := by
      simp only [memberDebt, hf]
      exact (debt_le_cap start _ _).trans (cap_le_cap_true start)
    have hmembers := sum_insert_new hstop (memberDebt resolver fr) start
    have hreserve := reserve_of_start hstop hstart
    have hnone : reserve (Members.insert "StopDate" start ms) = 0 := reserve_insert_stop ms
    simp only [debt_class hname, debtMembers_eq]
    omega
  | @item t xs i x y hx _ ih =>
    have hsum := sum_set hx (debt resolver false t) y
    simp only [debt, ↓reduceIte, debtItems_eq]
    omega
  | @member name k fr f ms v w hname hf hv hm ih =>
    have hsum := sum_insert hv (memberDebt resolver fr) w
    have hreserve := reserve_insert_le hv (cap_mends hm).1
    have hmember : ∀ x, memberDebt resolver fr (k, x) =
        debt resolver f.cardinality.isArray f.type x := fun x => by simp only [memberDebt, hf]
    rw [hmember, hmember] at hsum
    simp only [debt_class hname, debtMembers_eq]
    omega

end Debt

end RecordCuration
