import RecordCuration.Json.Parser
import RecordCuration.Proofs.Json.Size

/-!
The numbers of a document.

A document that is read from a text holds the numbers that its numerals denote, and no whole number
beyond 64 bits is among them. A write adds the numbers of what it writes. Putting other doubles in
the place of those that are there changes nothing else.
-/

namespace RecordCuration.Json

variable {v w x new : Json}

/-- A value somewhere in a document. -/
inductive Part (w : Json) : Json → Prop where
  | self : Part w w
  | item {xs : List Json} {x : Json} (hx : x ∈ xs) (h : Part w x) : Part w (.arr xs)
  | member {ms : List (String × Json)} {m : String × Json} (hm : m ∈ ms) (h : Part w m.2) :
    Part w (.obj ms)

lemma Part.trans (h : Part w v) (hv : Part v x) : Part w x := by
  induction hv with
  | self => exact h
  | item hx _ ih => exact .item hx ih
  | member hm _ ih => exact .member hm ih

def IsNumber : Json → Prop
  | .int _ => True
  | .real _ => True
  | _ => False

lemma IsNumber.part_arr (hw : w.IsNumber) {xs : List Json} :
    Part w (.arr xs) ↔ ∃ x ∈ xs, Part w x := by
  constructor
  · rintro (_ | ⟨hx, h⟩)
    · cases hw
    · exact ⟨_, hx, h⟩
  · rintro ⟨x, hx, h⟩
    exact .item hx h

lemma IsNumber.part_obj (hw : w.IsNumber) {ms : List (String × Json)} :
    Part w (.obj ms) ↔ ∃ m ∈ ms, Part w m.2 := by
  constructor
  · rintro (_ | _ | ⟨hm, h⟩)
    · cases hw
    · exact ⟨_, hm, h⟩
  · rintro ⟨m, hm, h⟩
    exact .member hm h

@[simp] lemma part_real_iff {x : Decimal.Double} : Part w (.real x) ↔ w = .real x := by
  constructor
  · rintro ⟨⟩
    rfl
  · rintro rfl
    exact .self

/-! ### Places and writes -/

lemma Part.of_member {name : String} (h : v.member? name = some w) : Part w v := by
  cases v with
  | obj ms => exact .member (mem_of_lookup h) .self
  | _ => cases h

lemma Part.of_child {s : Segment} (h : v.child? s = some w) : Part w v := by
  cases v with
  | obj ms => exact .of_member h
  | arr xs =>
    obtain ⟨i, -, hw⟩ := Option.bind_eq_some_iff.mp h
    exact .item (List.mem_of_getElem? hw) .self
  | _ => cases h

lemma Part.of_place {p : Path} (h : v.place? p = some w) : Part w v := by
  induction p generalizing v with
  | nil => cases h; exact .self
  | cons s p ih =>
    obtain ⟨x, hx, hw⟩ := place?_cons.mp h
    exact (ih hw).trans (.of_child hx)

lemma IsNumber.part_insert (hw : w.IsNumber) {name : String} {ms : List (String × Json)}
    (h : Part w (.obj (Members.insert name new ms))) : Part w new ∨ Part w (.obj ms) := by
  obtain ⟨m, hm, h⟩ := hw.part_obj.mp h
  rcases mem_insert hm with rfl | hm
  · exact Or.inl h
  · exact Or.inr (.member hm h)

lemma IsNumber.part_setChild (hw : w.IsNumber) {s : Segment} (h : Part w (setChild s new v)) :
    Part w new ∨ Part w v := by
  cases v with
  | obj ms => exact hw.part_insert h
  | arr xs =>
    cases hs : s.asIndex with
    | none => exact Or.inr (by simpa [setChild, hs] using h)
    | some i =>
      simp only [setChild, hs, hw.part_arr] at h
      obtain ⟨x, hx, h⟩ := h
      rcases List.mem_or_eq_of_mem_set hx with hx | rfl
      · exact Or.inr (.item hx h)
      · exact Or.inl h
  | _ => exact Or.inr h

/-- A write adds no number but those of what it writes. -/
lemma IsNumber.part_put (hw : w.IsNumber) {p : Path} (h : Part w (put p new v)) :
    Part w new ∨ Part w v := by
  induction p generalizing v with
  | nil => exact Or.inl h
  | cons s p ih =>
    cases hx : v.child? s with
    | none => exact Or.inr (by simpa [put, hx] using h)
    | some x =>
      rw [put_cons hx] at h
      rcases hw.part_setChild h with h | h
      · exact (ih h).imp_right fun h => h.trans (.of_child hx)
      · exact Or.inr h

/-! ### Texts -/

/-- A number that a numeral denotes. -/
def IsRead (w : Json) : Prop := ∃ n : Decimal.Numeral, n.toNumber?.map ofNumber = some w

lemma mem_of_mem_ofWrites {α : Type} {writes : List (String × α)} {m : String × α}
    (h : m ∈ Members.ofWrites writes) : m ∈ writes := by
  have hfold : ∀ ms : List (String × α),
      m ∈ writes.foldl (fun ms m => Members.insert m.1 m.2 ms) ms → m ∈ writes ∨ m ∈ ms := by
    clear h
    induction writes with
    | nil => exact fun ms h => Or.inr h
    | cons n writes ih =>
      intro ms h
      rcases ih _ h with h | h
      · exact Or.inl (List.mem_cons_of_mem _ h)
      · rcases mem_insert h with rfl | h
        · exact Or.inl List.mem_cons_self
        · exact Or.inr h
  exact (hfold [] h).resolve_right List.not_mem_nil

namespace Source

mutual
theorem isRead_of_toJson? (hw : w.IsNumber) {room : ℕ} : ∀ {x : Source} {v : Json},
    x.toJson? room = some v → Part w v → w.IsRead
  | .null, v, h, hp => by cases h; cases hp; cases hw
  | .bool b, v, h, hp => by cases h; cases hp; cases hw
  | .num n, v, h, hp => by
    have hv : v = w := by
      obtain ⟨number, -, rfl⟩ := Option.map_eq_some_iff.mp h
      cases number <;> cases hp <;> rfl
    exact ⟨n, hv ▸ h⟩
  | .text ps, v, h, hp => by
    obtain ⟨s, -, rfl⟩ := Option.map_eq_some_iff.mp h
    cases hp
    cases hw
  | .arr items, v, h, hp => by
    rw [toJson?] at h
    split_ifs at h
    obtain ⟨vs, hvs, rfl⟩ := Option.map_eq_some_iff.mp h
    obtain ⟨x, hx, hp⟩ := hw.part_arr.mp hp
    exact isRead_of_items? hw hvs x hx hp
  | .obj members, v, h, hp => by
    rw [toJson?] at h
    split_ifs at h
    obtain ⟨ms, hms, rfl⟩ := Option.map_eq_some_iff.mp h
    obtain ⟨m, hm, hp⟩ := hw.part_obj.mp hp
    exact isRead_of_members? hw hms m (mem_of_mem_ofWrites hm) hp
theorem isRead_of_items? (hw : w.IsNumber) {room : ℕ} : ∀ {xs : List Source} {vs : List Json},
    items? room xs = some vs → ∀ v ∈ vs, Part w v → w.IsRead
  | [], vs, h => by cases h; simp
  | x :: xs, vs, h => by
    simp only [items?, bind, pure, Option.bind_eq_some_iff] at h
    obtain ⟨v, hv, us, hus, he⟩ := h
    cases he
    exact List.forall_mem_cons.mpr ⟨isRead_of_toJson? hw hv, isRead_of_items? hw hus⟩
theorem isRead_of_members? (hw : w.IsNumber) {room : ℕ} :
    ∀ {members : List (List Piece × Source)} {ms : List (String × Json)},
      members? room members = some ms → ∀ m ∈ ms, Part w m.2 → w.IsRead
  | [], ms, h => by cases h; simp
  | (name, x) :: members, ms, h => by
    simp only [members?, bind, pure, Option.bind_eq_some_iff] at h
    obtain ⟨k, -, v, hv, ns, hns, he⟩ := h
    cases he
    exact List.forall_mem_cons.mpr ⟨isRead_of_toJson? hw hv, isRead_of_members? hw hns⟩
end

end Source

/-- **Numbers come from numerals**: a number of a document that was read. -/
theorem isRead_of_ofString? {s : String} (h : ofString? s = some v) (hw : w.IsNumber)
    (hp : Part w v) : w.IsRead := by
  obtain ⟨x, -, hx⟩ := Option.bind_eq_some_iff.mp h
  exact Source.isRead_of_toJson? hw hx hp

/-- A whole number of 64 bits, with or without a sign. -/
def FitsWord (n : ℤ) : Prop := -2 ^ 63 ≤ n ∧ n < 2 ^ 64

/-- Larger whole numbers are read as doubles. -/
lemma fitsWord_of_isRead {n : ℤ} (h : (Json.int n).IsRead) : FitsWord n := by
  obtain ⟨m, hm⟩ := h
  obtain ⟨number, hnumber, he⟩ := Option.map_eq_some_iff.mp hm
  obtain rfl : number = .int n := by cases number <;> cases he; rfl
  have hint : m.toInt? = some n := by
    unfold Decimal.Numeral.toNumber? at hnumber
    split at hnumber
    · rename_i i hi
      cases hnumber
      exact hi
    · simp at hnumber
  unfold Decimal.Numeral.toInt? at hint
  split at hint
  · extract_lets digits at hint
    have hlow : Nat.pow 2 63 = 2 ^ 63 := rfl
    have hhigh : UInt64.size = 2 ^ 64 := rfl
    unfold FitsWord
    split_ifs at hint with hsign hn hn <;> obtain rfl := Option.some.inj hint <;> omega
  · cases hint

/-! ### Other doubles -/

section Reals

open Decimal (Double)

variable {f : Double → Double}

mutual
/-- A value with another double in the place of each. -/
def mapReals (f : Double → Double) : Json → Json
  | .real x => .real (f x)
  | .arr xs => .arr (mapRealsItems f xs)
  | .obj ms => .obj (mapRealsMembers f ms)
  | v => v
def mapRealsItems (f : Double → Double) : List Json → List Json
  | [] => []
  | x :: xs => mapReals f x :: mapRealsItems f xs
def mapRealsMembers (f : Double → Double) : List (String × Json) → List (String × Json)
  | [] => []
  | (k, v) :: ms => (k, mapReals f v) :: mapRealsMembers f ms
end

lemma mapRealsItems_eq (xs : List Json) : mapRealsItems f xs = xs.map (mapReals f) := by
  induction xs with
  | nil => rfl
  | cons x xs ih => rw [mapRealsItems, ih, List.map_cons]

lemma mapRealsMembers_eq (ms : List (String × Json)) :
    mapRealsMembers f ms = ms.map fun m => (m.1, mapReals f m.2) := by
  induction ms with
  | nil => rfl
  | cons m ms ih => obtain ⟨k, v⟩ := m; rw [mapRealsMembers, ih, List.map_cons]

@[simp] lemma mapReals_arr (xs : List Json) :
    mapReals f (.arr xs) = .arr (xs.map (mapReals f)) := by
  rw [mapReals, mapRealsItems_eq]

@[simp] lemma mapReals_obj (ms : List (String × Json)) :
    mapReals f (.obj ms) = .obj (ms.map fun m => (m.1, mapReals f m.2)) := by
  rw [mapReals, mapRealsMembers_eq]

lemma mapReals_id (v : Json) : v.mapReals id = v := by
  induction v with
  | arr xs ih => rw [mapReals_arr, List.map_congr_left ih, List.map_id']
  | obj ms ih =>
    have hmembers : ∀ m ∈ ms, (m.1, m.2.mapReals id) = m := fun m hm => by rw [ih m hm]
    rw [mapReals_obj, List.map_congr_left hmembers, List.map_id']
  | _ => rfl

lemma depth_mapReals (v : Json) : (v.mapReals f).depth = v.depth := by
  refine eq_of_forall_ge_iff fun room => ?_
  induction v generalizing room with
  | arr xs ih =>
    cases room with
    | zero => simp [depth]
    | succ room =>
      rw [mapReals_arr, depth_arr_le_iff, depth_arr_le_iff, List.forall_mem_map]
      exact forall₂_congr fun x hx => ih x hx room
  | obj ms ih =>
    cases room with
    | zero => simp [depth]
    | succ room =>
      rw [mapReals_obj, depth_obj_le_iff, depth_obj_le_iff, List.forall_mem_map]
      exact forall₂_congr fun m hm => ih m hm room
  | _ => rfl

end Reals

/-! ### Documents without numbers -/

/-- Neither a number nor `true` stands anywhere in a value. -/
def Measureless (v : Json) : Prop := ∀ w, Part w v → ¬ w.IsNumber ∧ w ≠ .bool true

lemma Measureless.part (hv : v.Measureless) (h : Part w v) : w.Measureless :=
  fun x hx => hv x (hx.trans h)

lemma Measureless.item {xs : List Json} (h : (Json.arr xs).Measureless) {x : Json} (hx : x ∈ xs) :
    x.Measureless := h.part (.item hx .self)

lemma Measureless.member {ms : List (String × Json)} (h : (Json.obj ms).Measureless)
    {m : String × Json} (hm : m ∈ ms) : m.2.Measureless := h.part (.member hm .self)

@[simp] lemma measureless_null : Json.null.Measureless := by
  rintro w ⟨⟩
  exact ⟨id, by simp⟩

@[simp] lemma measureless_false : (Json.bool false).Measureless := by
  rintro w ⟨⟩
  exact ⟨id, by simp⟩

@[simp] lemma measureless_str (s : String) : (Json.str s).Measureless := by
  rintro w ⟨⟩
  exact ⟨id, by simp⟩

@[simp] lemma measureless_arr_iff {xs : List Json} :
    (Json.arr xs).Measureless ↔ ∀ x ∈ xs, x.Measureless := by
  refine ⟨fun h x hx => h.item hx, fun h => ?_⟩
  rintro w (_ | ⟨hx, hw⟩)
  · exact ⟨id, by simp⟩
  · exact h _ hx w hw

@[simp] lemma measureless_obj_iff {ms : List (String × Json)} :
    (Json.obj ms).Measureless ↔ ∀ m ∈ ms, m.2.Measureless := by
  refine ⟨fun h m hm => h.member hm, fun h => ?_⟩
  rintro w (_ | _ | ⟨hm, hw⟩)
  · exact ⟨id, by simp⟩
  · exact h _ hm w hw

@[simp] lemma measureless_strings (names : List String) : (Json.strings names).Measureless := by
  simp [Json.strings]

end RecordCuration.Json
