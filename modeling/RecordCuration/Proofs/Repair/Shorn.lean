import RecordCuration.Proofs.Json.WellFormed
import RecordCuration.Proofs.Model.Meaning

/-!
Documents in which lists of one item were replaced by the item.

Only the values of fields that repeat are replaced, at any depth, and the number beside a document
bounds how many replaced lists lie inside each other.
-/

namespace RecordCuration

open Json

mutual
/-- The second value is the first with some lists of one item replaced by the item, of which at most
`n` lie inside each other. -/
inductive Shorn (m : Model) : Bool → FrameType → ℕ → Json → Json → Prop where
  | same {array : Bool} {t : FrameType} {n : ℕ} {v : Json} : Shorn m array t n v v
  | alone {t : FrameType} {n : ℕ} {x y : Json} (h : Shorn m false t n x y) :
    Shorn m true t (n + 1) (.arr [x]) y
  | items {t : FrameType} {n : ℕ} {xs ys : List Json} (h : ShornItems m t n xs ys) :
    Shorn m true t n (.arr xs) (.arr ys)
  | members {container : String} {n : ℕ} {ms ns : List (String × Json)}
    (h : ShornMembers m container n ms ns) :
    Shorn m false (.classRef container) n (.obj ms) (.obj ns)
inductive ShornItems (m : Model) : FrameType → ℕ → List Json → List Json → Prop where
  | nil {t : FrameType} {n : ℕ} : ShornItems m t n [] []
  | cons {t : FrameType} {n : ℕ} {x y : Json} {xs ys : List Json} (h : Shorn m false t n x y)
    (hs : ShornItems m t n xs ys) : ShornItems m t n (x :: xs) (y :: ys)
inductive ShornMembers (m : Model) :
    String → ℕ → List (String × Json) → List (String × Json) → Prop where
  | nil {container : String} {n : ℕ} : ShornMembers m container n [] []
  | cons {container element : String} {n : ℕ} {array : Bool} {t : FrameType} {v w : Json}
    {ms ns : List (String × Json)} (hslot : m.Slot container element array t)
    (h : Shorn m array t n v w) (hs : ShornMembers m container n ms ns) :
    ShornMembers m container n ((element, v) :: ms) ((element, w) :: ns)
end

namespace Shorn

variable {m : Model} {array : Bool} {t : FrameType} {n : ℕ} {v w : Json}

/-- Two items of lists, of which more is known than that one is shorn. -/
def Item (motive : ∀ {array t n v w}, Shorn m array t n v w → Prop) (t : FrameType) (n : ℕ)
    (x y : Json) : Prop :=
  ∃ h : Shorn m false t n x y, motive h

/-- Two members of one name, whose values are in the slot of the name. -/
def Member (motive : ∀ {array t n v w}, Shorn m array t n v w → Prop) (container : String) (n : ℕ)
    (p q : String × Json) : Prop :=
  p.1 = q.1 ∧ ∃ array t, m.Slot container p.1 array t ∧
    ∃ h : Shorn m array t n p.2 q.2, motive h

@[elab_as_elim]
theorem nestedInduction {motive : ∀ {array t n v w}, Shorn m array t n v w → Prop}
    (same : ∀ array t n v, motive (.same : Shorn m array t n v v))
    (alone : ∀ t n x y (h : Shorn m false t n x y), motive h → motive (.alone h))
    (items : ∀ t n xs ys (h : ShornItems m t n xs ys), List.Forall₂ (Item motive t n) xs ys →
      motive (.items h))
    (members : ∀ container n ms ns (h : ShornMembers m container n ms ns),
      List.Forall₂ (Member motive container n) ms ns → motive (.members h))
    (h : Shorn m array t n v w) : motive h :=
  @Shorn.rec m (fun _ _ _ _ _ h => motive h)
    (fun t n xs ys _ => List.Forall₂ (Item motive t n) xs ys)
    (fun container n ms ns _ => List.Forall₂ (Member motive container n) ms ns)
    (fun {array t n v} => same array t n v) (fun {t n x y} h ih => alone t n x y h ih)
    (fun {t n xs ys} h ih => items t n xs ys h ih)
    (fun {container n ms ns} h ih => members container n ms ns h ih) .nil
    (fun h _ ih ihs => .cons ⟨h, ih⟩ ihs) .nil
    (fun hslot h _ ih ihs => .cons ⟨rfl, _, _, hslot, h, ih⟩ ihs) array t n v w h

lemma names_of_forall₂ {motive : ∀ {array t n v w}, Shorn m array t n v w → Prop}
    {container : String} {ms ns : List (String × Json)}
    (h : List.Forall₂ (Member motive container n) ms ns) :
    ms.map Prod.fst = ns.map Prod.fst := by
  induction h with
  | nil => rfl
  | cons hpq _ ih => rw [List.map_cons, List.map_cons, hpq.1, ih]

/-- Where nothing was replaced the value is as it was. -/
lemma eq_of_zero (h : Shorn m array t n v w) (hn : n = 0) : w = v := by
  induction h using nestedInduction with
  | same => rfl
  | alone => omega
  | items t n xs ys hs h =>
    clear hs
    congr 1
    induction h with
    | nil => rfl
    | cons hxy _ ih => rw [hxy.2 hn, ih]
  | members container n ms ns hs h =>
    clear hs
    congr 1
    induction h with
    | nil => rfl
    | @cons p q ps qs hpq _ ih =>
      obtain ⟨hk, -, -, -, -, hval⟩ := hpq
      rw [ih, Prod.ext hk.symm (hval hn)]

lemma wellFormed (h : Shorn m array t n v w) (hv : v.WellFormed) : w.WellFormed := by
  induction h using nestedInduction with
  | same => exact hv
  | alone t n x y h ih => exact ih (wellFormed_arr.mp hv x (by simp))
  | items t n xs ys hs h =>
    clear hs
    rw [wellFormed_arr] at hv ⊢
    induction h with
    | nil => exact hv
    | cons hxy _ ih =>
      rw [List.forall_mem_cons] at hv ⊢
      exact ⟨hxy.2 hv.1, ih hv.2⟩
  | members container n ms ns hs h =>
    clear hs
    obtain ⟨hnodup, hall⟩ := wellFormed_obj.mp hv
    refine wellFormed_obj.mpr ⟨names_of_forall₂ h ▸ hnodup, ?_⟩
    clear hv hnodup
    induction h with
    | nil => exact hall
    | cons hpq _ ih =>
      obtain ⟨-, -, -, -, -, hval⟩ := hpq
      rw [List.forall_mem_cons] at hall ⊢
      exact ⟨hval hall.1, ih hall.2⟩

lemma items?_eq_none (h : Shorn m false t n v w) (hv : v.items? = none) : w.items? = none := by
  cases h with
  | same => exact hv
  | members _ => rfl

end Shorn

end RecordCuration
