import Mathlib.Data.List.GetD
import RecordCuration.Model.Version
import RecordCuration.Proofs.Outcome
import RecordCuration.Proofs.Path.Pointer

/-!
Versions as texts, and in order.

The texts that read as a version are one to three numbers between dots. A version shows as its
three numbers, and reads as itself again. A text that reads as a version may be shorter, or write
its numbers in another way, so that it need not be what the version shows as.
-/

namespace RecordCuration

namespace Text

lemma dropPlus_eq_iff {cs ds : List Char} (hds : '+' ∉ ds) :
    dropPlus cs = ds ↔ cs = ds ∨ cs = '+' :: ds := by
  unfold dropPlus
  split
  · rename_i cs
    constructor
    · rintro rfl
      exact Or.inr rfl
    · rintro (rfl | h)
      · exact absurd (List.mem_cons_self) hds
      · exact (List.cons.inj h).2
  · rename_i hcs
    constructor
    · exact Or.inl
    · rintro (rfl | rfl)
      · rfl
      · exact absurd rfl (hcs ds)

end Text

namespace Version

variable {v w : Version} {text : String}

/-- The numbers of a version have 32 bits. -/
structure Bounded (v : Version) : Prop where
  major : v.major < UInt32.size
  minor : v.minor < UInt32.size
  patch : v.patch < UInt32.size

/-! ### Texts -/

/-- Digits that write a number of 32 bits, perhaps after a plus sign. -/
structure IsComponent (part : List Char) (n : ℕ) : Prop where
  digits : ∃ ds, (part = ds ∨ part = '+' :: ds) ∧ ds ≠ [] ∧ (∀ c ∈ ds, c.isDigit = true) ∧
    n = Nat.ofDigitChars 10 ds 0
  small : n < 2 ^ 32

/-- One to three components between dots, which are the numbers of the version in their order;
missing ones are zero. -/
def IsText (text : String) (v : Version) : Prop :=
  ∃ parts ns, text.toList = ['.'].intercalate parts ∧ List.Forall₂ IsComponent parts ns ∧
    1 ≤ parts.length ∧ parts.length ≤ 3 ∧ v = ⟨ns.getD 0 0, ns.getD 1 0, ns.getD 2 0⟩

lemma component?_eq_some_iff {part : List Char} {n : ℕ} :
    component? part = some n ↔ IsComponent part n := by
  have hcount : component? part = some n ↔
      Text.natural? 10 (Text.dropPlus part) = some n ∧ n < UInt32.size := by
    simp [component?, Text.count?, Option.filter_eq_some_iff]
  rw [hcount]
  constructor
  · rintro ⟨hn, hlt⟩
    have hne : Text.dropPlus part ≠ [] := by
      intro he
      rw [he] at hn
      cases hn
    rw [Text.natural?_eq hne, Text.naturalFrom_eq_some_iff] at hn
    have hplus : '+' ∉ Text.dropPlus part := fun h => absurd (hn.1 _ h) (by decide)
    exact ⟨⟨_, (Text.dropPlus_eq_iff hplus).mp rfl, hne, hn⟩, hlt⟩
  · rintro ⟨⟨ds, hpart, hne, hds, rfl⟩, hlt⟩
    have hplus : '+' ∉ ds := fun h => absurd (hds _ h) (by decide)
    rw [(Text.dropPlus_eq_iff hplus).mpr hpart, Text.natural?_eq hne,
      Text.naturalFrom_eq_some_iff]
    exact ⟨⟨hds, rfl⟩, hlt⟩

lemma IsComponent.not_mem_dot {part : List Char} {n : ℕ} (h : IsComponent part n) :
    '.' ∉ part := by
  obtain ⟨⟨ds, hpart, -, hds, -⟩, -⟩ := h
  have hdot : '.' ∉ ds := fun h => absurd (hds _ h) (by decide)
  rcases hpart with rfl | rfl
  · exact hdot
  · simpa using hdot

/-- Components are read up to as many as there is room for. -/
lemma components_eq_ok_iff {room : ℕ} {parts : List (List Char)} {ns : List ℕ} :
    components text room parts = .ok ns ↔
      parts.length ≤ room ∧ List.Forall₂ IsComponent parts ns := by
  fun_induction components text room parts generalizing ns with
  | case1 => simp [eq_comm]
  | case2 => simp
  | case3 room part parts hnone =>
    simp only [reduceCtorEq, false_iff, not_and, List.forall₂_cons_left_iff]
    rintro - ⟨n, _, hn, -⟩
    rw [component?_eq_some_iff.mpr hn] at hnone
    cases hnone
  | case4 room part parts n hn ih =>
    rw [map_eq_ok_iff, List.forall₂_cons_left_iff, List.length_cons, Nat.add_le_add_iff_right]
    simp only [ih]
    constructor
    · rintro ⟨rest, ⟨hlength, hrest⟩, rfl⟩
      exact ⟨hlength, n, rest, component?_eq_some_iff.mp hn, hrest, rfl⟩
    · rintro ⟨hlength, k, rest, hk, hrest, rfl⟩
      obtain rfl := Option.some.inj (hn.symm.trans (component?_eq_some_iff.mpr hk))
      exact ⟨rest, ⟨hlength, hrest⟩, rfl⟩

/-- **The texts that read as a version.** -/
lemma parse_eq_ok_iff : parse text = .ok v ↔ IsText text v := by
  have hparse : parse text = .ok v ↔ text.isEmpty = false ∧ ∃ ns,
      components text 3 (Text.split '.' text.toList) = .ok ns ∧
        ⟨ns.getD 0 0, ns.getD 1 0, ns.getD 2 0⟩ = v := by
    unfold parse
    split_ifs with hempty
    · simp [hempty]
    · simp [hempty, map_eq_ok_iff]
  rw [hparse]
  simp only [components_eq_ok_iff]
  constructor
  · rintro ⟨-, ns, ⟨hlength, hns⟩, rfl⟩
    obtain ⟨hne, -, htext⟩ := Text.split_eq_iff.mp (rfl : Text.split '.' text.toList = _)
    exact ⟨_, ns, htext, hns, List.length_pos_iff.mpr hne, hlength, rfl⟩
  · rintro ⟨parts, ns, htext, hns, hpos, hlength, rfl⟩
    have hsplit : Text.split '.' text.toList = parts :=
      Text.split_eq_iff.mpr ⟨List.length_pos_iff.mp hpos, fun part hpart =>
        let ⟨_, _, h⟩ := (exists_of_forall₂ hns).1 part hpart
        h.not_mem_dot, htext⟩
    refine ⟨?_, ns, ⟨hsplit ▸ hlength, hsplit ▸ hns⟩, rfl⟩
    by_contra hempty
    obtain rfl : text = "" := String.isEmpty_iff.mp (by simpa using hempty)
    obtain rfl : parts = [[]] := hsplit.symm
    obtain ⟨n, hn⟩ := (exists_of_forall₂ hns).1 [] (by simp)
    obtain ⟨ds, hds | hds, hne, -⟩ := hn.2.digits
    · exact hne hds.symm
    · cases hds

lemma bounded_of_parse (h : parse text = .ok v) : v.Bounded := by
  obtain ⟨parts, ns, -, hns, -, -, rfl⟩ := parse_eq_ok_iff.mp h
  have hlt : ∀ i, ns.getD i 0 < UInt32.size := by
    intro i
    rcases Nat.lt_or_ge i ns.length with hi | hi
    · rw [List.getD_eq_getElem _ _ hi]
      obtain ⟨part, -, hpart⟩ := (exists_of_forall₂ hns).2 _ (List.getElem_mem hi)
      exact hpart.small
    · rw [List.getD_eq_default _ _ hi]
      decide
  exact ⟨hlt 0, hlt 1, hlt 2⟩

/-! ### Versions shown -/

lemma toList_shown (v : Version) : v.shown.toList = Nat.toDigits 10 v.major ++
    '.' :: (Nat.toDigits 10 v.minor ++ '.' :: Nat.toDigits 10 v.patch) := by
  simp [shown]

lemma isComponent_toDigits {n : ℕ} (h : n < UInt32.size) : IsComponent (Nat.toDigits 10 n) n where
  digits := ⟨_, Or.inl rfl, Nat.toDigits_ne_nil, fun _ hc =>
    Nat.isDigit_of_mem_toDigits (by norm_num) (by norm_num) hc, Nat.ofDigitChars_ten_toDigits.symm⟩
  small := h

/-- **Versions round trip**: what a version shows as reads as that version. -/
theorem parse_shown (h : v.Bounded) : parse v.shown = .ok v := by
  refine parse_eq_ok_iff.mpr
    ⟨[Nat.toDigits 10 v.major, Nat.toDigits 10 v.minor, Nat.toDigits 10 v.patch],
      [v.major, v.minor, v.patch], ?_, ?_, by simp, by simp, rfl⟩
  · rw [toList_shown]
    simp [List.intercalate_cons_cons]
  · exact .cons (isComponent_toDigits h.major) (.cons (isComponent_toDigits h.minor)
      (.cons (isComponent_toDigits h.patch) .nil))

/-- **Versions and their texts.** A text reads as a version exactly when it is one to three numbers
of 32 bits between dots, each perhaps after a plus sign, that are those of the version. Every
version reads from the text that it shows as, so two texts that can be read stand for one version
exactly when what they read as shows alike. -/
theorem parse_exact :
    (∀ text v, parse text = .ok v ↔ IsText text v) ∧
    (∀ v : Version, v.Bounded → parse v.shown = .ok v) ∧
    ∀ s t v w, parse s = .ok v → parse t = .ok w → (v = w ↔ v.shown = w.shown) := by
  refine ⟨fun text v => parse_eq_ok_iff, fun v => parse_shown, fun s t v w hv hw => ?_⟩
  constructor
  · rintro rfl
    rfl
  · intro hshown
    have hread := parse_shown (bounded_of_parse hv)
    rw [hshown, parse_shown (bounded_of_parse hw)] at hread
    exact (Except.ok.inj hread).symm

/-- A short text with a sign and zeros, and the greatest version. -/
theorem launch_parse_exact :
    parse "+002.6" = .ok ⟨2, 6, 0⟩ ∧ IsText "+002.6" ⟨2, 6, 0⟩ ∧
    parse (shown ⟨2 ^ 32 - 1, 2 ^ 32 - 1, 2 ^ 32 - 1⟩) =
      .ok ⟨2 ^ 32 - 1, 2 ^ 32 - 1, 2 ^ 32 - 1⟩ ∧
    ((⟨2, 6, 0⟩ : Version) = ⟨2, 6, 0⟩ ↔ shown ⟨2, 6, 0⟩ = shown ⟨2, 6, 0⟩) := by
  have hsigned : parse "+002.6" = .ok ⟨2, 6, 0⟩ := by with_unfolding_all decide
  have hplain : parse "2.6.0" = .ok ⟨2, 6, 0⟩ := by with_unfolding_all decide
  exact ⟨hsigned, (parse_exact.1 _ _).mp hsigned,
    parse_exact.2.1 _ ⟨by decide, by decide, by decide⟩,
    parse_exact.2.2 _ _ _ _ hsigned hplain⟩

/-! ### Order -/

lemma le_iff : v.le w = true ↔ v.major < w.major ∨ v.major = w.major ∧
    (v.minor < w.minor ∨ v.minor = w.minor ∧ v.patch ≤ w.patch) := by
  simp only [le, lt, Bool.not_eq_true', Bool.or_eq_false_iff, Bool.and_eq_false_iff,
    decide_eq_false_iff_not, beq_eq_false_iff_ne]
  omega

lemma le_trans {u : Version} (h : u.le v = true) (h' : v.le w = true) : u.le w = true := by
  rw [le_iff] at *
  omega

lemma le_total (v w : Version) : (v.le w || w.le v) = true := by
  rw [Bool.or_eq_true, le_iff, le_iff]
  omega

lemma pairwise_sort (vs : List Version) : (sort vs).Pairwise (fun v w => v.le w = true) :=
  @List.pairwise_mergeSort Version le (fun _ _ _ => le_trans) le_total vs

end Version

end RecordCuration
