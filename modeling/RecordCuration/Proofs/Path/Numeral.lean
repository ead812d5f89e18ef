import Mathlib.Tactic
import RecordCuration.Path.Basic

/-!
Array positions as text: a token reads as a position exactly when it is the numeral that writes
it, so a key and a position with the same token lead to the same item.
-/

namespace RecordCuration

namespace Text

lemma digit?_digitChar {d : ℕ} (h : d < 10) : digit? 10 d.digitChar = some d := by
  interval_cases d <;> decide

lemma digitChar_of_digit? {c : Char} {d : ℕ} (h : digit? 10 c = some d) :
    d < 10 ∧ c = d.digitChar := by
  obtain ⟨hh, hd⟩ := Option.filter_eq_some_iff.mp h
  have hd : d < 10 := by simpa using hd
  refine ⟨hd, ?_⟩
  unfold hexDigit? at hh
  split_ifs at hh with h1 h2 h3
  · have hv : c.toNat - '0'.toNat = d := by simpa using hh
    have hlow : '0'.toNat ≤ c.toNat := h1.1
    have hz : '0'.toNat = 48 := rfl
    refine Char.toNat_inj.mp ?_
    have hc : c.toNat = d + 48 := by omega
    rw [hc]
    clear hh h1 hv hlow h hc
    interval_cases d <;> rfl
  · simp at hh; omega
  · simp at hh; omega

lemma digit?_eq_some_iff {c : Char} {d : ℕ} :
    digit? 10 c = some d ↔ c.isDigit = true ∧ d = c.toNat - '0'.toNat := by
  constructor
  · intro h
    obtain ⟨hd, rfl⟩ := digitChar_of_digit? h
    clear h
    interval_cases d <;> decide
  · rintro ⟨hc, rfl⟩
    obtain ⟨hlow, hhigh⟩ := Char.isDigit_iff_toNat.mp hc
    have hhex : hexDigit? c = some (c.toNat - '0'.toNat) := if_pos ⟨hlow, hhigh⟩
    have hlt : c.toNat - '0'.toNat < 10 := by
      have hzero : '0'.toNat = 48 := rfl
      have hnine : '9'.toNat = 57 := rfl
      omega
    rw [digit?, hhex]
    simpa using hlt

/-- The number that digits write after a number that was read. -/
def naturalFrom (n : ℕ) (cs : List Char) : Option ℕ :=
  cs.foldlM (fun n c => (digit? 10 c).map (10 * n + ·)) n

lemma natural?_eq {cs : List Char} (h : cs ≠ []) : natural? 10 cs = naturalFrom 0 cs := by
  cases cs with
  | nil => exact absurd rfl h
  | cons c cs => rfl

/-- Digits go on from a number exactly as their value does. -/
lemma naturalFrom_eq_some_iff {cs : List Char} {n m : ℕ} : naturalFrom n cs = some m ↔
    (∀ c ∈ cs, c.isDigit = true) ∧ m = Nat.ofDigitChars 10 cs n := by
  induction cs generalizing n with
  | nil => exact ⟨fun h => ⟨by simp, (Option.some.inj h).symm⟩, fun h => congrArg some h.2.symm⟩
  | cons c cs ih =>
    have hcons : naturalFrom n (c :: cs) =
        ((digit? 10 c).map (10 * n + ·)).bind fun k => naturalFrom k cs := rfl
    rw [hcons, Option.bind_eq_some_iff, List.forall_mem_cons, Nat.ofDigitChars_cons]
    simp only [Option.map_eq_some_iff, digit?_eq_some_iff, ih]
    constructor
    · rintro ⟨_, ⟨_, ⟨hc, rfl⟩, rfl⟩, hcs, rfl⟩
      exact ⟨⟨hc, hcs⟩, rfl⟩
    · rintro ⟨⟨hc, hcs⟩, rfl⟩
      exact ⟨_, ⟨_, ⟨hc, rfl⟩, rfl⟩, hcs, rfl⟩

lemma naturalFrom_snoc (n : ℕ) (cs : List Char) (c : Char) :
    naturalFrom n (cs ++ [c]) = naturalFrom n cs >>= fun m => (digit? 10 c).map (10 * m + ·) := by
  simp [naturalFrom, List.foldlM_append]

lemma naturalFrom_toDigits (n : ℕ) : naturalFrom 0 (Nat.toDigits 10 n) = some n := by
  induction n using Nat.strong_induction_on with
  | _ n ih =>
    rcases Nat.lt_or_ge n 10 with h | h
    · rw [Nat.toDigits_of_lt_base h]
      simp [naturalFrom, digit?_digitChar h]
    · rw [Nat.toDigits_of_base_le (by norm_num) h, naturalFrom_snoc, ih (n / 10) (by omega),
        digit?_digitChar (Nat.mod_lt _ (by norm_num))]
      simpa using Nat.div_add_mod n 10

lemma hasLeadingZero_snoc {cs : List Char} (hne : cs ≠ []) (c : Char) :
    hasLeadingZero (cs ++ [c]) = false ↔ hasLeadingZero cs = false ∧ cs ≠ ['0'] := by
  match cs, hne with
  | [a], _ => by_cases h : a = '0' <;> simp [hasLeadingZero, h]
  | a :: b :: cs, _ => by_cases h : a = '0' <;> simp [hasLeadingZero, h]

lemma hasLeadingZero_toDigits (n : ℕ) : hasLeadingZero (Nat.toDigits 10 n) = false := by
  induction n using Nat.strong_induction_on with
  | _ n ih =>
    rcases Nat.lt_or_ge n 10 with h | h
    · rw [Nat.toDigits_of_lt_base h]; simp [hasLeadingZero]
    · rw [Nat.toDigits_of_base_le (by norm_num) h, hasLeadingZero_snoc Nat.toDigits_ne_nil]
      refine ⟨ih (n / 10) (by omega), fun hz => ?_⟩
      have h0 : n / 10 = 0 := by
        rw [← @Nat.ofDigitChars_ten_toDigits (n / 10), hz]; rfl
      omega

lemma toDigits_of_naturalFrom {cs : List Char} (hne : cs ≠ [])
    (hz : hasLeadingZero cs = false) {n : ℕ} (h : naturalFrom 0 cs = some n) :
    cs = Nat.toDigits 10 n := by
  induction cs using List.reverseRecOn generalizing n with
  | nil => exact absurd rfl hne
  | append_singleton cs c ih =>
    rw [naturalFrom_snoc] at h
    obtain ⟨m, hm, hn⟩ := Option.bind_eq_some_iff.mp h
    obtain ⟨d, hd, rfl⟩ := Option.map_eq_some_iff.mp hn
    obtain ⟨hd10, rfl⟩ := digitChar_of_digit? hd
    by_cases hcs : cs = []
    · subst hcs
      have hm0 : m = 0 := by simpa [naturalFrom] using hm.symm
      subst hm0
      simp [Nat.toDigits_of_lt_base hd10]
    · obtain ⟨hz', hz0⟩ := (hasLeadingZero_snoc hcs _).mp hz
      have hcs' := ih hcs hz' hm
      have hpos : 0 < m := by
        rcases Nat.eq_zero_or_pos m with rfl | hpos
        · exact absurd (by simpa using hcs') hz0
        · exact hpos
      rw [← Nat.toDigits_append_toDigits (by norm_num) hpos hd10, ← hcs',
        Nat.toDigits_of_lt_base hd10]

end Text

lemma readIndex?_eq_some_iff {token : String} {n : ℕ} :
    readIndex? token = some n ↔ token = toString n ∧ n < indexBound := by
  unfold readIndex?
  constructor
  · intro h
    simp only at h
    split_ifs at h with hz
    obtain ⟨hn, hb⟩ := Option.filter_eq_some_iff.mp h
    have hne : token.toList ≠ [] := by
      intro he; rw [he] at hn; simp [Text.natural?] at hn
    rw [Text.natural?_eq hne] at hn
    have hd := Text.toDigits_of_naturalFrom hne (by simpa using hz) hn
    refine ⟨?_, by simpa using hb⟩
    rw [← String.toList_inj, hd]
    simp
  · rintro ⟨rfl, hb⟩
    have hl : (toString n).toList = Nat.toDigits 10 n := by simp
    simp only [hl, Text.hasLeadingZero_toDigits, Bool.false_eq_true, ↓reduceIte]
    rw [Text.natural?_eq Nat.toDigits_ne_nil, Text.naturalFrom_toDigits]
    simpa using hb

namespace Segment

lemma token_of_asIndex {s : Segment} {n : ℕ} (h : s.asIndex = some n) : s.token = toString n := by
  cases s with
  | key k => exact (readIndex?_eq_some_iff.mp h).1
  | index m => cases h; rfl

lemma asIndex_inj {s u : Segment} (ht : s.token = u.token) {m n : ℕ}
    (hs : s.asIndex = some m) (hu : u.asIndex = some n) : m = n := by
  rw [token_of_asIndex hs, token_of_asIndex hu] at ht
  have hd : Nat.toDigits 10 m = Nat.toDigits 10 n := by
    simpa using congrArg String.toList ht
  rw [← @Nat.ofDigitChars_ten_toDigits m, hd, Nat.ofDigitChars_ten_toDigits]

/-- The step that a pointer to a place has there: a token that can be a position is one. -/
def canonical (s : Segment) : Segment := ofToken s.token

lemma token_canonical (s : Segment) : s.canonical.token = s.token := by
  unfold canonical ofToken
  split
  · exact (readIndex?_eq_some_iff.mp ‹_›).1.symm
  · rfl

lemma asIndex_canonical (s : Segment) :
    s.canonical.asIndex = s.asIndex.filter (· < indexBound) := by
  have hr : s.canonical.asIndex = readIndex? s.token := by
    unfold canonical ofToken
    split <;> simp_all [asIndex]
  rw [hr]
  cases s with
  | key k =>
    show readIndex? k = (readIndex? k).filter (· < indexBound)
    cases hk : readIndex? k with
    | none => rfl
    | some n => exact (Option.filter_eq_some_iff.mpr
        ⟨rfl, by simpa using (readIndex?_eq_some_iff.mp hk).2⟩).symm
  | index n =>
    show readIndex? (toString n) = (some n).filter (· < indexBound)
    by_cases hn : n < indexBound
    · rw [readIndex?_eq_some_iff.mpr ⟨rfl, hn⟩]
      exact (Option.filter_eq_some_iff.mpr ⟨rfl, by simpa using hn⟩).symm
    · cases hk : readIndex? (toString n) with
      | none => simp [hn, Option.filter]
      | some m =>
        obtain ⟨ht, hm⟩ := readIndex?_eq_some_iff.mp hk
        have := asIndex_inj (s := .index n) (u := .index m) ht rfl rfl
        omega

end Segment

end RecordCuration
