import Mathlib.Computability.Language
import Mathlib.Data.List.TakeWhile
import Mathlib.Tactic
import RecordCuration.Format.Duration

/-!
The grammar of durations, and that the check accepts exactly its texts.

The check skips one component after another, and leaves a text alone that does not start with the
component it looks for. Every component is told from the others by the first character after its
digits, its mark. So a scan for one component takes nothing of those after it, and two scans one
after the other skip what two languages one after the other hold. What the scans leave decides
whether a text has the shape of a duration; the two tests on the whole text then refuse exactly the
shapes that lack a component.
-/

namespace RecordCuration.Format

open Text (isDecimalDigit)

/-! ### The grammar -/

/-- One decimal digit or more, of any script. -/
def digits : Language Char := {cs | cs ≠ [] ∧ ∀ c ∈ cs, isDecimalDigit c = true}

/-- Digits and the letter that says what they count. -/
def component (letter : Char) : Language Char := digits * {[letter]}

/-- Seconds, perhaps with a fraction after a point or a comma. -/
def seconds : Language Char := digits * (1 + ({['.']} + {[',']}) * digits) * {['S']}

/-- Years, months, weeks and days, each of them optional. -/
def dates : Language Char :=
  (1 + component 'Y') * (1 + component 'M') * (1 + component 'W') * (1 + component 'D')

/-- Hours, minutes and seconds, each of them optional. -/
def times : Language Char := (1 + component 'H') * (1 + component 'M') * (1 + seconds)

/-- The texts with the parts of a duration in their order, if they have any. -/
def shapes : Language Char := {['P']} * (dates * (1 + {['T']} * times))

/-- The durations: there is a component, and there is one after a `T`. No component is empty, so it
is the empty text that is left out, of `dates` where they stand alone, and of `times`. -/
def durations : Language Char := {['P']} * ((dates - 1) + dates * ({['T']} * (times - 1)))

/-! ### Scans that skip a language -/

/-- The first character of a text that is no digit. -/
def mark? (cs : List Char) : Option Char := (cs.dropWhile isDecimalDigit).head?

/-- The texts of a language are made of digits and certain characters, one of which marks each
text that is not empty. -/
structure Marked (l : Language Char) (marks : List Char) : Prop where
  chars : ∀ a ∈ l, ∀ c ∈ a, isDecimalDigit c = true ∨ c ∈ marks
  mark : ∀ a ∈ l, a ≠ [] → ∀ rest, ∃ c ∈ marks, mark? (a ++ rest) = some c

/-- A scan takes a text of the language off the front, and takes it whole unless what follows has
one of the marks. -/
structure Skips (skip : List Char → List Char) (l : Language Char) (marks : List Char) : Prop
    extends Marked l marks where
  sound : ∀ cs, ∃ a ∈ l, a ++ skip cs = cs
  complete : ∀ a ∈ l, ∀ rest, (∀ c ∈ mark? rest, c ∉ marks) → skip (a ++ rest) = rest

section Scans

variable {l m : Language Char} {xs ys : List Char} {f g : List Char → List Char}

lemma Marked.mono (h : Marked l xs) (hsub : xs ⊆ ys) : Marked l ys where
  chars := fun a ha c hc => (h.chars a ha c hc).imp_right fun hx => hsub hx
  mark := by
    intro a ha hne rest
    obtain ⟨c, hc, hmark⟩ := h.mark a ha hne rest
    exact ⟨c, hsub hc, hmark⟩

lemma marked_one (xs : List Char) : Marked 1 xs where
  chars := by
    rintro _ rfl c hc
    cases hc
  mark := by
    rintro _ rfl hne
    exact absurd rfl hne

lemma Marked.add (hl : Marked l xs) (hm : Marked m xs) : Marked (l + m) xs where
  chars := by
    rintro a (ha | ha)
    · exact hl.chars a ha
    · exact hm.chars a ha
  mark := by
    rintro a (ha | ha)
    · exact hl.mark a ha
    · exact hm.mark a ha

lemma Marked.mul (hl : Marked l xs) (hm : Marked m xs) : Marked (l * m) xs where
  chars := by
    rintro _ hab c hc
    obtain ⟨a, ha, b, hb, rfl⟩ := Language.mem_mul.mp hab
    rcases List.mem_append.mp hc with hc | hc
    · exact hl.chars a ha c hc
    · exact hm.chars b hb c hc
  mark := by
    rintro _ hab hne rest
    obtain ⟨a, ha, b, hb, rfl⟩ := Language.mem_mul.mp hab
    rcases eq_or_ne a [] with rfl | hane
    · exact hm.mark b hb hne rest
    · obtain ⟨c, hc, hmark⟩ := hl.mark a ha hane (b ++ rest)
      exact ⟨c, hc, by rw [List.append_assoc, hmark]⟩

/-- Two scans one after the other skip the product of their languages, if no mark is shared. -/
lemma Skips.comp (hf : Skips f l xs) (hg : Skips g m ys) (h : ∀ c ∈ xs, c ∉ ys) :
    Skips (g ∘ f) (l * m) (xs ++ ys) where
  toMarked := (hf.mono (List.subset_append_left xs ys)).mul
    (hg.mono (List.subset_append_right xs ys))
  sound := by
    intro cs
    obtain ⟨a, ha, hcs⟩ := hf.sound cs
    obtain ⟨b, hb, hrest⟩ := hg.sound (f cs)
    exact ⟨a ++ b, Language.append_mem_mul ha hb, by
      rw [List.append_assoc, Function.comp_apply, hrest, hcs]⟩
  complete := by
    rintro _ hab rest hmarks
    obtain ⟨a, ha, b, hb, rfl⟩ := Language.mem_mul.mp hab
    -- What follows `a` has a mark of the second language, or that of the rest.
    have hfollow : ∀ c ∈ mark? (b ++ rest), c ∉ xs := by
      intro c hc hx
      rcases eq_or_ne b [] with rfl | hbne
      · exact hmarks c hc (List.mem_append_left ys hx)
      · obtain ⟨d, hd, hmark⟩ := hg.mark b hb hbne rest
        rw [hmark, Option.mem_some_iff] at hc
        exact h c hx (hc ▸ hd)
    rw [Function.comp_apply, List.append_assoc, hf.complete a ha _ hfollow]
    exact hg.complete b hb rest fun c hc hy => hmarks c hc (List.mem_append_right xs hy)

end Scans

/-! ### One component -/

section Component

variable {ds es cs rest a : List Char} {letter c : Char}

lemma mem_component : a ∈ component letter ↔ ∃ ds ∈ digits, a = ds ++ [letter] := by
  simp only [component, Language.mem_mul]
  exact ⟨fun ⟨ds, hds, b, hb, h⟩ => ⟨ds, hds, hb ▸ h.symm⟩,
    fun ⟨ds, hds, h⟩ => ⟨ds, hds, _, rfl, h.symm⟩⟩

lemma dropWhile_digits (h : ds ∈ digits) (hc : isDecimalDigit c = false) (rest : List Char) :
    (ds ++ c :: rest).dropWhile isDecimalDigit = c :: rest := by
  rw [List.dropWhile_append_of_pos h.2, List.dropWhile_cons_of_neg (by simp [hc])]

lemma spanDigits_digits (h : ds ∈ digits) (hc : isDecimalDigit c = false) (rest : List Char) :
    spanDigits (ds ++ c :: rest) = (ds, c :: rest) := by
  rw [spanDigits, dropWhile_digits h hc, List.takeWhile_append_of_pos h.2,
    List.takeWhile_cons_of_neg (by simp [hc]), List.append_nil]

lemma mark?_digits (h : ds ∈ digits) (hc : isDecimalDigit c = false) (rest : List Char) :
    mark? (ds ++ c :: rest) = some c := by
  rw [mark?, dropWhile_digits h hc, List.head?_cons]

/-- A text that has a character after leading digits is these digits and what follows. -/
lemma digits_of_spanDigits (h : spanDigits cs = (ds, c :: rest)) (hne : ds ≠ []) :
    ds ∈ digits ∧ cs = ds ++ c :: rest ∧ mark? cs = some c := by
  obtain ⟨hds, htail⟩ := Prod.mk.inj h
  refine ⟨⟨hne, fun d hd => List.mem_takeWhile_imp (hds ▸ hd)⟩, ?_, ?_⟩
  · rw [← hds, ← htail, List.takeWhile_append_dropWhile]
  · rw [mark?, htail, List.head?_cons]

lemma marked_component (hletter : isDecimalDigit letter = false) :
    Marked (component letter) [letter] where
  chars := by
    intro a ha c hc
    obtain ⟨ds, hds, rfl⟩ := mem_component.mp ha
    exact (List.mem_append.mp hc).imp_left (hds.2 c)
  mark := by
    intro a ha _ rest
    obtain ⟨ds, hds, rfl⟩ := mem_component.mp ha
    refine ⟨letter, List.mem_singleton_self _, ?_⟩
    rw [List.append_assoc, List.singleton_append, mark?_digits hds hletter]

lemma skipComponent_digits (h : ds ∈ digits) (hletter : isDecimalDigit letter = false) :
    skipComponent letter (ds ++ letter :: rest) = rest := by
  rw [skipComponent, spanDigits_digits h hletter]
  cases ds with
  | nil => exact absurd rfl h.1
  | cons d ds => simp

lemma skips_component (letter : Char) (hletter : isDecimalDigit letter = false) :
    Skips (skipComponent letter) (1 + component letter) [letter] where
  toMarked := (marked_one _).add (marked_component hletter)
  sound := by
    intro cs
    have hleft : ∃ a ∈ 1 + component letter, a ++ cs = cs := ⟨[], Or.inl rfl, rfl⟩
    unfold skipComponent
    split
    · exact hleft
    · rename_i ds c rest hne hspan
      obtain ⟨hds, hcs, -⟩ := digits_of_spanDigits hspan hne
      split_ifs with hc
      · exact ⟨ds ++ [letter], Or.inr (mem_component.mpr ⟨ds, hds, rfl⟩), by simp [hcs, hc]⟩
      · exact hleft
    · exact hleft
  complete := by
    rintro a (rfl | ha) rest hmarks
    · rw [List.nil_append, skipComponent]
      split
      · rfl
      · rename_i ds c tail hne hspan
        obtain ⟨-, -, hmark⟩ := digits_of_spanDigits hspan hne
        exact if_neg (List.mem_singleton.not.mp (hmarks c hmark))
      · rfl
    · obtain ⟨ds, hds, rfl⟩ := mem_component.mp ha
      rw [List.append_assoc, List.singleton_append, skipComponent_digits hds hletter]

/-! ### Seconds -/

/-- Seconds are whole, or what stands before their point or comma is a component of its own. -/
lemma seconds_eq :
    seconds = component 'S' + (component '.' + component ',') * component 'S' := by
  simp only [seconds, component, mul_add, add_mul, mul_one, mul_assoc]

lemma mem_seconds : a ∈ seconds ↔ (∃ ds ∈ digits, a = ds ++ ['S']) ∨
    ∃ ds ∈ digits, ∃ es ∈ digits, ∃ c, (c = '.' ∨ c = ',') ∧ a = ds ++ c :: (es ++ ['S']) := by
  rw [seconds_eq, Language.mem_add, mem_component]
  refine or_congr_right ?_
  constructor
  · intro h
    obtain ⟨_, hb, _, hs, rfl⟩ := Language.mem_mul.mp h
    obtain ⟨es, hes, rfl⟩ := mem_component.mp hs
    rcases hb with hb | hb
    · obtain ⟨ds, hds, rfl⟩ := mem_component.mp hb
      exact ⟨ds, hds, es, hes, '.', Or.inl rfl, by simp⟩
    · obtain ⟨ds, hds, rfl⟩ := mem_component.mp hb
      exact ⟨ds, hds, es, hes, ',', Or.inr rfl, by simp⟩
  · rintro ⟨ds, hds, es, hes, c, hc, rfl⟩
    have hb : ds ++ [c] ∈ component '.' + component ',' := by
      rcases hc with rfl | rfl
      · exact Or.inl (mem_component.mpr ⟨ds, hds, rfl⟩)
      · exact Or.inr (mem_component.mpr ⟨ds, hds, rfl⟩)
    have hs : es ++ ['S'] ∈ component 'S' := mem_component.mpr ⟨es, hes, rfl⟩
    simpa using Language.append_mem_mul hb hs

lemma marked_seconds : Marked seconds ['S', '.', ','] := by
  have hs : Marked (component 'S') ['S', '.', ','] :=
    (marked_component (by decide +kernel)).mono (by simp)
  have hpoint : Marked (component '.') ['S', '.', ','] :=
    (marked_component (by decide +kernel)).mono (by simp)
  have hcomma : Marked (component ',') ['S', '.', ','] :=
    (marked_component (by decide +kernel)).mono (by simp)
  rw [seconds_eq]
  exact hs.add ((hpoint.add hcomma).mul hs)

lemma skipSeconds_whole (h : ds ∈ digits) : skipSeconds (ds ++ 'S' :: rest) = rest := by
  rw [skipSeconds, spanDigits_digits h (by decide +kernel)]
  cases ds with
  | nil => exact absurd rfl h.1
  | cons d ds => simp

lemma skipSeconds_fraction (h : ds ∈ digits) (hes : es ∈ digits) (hc : c = '.' ∨ c = ',') :
    skipSeconds (ds ++ c :: (es ++ 'S' :: rest)) = rest := by
  have hpoint : isDecimalDigit c = false ∧ c ≠ 'S' := by
    rcases hc with rfl | rfl <;> decide +kernel
  rw [skipSeconds, spanDigits_digits h hpoint.1]
  cases ds with
  | nil => exact absurd rfl h.1
  | cons d ds =>
    simp only [hpoint.2, ↓reduceIte, hc]
    rw [spanDigits_digits hes (by decide +kernel)]
    cases es with
    | nil => exact absurd rfl hes.1
    | cons e es => simp

lemma skips_seconds : Skips skipSeconds (1 + seconds) ['S', '.', ','] where
  toMarked := (marked_one _).add marked_seconds
  sound := by
    intro cs
    have hleft : ∃ a ∈ 1 + seconds, a ++ cs = cs := ⟨[], Or.inl rfl, rfl⟩
    unfold skipSeconds
    split
    · exact hleft
    · rename_i ds c rest hne hspan
      obtain ⟨hds, hcs, -⟩ := digits_of_spanDigits hspan hne
      split_ifs with hs hpoint
      · exact ⟨ds ++ ['S'], Or.inr (mem_seconds.mpr (Or.inl ⟨ds, hds, rfl⟩)), by simp [hcs, hs]⟩
      · split
        · exact hleft
        · rename_i es d rest' hne' hspan'
          obtain ⟨hes, hrest, -⟩ := digits_of_spanDigits hspan' hne'
          split_ifs with hs'
          · refine ⟨ds ++ c :: (es ++ ['S']), Or.inr (mem_seconds.mpr (Or.inr ?_)), ?_⟩
            · exact ⟨ds, hds, es, hes, c, hpoint, rfl⟩
            · simp [hcs, hrest, hs']
          · exact hleft
        · exact hleft
      · exact hleft
    · exact hleft
  complete := by
    rintro a (rfl | ha) rest hmarks
    · rw [List.nil_append, skipSeconds]
      split
      · rfl
      · rename_i ds c tail hne hspan
        obtain ⟨-, -, hmark⟩ := digits_of_spanDigits hspan hne
        have hother : c ≠ 'S' ∧ ¬ (c = '.' ∨ c = ',') := by simpa using hmarks c hmark
        rw [if_neg hother.1, if_neg hother.2]
      · rfl
    · rcases mem_seconds.mp ha with ⟨ds, hds, rfl⟩ | ⟨ds, hds, es, hes, c, hc, rfl⟩
      · rw [List.append_assoc, List.singleton_append, skipSeconds_whole hds]
      · rw [List.append_assoc, List.cons_append, List.append_assoc, List.singleton_append,
          skipSeconds_fraction hds hes hc]

end Component

/-! ### The check -/

section Check

variable {l : Language Char} {marks a b cs : List Char} {letter : Char}

lemma skips_dates : Skips skipDate dates ['Y', 'M', 'W', 'D'] := by
  have hyears := skips_component 'Y' (by decide +kernel)
  have hmonths := skips_component 'M' (by decide +kernel)
  have hweeks := skips_component 'W' (by decide +kernel)
  have hdays := skips_component 'D' (by decide +kernel)
  exact ((hyears.comp hmonths (by simp)).comp hweeks (by simp)).comp hdays (by simp)

lemma skips_times : Skips skipTime times ['H', 'M', 'S', '.', ','] := by
  have hhours := skips_component 'H' (by decide +kernel)
  have hminutes := skips_component 'M' (by decide +kernel)
  exact (hhours.comp hminutes (by simp)).comp skips_seconds (by simp)

lemma mem_letter_mul : cs ∈ ({[letter]} : Language Char) * l ↔ ∃ a ∈ l, cs = letter :: a := by
  rw [Language.mem_mul]
  constructor
  · rintro ⟨_, rfl, a, ha, rfl⟩
    exact ⟨a, ha, rfl⟩
  · rintro ⟨a, ha, rfl⟩
    exact ⟨[letter], rfl, a, ha, rfl⟩

lemma mem_shapes : cs ∈ shapes ↔
    ∃ a ∈ dates, cs = 'P' :: a ∨ ∃ b ∈ times, cs = 'P' :: (a ++ 'T' :: b) := by
  rw [shapes, mem_letter_mul]
  constructor
  · rintro ⟨_, hab, rfl⟩
    obtain ⟨a, ha, t, rfl | ht, rfl⟩ := Language.mem_mul.mp hab
    · exact ⟨a, ha, Or.inl (by rw [List.append_nil])⟩
    · obtain ⟨b, hb, rfl⟩ := mem_letter_mul.mp ht
      exact ⟨a, ha, Or.inr ⟨b, hb, rfl⟩⟩
  · rintro ⟨a, ha, rfl | ⟨b, hb, rfl⟩⟩
    · have hnone : [] ∈ 1 + {['T']} * times := Or.inl rfl
      exact ⟨a, by simpa using Language.append_mem_mul ha hnone, rfl⟩
    · exact ⟨_, Language.append_mem_mul ha (Or.inr (mem_letter_mul.mpr ⟨b, hb, rfl⟩)), rfl⟩

lemma mem_durations : cs ∈ durations ↔ ∃ a ∈ dates,
    (a ≠ [] ∧ cs = 'P' :: a) ∨ ∃ b ∈ times, b ≠ [] ∧ cs = 'P' :: (a ++ 'T' :: b) := by
  rw [durations, mem_letter_mul]
  constructor
  · rintro ⟨t, ht, rfl⟩
    rcases (Language.mem_add _ _ _).mp ht with ht | ht
    · obtain ⟨ha, hne⟩ := (Language.mem_sub _ _ _).mp ht
      exact ⟨t, ha, Or.inl ⟨hne, rfl⟩⟩
    · obtain ⟨a, ha, _, htime, rfl⟩ := Language.mem_mul.mp ht
      obtain ⟨b, hsome, rfl⟩ := mem_letter_mul.mp htime
      obtain ⟨hb, hne⟩ := (Language.mem_sub _ _ _).mp hsome
      exact ⟨a, ha, Or.inr ⟨b, hb, hne, rfl⟩⟩
  · rintro ⟨a, ha, ⟨hne, rfl⟩ | ⟨b, hb, hne, rfl⟩⟩
    · exact ⟨a, Or.inl ((Language.mem_sub _ _ _).mpr ⟨ha, hne⟩), rfl⟩
    · have hb : b ∈ times - 1 := (Language.mem_sub _ _ _).mpr ⟨hb, hne⟩
      exact ⟨_, Or.inr (Language.append_mem_mul ha (mem_letter_mul.mpr ⟨b, hb, rfl⟩)), rfl⟩

/-- What the scans use up is what has the shape of a duration. -/
lemma isDurationShape_iff : isDurationShape cs = true ↔ cs ∈ shapes := by
  rw [mem_shapes]
  constructor
  · intro h
    unfold isDurationShape at h
    split at h
    · rename_i cs
      obtain ⟨a, ha, hcs⟩ := skips_dates.sound cs
      split at h
      · rename_i hrest
        exact ⟨a, ha, Or.inl (by rw [← hcs, hrest, List.append_nil])⟩
      · rename_i rest hrest
        obtain ⟨b, hb, htime⟩ := skips_times.sound rest
        rw [List.isEmpty_iff.mp h, List.append_nil] at htime
        exact ⟨a, ha, Or.inr ⟨b, hb, by rw [← hcs, hrest, htime]⟩⟩
      · cases h
    · cases h
  · rintro ⟨a, ha, rfl | ⟨b, hb, rfl⟩⟩
    · have hdates : skipDate a = [] := by
        simpa [mark?] using skips_dates.complete a ha []
      simp [isDurationShape, hdates]
    · have hdates : skipDate (a ++ 'T' :: b) = 'T' :: b := by
        have hmark : mark? ('T' :: b) = some 'T' := by
          rw [mark?, List.dropWhile_cons_of_neg (by decide +kernel), List.head?_cons]
        exact skips_dates.complete a ha _ (by simp [hmark])
      have htimes : skipTime b = [] := by
        simpa [mark?] using skips_times.complete b hb []
      simp [isDurationShape, hdates, htimes]

lemma Marked.not_mem (h : Marked l marks) (ha : a ∈ l) (hdigit : isDecimalDigit letter = false)
    (hletter : letter ∉ marks) : letter ∉ a := by
  intro hmem
  rcases h.chars a ha letter hmem with hd | hm
  · rw [hdigit] at hd
    cases hd
  · exact hletter hm

lemma getLast?_date_ne (ha : a ∈ dates) : ('P' :: a).getLast? ≠ some 'T' := by
  intro hlast
  have hmem := List.mem_of_getLast? hlast
  simp only [List.mem_cons, Char.reduceEq, false_or] at hmem
  exact skips_dates.not_mem ha (by decide +kernel) (by simp) hmem

lemma getLast?_time_eq_iff (hb : b ∈ times) :
    ('P' :: (a ++ 'T' :: b)).getLast? = some 'T' ↔ b = [] := by
  have hlast : ('P' :: (a ++ 'T' :: b)).getLast? = ('T' :: b).getLast? := by
    rw [← List.cons_append, List.getLast?_append_cons]
  rw [hlast]
  constructor
  · intro h
    by_contra hne
    rw [List.getLast?_cons_of_ne_nil hne] at h
    exact skips_times.not_mem hb (by decide +kernel) (by simp) (List.mem_of_getLast? h)
  · rintro rfl
    rfl

end Check

/-- **Exactly the durations are accepted.** These are `P` with years, months, weeks and days, and
perhaps `T` with hours, minutes and seconds, where each of these is optional but there is one, and
there is one after a `T`. -/
theorem isDuration_iff (s : String) : isDuration s = true ↔ s.toList ∈ durations := by
  have hchecks : isDuration s = true ↔
      s.toList ∈ shapes ∧ s.toList ≠ ['P'] ∧ s.toList.getLast? ≠ some 'T' := by
    simp [isDuration, isDurationShape_iff, and_assoc]
  rw [hchecks, mem_shapes, mem_durations]
  constructor
  · rintro ⟨⟨a, ha, h | ⟨b, hb, h⟩⟩, hne, hlast⟩
    · refine ⟨a, ha, Or.inl ⟨?_, h⟩⟩
      rintro rfl
      exact hne h
    · rw [h, Ne, getLast?_time_eq_iff hb] at hlast
      exact ⟨a, ha, Or.inr ⟨b, hb, hlast, h⟩⟩
  · rintro ⟨a, ha, ⟨hne, h⟩ | ⟨b, hb, hne, h⟩⟩
    · refine ⟨⟨a, ha, Or.inl h⟩, ?_, ?_⟩
      · simpa [h] using hne
      · rw [h]
        exact getLast?_date_ne ha
    · refine ⟨⟨a, ha, Or.inr ⟨b, hb, h⟩⟩, ?_, ?_⟩
      · simp [h]
      · rwa [h, Ne, getLast?_time_eq_iff hb]

/-- The shape of a duration may end with a `T`, a duration does not. -/
example : isDurationShape "P1DT".toList = true ∧ isDuration "P1DT" = false ∧
    isDuration "P1DT٣,5S" = true := by decide +kernel

end RecordCuration.Format
