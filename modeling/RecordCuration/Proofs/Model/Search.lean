import Mathlib.Data.List.Destutter
import Mathlib.Data.List.TakeWhile
import Mathlib.Data.Prod.Lex
import RecordCuration.Proofs.Model.Discovery

/-!
What a library finds in its directories.

The versions found are sorted before neighbours that are equal become one, so that each version is
there once, however many names and directories hold it, and the order in which these come does not
show. The file of a version is the first that is there, directory by directory and in each of them
extension by extension.
-/

namespace RecordCuration

namespace FileName

lemma splitPoint?_eq_some_iff {name stem extension : List Char} :
    splitPoint? name = some (stem, extension) ↔
      stem ≠ [] ∧ '.' ∉ extension ∧ name = stem ++ '.' :: extension := by
  constructor
  · intro h
    unfold splitPoint? at h
    simp only at h
    split_ifs at h with hsplit
    rw [Bool.and_eq_true, decide_eq_true_eq, Bool.not_eq_true', List.isEmpty_eq_false_iff] at hsplit
    obtain ⟨rfl, rfl⟩ := Prod.mk.inj (Option.some.inj h)
    have hspan := List.takeWhile_append_dropWhile (p := (· ≠ '.')) (l := name.reverse)
    have hpoint := List.head?_dropWhile_not (· ≠ '.') name.reverse
    have hpoints : '.' ∉ name.reverse.takeWhile (· ≠ '.') := fun hm => by
      simpa using List.mem_takeWhile_imp hm
    generalize name.reverse.takeWhile (· ≠ '.') = tail at *
    generalize name.reverse.dropWhile (· ≠ '.') = rest at *
    cases rest with
    | nil =>
      have : name.length = tail.length := by
        rw [← List.length_reverse, ← hspan, List.append_nil]
      omega
    | cons c rest =>
      obtain rfl : c = '.' := by simpa using hpoint
      have hdrop : name.reverse.drop (tail.length + 1) = rest := by
        rw [← hspan, List.drop_append]
        simp
      have hname : name = rest.reverse ++ '.' :: tail.reverse := by
        rw [← List.reverse_reverse name, ← hspan]
        simp
      rw [hdrop] at hsplit ⊢
      exact ⟨by simpa using hsplit.2, by simpa using hpoints, hname⟩
  · rintro ⟨hstem, hextension, rfl⟩
    exact splitPoint?_append hstem hextension

end FileName

namespace Version

variable {v w : Version} {vs ws : List Version}

/-- The numbers of a version, the first that differs being the one that counts. -/
def key (v : Version) : ℕ ×ₗ ℕ ×ₗ ℕ := toLex (v.major, toLex (v.minor, v.patch))

lemma key_injective : Function.Injective key := by
  rintro ⟨_, _, _⟩ ⟨_, _, _⟩ h
  simp only [key, EmbeddingLike.apply_eq_iff_eq, Prod.mk.injEq] at h
  obtain ⟨rfl, rfl, rfl⟩ := h
  rfl

instance : LinearOrder Version := LinearOrder.lift' key key_injective

lemma le_eq_true_iff : v.le w = true ↔ v ≤ w := by
  show _ ↔ v.key ≤ w.key
  rw [le_iff]
  simp only [key, Prod.Lex.toLex_le_toLex]

lemma pairwise_le_sort (vs : List Version) : (sort vs).Pairwise (· ≤ ·) :=
  (pairwise_sort vs).imp le_eq_true_iff.mp

/-- Among sorted versions equal ones are neighbours. -/
lemma eraseDups_cons_eq_destutter' (h : (v :: vs).Pairwise (· ≤ ·)) :
    (v :: vs).eraseDups = vs.destutter' (· ≠ ·) v := by
  induction vs generalizing v with
  | nil => rfl
  | cons w vs ih =>
    obtain ⟨hv, hvs⟩ := List.pairwise_cons.mp h
    by_cases hvw : v = w
    · subst hvw
      rw [List.destutter'_cons_neg _ (by simp), ← ih hvs]
      simp [List.eraseDups_cons]
    · have hnot : v ∉ w :: vs := by
        intro hmem
        have hwv : w ≤ v := by
          rcases List.mem_cons.mp hmem with rfl | hmem
          · exact le_rfl
          · exact (List.pairwise_cons.mp hvs).1 v hmem
        exact hvw ((hv w (by simp)).antisymm hwv)
      have hfilter : (w :: vs).filter (fun u => !u == v) = w :: vs :=
        List.filter_eq_self.mpr fun u hu => by
          have : u ≠ v := fun he => hnot (he ▸ hu)
          simpa using this
      rw [List.destutter'_cons_pos _ hvw, ← ih hvs, List.eraseDups_cons, hfilter]

lemma eraseDups_eq_destutter (h : vs.Pairwise (· ≤ ·)) :
    vs.eraseDups = vs.destutter (· ≠ ·) := by
  cases vs with
  | nil => rfl
  | cons v vs => rw [eraseDups_cons_eq_destutter' h, List.destutter_cons']

/-- Sorted versions that differ from their neighbours ascend. -/
lemma pairwise_lt (hsorted : vs.Pairwise (· ≤ ·))
    (hchain : vs.IsChain (· ≠ ·)) : vs.Pairwise (· < ·) := by
  have hlt : vs.IsChain (· < ·) := by
    induction vs with
    | nil => exact .nil
    | cons v vs ih =>
      cases vs with
      | nil => exact .singleton v
      | cons w vs =>
        obtain ⟨hv, hvs⟩ := List.pairwise_cons.mp hsorted
        obtain ⟨hne, hrest⟩ := List.isChain_cons_cons.mp hchain
        refine .cons_cons ?_ (ih hvs hrest)
        exact lt_of_le_of_ne (hv w (by simp)) hne
  exact hlt.pairwise

end Version

namespace ModelLibrary

variable {l l' : ModelLibrary} {view view' : FileView} {v : Version} {version : String}

/-! ### The versions that are there -/

/-- The names that count for a version: those with a text of it before a known extension. -/
lemma versionOf?_eq_some_iff {name : String} : versionOf? name = some v ↔
    ∃ text, ∃ extension ∈ extensions,
      name = filePrefix ++ text ++ "." ++ extension ∧ Version.parse text = .ok v := by
  unfold versionOf?
  simp only [Option.bind_eq_bind, Option.bind_eq_some_iff]
  constructor
  · rintro ⟨⟨stem, extension⟩, hsplit, h⟩
    simp only at h
    split_ifs at h with hname
    rw [Bool.and_eq_true, decide_eq_true_eq, beq_iff_eq] at hname
    obtain ⟨hextension, hprefix⟩ := hname
    obtain ⟨-, -, htext⟩ := FileName.splitPoint?_eq_some_iff.mp hsplit
    have hstem : stem = filePrefix.toList ++ stem.drop filePrefix.toList.length := by
      conv_lhs => rw [← List.take_append_drop filePrefix.toList.length stem, hprefix]
    refine ⟨_, _, hextension, String.toList_inj.mp ?_, toOption_eq_some_iff.mp h⟩
    rw [htext]
    conv_lhs => rw [hstem]
    simp
  · rintro ⟨text, extension, hextension, rfl, hparse⟩
    have hpoint : '.' ∉ extension.toList := by
      simp only [extensions, List.mem_cons, List.not_mem_nil, or_false] at hextension
      rcases hextension with rfl | rfl | rfl <;> decide
    have hname : (filePrefix ++ text ++ "." ++ extension).toList =
        (filePrefix.toList ++ text.toList) ++ '.' :: extension.toList := by
      simp
    refine ⟨(filePrefix.toList ++ text.toList, extension.toList), ?_, ?_⟩
    · rw [hname]
      exact FileName.splitPoint?_append (by simp [filePrefix]) hpoint
    · simp [hextension, hparse, Except.toOption]

/-- Versions are sorted, and of equal neighbours one is kept. -/
lemma available_eq_destutter : l.available view = (Version.sort
    ((l.paths.flatMap fun path => (view.names? path).getD []).filterMap versionOf?)).destutter
      (· ≠ ·) :=
  Version.eraseDups_eq_destutter (Version.pairwise_le_sort _)

lemma pairwise_available : (l.available view).Pairwise (· < ·) := by
  rw [available_eq_destutter]
  exact Version.pairwise_lt
    ((Version.pairwise_le_sort _).sublist (List.destutter_sublist _ _)) (List.isChain_destutter _ _)

lemma mem_available_iff : v ∈ l.available view ↔
    ∃ path ∈ l.paths, ∃ names, view.names? path = some names ∧ ∃ text, ∃ extension ∈ extensions,
      filePrefix ++ text ++ "." ++ extension ∈ names ∧ Version.parse text = .ok v := by
  rw [mem_available]
  constructor
  · rintro ⟨path, name, hpath, hname, hv⟩
    obtain ⟨text, extension, hextension, rfl, hparse⟩ := versionOf?_eq_some_iff.mp hv
    cases hnames : view.names? path with
    | none => simp [hnames] at hname
    | some names =>
      rw [hnames] at hname
      exact ⟨path, hpath, names, hnames, text, extension, hextension, hname, hparse⟩
  · rintro ⟨path, hpath, names, hnames, text, extension, hextension, hname, hparse⟩
    exact ⟨path, _, hpath, by rwa [hnames],
      versionOf?_eq_some_iff.mpr ⟨text, extension, hextension, rfl, hparse⟩⟩

/-- Only which directories there are counts, and which names are in them. -/
lemma available_congr (hpaths : ∀ path, path ∈ l.paths ↔ path ∈ l'.paths)
    (hnames : ∀ path name, name ∈ (view.names? path).getD [] ↔ name ∈ (view'.names? path).getD []) :
    l.available view = l'.available view' := by
  refine pairwise_available.eq_of_mem_iff pairwise_available fun v => ?_
  simp only [mem_available]
  constructor
  · rintro ⟨path, name, hpath, hname, hv⟩
    exact ⟨path, name, (hpaths path).mp hpath, (hnames path name).mp hname, hv⟩
  · rintro ⟨path, name, hpath, hname, hv⟩
    exact ⟨path, name, (hpaths path).mpr hpath, (hnames path name).mpr hname, hv⟩

/-! ### The file that is read -/

/-- The file of a version in a directory, by its extension. -/
def fileIn (path version extension : String) : String :=
  FileName.join path (filePrefix ++ version ++ "." ++ extension)

/-- The directory holds the version under the extension; the directories before it do not hold it,
and it does not hold it under an extension that comes first. -/
structure IsFirst (l : ModelLibrary) (view : FileView) (version path extension : String) :
    Prop where
  leads : view.leads (fileIn path version extension) = true
  directory : ∃ before after, l.paths = before ++ path :: after ∧
    ∀ p ∈ before, ∀ e ∈ extensions, view.leads (fileIn p version e) = false
  extension : ∃ before after, ["json", "yaml", "yml"] = before ++ extension :: after ∧
    ∀ e ∈ before, view.leads (fileIn path version e) = false

lemma find?_candidates (version : String) : (l.candidates version).find? view.leads =
    l.paths.findSome? fun path =>
      (extensions.find? fun e => view.leads (fileIn path version e)).map (fileIn path version) := by
  rw [candidates, List.find?_flatMap]
  congr 1
  funext path
  exact List.find?_map

lemma find?_candidates_eq_some_iff {file : String} :
    (l.candidates version).find? view.leads = some file ↔
      ∃ path extension, l.IsFirst view version path extension ∧
        file = fileIn path version extension := by
  rw [find?_candidates, List.findSome?_eq_some_iff]
  simp only [Option.map_eq_some_iff, List.find?_eq_some_iff_append, Option.map_eq_none_iff,
    List.find?_eq_none, Bool.not_eq_true, Bool.not_eq_true']
  constructor
  · rintro ⟨before, path, after, hpaths, ⟨extension, ⟨hleads, hextension⟩, rfl⟩, hbefore⟩
    exact ⟨path, extension, ⟨hleads, ⟨before, after, hpaths, hbefore⟩, hextension⟩, rfl⟩
  · rintro ⟨path, extension, ⟨hleads, ⟨before, after, hpaths, hbefore⟩, hextension⟩, rfl⟩
    exact ⟨before, path, after, hpaths, ⟨extension, ⟨hleads, hextension⟩, rfl⟩, hbefore⟩

/-- **What is found in the directories.** The available versions ascend. They are those that can be
read from a name in a directory, after the prefix and before a known extension, and neither the
order of the directories nor that of their names counts. A version that is not kept is read from
the first file that is there, directory by directory and in each by extension. -/
theorem discovery_exact (l : ModelLibrary) (view : FileView) :
    (l.available view).Pairwise (· < ·) ∧
    (∀ v, v ∈ l.available view ↔ ∃ path ∈ l.paths, ∃ names, view.names? path = some names ∧
      ∃ text, ∃ extension ∈ ["json", "yaml", "yml"],
        "spase-" ++ text ++ "." ++ extension ∈ names ∧ Version.parse text = .ok v) ∧
    (∀ (l' : ModelLibrary) (view' : FileView), l'.paths.Perm l.paths →
      (∀ path, Option.Rel List.Perm (view'.names? path) (view.names? path)) →
        l'.available view' = l.available view) ∧
    ∀ version, l.get? version = none →
      (∀ path extension, l.IsFirst view version path extension →
        (l.load view version).2 = (modelAt view (fileIn path version extension)).map
          fun m => { m with version := some (m.version.getD version) }) ∧
      ((∀ path extension, ¬ l.IsFirst view version path extension) →
        l.load view version = (l, .error (.notFound (.version version l.paths)))) := by
  refine ⟨pairwise_available, fun v => mem_available_iff, fun l' view' hpaths hnames => ?_,
    fun version hnew => ?_⟩
  · refine available_congr (fun path => hpaths.mem_iff) fun path name => ?_
    have hlisting := hnames path
    generalize view'.names? path = names' at hlisting
    generalize view.names? path = names at hlisting
    cases hlisting with
    | some hperm => exact hperm.mem_iff
    | none => rfl
  · refine ⟨fun path extension hfirst => ?_, fun hnone => ?_⟩
    · rw [load_of_new hnew,
        fetch_of_find? (find?_candidates_eq_some_iff.mpr ⟨path, extension, hfirst, rfl⟩)]
    · have hfile : (l.candidates version).find? view.leads = none := by
        rw [Option.eq_none_iff_forall_ne_some]
        intro file hfile
        obtain ⟨path, extension, hfirst, -⟩ := find?_candidates_eq_some_iff.mp hfile
        exact hnone path extension hfirst
      rw [load, hnew, fetch, find, hfile]
      rfl

/-- Two directories with names for the same versions, and a file for one that is in both. -/
def nearAndFar : FileView := fun path =>
  if path = "near" then some (.directory ["spase-1.0.json", "spase-1.yml", "notes.txt"])
  else if path = "far" then some (.directory ["spase-+1.json", "spase-0.9.yaml"])
  else if path = "near/spase-1.yml" then some (.file none)
  else if path = "far/spase-1.json" then some (.directory [])
  else none

/-- The same with the names of each directory in another order. -/
def nearAndFarTurned : FileView := fun path =>
  if path = "near" then some (.directory ["notes.txt", "spase-1.0.json", "spase-1.yml"])
  else if path = "far" then some (.directory ["spase-0.9.yaml", "spase-+1.json"])
  else nearAndFar path

lemma sameNames_nearAndFar (path : String) :
    Option.Rel List.Perm (nearAndFarTurned.names? path) (nearAndFar.names? path) := by
  unfold FileView.names? nearAndFarTurned
  split_ifs with hnear hfar
  · subst hnear
    exact .some (by decide)
  · subst hfar
    exact .some (by decide)
  · generalize nearAndFar path = entry
    cases entry with
    | none => exact .none
    | some entry => cases entry with
      | file => exact .none
      | directory names => exact .some (.refl names)

/-- Three names count for one version there, and the first directory has its file. -/
theorem nearAndFar_discovery :
    let l := ofPaths ["near", "missing", "far", "near"]
    (⟨1, 0, 0⟩ : Version) ∈ l.available nearAndFar ∧
    (ofPaths ["far", "near", "near", "missing"]).available nearAndFarTurned =
      l.available nearAndFar ∧
    l.IsFirst nearAndFar "1" "near" "yml" ∧
    (l.load nearAndFar "1").2 = .error (.io .noText) := by
  intro l
  have hfirst : l.IsFirst nearAndFar "1" "near" "yml" :=
    ⟨by with_unfolding_all decide, ⟨[], _, rfl, by simp⟩,
      ⟨["json", "yaml"], [], rfl, by with_unfolding_all decide⟩⟩
  refine ⟨((discovery_exact l nearAndFar).2.1 _).mpr ?_,
    (discovery_exact l nearAndFar).2.2.1 _ _ (by decide) sameNames_nearAndFar, hfirst, ?_⟩
  · exact ⟨"far", by decide, _, rfl, "+1", "json", by decide, by decide,
      by with_unfolding_all decide⟩
  · rw [((discovery_exact l nearAndFar).2.2.2 "1" rfl).1 _ _ hfirst]
    with_unfolding_all decide

end ModelLibrary

end RecordCuration
