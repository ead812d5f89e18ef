import RecordCuration.Proofs.Model.Library
import RecordCuration.Proofs.Model.Version

/-!
Versions that directories have names for, and the files that are looked for by version.

A name counts for a version when what stands in it reads as the version, but a version is looked
for only under the name that it shows as. The two meet at that name: it counts for the version. The
greatest version is found exactly when it was kept or a path to a file of that name leads somewhere,
under whatever name it was counted.
-/

namespace RecordCuration

namespace FileName

lemma splitPoint?_append {stem extension : List Char} (hstem : stem ≠ [])
    (hextension : '.' ∉ extension) :
    splitPoint? (stem ++ '.' :: extension) = some (stem, extension) := by
  have hreverse : (stem ++ '.' :: extension).reverse =
      extension.reverse ++ '.' :: stem.reverse := by
    simp
  have htail : (stem ++ '.' :: extension).reverse.takeWhile (· ≠ '.') = extension.reverse := by
    rw [hreverse, List.takeWhile_append_of_pos]
    · simp
    · intro c hc
      have : c ≠ '.' := by
        rintro rfl
        exact hextension (List.mem_reverse.mp hc)
      simpa using this
  have hhead : (stem ++ '.' :: extension).reverse.drop (extension.reverse.length + 1) =
      stem.reverse := by
    rw [hreverse, List.drop_append]
    simp
  unfold splitPoint?
  simp only [htail, hhead]
  simp [hstem]
  omega

end FileName

namespace Version

/-- The name that the file of a version is looked for under, by its extension. -/
def fileName (v : Version) (extension : String) : String :=
  ModelLibrary.filePrefix ++ v.shown ++ "." ++ extension

end Version

namespace ModelLibrary

variable {l : ModelLibrary} {view : FileView} {v w : Version}

/-! ### Names -/

/-- The name that a version is looked for under counts for it. -/
lemma versionOf?_fileName (hv : v.Bounded) {extension : String} (h : extension ∈ extensions) :
    versionOf? (v.fileName extension) = some v := by
  have hpoint : '.' ∉ extension.toList := by
    simp only [extensions, List.mem_cons, List.not_mem_nil, or_false] at h
    rcases h with rfl | rfl | rfl <;> decide
  have hname : (v.fileName extension).toList =
      (filePrefix.toList ++ v.shown.toList) ++ '.' :: extension.toList := by
    simp [Version.fileName]
  have hsplit : FileName.splitPoint? (v.fileName extension).toList =
      some (filePrefix.toList ++ v.shown.toList, extension.toList) := by
    rw [hname]
    exact FileName.splitPoint?_append (by simp [filePrefix]) hpoint
  simp [versionOf?, hsplit, h, Version.parse_shown hv, Except.toOption]

lemma bounded_of_versionOf? {name : String} (h : versionOf? name = some v) : v.Bounded := by
  unfold versionOf? at h
  obtain ⟨⟨stem, extension⟩, -, h⟩ := Option.bind_eq_some_iff.mp h
  simp only at h
  split_ifs at h
  exact Version.bounded_of_parse (toOption_eq_some_iff.mp h)

/-- A directory of the library lists a name that counts for the version. -/
structure Lists (l : ModelLibrary) (view : FileView) (v : Version) (path name : String) :
    Prop where
  sought : path ∈ l.paths
  listed : name ∈ (view.names? path).getD []
  version : versionOf? name = some v

/-- **Available versions are listed**, each under some name. -/
lemma mem_available : v ∈ l.available view ↔ ∃ path name, l.Lists view v path name := by
  unfold available
  simp only [List.mem_eraseDups, Version.sort, List.mem_mergeSort, List.mem_filterMap,
    List.mem_flatMap]
  exact ⟨fun ⟨name, ⟨path, hpath, hname⟩, hv⟩ => ⟨path, name, hpath, hname, hv⟩,
    fun ⟨path, name, h⟩ => ⟨name, ⟨path, h.sought, h.listed⟩, h.version⟩⟩

lemma eraseDups_sublist {α : Type} [BEq α] : ∀ xs : List α, xs.eraseDups.Sublist xs
  | [] => by simp
  | x :: xs => by
    rw [List.eraseDups_cons]
    exact .cons_cons x ((eraseDups_sublist _).trans List.filter_sublist)
termination_by xs => xs.length
decreasing_by exact Nat.lt_succ_of_le (List.length_filter_le _ _)

/-- The last of the available versions is the greatest. -/
lemma le_of_getLast? (hv : (l.available view).getLast? = some v) (hw : w ∈ l.available view) :
    w.le v = true := by
  have hpairs : (l.available view).Pairwise (fun v w => v.le w = true) :=
    (Version.pairwise_sort _).sublist (eraseDups_sublist _)
  obtain ⟨vs, hvs⟩ := List.getLast?_eq_some_iff.mp hv
  rw [hvs] at hpairs hw
  rcases List.mem_append.mp hw with hw | hw
  · exact (List.pairwise_append.mp hpairs).2.2 w hw v (by simp)
  · obtain rfl := List.mem_singleton.mp hw
    exact Version.le_iff.mpr (by omega)

/-! ### Files -/

/-- Some path to a file of the name that the version is looked for under leads somewhere. -/
def Finds (l : ModelLibrary) (view : FileView) (v : Version) : Prop :=
  ∃ path ∈ l.paths, ∃ extension ∈ extensions,
    view.leads (FileName.join path (v.fileName extension)) = true

lemma mem_candidates {file : String} : file ∈ l.candidates v.shown ↔
    ∃ path ∈ l.paths, ∃ extension ∈ extensions,
      file = FileName.join path (v.fileName extension) := by
  unfold candidates
  simp only [List.mem_flatMap, List.mem_map, Version.fileName, eq_comm]

lemma find?_candidates_eq_none_iff :
    (l.candidates v.shown).find? view.leads = none ↔ ¬ l.Finds view v := by
  rw [List.find?_eq_none]
  constructor
  · rintro hall ⟨path, hpath, extension, hext, hleads⟩
    exact hall _ (mem_candidates.mpr ⟨path, hpath, extension, hext, rfl⟩) hleads
  · intro hnot file hfile hleads
    obtain ⟨path, hpath, extension, hext, rfl⟩ := mem_candidates.mp hfile
    exact hnot ⟨path, hpath, extension, hext, hleads⟩

/-- A file that cannot be read as a model is there all the same. -/
lemma modelAt_ne_notFound (path : String) (what : MissingModel) :
    modelAt view path ≠ .error (.notFound what) := by
  intro h
  unfold modelAt at h
  split at h
  · cases h
  · split_ifs at h
    · unfold Model.ofYamlText at h
      split at h
      · cases h
      · obtain ⟨fault, -, hfault⟩ := mapError_eq_error_iff.mp h
        cases hfault
    · unfold Model.ofJsonText at h
      split at h
      · cases h
      · split at h
        · cases h
        · split_ifs at h <;> cases h

/-- A version is read from the first file of its name. -/
lemma fetch_of_find? {version file : String}
    (h : (l.candidates version).find? view.leads = some file) : l.fetch view version =
      (modelAt view file).map fun m => { m with version := some (m.version.getD version) } := by
  unfold fetch find
  rw [h]
  cases hm : modelAt view file <;> simp [bind, Except.bind, hm, Except.map, pure, Except.pure]

lemma fetch_eq_notFound_iff : (∃ what, l.fetch view v.shown = .error (.notFound what)) ↔
    ¬ l.Finds view v := by
  rw [← find?_candidates_eq_none_iff]
  constructor
  · rintro ⟨what, h⟩
    cases hfile : (l.candidates v.shown).find? view.leads with
    | none => rfl
    | some file =>
      rw [fetch_of_find? hfile] at h
      exact absurd (map_eq_error_iff.mp h) (modelAt_ne_notFound file what)
  · intro h
    rw [fetch, find, h]
    exact ⟨_, rfl⟩

/-! ### The greatest version -/

lemma loadLatest_eq (hv : (l.available view).getLast? = some v) :
    l.loadLatest view = l.load view v.shown := by
  rw [loadLatest, hv]

/-- **The greatest version is found under the name that it shows as.** It is the greatest that a
directory lists a name for. Its load fails for want of a file exactly when it is not kept and no
path to a file of that name leads somewhere; so it does not fail when a directory lists that name,
and the name leads on from there. A version that is not kept is then read from the first such file,
whose name counts for it. -/
theorem latest_missing_iff (hv : (l.available view).getLast? = some v) :
    (∀ w ∈ l.available view, w.le v = true) ∧
    ((∃ what, (l.loadLatest view).2 = .error (.notFound what)) ↔
      l.get? v.shown = none ∧ ¬ l.Finds view v) ∧
    (∀ path extension, l.Lists view v path (v.fileName extension) → extension ∈ extensions →
      view.leads (FileName.join path (v.fileName extension)) = true →
        ∀ what, (l.loadLatest view).2 ≠ .error (.notFound what)) ∧
    ∀ file m, l.get? v.shown = none → (l.candidates v.shown).find? view.leads = some file →
      modelAt view file = .ok m →
        (l.loadLatest view).2 = .ok { m with version := some (m.version.getD v.shown) } ∧
          ∃ path ∈ l.paths, ∃ extension ∈ extensions,
            file = FileName.join path (v.fileName extension) ∧
              versionOf? (v.fileName extension) = some v := by
  have hmissing : (∃ what, (l.loadLatest view).2 = .error (.notFound what)) ↔
      l.get? v.shown = none ∧ ¬ l.Finds view v := by
    rw [loadLatest_eq hv, ← fetch_eq_notFound_iff]
    cases hget : l.get? v.shown with
    | some m => simp [load_of_get? view hget]
    | none => simp [load_of_new hget]
  have hbounded : v.Bounded := by
    obtain ⟨path, name, hlists⟩ := mem_available.mp (List.mem_of_getLast? hv)
    exact bounded_of_versionOf? hlists.version
  refine ⟨fun w => le_of_getLast? hv, hmissing, ?_, ?_⟩
  · intro path extension hlists hext hleads what hwhat
    exact (hmissing.mp ⟨what, hwhat⟩).2 ⟨path, hlists.sought, extension, hext, hleads⟩
  · intro file m hnew hfile hm
    rw [loadLatest_eq hv, load_of_new hnew]
    obtain ⟨path, hpath, extension, hext, hname⟩ :=
      mem_candidates.mp (List.mem_of_find?_eq_some hfile)
    refine ⟨?_, path, hpath, extension, hext, hname, versionOf?_fileName hbounded hext⟩
    rw [fetch_of_find? hfile, hm]
    rfl

/-- A directory with two versions, the greater under a short name. -/
def shortNamed : FileView := fun path =>
  if path = "models" then some (.directory ["spase-1.0.0.json", "spase-1.1.json"])
  else if path = "models/spase-1.0.0.json" ∨ path = "models/spase-1.1.json" then
    some (.file (some "\x7b\"version\":\"1\",\"dictionary\":\x7b\x7d,\"ontology\":\x7b\x7d\x7d"))
  else none

def shortModel : Model := ⟨some "1", .empty, .empty⟩

lemma available_shortNamed : freshLibrary.available shortNamed = [⟨1, 0, 0⟩, ⟨1, 1, 0⟩] := by
  have hnames : (freshLibrary.paths.flatMap fun path => (shortNamed.names? path).getD []).filterMap
      versionOf? = [⟨1, 0, 0⟩, ⟨1, 1, 0⟩] := by with_unfolding_all decide
  have hsort : Version.sort [⟨1, 0, 0⟩, ⟨1, 1, 0⟩] = [⟨1, 0, 0⟩, ⟨1, 1, 0⟩] :=
    List.mergeSort_of_pairwise (by decide)
  simp only [available, hnames, hsort]
  decide

lemma find?_shortNamed :
    (freshLibrary.candidates (Version.shown ⟨1, 1, 0⟩)).find? shortNamed.leads = none := by
  with_unfolding_all decide

/-- The greater version is missing there, and the one version of another directory is not. -/
theorem shortNamed_latest_missing :
    (freshLibrary.available shortNamed).getLast? = some ⟨1, 1, 0⟩ ∧
      (∃ what, (freshLibrary.loadLatest shortNamed).2 = .error (.notFound what)) ∧
      (freshLibrary.available oneVersion).getLast? = some ⟨2, 6, 0⟩ ∧
      (freshLibrary.loadLatest oneVersion).2 = .ok emptyModel := by
  have hshort : (freshLibrary.available shortNamed).getLast? = some ⟨1, 1, 0⟩ := by
    rw [available_shortNamed]
    rfl
  have hone : (freshLibrary.available oneVersion).getLast? = some ⟨2, 6, 0⟩ := by
    with_unfolding_all decide
  have hnone : ¬ freshLibrary.Finds shortNamed ⟨1, 1, 0⟩ :=
    find?_candidates_eq_none_iff.mp find?_shortNamed
  refine ⟨hshort, (latest_missing_iff hshort).2.1.mpr ⟨rfl, hnone⟩, hone, ?_⟩
  have hfile : (freshLibrary.candidates (Version.shown ⟨2, 6, 0⟩)).find? oneVersion.leads =
      some "models/spase-2.6.0.json" := by with_unfolding_all decide
  have hm : modelAt oneVersion "models/spase-2.6.0.json" =
      .ok { emptyModel with version := none } := by with_unfolding_all decide
  exact ((latest_missing_iff hone).2.2.2 _ _ rfl hfile hm).1

/-- Both files are listed for their versions and read as models, and the latest is not found. -/
theorem short_name_missed :
    freshLibrary.available shortNamed = [⟨1, 0, 0⟩, ⟨1, 1, 0⟩] ∧
      freshLibrary.Lists shortNamed ⟨1, 1, 0⟩ "models" "spase-1.1.json" ∧
      modelAt shortNamed "models/spase-1.1.json" = .ok shortModel ∧
      (freshLibrary.loadLatest shortNamed).2 =
        .error (.notFound (.version "1.1.0" ["models"])) := by
  refine ⟨available_shortNamed,
    ⟨by with_unfolding_all decide, by decide +kernel, by decide +kernel⟩,
    by with_unfolding_all decide, ?_⟩
  rw [loadLatest, available_shortNamed]
  with_unfolding_all decide

end ModelLibrary

end RecordCuration
