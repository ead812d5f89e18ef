import RecordCuration.Proofs.Json.WellFormed

/-!
Equality of documents in any member order.

On well-formed documents it is an equivalence, and a path leads to agreeing values in documents
that agree.
-/

namespace RecordCuration

namespace Json

attribute [local simp] same sameItems sameMembers

lemma sameItems_iff {xs ys : List Json} :
    sameItems xs ys = true ↔ List.Forall₂ (fun x y => x.same y = true) xs ys := by
  induction xs generalizing ys with
  | nil => cases ys <;> simp
  | cons x xs ih => cases ys <;> simp [ih]

lemma sameMembers_iff {ms ns : List (String × Json)} :
    sameMembers ms ns = true ↔
      ∀ m ∈ ms, ∃ w, ns.lookup m.1 = some w ∧ m.2.same w = true := by
  induction ms with
  | nil => simp
  | cons m ms ih =>
    obtain ⟨k, v⟩ := m
    simp only [sameMembers, Bool.and_eq_true, ih, List.forall_mem_cons]
    refine and_congr_left fun _ => ?_
    cases ns.lookup k <;> simp

lemma same_arr {xs ys : List Json} :
    (Json.arr xs).same (.arr ys) = true ↔ List.Forall₂ (fun x y => x.same y = true) xs ys := by
  rw [same, sameItems_iff]

lemma same_obj {ms ns : List (String × Json)} :
    (Json.obj ms).same (.obj ns) = true ↔ ms.length = ns.length ∧
      ∀ m ∈ ms, ∃ w, ns.lookup m.1 = some w ∧ m.2.same w = true := by
  rw [same, Bool.and_eq_true, beq_iff_eq, sameMembers_iff]

lemma arr_of_same {xs : List Json} {b : Json} (h : (Json.arr xs).same b = true) :
    ∃ ys, b = .arr ys := by cases b <;> simp at h ⊢

lemma obj_of_same {ms : List (String × Json)} {b : Json} (h : (Json.obj ms).same b = true) :
    ∃ ns, b = .obj ns := by cases b <;> simp at h ⊢

theorem same_refl {v : Json} (hv : v.WellFormed) : v.same v = true := by
  induction v with
  | arr xs ih =>
    rw [same_arr, List.forall₂_same]
    exact fun x hx => ih x hx (wellFormed_arr.mp hv x hx)
  | obj ms ih =>
    obtain ⟨hn, hw⟩ := wellFormed_obj.mp hv
    exact same_obj.mpr ⟨rfl, fun m hm => ⟨m.2, lookup_of_mem hn hm, ih m hm (hw m hm)⟩⟩
  | real x => simp [Decimal.Double.sameValue]
  | _ => simp

theorem same_trans {a b c : Json} (hab : a.same b = true) (hbc : b.same c = true) :
    a.same c = true := by
  induction a generalizing b c with
  | arr xs ih =>
    obtain ⟨ys, rfl⟩ := arr_of_same hab
    obtain ⟨zs, rfl⟩ := arr_of_same hbc
    rw [same_arr, List.forall₂_iff_get] at hab hbc ⊢
    obtain ⟨hl, hxy⟩ := hab
    obtain ⟨hl', hyz⟩ := hbc
    exact ⟨hl.trans hl', fun i h1 h2 =>
      ih _ (List.get_mem _ _) (hxy i h1 (hl ▸ h1)) (hyz i (hl ▸ h1) h2)⟩
  | obj ms ih =>
    obtain ⟨ns, rfl⟩ := obj_of_same hab
    obtain ⟨os, rfl⟩ := obj_of_same hbc
    obtain ⟨hl, hm⟩ := same_obj.mp hab
    obtain ⟨hl', hn⟩ := same_obj.mp hbc
    refine same_obj.mpr ⟨hl.trans hl', fun m hmem => ?_⟩
    obtain ⟨w, hw, hmw⟩ := hm m hmem
    obtain ⟨u, hu, hwu⟩ := hn _ (mem_of_lookup hw)
    exact ⟨u, hu, ih m hmem hmw hwu⟩
  | real x =>
    cases b <;> cases c <;> simp_all [Decimal.Double.sameValue]
  | _ => cases b <;> cases c <;> simp_all

theorem same_symm {a b : Json} (ha : a.WellFormed) (hb : b.WellFormed) (h : a.same b = true) :
    b.same a = true := by
  induction a generalizing b with
  | arr xs ih =>
    obtain ⟨ys, rfl⟩ := arr_of_same h
    rw [same_arr, List.forall₂_iff_get] at h ⊢
    obtain ⟨hl, hxy⟩ := h
    refine ⟨hl.symm, fun i h1 h2 => ih _ (List.get_mem _ _) ?_ ?_ (hxy i h2 h1)⟩
    · exact wellFormed_arr.mp ha _ (List.get_mem _ _)
    · exact wellFormed_arr.mp hb _ (List.get_mem _ _)
  | obj ms ih =>
    obtain ⟨ns, rfl⟩ := obj_of_same h
    obtain ⟨hl, hm⟩ := same_obj.mp h
    obtain ⟨hna, hwa⟩ := wellFormed_obj.mp ha
    obtain ⟨hnb, hwb⟩ := wellFormed_obj.mp hb
    refine same_obj.mpr ⟨hl.symm, fun n hn => ?_⟩
    -- as many distinct names on both sides, so every name of the second is one of the first
    have hsub : ms.map Prod.fst ⊆ ns.map Prod.fst := by
      intro k hk
      obtain ⟨m, hmem, rfl⟩ := List.mem_map.mp hk
      obtain ⟨w, hw, -⟩ := hm m hmem
      exact List.mem_map.mpr ⟨_, mem_of_lookup hw, rfl⟩
    have hperm : (ms.map Prod.fst).Perm (ns.map Prod.fst) :=
      (List.subperm_of_subset hna hsub).perm_of_length_le (by simp [hl])
    obtain ⟨m, hmem, hk⟩ := List.mem_map.mp (hperm.mem_iff.mpr (List.mem_map.mpr ⟨n, hn, rfl⟩))
    obtain ⟨w, hw, hmw⟩ := hm m hmem
    have hnw : w = n.2 := by
      rw [hk, lookup_of_mem hnb (show (n.1, n.2) ∈ ns from hn)] at hw
      exact (Option.some.inj hw).symm
    refine ⟨m.2, by rw [← hk]; exact lookup_of_mem hna hmem, ?_⟩
    exact ih m hmem (hwa m hmem) (hwb n hn) (hnw ▸ hmw)
  | real x =>
    cases b <;> simp_all [Decimal.Double.sameValue]
  | _ => cases b <;> simp_all

/-- One step leads from agreeing values to agreeing values. -/
lemma child?_of_same {a b x : Json} {s : Segment} (h : a.same b = true)
    (hx : a.child? s = some x) : ∃ y, b.child? s = some y ∧ x.same y = true := by
  cases a with
  | arr xs =>
    obtain ⟨ys, rfl⟩ := arr_of_same h
    obtain ⟨i, hi, hxi⟩ := Option.bind_eq_some_iff.mp hx
    rw [same_arr, List.forall₂_iff_get] at h
    obtain ⟨hl, hxy⟩ := h
    obtain ⟨hlt, rfl⟩ := List.getElem?_eq_some_iff.mp hxi
    have hlt' : i < ys.length := hl ▸ hlt
    exact ⟨ys[i], by simp [child?, hi, hlt'], hxy i hlt hlt'⟩
  | obj ms =>
    obtain ⟨ns, rfl⟩ := obj_of_same h
    obtain ⟨w, hw, hsame⟩ := (same_obj.mp h).2 _ (mem_of_lookup hx)
    exact ⟨w, hw, hsame⟩
  | _ => cases hx

/-- A path leads from agreeing documents to agreeing values. -/
theorem place?_of_same {a b x : Json} {p : Path} (h : a.same b = true)
    (hx : a.place? p = some x) : ∃ y, b.place? p = some y ∧ x.same y = true := by
  induction p generalizing a b with
  | nil => cases hx; exact ⟨b, rfl, h⟩
  | cons s p ih =>
    obtain ⟨u, hu, hux⟩ := place?_cons.mp hx
    obtain ⟨w, hw, huw⟩ := child?_of_same h hu
    obtain ⟨y, hy, hxy⟩ := ih huw hux
    exact ⟨y, place?_cons.mpr ⟨w, hw, hy⟩, hxy⟩

end Json

end RecordCuration
