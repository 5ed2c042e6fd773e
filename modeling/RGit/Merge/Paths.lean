/-
RGit/Merge/Paths.lean

Paths and the trees they form.

`contains root path` is a partial order with finitely many paths above each
path; `ancestors` lists those strictly above, topmost first, so the roots
that `group` looks for are the topmost paths with another one beneath them
(`mem_conflictRoots`).
-/
import RGit.Lib.Grouping
import RGit.Merge.Plan

namespace RGit.Cli

/-! ### At or beneath -/

/-- `path` is strictly beneath `root`. -/
def Beneath (root path : String) : Prop := ∃ rest, path.toList = root.toList ++ '/' :: rest

theorem contains_iff {root path : String} :
    contains root path = true ↔ path = root ∨ Beneath root path := by
  rw [contains, Bool.or_eq_true, beq_iff_eq, Option.any_eq_true]
  refine or_congr_right ⟨?_, ?_⟩
  · rintro ⟨rest, hrest, hhead⟩
    rw [List.isPrefixOf?_eq_some_iff_append_eq] at hrest
    cases rest with
    | nil => cases hhead
    | cons c rest =>
        simp only [List.head?_cons, beq_iff_eq, Option.some.injEq] at hhead
        exact ⟨rest, by rw [← hrest, hhead]⟩
  · rintro ⟨rest, hrest⟩
    exact ⟨'/' :: rest, List.isPrefixOf?_eq_some_iff_append_eq.mpr hrest.symm, rfl⟩

theorem Beneath.length_lt {root path : String} (h : Beneath root path) :
    root.toList.length < path.toList.length := by
  obtain ⟨rest, hrest⟩ := h
  rw [hrest, List.length_append, List.length_cons]
  omega

theorem Beneath.trans {a b c : String} (h : Beneath a b) (h' : Beneath b c) : Beneath a c := by
  obtain ⟨rest, hrest⟩ := h
  obtain ⟨rest', hrest'⟩ := h'
  exact ⟨rest ++ '/' :: rest', by rw [hrest', hrest]; simp⟩

theorem beneath_of_contains {root path : String} (h : contains root path = true)
    (hne : path ≠ root) : Beneath root path :=
  (contains_iff.mp h).resolve_left hne

theorem contains_of_beneath {root path : String} (h : Beneath root path) :
    contains root path = true := contains_iff.mpr (.inr h)

theorem contains_refl (path : String) : contains path path = true := contains_iff.mpr (.inl rfl)

theorem contains_trans {a b c : String} (h : contains a b = true) (h' : contains b c = true) :
    contains a c = true := by
  rcases contains_iff.mp h with rfl | hab
  · exact h'
  · rcases contains_iff.mp h' with rfl | hbc
    · exact h
    · exact contains_of_beneath (hab.trans hbc)

/-- The paths above one path form a chain. -/
theorem contains_of_length_le {a b path : String} (ha : Beneath a path) (hb : Beneath b path)
    (hle : a.toList.length ≤ b.toList.length) : contains a b = true := by
  obtain ⟨rest, hrest⟩ := ha
  obtain ⟨rest', hrest'⟩ := hb
  have hpath : a.toList ++ '/' :: rest = b.toList ++ '/' :: rest' := hrest.symm.trans hrest'
  obtain ⟨mid, hmid⟩ : a.toList <+: b.toList := List.prefix_of_prefix_length_le
    (List.prefix_append _ _) (hpath.symm ▸ List.prefix_append _ _) hle
  cases mid with
  | nil =>
      rw [List.append_nil, String.toList_inj] at hmid
      exact hmid ▸ contains_refl a
  | cons c mid =>
      rw [← hmid, List.append_assoc, List.append_cancel_left_eq, List.cons_append,
        List.cons.injEq] at hpath
      exact contains_of_beneath ⟨mid, by rw [← hmid, hpath.1]⟩

theorem wellFounded_contains : WellFounded fun a b => contains a b = true ∧ a ≠ b := by
  refine Subrelation.wf (r := fun a b : String => a.toList.length < b.toList.length) ?_
    (measure fun a : String => a.toList.length).wf
  rintro a b ⟨h, hne⟩
  exact (beneath_of_contains h hne.symm).length_lt

/-! ### Ancestors -/

theorem mem_ancestors {root path : String} : root ∈ ancestors path ↔ Beneath root path := by
  simp only [ancestors, List.mem_map, List.mem_filter, Prod.exists, beq_iff_eq]
  constructor
  · rintro ⟨_, index, ⟨hmem, rfl⟩, rfl⟩
    obtain ⟨hlt, hget⟩ := List.getElem?_eq_some_iff.mp (List.mk_mem_zipIdx_iff_getElem?.mp hmem)
    refine ⟨path.toList.drop (index + 1), ?_⟩
    rw [String.toList_ofList, ← hget, ← List.drop_eq_getElem_cons, List.take_append_drop]
  · rintro ⟨rest, hrest⟩
    refine ⟨'/', root.toList.length, ⟨List.mk_mem_zipIdx_iff_getElem?.mpr ?_, rfl⟩, ?_⟩
    · rw [hrest]
      simp
    · rw [hrest, List.take_left, String.ofList_toList]

/-- Ancestors are listed topmost first. -/
theorem ancestors_pairwise (path : String) :
    (ancestors path).Pairwise fun a b => a.toList.length < b.toList.length := by
  have hindex : path.toList.zipIdx.Pairwise fun a b => a.2 < b.2 := by
    rw [← List.pairwise_map (f := Prod.snd), List.zipIdx_map_snd]
    exact List.pairwise_lt_range'
  rw [ancestors, List.pairwise_map]
  refine (hindex.filter _).imp_of_mem fun {a b} ha hb hab => ?_
  obtain ⟨c, i⟩ := a
  obtain ⟨c', j⟩ := b
  have hlt : ∀ {p : Char × Nat → Bool} {c : Char} {k : Nat},
      (c, k) ∈ path.toList.zipIdx.filter p → k < path.toList.length := by
    intro p c k hk
    obtain ⟨hlt, -⟩ := List.getElem?_eq_some_iff.mp
      (List.mk_mem_zipIdx_iff_getElem?.mp (List.mem_filter.mp hk).1)
    exact hlt
  have hi := hlt ha
  have hj := hlt hb
  simp only [String.toList_ofList, List.length_take]
  omega

/-- The first ancestor with a property is above all others that have it. -/
theorem find?_ancestors {path root : String} {p : String → Bool}
    (h : (ancestors path).find? p = some root) :
    Beneath root path ∧ p root = true ∧
      ∀ q, Beneath q path → p q = true → contains root q = true := by
  obtain ⟨hp, above, below, hsplit, habove⟩ := List.find?_eq_some_iff_append.mp h
  have hroot := mem_ancestors.mp (List.mem_of_find?_eq_some h)
  refine ⟨hroot, hp, fun q hq hpq => contains_of_length_le hroot hq ?_⟩
  have hsorted := ancestors_pairwise path
  have hmem := mem_ancestors.mpr hq
  rw [hsplit] at hsorted hmem
  rcases List.mem_append.mp hmem with hmem | hmem
  · have hno := habove q hmem
    simp [hpq] at hno
  · rcases List.mem_cons.mp hmem with rfl | hmem
    · exact le_rfl
    · exact le_of_lt ((List.pairwise_cons.mp (List.pairwise_append.mp hsorted).2.1).1 q hmem)

/-! ### Roots -/

theorem mem_foldl_addRoot {paths roots : BTreeSet String} {l : List String} {r : String} :
    r ∈ l.foldl (addRoot paths) roots ↔
      r ∈ roots ∨ ∃ p ∈ l, (ancestors p).find? paths.contains = some r := by
  induction l generalizing roots with
  | nil => simp
  | cons p l ih =>
      rw [List.foldl_cons, ih, addRoot]
      cases hfind : (ancestors p).find? paths.contains with
      | none => simp [hfind]
      | some q =>
          rw [BTreeSet.mem_insert_iff]
          simp only [List.mem_cons, exists_eq_or_imp, hfind, Option.some.injEq]
          rw [or_assoc, or_left_comm]

/-- **The roots of `group`** are the topmost paths with another one beneath. -/
theorem mem_conflictRoots {paths : BTreeSet String} {r : String} :
    r ∈ conflictRoots paths ↔
      IsRoot (fun a b => contains a b = true) (fun p => p ∈ paths) r := by
  rw [conflictRoots, mem_foldl_addRoot]
  simp only [Std.ExtTreeSet.not_mem_empty, false_or, Std.ExtTreeSet.mem_toList]
  constructor
  · rintro ⟨p, hp, hfind⟩
    obtain ⟨hbeneath, hroot, hfirst⟩ := find?_ancestors hfind
    refine ⟨Std.ExtTreeSet.mem_iff_contains.mpr hroot, ⟨p, hp, ?_, contains_of_beneath hbeneath⟩,
      fun q hq hle => ?_⟩
    · rintro rfl
      exact absurd hbeneath.length_lt (lt_irrefl _)
    · by_contra hne
      have hqr := beneath_of_contains hle (Ne.symm hne)
      have hrq := hfirst q (hqr.trans hbeneath) (Std.ExtTreeSet.mem_iff_contains.mp hq)
      exact absurd (hqr.length_lt.trans (beneath_of_contains hrq hne).length_lt) (lt_irrefl _)
  · rintro ⟨hr, ⟨p, hp, hne, hle⟩, htop⟩
    have hbeneath := beneath_of_contains hle hne
    have hmem := mem_ancestors.mpr hbeneath
    cases hfind : (ancestors p).find? paths.contains with
    | none =>
        have hno := List.find?_eq_none.mp hfind r hmem
        exact absurd (Std.ExtTreeSet.mem_iff_contains.mp hr) hno
    | some r' =>
        obtain ⟨-, hroot', hfirst⟩ := find?_ancestors hfind
        have hle' := hfirst r hbeneath (Std.ExtTreeSet.mem_iff_contains.mp hr)
        obtain rfl := htop r' (Std.ExtTreeSet.mem_iff_contains.mpr hroot') hle'
        exact ⟨p, hp, hfind⟩

end RGit.Cli
