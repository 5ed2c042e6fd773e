/-
RGit/Merge/Grouped.lean

What `plan_merge` returns.

The paths of the plan are those of the three-way rule, with every nest of
paths replaced by its root (`mem_outputs`): they form an antichain, nothing
is lost, and away from the roots the plan is the rule.
-/
import RGit.Merge.Rule

namespace RGit.Cli

/-! ### Sorting by path -/

section Sorting

variable {α : Type} {path : α → String}

theorem sortByPath_perm (path : α → String) (l : List α) : (sortByPath path l).Perm l :=
  List.perm_insertionSort _ l

theorem mem_sortByPath {l : List α} {a : α} : a ∈ sortByPath path l ↔ a ∈ l :=
  (sortByPath_perm path l).mem_iff

end Sorting

/-- The paths a plan speaks of: those of its files, then those of its conflicts. -/
def MergePlan.outputs (plan : MergePlan) : List String :=
  plan.mergedFiles.map (·.path) ++ plan.conflicts.map (·.path)

/-! ### The loop over the roots -/

/-- The conflict that stands for the subtree of a root. -/
def rootConflict (sources : List (BTreeMap String FileEntry)) (root : String) :
    PendingConflict where
  path := root
  kind := .fileDirectory
  policy := ⟨sortedDomains (rootPolicies sources root), .placeholder⟩
  filePolicies := rootPolicies sources root

/-- No root is at or above the path. -/
def freeOf (roots : List String) (path : String) : Bool := roots.all fun root => !contains root path

theorem freeOf_cons (root : String) (roots : List String) (path : String) :
    freeOf (root :: roots) path = (!contains root path && freeOf roots path) := rfl

theorem freeOf_eq_true {roots : List String} {path : String} :
    freeOf roots path = true ↔ ∀ root ∈ roots, ¬contains root path = true := by
  simp [freeOf]

/-- The loop drops what is at or beneath a root and adds the roots. -/
theorem foldl_groupRoot (sources : List (BTreeMap String FileEntry)) {roots : List String}
    (hroots : roots.Pairwise fun r r' => ¬contains r' r = true) (plan : MergePlan) :
    roots.foldl (groupRoot sources) plan =
      ⟨plan.mergedFiles.filter fun file => freeOf roots file.path,
        (plan.conflicts.filter fun conflict => freeOf roots conflict.path) ++
          roots.map (rootConflict sources)⟩ := by
  induction roots generalizing plan with
  | nil => simp [freeOf]
  | cons root roots ih =>
      rw [List.pairwise_cons] at hroots
      have hfree : freeOf roots root = true := freeOf_eq_true.mpr hroots.1
      rw [List.foldl_cons, ih hroots.2, groupRoot]
      simp only [List.filter_filter, List.filter_append, List.filter_cons, List.filter_nil, hfree,
        if_true, List.append_assoc, List.map_cons, List.singleton_append, freeOf_cons,
        Bool.and_comm]
      rfl

/-! ### The plan of three maps -/

section Plan

variable (base line incoming : BTreeMap String FileEntry)

/-- The plan that `group` is given. -/
def sortedPlan : MergePlan :=
  { planned base line incoming with
    mergedFiles := sortByPath (·.path) (planned base line incoming).mergedFiles }

/-- The roots of the merge. -/
def mergeRoots : List String := (conflictRoots (sortedPlan base line incoming).paths).toList

/-- `plan_merge` on maps. -/
def planMaps : MergePlan := group (sortedPlan base line incoming) [base, line, incoming]

/-- Every file is stored under its path. -/
def Keyed (m : BTreeMap String FileEntry) : Prop :=
  ∀ (p : String) (file : FileEntry), m[p]? = some file → file.path = p

/-- A path that the rule keeps or finds in conflict. -/
def OccupiedAt (path : String) : Prop := (outcomeAt base line incoming path).Occupied

variable {base line incoming}

theorem path_of_kept (hline : Keyed line) (hincoming : Keyed incoming) {p : String}
    {file : FileEntry} (h : (outcomeAt base line incoming p).kept = some file) :
    file.path = p := by
  rcases kept_threeWay h with h | h
  · exact hline p file h
  · exact hincoming p file h

theorem path_of_conflictAt {p : String} {c : PendingConflict}
    (h : conflictAt base line incoming p = some c) : c.path = p := (conflictAt_eq_some h).2.1

theorem nodup_allPaths : (allPaths base line incoming).Nodup := by
  rw [allPaths]
  exact Std.ExtTreeSet.distinct_toList.imp fun h => compare_ne_eq_iff.mp h

theorem map_path_filterMap {α : Type} {path : α → String} {f : String → Option α}
    (h : ∀ p a, f p = some a → path a = p) (l : List String) :
    (l.filterMap f).map path = l.filter fun p => (f p).isSome := by
  induction l with
  | nil => rfl
  | cons p l ih =>
      cases hf : f p with
      | none => simp [hf, ih]
      | some a => simp [hf, ih, h p a hf]

theorem kept_isSome_iff {o : Outcome} : o.Occupied ↔ o.kept.isSome = true ∨ o = .conflict := by
  rcases o with (_ | _) | _ <;> simp [Outcome.Occupied, Outcome.kept]

theorem conflictAt_isSome_iff {p : String} :
    (conflictAt base line incoming p).isSome = true ↔
      outcomeAt base line incoming p = .conflict := by
  rw [conflictAt]
  split <;> simp_all

theorem map_path_conflicts :
    (planned base line incoming).conflicts.map (·.path) =
      (allPaths base line incoming).filter fun p =>
        (conflictAt base line incoming p).isSome := by
  rw [planned_eq]
  exact map_path_filterMap (fun p c h => path_of_conflictAt h) _

section Keys

variable (hline : Keyed line) (hincoming : Keyed incoming)
include hline hincoming

theorem map_path_mergedFiles :
    (planned base line incoming).mergedFiles.map (·.path) =
      (allPaths base line incoming).filter fun p =>
        (outcomeAt base line incoming p).kept.isSome := by
  rw [planned_eq]
  exact map_path_filterMap (fun p file h => path_of_kept hline hincoming h) _

theorem mem_sortedPlan_paths {p : String} :
    p ∈ (sortedPlan base line incoming).paths ↔ OccupiedAt base line incoming p := by
  have hmerged := ((sortByPath_perm (·.path)
    (planned base line incoming).mergedFiles).map (·.path)).mem_iff (a := p)
  rw [map_path_mergedFiles hline hincoming] at hmerged
  rw [MergePlan.paths, Std.ExtTreeSet.mem_ofList, List.contains_iff_mem, List.mem_append]
  rw [sortedPlan, hmerged, map_path_conflicts, List.mem_filter, List.mem_filter, conflictAt_isSome_iff,
    ← and_or_left, OccupiedAt, kept_isSome_iff]
  refine and_iff_right_of_imp fun h => mem_allPaths_of_occupied (kept_isSome_iff.mpr h)

/-- The roots of the merge are the roots of the paths the rule occupies. -/
theorem mem_mergeRoots {r : String} :
    r ∈ mergeRoots base line incoming ↔
      IsRoot (fun a b => contains a b = true) (OccupiedAt base line incoming) r := by
  have hpaths : (fun p => p ∈ (sortedPlan base line incoming).paths) =
      OccupiedAt base line incoming :=
    funext fun p => propext (mem_sortedPlan_paths hline hincoming)
  rw [mergeRoots, Std.ExtTreeSet.mem_toList, mem_conflictRoots, hpaths]

theorem pairwise_mergeRoots :
    (mergeRoots base line incoming).Pairwise fun r r' => ¬contains r' r = true := by
  have hdistinct : (mergeRoots base line incoming).Nodup :=
    Std.ExtTreeSet.distinct_toList.imp fun h => compare_ne_eq_iff.mp h
  refine hdistinct.imp_of_mem fun {r r'} hr hr' hne hle => hne ?_
  exact (((mem_mergeRoots hline hincoming).mp hr).topmost r'
    ((mem_mergeRoots hline hincoming).mp hr').mem hle).symm

/-- **`plan_merge` in one line**: the rule away from the roots, and the roots. -/
theorem planMaps_eq :
    planMaps base line incoming =
      ⟨(sortByPath (·.path) (planned base line incoming).mergedFiles).filter fun file =>
          freeOf (mergeRoots base line incoming) file.path,
        sortByPath (·.path)
          (((planned base line incoming).conflicts.filter fun conflict =>
              freeOf (mergeRoots base line incoming) conflict.path) ++
            (mergeRoots base line incoming).map (rootConflict [base, line, incoming]))⟩ := by
  have hroots : (mergeRoots base line incoming).Pairwise fun r r' => ¬contains r' r = true :=
    pairwise_mergeRoots hline hincoming
  have hloop := foldl_groupRoot [base, line, incoming] hroots (sortedPlan base line incoming)
  rw [mergeRoots] at hloop
  rw [planMaps, group, hloop]
  rfl

/-- The files kept away from the roots, then the conflicts there, then the roots. -/
theorem outputs_perm :
    (planMaps base line incoming).outputs.Perm
      ((((allPaths base line incoming).filter fun p =>
          (outcomeAt base line incoming p).kept.isSome).filter
            (freeOf (mergeRoots base line incoming))) ++
        ((((allPaths base line incoming).filter fun p =>
          (conflictAt base line incoming p).isSome).filter
            (freeOf (mergeRoots base line incoming))) ++
        mergeRoots base line incoming)) := by
  rw [MergePlan.outputs, planMaps_eq hline hincoming, ← map_path_mergedFiles hline hincoming,
    ← map_path_conflicts]
  generalize planned base line incoming = plan
  generalize mergeRoots base line incoming = roots
  dsimp only
  refine List.Perm.append ?_ ?_
  · rw [List.filter_map]
    exact ((sortByPath_perm _ _).filter _).map _
  · refine ((sortByPath_perm _ _).map _).trans ?_
    have hroots : (roots.map (rootConflict [base, line, incoming])).map (·.path) = roots := by
      rw [List.map_map]
      exact List.map_id _
    rw [List.map_append, hroots, List.filter_map]
    exact List.Perm.refl _

theorem nodup_outputs : (planMaps base line incoming).outputs.Nodup := by
  refine (outputs_perm hline hincoming).nodup_iff.mpr ?_
  have hroots : (mergeRoots base line incoming).Nodup :=
    Std.ExtTreeSet.distinct_toList.imp fun h => compare_ne_eq_iff.mp h
  refine List.nodup_append.mpr ⟨(nodup_allPaths.filter _).filter _,
    List.nodup_append.mpr ⟨(nodup_allPaths.filter _).filter _, hroots, ?_⟩, ?_⟩
  · rintro p hp _ hr rfl
    exact freeOf_eq_true.mp (List.mem_filter.mp hp).2 p hr (contains_refl p)
  · rintro p hp _ hq rfl
    obtain ⟨hp, hfree⟩ := List.mem_filter.mp hp
    have hkept := (List.mem_filter.mp hp).2
    rcases List.mem_append.mp hq with hq | hq
    · have hconflict := conflictAt_isSome_iff.mp
        (List.mem_filter.mp (List.mem_filter.mp hq).1).2
      rw [hconflict] at hkept
      cases hkept
    · exact freeOf_eq_true.mp hfree p hq (contains_refl p)

/-- **The paths of the plan** are those of the rule, with every nest replaced by its root. -/
theorem mem_outputs {p : String} :
    p ∈ (planMaps base line incoming).outputs ↔
      Grouped (fun a b => contains a b = true) (OccupiedAt base line incoming) p := by
  rw [(outputs_perm hline hincoming).mem_iff]
  simp only [List.mem_append, List.mem_filter, conflictAt_isSome_iff, freeOf_eq_true,
    mem_mergeRoots hline hincoming, Grouped]
  have hocc : OccupiedAt base line incoming p →
      p ∈ allPaths base line incoming := mem_allPaths_of_occupied
  rw [OccupiedAt, kept_isSome_iff] at *
  tauto

end Keys

/-! ### Its conflicts -/

theorem mem_foldl_pushPolicy {l acc : List AccessPolicy} {policy : AccessPolicy} :
    policy ∈ l.foldl pushPolicy acc ↔ policy ∈ acc ∨ policy ∈ l := by
  induction l generalizing acc with
  | nil => simp
  | cons q l ih =>
      rw [List.foldl_cons, ih, pushPolicy]
      split
      · next h =>
          rw [List.mem_cons]
          refine ⟨fun hor => hor.imp_right .inr, ?_⟩
          rintro (hacc | rfl | hl)
          · exact .inl hacc
          · exact .inl h
          · exact .inr hl
      · rw [List.mem_append, List.mem_singleton, List.mem_cons, or_assoc]

theorem mem_rootPolicies {sources : List (BTreeMap String FileEntry)} {root : String}
    {policy : AccessPolicy} :
    policy ∈ rootPolicies sources root ↔
      ∃ source ∈ sources, ∃ (p : String) (file : FileEntry), source[p]? = some file ∧
        contains root file.path = true ∧ file.policy = policy := by
  rw [rootPolicies, mem_foldl_pushPolicy]
  simp only [List.not_mem_nil, false_or, List.mem_map, List.mem_filter, List.mem_flatMap,
    Prod.exists]
  constructor
  · rintro ⟨file, ⟨⟨source, hsource, p, _, hget, rfl⟩, hle⟩, hpolicy⟩
    exact ⟨source, hsource, p, _, BTreeMap.mem_toList_iff_get.mp hget, hle, hpolicy⟩
  · rintro ⟨source, hsource, p, file, hget, hle, hpolicy⟩
    exact ⟨file, ⟨⟨source, hsource, p, file, BTreeMap.mem_toList_iff_get.mpr hget, rfl⟩, hle⟩,
      hpolicy⟩

/-- The `FileDirectory` conflicts are the roots. -/
theorem mem_conflicts_fileDirectory (hline : Keyed line) (hincoming : Keyed incoming)
    {c : PendingConflict} :
    (c ∈ (planMaps base line incoming).conflicts ∧ c.kind = .fileDirectory) ↔
      ∃ r, IsRoot (fun a b => contains a b = true) (OccupiedAt base line incoming) r ∧
        c = rootConflict [base, line, incoming] r := by
  rw [planMaps_eq hline hincoming, mem_sortByPath, List.mem_append, List.mem_filter,
    List.mem_map, planned_eq]
  constructor
  · rintro ⟨⟨hmem, -⟩ | ⟨r, hr, rfl⟩, hkind⟩
    · obtain ⟨p, -, hp⟩ := List.mem_filterMap.mp hmem
      rw [(conflictAt_eq_some hp).2.2] at hkind
      exact absurd hkind (conflictKindForEntries_ne _ _ _)
    · exact ⟨r, (mem_mergeRoots hline hincoming).mp hr, rfl⟩
  · rintro ⟨r, hr, rfl⟩
    exact ⟨.inr ⟨r, (mem_mergeRoots hline hincoming).mpr hr, rfl⟩, rfl⟩

end Plan

theorem planMerge_eq (base line incoming : List FileEntry) :
    planMerge base line incoming =
      planMaps (manifestMap base) (manifestMap line) (manifestMap incoming) := rfl

theorem keyed_manifestMap {files : List FileEntry} (h : ValidManifest files) :
    Keyed (manifestMap files) := fun _ _ hget => ((manifestMap_eq_some h.unique).mp hget).2

/-- The three-way rule on three manifests, at a path. -/
def ruleAt (base line incoming : List FileEntry) (path : String) : Outcome :=
  threeWay (fileAt base path) (fileAt line path) (fileAt incoming path)

theorem outcomeAt_manifestMap {base line incoming : List FileEntry} (hbase : ValidManifest base)
    (hline : ValidManifest line) (hincoming : ValidManifest incoming) (path : String) :
    outcomeAt (manifestMap base) (manifestMap line) (manifestMap incoming) path =
      ruleAt base line incoming path := by
  rw [outcomeAt, manifestMap_get hbase.unique, manifestMap_get hline.unique,
    manifestMap_get hincoming.unique, ruleAt]

/-- No path of a plan is at or beneath another. -/
theorem pairwise_outputs {base line incoming : BTreeMap String FileEntry} (hline : Keyed line)
    (hincoming : Keyed incoming) :
    (planMaps base line incoming).outputs.Pairwise fun p q =>
      ¬contains p q = true ∧ ¬contains q p = true := by
  refine (nodup_outputs hline hincoming).imp_of_mem fun {p q} hp hq hne => ?_
  have hanti := @Grouped.antichain _ _ (OccupiedAt base line incoming) wellFounded_contains
    (fun _ _ _ => contains_trans) contains_refl
  rw [mem_outputs hline hincoming] at hp hq
  exact ⟨fun h => hne (hanti hp hq h), fun h => hne (hanti hq hp h).symm⟩

/-- **A plan is an antichain that loses nothing**: no path of the plan is at or
beneath another, every path that the rule keeps or finds in conflict is in the
plan or beneath one of its roots, and a root records the policies of all files
at or beneath it. -/
theorem planMerge_antichain {base line incoming : List FileEntry} (hbase : ValidManifest base)
    (hline : ValidManifest line) (hincoming : ValidManifest incoming) :
    ((planMerge base line incoming).outputs.Pairwise fun p q =>
      ¬contains p q = true ∧ ¬contains q p = true) ∧
    (∀ p, (ruleAt base line incoming p).Occupied →
      p ∈ (planMerge base line incoming).outputs ∨
        ∃ c ∈ (planMerge base line incoming).conflicts,
          c.kind = .fileDirectory ∧ Beneath c.path p) ∧
    (∀ c ∈ (planMerge base line incoming).conflicts, c.kind = .fileDirectory →
      ∀ policy, policy ∈ c.filePolicies ↔
        ∃ file ∈ base ++ line ++ incoming,
          contains c.path file.path = true ∧ file.policy = policy) := by
  have hkline := keyed_manifestMap hline
  have hkincoming := keyed_manifestMap hincoming
  rw [planMerge_eq]
  refine ⟨?_, fun p hocc => ?_, fun c hc hkind policy => ?_⟩
  · exact pairwise_outputs hkline hkincoming
  · have hocc : OccupiedAt (manifestMap base) (manifestMap line) (manifestMap incoming) p := by
      rwa [OccupiedAt, outcomeAt_manifestMap hbase hline hincoming]
    rw [mem_outputs hkline hkincoming]
    rcases grouped_or_beneath hocc with h | ⟨r, hr, hle⟩
    · exact .inl h
    · by_cases hpr : p = r
      · exact .inl (.inl (hpr ▸ hr))
      · obtain ⟨hc, hkind⟩ := (mem_conflicts_fileDirectory hkline hkincoming).mpr ⟨r, hr, rfl⟩
        exact .inr ⟨_, hc, hkind, beneath_of_contains hle hpr⟩
  · obtain ⟨r, -, rfl⟩ := (mem_conflicts_fileDirectory hkline hkincoming).mp ⟨hc, hkind⟩
    rw [rootConflict, mem_rootPolicies]
    simp only [List.mem_cons, List.not_mem_nil, or_false, exists_eq_or_imp, exists_eq_left,
      manifestMap_eq_some hbase.unique, manifestMap_eq_some hline.unique,
      manifestMap_eq_some hincoming.unique, List.mem_append]
    constructor
    · rintro (⟨_, file, ⟨hmem, -⟩, h⟩ | ⟨_, file, ⟨hmem, -⟩, h⟩ | ⟨_, file, ⟨hmem, -⟩, h⟩)
      · exact ⟨file, .inl (.inl hmem), h⟩
      · exact ⟨file, .inl (.inr hmem), h⟩
      · exact ⟨file, .inr hmem, h⟩
    · rintro ⟨file, (hmem | hmem) | hmem, h⟩
      · exact .inl ⟨_, file, ⟨hmem, rfl⟩, h⟩
      · exact .inr (.inl ⟨_, file, ⟨hmem, rfl⟩, h⟩)
      · exact .inr (.inr ⟨_, file, ⟨hmem, rfl⟩, h⟩)

/-- A file of the public domain. -/
def samplePublic (path hash : String) : FileEntry :=
  { path := path, hash := hash, bytes := 1, policy := publicPolicy }

/-- One side turns `a` into a directory while the other edits the file. -/
theorem planMerge_antichain_sample :
    (planMerge [samplePublic "a" "1"] [samplePublic "a" "2", samplePublic "d" "1"]
      [samplePublic "a/b" "1"]).outputs = ["d", "a"] ∧
    (planMerge [samplePublic "a" "1"] [samplePublic "a" "2", samplePublic "d" "1"]
      [samplePublic "a/b" "1"]).outputs.Pairwise fun p q =>
        ¬contains p q = true ∧ ¬contains q p = true :=
  ⟨by decide,
    (planMerge_antichain ⟨by decide, by decide⟩ ⟨by decide, by decide⟩ ⟨by decide, by decide⟩).1⟩

end RGit.Cli
