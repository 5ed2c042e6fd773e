/-
RGit/Merge/Rule.lean

The three-way rule, path by path.

`threeWay` says what should become of one path.  The loop of `plan_merge`
is the rule at every path (`planned_eq`), before anything is grouped; the
paths the rule keeps or finds in conflict are the ones that `group` sees.
-/
import RGit.Merge.Paths

namespace RGit.Cli

/-! ### The rule -/

/-- What becomes of a path: it holds a file or nothing, or it is in conflict. -/
inductive Outcome where
  | keep (entry : Option FileEntry)
  | conflict
  deriving DecidableEq

/-- Equal sides win; a side that did not move yields to the other. -/
def threeWay (base line incoming : Option FileEntry) : Outcome :=
  if line = incoming then .keep line
  else if base = line then .keep incoming
  else if base = incoming then .keep line
  else .conflict

/-- The file the rule keeps. -/
def Outcome.kept : Outcome → Option FileEntry
  | .keep entry => entry
  | .conflict => none

/-- The path is not empty afterwards. -/
def Outcome.Occupied (o : Outcome) : Prop := o ≠ .keep none

/-- A conflict involves an entry on some side. -/
theorem threeWay_none : threeWay none none none = .keep none := rfl

theorem threeWay_eq_conflict_iff {base line incoming : Option FileEntry} :
    threeWay base line incoming = .conflict ↔
      line ≠ incoming ∧ base ≠ line ∧ base ≠ incoming := by
  unfold threeWay
  split_ifs <;> simp_all

/-- The rule keeps a file of one of the sides. -/
theorem kept_threeWay {base line incoming : Option FileEntry} {file : FileEntry}
    (h : (threeWay base line incoming).kept = some file) :
    line = some file ∨ incoming = some file := by
  unfold threeWay at h
  split_ifs at h
  · exact .inl h
  · exact .inr h
  · exact .inl h
  · cases h

theorem sameFile_eq_decide (left right : Option FileEntry) :
    sameFile left right = decide (left = right) := by
  cases left <;> cases right <;> simp [sameFile, Bool.beq_eq_decide_eq]

theorem conflictKindForEntries_ne (base line incoming : Option FileEntry) :
    conflictKindForEntries base line incoming ≠ .fileDirectory := by
  cases base <;> cases line <;> cases incoming <;> simp [conflictKindForEntries]

/-! ### The loop of `plan_merge` -/

section Loop

variable (base line incoming : BTreeMap String FileEntry)

/-- The rule at a path. -/
def outcomeAt (path : String) : Outcome := threeWay base[path]? (line)[path]? incoming[path]?

/-- The conflict the loop records at a path. -/
def conflictAt (path : String) : Option PendingConflict :=
  if outcomeAt base line incoming path = .conflict then
    some {
      path := path
      kind := conflictKindForEntries base[path]? (line)[path]? incoming[path]?
      policy := combinedPolicy (line)[path]? incoming[path]? base[path]?
      filePolicies := presentFilePolicies (line)[path]? incoming[path]? base[path]? }
  else none

theorem mergePath_eq (plan : MergePlan) (path : String) :
    mergePath base line incoming plan path =
      ⟨plan.mergedFiles ++ (outcomeAt base line incoming path).kept.toList,
        plan.conflicts ++ (conflictAt base line incoming path).toList⟩ := by
  rw [mergePath, conflictAt, outcomeAt, threeWay]
  simp only [sameFile_eq_decide, decide_eq_true_eq]
  by_cases hsame : (line)[path]? = incoming[path]?
  · simp [hsame, Outcome.kept]
  · by_cases hline : base[path]? = (line)[path]?
    · simp [hsame, hline, Outcome.kept]
    · by_cases hincoming : base[path]? = incoming[path]?
      · have hmoved : incoming[path]? ≠ (line)[path]? := Ne.symm hsame
        simp [hsame, hincoming, hmoved, Outcome.kept]
      · simp [hsame, hline, hincoming, Outcome.kept]

/-- The plan before anything is sorted or grouped. -/
def planned : MergePlan :=
  (allPaths base line incoming).foldl (mergePath base line incoming) ⟨[], []⟩

/-- **The loop is the rule at every path.** -/
theorem planned_eq :
    planned base line incoming =
      ⟨(allPaths base line incoming).filterMap fun p => (outcomeAt base line incoming p).kept,
        (allPaths base line incoming).filterMap (conflictAt base line incoming)⟩ := by
  have hloop : ∀ (paths : List String) (plan : MergePlan),
      paths.foldl (mergePath base line incoming) plan =
        ⟨plan.mergedFiles ++ paths.filterMap fun p => (outcomeAt base line incoming p).kept,
          plan.conflicts ++ paths.filterMap (conflictAt base line incoming)⟩ := by
    intro paths
    induction paths with
    | nil => simp
    | cons p paths ih =>
        intro plan
        rw [List.foldl_cons, ih, mergePath_eq, List.filterMap_cons, List.filterMap_cons]
        cases (outcomeAt base line incoming p).kept <;>
          cases conflictAt base line incoming p <;> simp
  rw [planned, hloop]
  rfl

variable {base line incoming}

theorem mem_allPaths {path : String} :
    path ∈ allPaths base line incoming ↔ path ∈ base ∨ path ∈ line ∨ path ∈ incoming := by
  simp [allPaths, Std.ExtTreeSet.mem_toList, Std.ExtTreeSet.mem_ofList]

theorem mem_allPaths_of_occupied {path : String}
    (h : (outcomeAt base line incoming path).Occupied) : path ∈ allPaths base line incoming := by
  by_contra hnot
  simp only [mem_allPaths, not_or, BTreeMap.mem_iff_get, not_exists] at hnot
  obtain ⟨hbase, hline, hincoming⟩ := hnot
  refine h ?_
  rw [outcomeAt, Option.eq_none_iff_forall_ne_some.mpr hbase,
    Option.eq_none_iff_forall_ne_some.mpr hline, Option.eq_none_iff_forall_ne_some.mpr hincoming,
    threeWay_none]

theorem conflictAt_eq_some {path : String} {c : PendingConflict} :
    conflictAt base line incoming path = some c →
      outcomeAt base line incoming path = .conflict ∧ c.path = path ∧
        c.kind = conflictKindForEntries base[path]? (line)[path]? incoming[path]? := by
  intro h
  rw [conflictAt] at h
  split at h
  · cases h
    exact ⟨by assumption, rfl, rfl⟩
  · cases h

theorem conflictAt_isSome {path : String} (h : outcomeAt base line incoming path = .conflict) :
    ∃ c, conflictAt base line incoming path = some c :=
  ⟨_, by rw [conflictAt, if_pos h]⟩

end Loop

/-! ### Manifests as maps -/

/-- The file of a manifest at a path. -/
def fileAt (files : List FileEntry) (path : String) : Option FileEntry :=
  files.find? fun file => file.path == path

/-- A manifest: no path twice, and no file beneath another. -/
structure ValidManifest (files : List FileEntry) : Prop where
  unique : (files.map (·.path)).Nodup
  disjoint : ∀ f ∈ files, ∀ g ∈ files, contains f.path g.path = true → f = g

theorem manifestMap_eq_some {files : List FileEntry} (h : (files.map (·.path)).Nodup)
    {path : String} {file : FileEntry} :
    (manifestMap files)[path]? = some file ↔ file ∈ files ∧ file.path = path := by
  have hloop : ∀ (files : List FileEntry) (m : BTreeMap String FileEntry),
      (files.map (·.path)).Nodup →
      ((files.foldl (fun m entry => m.insert entry.path entry) m)[path]? = some file ↔
        (file ∈ files ∧ file.path = path) ∨ (path ∉ files.map (·.path) ∧ m[path]? = some file)) := by
    intro files
    induction files with
    | nil => simp
    | cons f files ih =>
        intro m hnodup
        rw [List.map_cons, List.nodup_cons] at hnodup
        rw [List.foldl_cons, ih _ hnodup.2, BTreeMap.get_insert_eq_some_iff]
        simp only [List.mem_cons, List.map_cons, not_or]
        constructor
        · rintro (⟨hmem, rfl⟩ | ⟨hfree, ⟨rfl, rfl⟩ | ⟨hne, hget⟩⟩)
          · exact .inl ⟨.inr hmem, rfl⟩
          · exact .inl ⟨.inl rfl, rfl⟩
          · exact .inr ⟨⟨Ne.symm hne, hfree⟩, hget⟩
        · rintro (⟨rfl | hmem, rfl⟩ | ⟨⟨hne, hfree⟩, hget⟩)
          · exact .inr ⟨hnodup.1, .inl ⟨rfl, rfl⟩⟩
          · exact .inl ⟨hmem, rfl⟩
          · exact .inr ⟨hfree, .inr ⟨Ne.symm hne, hget⟩⟩
  rw [manifestMap, hloop files ∅ h]
  simp

theorem fileAt_eq_some {files : List FileEntry} (h : (files.map (·.path)).Nodup)
    {path : String} {file : FileEntry} :
    fileAt files path = some file ↔ file ∈ files ∧ file.path = path := by
  constructor
  · intro hfind
    exact ⟨List.mem_of_find?_eq_some hfind, by simpa using List.find?_some hfind⟩
  · rintro ⟨hmem, rfl⟩
    cases hfind : fileAt files file.path with
    | none =>
        have hnone := List.find?_eq_none.mp hfind file hmem
        simp at hnone
    | some g =>
        have hg : g.path = file.path := by simpa using List.find?_some hfind
        have hgmem : g ∈ files := List.mem_of_find?_eq_some hfind
        rw [List.inj_on_of_nodup_map h hgmem hmem hg]

/-- The map of a manifest is its files. -/
theorem manifestMap_get {files : List FileEntry} (h : (files.map (·.path)).Nodup)
    (path : String) : (manifestMap files)[path]? = fileAt files path :=
  Option.ext fun file => by
    rw [manifestMap_eq_some h, fileAt_eq_some h]

end RGit.Cli
