/-
RGit/Merge/Diff.lean

The diff of the command line, for the actor who asks for it.

`permissionedDiff` names the paths at which the files differ that the actor can
access, and gives the number of paths at which the others differ; no change is lost
between the two (`permissionedDiff_exact`).  An actor who can access more is named at
least the same paths, and has no more that are only counted (`permissionedDiff_mono`).
-/
import RGit.Lib.MapDiff
import RGit.Merge.Rule
import Mathlib.Data.Finset.Card

namespace RGit.Cli

structure FileDiff where
  added : List String
  modified : List String
  deleted : List String
  hidden : Nat
  deriving DecidableEq

structure DiffInput where
  visible : List FileEntry
  hiddenByPath : BTreeMap String FileEntry

/-- `diff_files`. -/
def diffFiles (previous current : List FileEntry) (hidden : Nat) : FileDiff :=
  let paths := entryDiff (fun path _ => path) (manifestMap previous) (manifestMap current)
  ⟨paths.added, paths.modified, paths.deleted, hidden⟩

/-- The body of the loop of `diff_input`. -/
def diffInputStep (actor : Actor) (input : DiffInput) (file : FileEntry) : DiffInput :=
  if canAccess actor file.policy then { input with visible := input.visible ++ [file] }
  else { input with hiddenByPath := input.hiddenByPath.insert file.path file }

/-- `diff_input`. -/
def diffInput (files : List FileEntry) (actor : Actor) : DiffInput :=
  files.foldl (diffInputStep actor) ⟨[], ∅⟩

/-- `hidden_changed_paths`. -/
def hiddenChangedPaths (previous current : BTreeMap String FileEntry) : Nat :=
  (changedKeys previous current).length

/-- `permissioned_diff`. -/
def permissionedDiff (previous current : List FileEntry) (actor : Actor) : FileDiff :=
  let previous := diffInput previous actor
  let current := diffInput current actor
  let hidden := hiddenChangedPaths previous.hiddenByPath current.hiddenByPath
  diffFiles previous.visible current.visible hidden

/-! ### What an actor can access -/

def accessible (actor : Actor) (files : List FileEntry) : List FileEntry :=
  files.filter fun file => canAccess actor file.policy

def restricted (actor : Actor) (files : List FileEntry) : List FileEntry :=
  files.filter fun file => !canAccess actor file.policy

/-- The file that a list has at a path; the last one counts. -/
def lastAt (files : List FileEntry) (path : String) : Option FileEntry :=
  files.reverse.find? fun file => file.path = path

theorem manifestMap_eq_lastAt (files : List FileEntry) (path : String) :
    (manifestMap files)[path]? = lastAt files path := by
  induction files using List.reverseRecOn with
  | nil => simp [manifestMap, lastAt]
  | append_singleton files file ih =>
      rw [lastAt, List.reverse_concat, List.find?_cons, manifestMap, List.foldl_concat]
      by_cases hpath : file.path = path
      · subst hpath
        simp
      · rw [BTreeMap.get_insert_of_ne _ _ hpath, decide_eq_false hpath]
        exact ih

theorem diffInput_eq (files : List FileEntry) (actor : Actor) :
    diffInput files actor = ⟨accessible actor files, manifestMap (restricted actor files)⟩ := by
  induction files using List.reverseRecOn with
  | nil => rfl
  | append_singleton files file ih =>
      rw [diffInput, List.foldl_concat, ← diffInput, ih, diffInputStep]
      by_cases haccess : canAccess actor file.policy = true
      · simp [haccess, accessible, restricted]
      · simp [haccess, accessible, restricted, manifestMap]

/-- The paths at which the files differ that an actor cannot access. -/
def restrictedChanges (actor : Actor) (previous current : List FileEntry) : Finset String :=
  ((previous ++ current).map (·.path)).toFinset.filter fun path =>
    lastAt (restricted actor previous) path ≠ lastAt (restricted actor current) path

theorem lastAt_mem {files : List FileEntry} {path : String} {file : FileEntry}
    (h : lastAt files path = some file) : file ∈ files ∧ file.path = path := by
  exact ⟨List.mem_reverse.mp (List.mem_of_find?_eq_some h), by simpa using List.find?_some h⟩

theorem mem_restrictedChanges {actor : Actor} {previous current : List FileEntry}
    {path : String} : path ∈ restrictedChanges actor previous current ↔
      lastAt (restricted actor previous) path ≠ lastAt (restricted actor current) path := by
  rw [restrictedChanges, Finset.mem_filter, List.mem_toFinset, and_iff_right_of_imp]
  intro hne
  have hmem : ∀ files : List FileEntry, lastAt (restricted actor files) path ≠ none →
      path ∈ files.map (·.path) := by
    intro files hsome
    obtain ⟨file, hfile⟩ := Option.ne_none_iff_exists'.mp hsome
    obtain ⟨hfile, hpath⟩ := lastAt_mem hfile
    exact List.mem_map.mpr ⟨file, (List.mem_filter.mp hfile).1, hpath⟩
  rw [List.map_append, List.mem_append]
  by_contra habsent
  rw [not_or] at habsent
  have hnone := not_not.mp (mt (hmem previous) habsent.1)
  have hnone' := not_not.mp (mt (hmem current) habsent.2)
  exact hne (hnone.trans hnone'.symm)

/-! ### What the diff says -/

/-- A diff that is exact for an actor. -/
structure ExactFor (actor : Actor) (previous current : List FileEntry) (d : FileDiff) : Prop where
  added : ∀ path, path ∈ d.added ↔
    lastAt (accessible actor previous) path = none ∧ lastAt (accessible actor current) path ≠ none
  deleted : ∀ path, path ∈ d.deleted ↔
    lastAt (accessible actor previous) path ≠ none ∧ lastAt (accessible actor current) path = none
  modified : ∀ path, path ∈ d.modified ↔
    lastAt (accessible actor previous) path ≠ none ∧
      lastAt (accessible actor current) path ≠ none ∧
      lastAt (accessible actor previous) path ≠ lastAt (accessible actor current) path
  sorted : ∀ paths ∈ [d.added, d.deleted, d.modified],
    paths.Pairwise fun path path' => compare path path' = .lt
  hidden : d.hidden = (restrictedChanges actor previous current).card

section Permissioned

variable {actor actor' : Actor} {previous current : List FileEntry} {path : String}

theorem exactFor_permissionedDiff (actor : Actor) (previous current : List FileEntry) :
    ExactFor actor previous current (permissionedDiff previous current actor) := by
  rw [permissionedDiff, diffInput_eq, diffInput_eq]
  refine ⟨fun path => ?_, fun path => ?_, fun path => ?_, ?_, ?_⟩
  · rw [diffFiles, mem_added, ← manifestMap_eq_lastAt, ← manifestMap_eq_lastAt,
      Option.ne_none_iff_exists']
    constructor
    · rintro ⟨_, file, hnone, hget, rfl⟩
      exact ⟨hnone, file, hget⟩
    · rintro ⟨hnone, file, hget⟩
      exact ⟨path, file, hnone, hget, rfl⟩
  · rw [diffFiles, mem_deleted, ← manifestMap_eq_lastAt, ← manifestMap_eq_lastAt,
      Option.ne_none_iff_exists']
    constructor
    · rintro ⟨_, file, hget, hnone, rfl⟩
      exact ⟨⟨file, hget⟩, hnone⟩
    · rintro ⟨⟨file, hget⟩, hnone⟩
      exact ⟨path, file, hget, hnone, rfl⟩
  · rw [diffFiles, mem_modified, ← manifestMap_eq_lastAt, ← manifestMap_eq_lastAt,
      Option.ne_none_iff_exists', Option.ne_none_iff_exists']
    constructor
    · rintro ⟨_, file, file', hget, hget', hne, rfl⟩
      exact ⟨⟨file, hget⟩, ⟨file', hget'⟩, by simpa [hget, hget'] using hne⟩
    · rintro ⟨⟨file, hget⟩, ⟨file', hget'⟩, hne⟩
      exact ⟨path, file, file', hget, hget', by simpa [hget, hget'] using hne, rfl⟩
  · exact sorted_entryDiff fun _ _ _ => rfl
  · refine (List.toFinset_card_of_nodup nodup_changedKeys).symm.trans (congrArg Finset.card ?_)
    ext path
    rw [List.mem_toFinset, mem_changedKeys, mem_restrictedChanges, manifestMap_eq_lastAt,
      manifestMap_eq_lastAt]

/-- A path that the diff names. -/
def FileDiff.Names (d : FileDiff) (path : String) : Prop :=
  path ∈ d.added ∨ path ∈ d.modified ∨ path ∈ d.deleted

theorem names_permissionedDiff : (permissionedDiff previous current actor).Names path ↔
    lastAt (accessible actor previous) path ≠ lastAt (accessible actor current) path := by
  have hexact := exactFor_permissionedDiff actor previous current
  rw [FileDiff.Names, hexact.added, hexact.modified, hexact.deleted]
  cases lastAt (accessible actor previous) path <;>
    cases lastAt (accessible actor current) path <;> simp

/-- A filtered manifest has at a path what the manifest has there, if it passes. -/
theorem lastAt_filter {files : List FileEntry} (h : (files.map (·.path)).Nodup)
    (p : FileEntry → Bool) (path : String) :
    lastAt (files.filter p) path = (fileAt files path).filter p := by
  have hfilter : ((files.filter p).map (·.path)).Nodup := h.sublist (List.filter_sublist.map _)
  ext file
  rw [← manifestMap_eq_lastAt, manifestMap_eq_some hfilter, Option.filter_eq_some_iff,
    fileAt_eq_some h, List.mem_filter]
  exact and_right_comm

/-- A filter after a weaker one. -/
theorem filter_of_imp {p q : FileEntry → Bool} (h : ∀ file, q file = true → p file = true)
    (file : Option FileEntry) : (file.filter p).filter q = file.filter q := by
  ext f
  simp only [Option.filter_eq_some_iff]
  exact ⟨fun ⟨⟨hf, _⟩, hq⟩ => ⟨hf, hq⟩, fun ⟨hf, hq⟩ => ⟨⟨hf, h f hq⟩, hq⟩⟩

/-- Two files that differ do so among what passes or among what does not. -/
theorem ne_iff_filter_ne (p : FileEntry → Bool) (file file' : Option FileEntry) :
    file ≠ file' ↔ file.filter p ≠ file'.filter p ∨
      (file.filter fun f => !p f) ≠ file'.filter fun f => !p f := by
  rw [← not_and_or, not_iff_not]
  constructor
  · rintro rfl
    exact ⟨rfl, rfl⟩
  · rintro ⟨hpass, hfail⟩
    ext f
    have hf : ∀ q : FileEntry → Bool, file.filter q = file'.filter q →
        q f = true → (file = some f ↔ file' = some f) := by
      intro q hq hqf
      have hiff : file.filter q = some f ↔ file'.filter q = some f := by rw [hq]
      simpa only [Option.filter_eq_some_iff, hqf, and_true] using hiff
    cases hp : p f with
    | true => exact hf p hpass hp
    | false => exact hf (fun f => !p f) hfail (by rw [hp, Bool.not_false])

/-- **The diff is exact for the actor.**  Every change is named or counted. -/
theorem permissionedDiff_exact (hprevious : (previous.map (·.path)).Nodup)
    (hcurrent : (current.map (·.path)).Nodup) :
    ExactFor actor previous current (permissionedDiff previous current actor) ∧
      ∀ path, fileAt previous path ≠ fileAt current path ↔
        (permissionedDiff previous current actor).Names path ∨
          path ∈ restrictedChanges actor previous current := by
  refine ⟨exactFor_permissionedDiff actor previous current, fun path => ?_⟩
  rw [names_permissionedDiff, mem_restrictedChanges]
  simp only [accessible, restricted, lastAt_filter hprevious, lastAt_filter hcurrent]
  exact ne_iff_filter_ne (fun file => canAccess actor file.policy) _ _

/-- **Who can access more is named more and counted less.** -/
theorem permissionedDiff_mono (hprevious : (previous.map (·.path)).Nodup)
    (hcurrent : (current.map (·.path)).Nodup)
    (hmore : ∀ policy, canAccess actor policy = true → canAccess actor' policy = true) :
    (∀ path, (permissionedDiff previous current actor).Names path →
      (permissionedDiff previous current actor').Names path) ∧
    (permissionedDiff previous current actor').hidden ≤
      (permissionedDiff previous current actor).hidden := by
  refine ⟨fun path => ?_, ?_⟩
  · rw [names_permissionedDiff, names_permissionedDiff]
    simp only [accessible, lastAt_filter hprevious, lastAt_filter hcurrent]
    -- What the first actor can access is a part of what the second one can.
    have hpart := filter_of_imp fun file : FileEntry => hmore file.policy
    intro hne heq
    exact hne (by rw [← hpart, heq, hpart])
  · rw [(exactFor_permissionedDiff actor' previous current).hidden,
      (exactFor_permissionedDiff actor previous current).hidden]
    refine Finset.card_le_card fun path => ?_
    rw [mem_restrictedChanges, mem_restrictedChanges]
    simp only [restricted, lastAt_filter hprevious, lastAt_filter hcurrent]
    -- And what the second one cannot is a part of what the first one cannot.
    have hless : ∀ file : FileEntry, (!canAccess actor' file.policy) = true →
        (!canAccess actor file.policy) = true := by
      intro file
      rw [Bool.not_eq_true', Bool.not_eq_true', ← Bool.not_eq_true, ← Bool.not_eq_true]
      exact mt (hmore file.policy)
    have hpart := filter_of_imp hless
    intro hne heq
    exact hne (by rw [← hpart, heq, hpart])

end Permissioned

section Sample

/-- A file that everyone can access, with the given digest. -/
def openFile (hash : String) : FileEntry where
  path := "a"
  hash := hash
  bytes := 1
  policy := publicPolicy

/-- A file for one domain. -/
def closedFile : FileEntry where
  path := "b"
  hash := "b"
  bytes := 1
  policy := ⟨["staff"], .omit⟩

def guest : Actor := ⟨"guest", ["public"]⟩

def staff : Actor := ⟨"staff", ["public", "staff"]⟩

theorem openFile_nodup : ([openFile "x"].map (·.path)).Nodup := List.nodup_singleton _

theorem closedFile_nodup : ([openFile "y", closedFile].map (·.path)).Nodup := by decide

/-- The new file is counted for the guest, and named to the staff. -/
theorem permissionedDiff_exact_guest :
    (permissionedDiff [openFile "x"] [openFile "y", closedFile] guest).hidden = 1 ∧
      "b" ∉ (permissionedDiff [openFile "x"] [openFile "y", closedFile] guest).added ∧
      "b" ∈ (permissionedDiff [openFile "x"] [openFile "y", closedFile] staff).added := by
  have hguest : ExactFor guest _ _ _ := (permissionedDiff_exact openFile_nodup closedFile_nodup).1
  have hstaff : ExactFor staff _ _ _ := (permissionedDiff_exact openFile_nodup closedFile_nodup).1
  refine ⟨hguest.hidden.trans (by decide), ?_, ?_⟩
  · rw [hguest.added]
    decide
  · rw [hstaff.added]
    decide

theorem permissionedDiff_mono_staff :
    (permissionedDiff [openFile "x"] [openFile "y", closedFile] staff).Names "a" := by
  have hguest : (permissionedDiff [openFile "x"] [openFile "y", closedFile] guest).Names "a" :=
    names_permissionedDiff.mpr (by decide)
  have hmore : ∀ policy, canAccess guest policy = true → canAccess staff policy = true := by
    intro policy h
    rw [canAccess, Bool.or_eq_true] at h ⊢
    refine h.imp (fun hadmin => absurd hadmin (by decide)) fun hdomain => ?_
    simp only [List.any_eq_true] at hdomain ⊢
    obtain ⟨domain, hmem, own, hown, heq⟩ := hdomain
    exact ⟨domain, hmem, own, List.mem_append_left ["staff"] hown, heq⟩
  obtain ⟨hnames, -⟩ := permissionedDiff_mono openFile_nodup closedFile_nodup hmore
  exact hnames "a" hguest

end Sample

end RGit.Cli
