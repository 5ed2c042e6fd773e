/-
RGit/Merge/Plan.lean

Planning a merge of three manifests.

Every path gets the three-way rule (`mergePath`); then the paths that ended
up as a file on one side of the result and as a directory on the other are
grouped into one conflict for each subtree (`group`).
-/
import Mathlib.Data.List.Sort
import RGit.Merge.Model

namespace RGit.Cli

/-! ### The three-way rule at one path -/

/-- `same_file`. -/
def sameFile (left right : Option FileEntry) : Bool :=
  match left, right with
  | none, none => true
  | some left, some right => left == right
  | _, _ => false

/-- `conflict_kind_for_entries`. -/
def conflictKindForEntries (base line incoming : Option FileEntry) : ConflictKind :=
  match base, line, incoming with
  | none, some _, some _ => .addAdd
  | some _, none, some _ | some _, some _, none => .deleteModify
  | _, _, _ => .bothModified

/-- The entries that are there, in the order of the arguments. -/
def presentEntries (primary secondary fallback : Option FileEntry) : List FileEntry :=
  [primary, secondary, fallback].filterMap id

/-- `combined_policy`. -/
def combinedPolicy (primary secondary fallback : Option FileEntry) : AccessPolicy :=
  let domains := sortedDomains ((presentEntries primary secondary fallback).map (·.policy))
  if domains.isEmpty then publicPolicy else ⟨domains, .placeholder⟩

/-- `present_file_policies`. -/
def presentFilePolicies (primary secondary fallback : Option FileEntry) : List AccessPolicy :=
  ((presentEntries primary secondary fallback).map (·.policy)).foldl pushPolicy []

section Paths

variable (base line incoming : BTreeMap String FileEntry)

/-- `all_paths`. -/
def allPaths : List String :=
  (Std.ExtTreeSet.ofList (base.keys ++ line.keys ++ incoming.keys) compare).toList

/-- One pass of the loop of `plan_merge`. -/
def mergePath (plan : MergePlan) (path : String) : MergePlan :=
  let baseEntry := base[path]?
  let lineEntry := (line)[path]?
  let incomingEntry := incoming[path]?
  let keep (entry : Option FileEntry) : MergePlan :=
    { plan with mergedFiles := plan.mergedFiles ++ entry.toList }
  if sameFile lineEntry incomingEntry then keep lineEntry
  else
    match !sameFile baseEntry lineEntry, !sameFile baseEntry incomingEntry with
    | false, true => keep incomingEntry
    | true, false => keep lineEntry
    | false, false => keep baseEntry
    | true, true =>
        { plan with conflicts := plan.conflicts ++ [{
            path := path
            kind := conflictKindForEntries baseEntry lineEntry incomingEntry
            policy := combinedPolicy lineEntry incomingEntry baseEntry
            filePolicies := presentFilePolicies lineEntry incomingEntry baseEntry }] }

end Paths

/-! ### Grouping file/directory conflicts -/

/-- `tree_conflicts::contains`. -/
def contains (root path : String) : Bool :=
  path == root ||
    (root.toList.isPrefixOf? path.toList).any fun rest => rest.head? == some '/'

/-- `path[..index]` for the matches of `/`, from the left. -/
def ancestors (path : String) : List String :=
  (path.toList.zipIdx.filter fun (c, _) => c == '/').map fun (_, index) =>
    String.ofList (path.toList.take index)

/-- The paths of a plan. -/
def MergePlan.paths (plan : MergePlan) : BTreeSet String :=
  Std.ExtTreeSet.ofList (plan.mergedFiles.map (·.path) ++ plan.conflicts.map (·.path)) compare

/-- One pass of the loop of `group` that finds the roots. -/
def addRoot (paths roots : BTreeSet String) (path : String) : BTreeSet String :=
  match (ancestors path).find? paths.contains with
  | some ancestor => roots.insert ancestor
  | none => roots

/-- The roots of the subtrees that `group` replaces. -/
def conflictRoots (paths : BTreeSet String) : BTreeSet String :=
  paths.toList.foldl (addRoot paths) ∅

/-- The policies of the files of all sources at or beneath a root. -/
def rootPolicies (sources : List (BTreeMap String FileEntry)) (root : String) :
    List AccessPolicy :=
  (((sources.flatMap fun source => source.toList.map (·.2)).filter fun file => contains root file.path).map
    (·.policy)).foldl pushPolicy []

/-- One pass of the loop of `group` over the roots. -/
def groupRoot (sources : List (BTreeMap String FileEntry)) (plan : MergePlan) (root : String) :
    MergePlan :=
  let policies := rootPolicies sources root
  { mergedFiles := plan.mergedFiles.filter fun file => !contains root file.path
    conflicts := (plan.conflicts.filter fun conflict => !contains root conflict.path) ++ [{
      path := root
      kind := .fileDirectory
      policy := ⟨sortedDomains policies, .placeholder⟩
      filePolicies := policies }] }

/-- `sort_by(|a, b| a.path.cmp(&b.path))`. -/
def sortByPath {α : Type} (path : α → String) (l : List α) : List α :=
  l.insertionSort fun a b => (compare (path a) (path b)).isLE = true

/-- `tree_conflicts::group`. -/
def group (plan : MergePlan) (sources : List (BTreeMap String FileEntry)) : MergePlan :=
  let grouped := (conflictRoots plan.paths).toList.foldl (groupRoot sources) plan
  { grouped with conflicts := sortByPath (·.path) grouped.conflicts }

/-- `plan_merge`. -/
def planMerge (base line incoming : List FileEntry) : MergePlan :=
  let base := manifestMap base
  let line := manifestMap line
  let incoming := manifestMap incoming
  let plan := (allPaths base line incoming).foldl (mergePath base line incoming) ⟨[], []⟩
  group { plan with mergedFiles := sortByPath (·.path) plan.mergedFiles } [base, line, incoming]

end RGit.Cli
