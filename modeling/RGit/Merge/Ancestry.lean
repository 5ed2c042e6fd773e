/-
RGit/Merge/Ancestry.lean

The graph of the snapshots of a repository, and the base of a merge in it.

Every loop takes an identifier from a stack and opens it at most once, so
the passes are bounded by the parents that the snapshots name.
-/
import Mathlib.Algebra.GroupWithZero.Nat
import RGit.Merge.Records

namespace RGit.Cli

/-- `ancestry::parents`. -/
def parents (snapshot : Snapshot) : List String :=
  snapshot.parentSnapshot.toList ++ snapshot.mergeParents

/-- The parents that the snapshots of a map name, with one pass for each snapshot. -/
def passes (snapshots : BTreeMap String Snapshot) : Nat :=
  (snapshots.toList.map fun (_, snapshot) => (parents snapshot).length + 1).sum

/-! ### Checking the graph -/

/-- The colours 1 and 2 of `validate_graph`. -/
inductive Color where
  | entered
  | left
  deriving DecidableEq

section Graph

variable (snapshots : BTreeMap String Snapshot)

/-- `while let Some((id, leaving)) = stack.pop()`; the top of the stack is the
head of the list. -/
def visitLoop : Nat → List (String × Bool) → BTreeMap String Color →
    Except CliError (BTreeMap String Color)
  | _, [], colors => .ok colors
  | 0, _ :: _, colors => .ok colors
  | fuel + 1, (id, leaving) :: stack, colors =>
      if leaving then visitLoop fuel stack (colors.insert id .left)
      else
        match colors[id]? with
        | some .left => visitLoop fuel stack colors
        | some .entered => .error (.failure "snapshot ancestry contains a cycle")
        | none => do
            let snapshot ← Except.ofOption snapshots[id]? (.failure "missing snapshot parent")
            if ¬ (parents snapshot).Nodup then .error (.failure "snapshot has duplicate parents")
            else
              visitLoop fuel
                ((parents snapshot).reverse.map (fun parent => (parent, false)) ++
                  (id, true) :: stack)
                (colors.insert id .entered)

/-- `ancestry::validate_graph`. -/
def validateGraph : Except CliError Unit := do
  let _ ← snapshots.keys.foldlM
    (fun colors root => visitLoop snapshots (passes snapshots + 1) [(root, false)] colors) ∅
  pure ()

/-- The loop of `ancestry::ancestors`. -/
def ancestorsLoop : Nat → List String → BTreeSet String → BTreeSet String
  | _, [], visited => visited
  | 0, _ :: _, visited => visited
  | fuel + 1, id :: pending, visited =>
      if visited.contains id then ancestorsLoop fuel pending visited
      else
        ancestorsLoop fuel (((snapshots[id]?.map parents).getD []).reverse ++ pending)
          (visited.insert id)

/-- `ancestry::ancestors`: an identifier and everything it descends from. -/
def ancestorsOf (root : String) : BTreeSet String :=
  ancestorsLoop snapshots (passes snapshots + 1) [root] ∅

end Graph

/-! ### The base of a merge -/

section Base

variable (repo : Repo)

/-- The loop of `merge_base` that reads the graph. -/
def loadGraph : Nat → List String → BTreeMap String Snapshot →
    Except CliError (BTreeMap String Snapshot)
  | _, [], graph => .ok graph
  | 0, _ :: _, graph => .ok graph
  | fuel + 1, id :: pending, graph =>
      if graph.contains id then loadGraph fuel pending graph
      else do
        let snapshot ← readSnapshot repo id
        loadGraph fuel ((parents snapshot).reverse ++ pending) (graph.insert id snapshot)

/-- The common ancestors that no other common ancestor has as a parent. -/
def bestCommon (graph : BTreeMap String Snapshot) (line incoming : String) : BTreeSet String :=
  let right := ancestorsOf graph incoming
  let common := (ancestorsOf graph line).filter right.contains
  common.toList.foldl (fun best id =>
    ((graph[id]?.map parents).getD []).foldl (fun best parent => best.erase parent) best) common

/-- `ancestry::merge_base`. -/
def mergeBase (line : Option String) (incoming : Snapshot) (legacyBase : Option String) :
    Except CliError (Option Snapshot) :=
  match line with
  | none => .ok none
  | some line => do
      let graph ← loadGraph repo (passes repo.snapshots + 2) [incoming.id, line] ∅
      validateGraph graph
      match (bestCommon graph line incoming.id).toList with
      | _ :: _ :: _ =>
          .error (.failure
            "multiple merge bases require recursive merging; integration was not published")
      | [id] => .ok graph[id]?
      -- older snapshots omitted the edge to the base of the first one
      | [] => readOptionalSnapshot repo legacyBase

end Base

end RGit.Cli
