/-
RGit/Graph/Reachability.lean

The graph index of `rgit-graph`: a directed acyclic graph with generations
and a topological order, built by removing one ready node after another.
-/
import Mathlib.Algebra.GroupWithZero.Nat
import RGit.Lib.Result
import RGit.Lib.Maps
import Mathlib.Data.List.MinMax

namespace RGit

structure GraphNode (K : Type) where
  id : K
  parents : List K

/-- `next_generation(parent_generations)`. -/
def nextGeneration (parentGenerations : List UInt64) : Option UInt64 :=
  match parentGenerations.max? with
  | none => some 0
  | some generation =>
      if generation.toNat + 1 < 2 ^ 64 then some (generation + 1) else none

inductive GraphError (K : Type) where
  | duplicateNode (node : K)
  | missingParent (node parent : K)
  | cycle (cycleNodes : List K)
  | generationOverflow (node : K)
  | unknownNode (node : K)

structure IndexedNode (K : Type) where
  parents : List K
  generation : UInt64

section Index

variable {K : Type} [Ord K] [Std.TransOrd K]

/-- A validated DAG with deterministic generations and reachability queries. -/
structure GraphIndex (K : Type) [Ord K] where
  nodes : BTreeMap K (IndexedNode K)
  topologicalOrder : List K

/-- The first loop of `build`: the parents of every node, each once. -/
def parentsByNode (nodes : List (GraphNode K)) :
    Except (GraphError K) (BTreeMap K (BTreeSet K)) :=
  nodes.foldlM (fun m node =>
    if m.contains node.id then .error (.duplicateNode node.id)
    else .ok (m.insert node.id (Std.ExtTreeSet.ofList node.parents))) ∅

/-- The second loop: every parent is a node. -/
def checkParents (parents : BTreeMap K (BTreeSet K)) : Except (GraphError K) Unit :=
  forM parents.toList fun (node, ps) =>
    forM ps.toList fun parent =>
      if parents.contains parent then .ok () else .error (.missingParent node parent)

/-- The children of every node. -/
def childrenByNode (parents : BTreeMap K (BTreeSet K)) : BTreeMap K (BTreeSet K) :=
  parents.toList.foldl (fun children (node, ps) =>
    ps.toList.foldl (fun children parent => children.modify parent (·.insert node)) children)
    (parents.map fun _ _ => ∅)

/-- What the main loop of `build` carries. -/
structure BuildState (K : Type) [Ord K] where
  remainingParents : BTreeMap K Nat
  ready : BTreeSet K
  generations : BTreeMap K UInt64
  topologicalOrder : List K

/-- One child of the node that was taken: one parent less. -/
def BuildState.releaseChild (s : BuildState K) (child : K) : BuildState K :=
  let count := s.remainingParents.getD child 0 - 1
  { s with
    remainingParents := s.remainingParents.insert child count
    ready := if count = 0 then s.ready.insert child else s.ready }

/-- One pass of `while let Some(node) = ready.pop_first()`. -/
def buildStep (parents children : BTreeMap K (BTreeSet K)) (node : K) (s : BuildState K) :
    Except (GraphError K) (BuildState K) :=
  match nextGeneration
      ((parents.getD node ∅).toList.map fun parent => s.generations.getD parent 0) with
  | none => .error (.generationOverflow node)
  | some generation =>
      .ok ((children.getD node ∅).toList.foldl BuildState.releaseChild
        { s with
          ready := s.ready.erase node
          generations := s.generations.insert node generation
          topologicalOrder := s.topologicalOrder ++ [node] })

/-- The main loop.  Every node becomes ready at most once, so as many passes
as there are nodes are enough. -/
def buildLoop (parents children : BTreeMap K (BTreeSet K)) :
    Nat → BuildState K → Except (GraphError K) (BuildState K)
  | 0, s => .ok s
  | fuel + 1, s =>
      match s.ready.toList.head? with
      | none => .ok s
      | some node => do
          let s ← buildStep parents children node s
          buildLoop parents children fuel s

/-- The traversal in `cycle_members`: can `node` be reached again?  Every
blocked node is expanded once. -/
def returnsTo (parents : BTreeMap K (BTreeSet K)) (blocked : BTreeSet K) (node : K) :
    Nat → List K → BTreeSet K → Bool
  | _, [], _ => false
  | 0, _ :: _, _ => false
  | fuel + 1, candidate :: pending, visited =>
      if compare candidate node = .eq then true
      else if visited.contains candidate then
        returnsTo parents blocked node fuel pending visited
      else
        returnsTo parents blocked node fuel
          (((parents.getD candidate ∅).toList.filter blocked.contains).reverse ++ pending)
          (visited.insert candidate)

/-- `cycle_members(parents_by_node, blocked_nodes)`. -/
def cycleMembers (parents : BTreeMap K (BTreeSet K)) (blocked : BTreeSet K) : List K :=
  let fuel := (parents.toList.map fun (_, ps) => ps.size + 1).sum
  blocked.toList.filter fun node =>
    returnsTo parents blocked node (fuel + (parents.getD node ∅).size)
      ((parents.getD node ∅).toList.filter blocked.contains).reverse ∅

namespace GraphIndex

/-- `GraphIndex::build`. -/
def build (nodes : List (GraphNode K)) : Except (GraphError K) (GraphIndex K) := do
  let parents ← parentsByNode nodes
  checkParents parents
  let remaining := parents.map fun _ ps => ps.size
  let ready := Std.ExtTreeSet.ofList
    ((remaining.toList.filter fun (_, count) => count == 0).map (·.1))
  let s ← buildLoop parents (childrenByNode parents) parents.size ⟨remaining, ready, ∅, []⟩
  if s.topologicalOrder.length ≠ parents.size then
    .error (.cycle (cycleMembers parents (Std.ExtTreeSet.ofList
      ((s.remainingParents.toList.filter fun (_, count) => count != 0).map (·.1)))))
  else
    .ok {
      nodes := parents.map fun node ps => ⟨ps.toList, s.generations.getD node 0⟩
      topologicalOrder := s.topologicalOrder }

/-- `GraphIndex::generation`. -/
def generation (g : GraphIndex K) (node : K) : Except (GraphError K) UInt64 :=
  match g.nodes[node]? with
  | some indexed => .ok indexed.generation
  | none => .error (.unknownNode node)

/-- The loop of `ancestors`; every node is expanded once. -/
def ancestorLoop (g : GraphIndex K) : Nat → List K → BTreeSet K → BTreeSet K
  | _, [], ancestors => ancestors
  | 0, _ :: _, ancestors => ancestors
  | fuel + 1, parent :: pending, ancestors =>
      if ancestors.contains parent then ancestorLoop g fuel pending ancestors
      else
        ancestorLoop g fuel
          (((g.nodes[parent]?.map (·.parents)).getD []).reverse ++ pending)
          (ancestors.insert parent)

/-- `GraphIndex::ancestors`. -/
def ancestors (g : GraphIndex K) (node : K) : Except (GraphError K) (BTreeSet K) :=
  match g.nodes[node]? with
  | none => .error (.unknownNode node)
  | some indexed =>
      let fuel := (g.nodes.toList.map fun (_, n) => n.parents.length + 1).sum
      .ok (ancestorLoop g (fuel + indexed.parents.length) indexed.parents.reverse ∅)

/-- `GraphIndex::is_reachable`. -/
def isReachable [DecidableEq K] (g : GraphIndex K) (ancestor descendant : K) :
    Except (GraphError K) Bool :=
  if !g.nodes.contains ancestor then .error (.unknownNode ancestor)
  else if ancestor = descendant then .ok true
  else do
    let all ← g.ancestors descendant
    .ok (all.contains ancestor)

end GraphIndex

end Index

end RGit
