/-
RGit/Graph/Ancestors.lean

The queries of the graph index.

`ancestors` is a search along the parents that the index holds, and these are
the parents that the nodes name; so `is_reachable` says whether a path of
parents leads from one node to another (`build_isReachable`).
-/
import RGit.Graph.Order
import RGit.Lib.Search
import Mathlib.Algebra.Order.BigOperators.Group.List
import Mathlib.Algebra.Order.Group.Nat

namespace RGit

open Relation

section Ancestors

variable {K : Type} [Ord K] [Std.TransOrd K] [Std.LawfulEqOrd K]

namespace GraphIndex

/-- The parents of a node, as `ancestors` pushes them. -/
def pushed (g : GraphIndex K) (n : K) : List K :=
  ((g.nodes[n]?.map (·.parents)).getD []).reverse

omit [Std.LawfulEqOrd K] in
theorem ancestorLoop_eq_searchLoop (g : GraphIndex K) (fuel : Nat) (pending : List K)
    (seen : BTreeSet K) :
    g.ancestorLoop fuel pending seen = searchLoop g.pushed fuel pending seen := by
  induction fuel generalizing pending seen with
  | zero => cases pending <;> rfl
  | succ fuel ih =>
      cases pending with
      | nil => rfl
      | cons parent pending =>
          rw [ancestorLoop, searchLoop]
          split
          · exact ih _ _
          · exact ih _ _

theorem nodup_keys (g : GraphIndex K) : g.nodes.keys.Nodup :=
  g.nodes.distinct_keys.imp compare_ne_eq_iff.mp

theorem mem_keys_of_pushed {g : GraphIndex K} {n : K} (h : g.pushed n ≠ []) : n ∈ g.nodes.keys := by
  rw [Std.ExtTreeMap.mem_keys]
  by_contra hn
  rw [pushed, Std.ExtTreeMap.getElem?_eq_none hn] at h
  exact h rfl

/-- The passes that `ancestors` allows for are enough. -/
theorem searchWork_pushed_le (g : GraphIndex K) (pending : List K) :
    searchWork g.pushed g.nodes.keys pending ∅ ≤
      (g.nodes.toList.map fun (_, n) => n.parents.length + 1).sum + pending.length := by
  have hweight : weightOutside (fun k => (g.pushed k).length) (g.nodes.keys.map fun k => (k, k))
      (∅ : BTreeSet K).contains = (g.nodes.toList.map fun e => e.2.parents.length).sum := by
    rw [weightOutside, ← Std.ExtTreeMap.map_fst_toList_eq_keys]
    have hall : ∀ p ∈ ((g.nodes.toList.map (·.1)).map fun k => (k, k)),
        (!(∅ : BTreeSet K).contains p.1) = true := by simp
    rw [List.filter_eq_self.mpr hall, List.map_map, List.map_map]
    refine congrArg List.sum (List.map_congr_left fun e he => ?_)
    have hget := BTreeMap.mem_toList_iff_get.mp he
    simp [pushed, hget]
  have hle : (g.nodes.toList.map fun e => e.2.parents.length).sum ≤
      (g.nodes.toList.map fun (_, n) => n.parents.length + 1).sum :=
    List.sum_le_sum fun _ _ => Nat.le_succ _
  rw [searchWork, hweight]
  omega

/-- What `ancestors` collects. -/
theorem mem_ancestors {g : GraphIndex K} {n : K} {indexed : IndexedNode K}
    (hn : g.nodes[n]? = some indexed) :
    ∃ all, g.ancestors n = .ok all ∧ ∀ k, k ∈ all ↔ TransGen (NextOf g.pushed) n k := by
  refine ⟨_, by rw [ancestors, hn], fun k => ?_⟩
  have hpushed : g.pushed n = indexed.parents.reverse := by simp [pushed, hn]
  rw [ancestorLoop_eq_searchLoop, mem_searchLoop g.nodup_keys (fun _ => mem_keys_of_pushed)
    (fun k hk => by simp at hk)
    ((g.searchWork_pushed_le _).trans (by rw [List.length_reverse])), TransGen.head'_iff]
  simp only [Std.ExtTreeSet.not_mem_empty, false_or, NextOf, hpushed]

end GraphIndex

/-! ### An index that was built -/

variable [DecidableEq K] {nodes : List (GraphNode K)} {g : GraphIndex K}

/-- The index holds the nodes and the parents that they name. -/
theorem build_get (h : GraphIndex.build nodes = .ok g) {n : K} :
    ((∃ indexed, g.nodes[n]? = some indexed) ↔ n ∈ nodes.map (·.id)) ∧
      ∀ p, NextOf g.pushed n p ↔ NamesParent nodes p n := by
  obtain ⟨parents, s, hparents, -, -, -, rfl⟩ := build_eq_ok.mp h
  constructor
  · rw [← mem_parentsByNode hparents, BTreeMap.mem_iff_get]
    simp
  · intro p
    rw [← parentOf_eq_namesParent hparents, NextOf, ParentOf, GraphIndex.pushed,
      Std.ExtTreeMap.getD_eq_getD_getElem?]
    cases hget : parents[n]? <;> simp [hget]

/-- **Reachability in the index** is a path of parents. -/
theorem build_isReachable (h : GraphIndex.build nodes = .ok g) {a d : K}
    (ha : a ∈ nodes.map (·.id)) (hd : d ∈ nodes.map (·.id)) :
    ∃ answer, g.isReachable a d = .ok answer ∧
      (answer = true ↔ a = d ∨ TransGen (NamesParent nodes) a d) := by
  obtain ⟨indexed, hindexed⟩ := (build_get h).1.mpr hd
  have hcontains : g.nodes.contains a = true :=
    BTreeMap.contains_iff_get.mpr ((build_get h).1.mpr ha)
  obtain ⟨all, hall, hmem⟩ := GraphIndex.mem_ancestors hindexed
  have hswap : ∀ k, TransGen (NextOf g.pushed) d k ↔ TransGen (NamesParent nodes) k d := by
    intro k
    rw [← transGen_swap]
    have hrelation : Function.swap (NextOf g.pushed) = NamesParent nodes := by
      funext p n
      exact propext ((build_get h).2 p)
    rw [hrelation]
  rw [GraphIndex.isReachable, hcontains, Bool.not_true, if_neg Bool.false_ne_true]
  by_cases heq : a = d
  · rw [if_pos heq]
    exact ⟨true, rfl, by simp [heq]⟩
  · rw [if_neg heq, hall, Except.ok_bind]
    refine ⟨all.contains a, rfl, ?_⟩
    rw [← Std.ExtTreeSet.mem_iff_contains, hmem, hswap]
    simp [heq]

end Ancestors

end RGit
