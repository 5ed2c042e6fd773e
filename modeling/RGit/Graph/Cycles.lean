/-
RGit/Graph/Cycles.lean

The cycles that `build` reports.

When the main loop stops early, the nodes that were not taken wait for a
parent.  Among them are the nodes that only descend from a cycle;
`cycle_members` keeps a waiting node when a search upwards through waiting
nodes comes back to it, which is when it lies on a cycle (`build_cycle`).
-/
import RGit.Graph.Order
import RGit.Lib.Search
import Mathlib.Algebra.Order.BigOperators.Group.List
import Mathlib.Algebra.Order.Group.Nat

namespace RGit

open Relation

section Cycles

variable {K : Type} [Ord K] [Std.TransOrd K] [Std.LawfulEqOrd K] [DecidableEq K]
variable {parents : BTreeMap K (BTreeSet K)} {blocked : BTreeSet K}

/-! ### The search of `cycle_members` -/

/-- The blocked parents of a node, as they are pushed. -/
def blockedParents (parents : BTreeMap K (BTreeSet K)) (blocked : BTreeSet K) (n : K) : List K :=
  ((parents.getD n ∅).toList.filter blocked.contains).reverse

omit [DecidableEq K] in
theorem mem_blockedParents {p n : K} :
    p ∈ blockedParents parents blocked n ↔ ParentOf parents p n ∧ p ∈ blocked := by
  rw [blockedParents, List.mem_reverse, List.mem_filter, Std.ExtTreeSet.mem_toList,
    ← Std.ExtTreeSet.mem_iff_contains]
  rfl

omit [DecidableEq K] in
/-- The search stops at the node, but sees it exactly when it stops. -/
theorem returnsTo_iff {node : K} {fuel : Nat} {pending : List K} {seen : BTreeSet K}
    (hnode : node ∉ seen) :
    returnsTo parents blocked node fuel pending seen = true ↔
      node ∈ searchLoop (blockedParents parents blocked) fuel pending seen := by
  induction fuel generalizing pending seen with
  | zero => cases pending <;> simp [returnsTo, searchLoop, hnode]
  | succ fuel ih =>
      cases pending with
      | nil => simp [returnsTo, searchLoop, hnode]
      | cons c pending =>
          rw [returnsTo, searchLoop]
          by_cases hc : c = node
          · subst hc
            have hnew : ¬ seen.contains c = true := fun h =>
              hnode (Std.ExtTreeSet.mem_iff_contains.mpr h)
            rw [if_pos Std.ReflCmp.compare_self, if_neg hnew]
            refine iff_of_true rfl (mem_searchLoop_of_seen ?_)
            exact BTreeSet.mem_insert_iff.mpr (.inl rfl)
          · rw [if_neg (compare_ne_eq_iff.mpr hc)]
            split
            · exact ih hnode
            · refine ih fun hmem => ?_
              rcases BTreeSet.mem_insert_iff.mp hmem with h | h
              · exact hc h
              · exact hnode h

omit [Std.LawfulEqOrd K] [DecidableEq K] in
theorem length_blockedParents_le (parents : BTreeMap K (BTreeSet K)) (blocked : BTreeSet K)
    (n : K) :
    (blockedParents parents blocked n).length ≤ (parents.getD n ∅).size := by
  rw [blockedParents, List.length_reverse, ← Std.ExtTreeSet.length_toList]
  exact List.length_filter_le _ _

omit [DecidableEq K] in
/-- The passes of one search are enough. -/
theorem searchWork_le (node : K) :
    searchWork (blockedParents parents blocked) parents.keys
        (blockedParents parents blocked node) ∅ ≤
      (parents.toList.map fun (_, ps) => ps.size + 1).sum + (parents.getD node ∅).size := by
  have hall : weightOutside (fun k => (blockedParents parents blocked k).length)
      (parents.keys.map fun k => (k, k)) (∅ : BTreeSet K).contains ≤
        (parents.toList.map fun (_, ps) => ps.size + 1).sum := by
    rw [weightOutside, List.filter_eq_self.mpr (by simp), ← Std.ExtTreeMap.map_fst_toList_eq_keys,
      List.map_map, List.map_map]
    refine List.sum_le_sum fun e he => ?_
    obtain ⟨k, ps⟩ := e
    have hget := BTreeMap.mem_toList_iff_get.mp he
    have hle := length_blockedParents_le parents blocked k
    rw [Std.ExtTreeMap.getD_eq_getD_getElem?, hget, Option.getD_some] at hle
    exact hle.trans (Nat.le_succ _)
  have hstack := length_blockedParents_le parents blocked node
  rw [searchWork]
  omega

omit [DecidableEq K] in
/-- **A node is kept** exactly when it is blocked and lies on a cycle of
blocked nodes. -/
theorem mem_cycleMembers {n : K} :
    n ∈ cycleMembers parents blocked ↔
      n ∈ blocked ∧ TransGen (fun a b => ParentOf parents b a ∧ b ∈ blocked) n n := by
  have hnext : NextOf (blockedParents parents blocked) =
      fun a b => ParentOf parents b a ∧ b ∈ blocked := by
    funext a b
    exact propext mem_blockedParents
  have hnodup : parents.keys.Nodup := parents.distinct_keys.imp compare_ne_eq_iff.mp
  have hedges : ∀ k, blockedParents parents blocked k ≠ [] → k ∈ parents.keys := by
    intro k hk
    obtain ⟨p, hp⟩ := List.exists_mem_of_ne_nil _ hk
    exact Std.ExtTreeMap.mem_keys.mpr (mem_of_parentOf (mem_blockedParents.mp hp).1)
  rw [cycleMembers, List.mem_filter, Std.ExtTreeSet.mem_toList]
  refine and_congr_right fun _ => ?_
  have hclosed : SeenClosed (blockedParents parents blocked) (blockedParents parents blocked n)
      ∅ := fun k hk => by simp at hk
  refine (returnsTo_iff (by simp)).trans ?_
  refine (mem_searchLoop hnodup hedges hclosed (searchWork_le n)).trans ?_
  rw [hnext, TransGen.head'_iff]
  simp [mem_blockedParents]

/-! ### The nodes that are left -/

omit [DecidableEq K] in
theorem mem_releaseChildren {cs : List K} {s : BuildState K} {n : K}
    (h : n ∈ (cs.foldl BuildState.releaseChild s).remainingParents) :
    n ∈ s.remainingParents ∨ n ∈ cs := by
  induction cs generalizing s with
  | nil => exact .inl h
  | cons c cs ih =>
      rcases ih h with h | h
      · rw [BuildState.releaseChild, Std.ExtTreeMap.mem_insert,
          Std.LawfulEqCmp.compare_eq_iff_eq] at h
        rcases h with rfl | h
        · exact .inr List.mem_cons_self
        · exact .inl h
      · exact .inr (List.mem_cons_of_mem _ h)

/-- Only nodes are counted. -/
theorem Sorted.counted {fuel : Nat} {s t : BuildState K} (h : Sorted parents s)
    (hcounted : ∀ n ∈ s.remainingParents, n ∈ parents)
    (hloop : buildLoop parents (childrenByNode parents) fuel s = .ok t) :
    ∀ n ∈ t.remainingParents, n ∈ parents := by
  have hkept : Sorted parents t ∧ ∀ n ∈ t.remainingParents, n ∈ parents := by
    refine buildLoop_preserves
      (P := fun s => Sorted parents s ∧ ∀ n ∈ s.remainingParents, n ∈ parents)
      (fun ⟨hsorted, hcounted⟩ hhead hstep => ?_) ⟨h, hcounted⟩ hloop
    have hnode := Std.ExtTreeSet.mem_toList.mp (List.mem_of_mem_head? hhead)
    refine ⟨(hsorted.step hnode hstep).1, fun n hn => ?_⟩
    rw [buildStep] at hstep
    split at hstep
    · cases hstep
    · cases hstep
      rcases mem_releaseChildren hn with hn | hn
      · exact hcounted n hn
      · have hchild := Std.ExtTreeSet.mem_toList.mp hn
        rw [mem_childrenByNode ((hsorted.ready _).mp hnode).1] at hchild
        exact mem_of_parentOf hchild
  exact hkept.2

/-- When nothing is ready, the nodes with parents to come are those that were
not taken. -/
theorem Sorted.mem_blocked {s : BuildState K} (h : Sorted parents s)
    (hcounted : ∀ n ∈ s.remainingParents, n ∈ parents) (hready : s.ready.toList.head? = none)
    {n : K} :
    n ∈ (Std.ExtTreeSet.ofList ((s.remainingParents.toList.filter
        fun (_, count) => count != 0).map (·.1)) : BTreeSet K) ↔
      n ∈ parents ∧ n ∉ s.topologicalOrder := by
  have hcount : ∀ {n}, n ∈ parents → (s.remainingParents.getD n 0 = 0 ↔
      ∀ p, ParentOf parents p n → p ∈ s.topologicalOrder) := by
    intro n hn
    rw [h.remaining n hn, List.length_eq_zero_iff, missingParents_eq_nil]
  simp only [Std.ExtTreeSet.mem_ofList, List.contains_iff_mem, List.mem_map, List.mem_filter,
    Prod.exists, BTreeMap.mem_toList_iff_get, bne_iff_ne, exists_eq_right, exists_and_right]
  constructor
  · rintro ⟨count, hget, hne⟩
    have hn := hcounted n (BTreeMap.mem_iff_get.mpr ⟨count, hget⟩)
    refine ⟨hn, fun htaken => hne ?_⟩
    -- the parents of a taken node were taken before it
    obtain ⟨above, below, hsplit⟩ := List.append_of_mem htaken
    have hzero := (hcount hn).mpr fun p hp => by
      rw [hsplit]
      exact List.mem_append_left _ (h.after above n below hsplit p hp)
    rwa [Std.ExtTreeMap.getD_eq_getD_getElem?, hget, Option.getD_some] at hzero
  · rintro ⟨hn, hopen⟩
    have hwaits : s.remainingParents.getD n 0 ≠ 0 := by
      intro hzero
      have hmem := Std.ExtTreeSet.mem_toList.mpr
        ((h.ready n).mpr ⟨hn, hopen, (hcount hn).mp hzero⟩)
      rw [List.head?_eq_none_iff.mp hready] at hmem
      cases hmem
    rw [Std.ExtTreeMap.getD_eq_getD_getElem?] at hwaits
    cases hget : s.remainingParents[n]? with
    | none =>
        rw [hget] at hwaits
        exact absurd rfl hwaits
    | some count =>
        rw [hget] at hwaits
        exact ⟨count, rfl, hwaits⟩

/-- A cycle is made of nodes that were not taken. -/
theorem Sorted.cycle_blocked {s : BuildState K} (h : Sorted parents s) {blocked : BTreeSet K}
    (hblocked : ∀ n, n ∈ blocked ↔ n ∈ parents ∧ n ∉ s.topologicalOrder) {n : K} :
    TransGen (ParentOf parents) n n ↔
      n ∈ blocked ∧ TransGen (fun a b => ParentOf parents b a ∧ b ∈ blocked) n n := by
  have honCycle : ∀ {m}, TransGen (ParentOf parents) m m → m ∈ blocked := by
    intro m hcycle
    obtain ⟨p, -, hlast⟩ := TransGen.tail'_iff.mp hcycle
    exact (hblocked m).mpr ⟨mem_of_parentOf hlast, fun hm => h.acyclic hm hcycle⟩
  constructor
  · intro hcycle
    -- every node above `n` that `n` is above lies on a cycle too
    have hlift : ∀ {m}, TransGen (ParentOf parents) m n → ReflTransGen (ParentOf parents) n m →
        TransGen (fun a b => ParentOf parents b a ∧ b ∈ blocked) n m := by
      intro m hpath
      induction hpath using TransGen.head_induction_on with
      | single hp =>
          intro hback
          exact .single ⟨hp, honCycle (.head' hp hback)⟩
      | head hp hrest ih =>
          intro hback
          exact .tail (ih (hback.tail hp)) ⟨hp, honCycle ((TransGen.head hp hrest).trans_left hback)⟩
    exact ⟨honCycle hcycle, hlift hcycle .refl⟩
  · rintro ⟨-, hcycle⟩
    have hdown : TransGen (Function.swap (ParentOf parents)) n n :=
      hcycle.lift id fun a b hab => hab.1
    exact transGen_swap.mp hdown

/-- **Which nodes are reported.**  When nodes with different identifiers and
known parents have a cycle, `build` fails with the nodes that lie on one, in
increasing order. -/
theorem build_cycle (nodes : List (GraphNode K)) (hlength : nodes.length < 2 ^ 64)
    (hnodup : (nodes.map (·.id)).Nodup)
    (hpresent : ∀ node ∈ nodes, ∀ p ∈ node.parents, p ∈ nodes.map (·.id))
    (hcycle : ∃ n, TransGen (NamesParent nodes) n n) :
    ∃ cycleNodes, GraphIndex.build nodes = .error (.cycle cycleNodes) ∧
      (∀ n, n ∈ cycleNodes ↔ TransGen (NamesParent nodes) n n) ∧
      cycleNodes.Pairwise fun a b => compare a b = .lt := by
  obtain ⟨parents, hparents⟩ := parentsByNode_isOk.mpr hnodup
  have hrelation := parentOf_eq_namesParent hparents
  have hcheck : ∀ p n, ParentOf parents p n → p ∈ parents := by
    intro p n hp
    rw [hrelation] at hp
    obtain ⟨node, hnode, -, hp⟩ := hp
    exact (mem_parentsByNode hparents).mpr (hpresent node hnode p hp)
  have hsize : parents.size = nodes.length := by
    rw [← Std.ExtTreeMap.length_keys, (perm_keys_parentsByNode hparents).length_eq,
      List.length_map]
  obtain ⟨s, hloop, hstop⟩ := Indexed.initial.total (hsize ▸ hlength) parents.size
  have hsorted := Sorted.initial.loop hloop
  have hstuck : s.topologicalOrder.length ≠ parents.size := by
    intro hcomplete
    obtain ⟨n, hcycle⟩ := hcycle
    exact build_acyclic (build_eq_ok.mpr ⟨parents, s, hparents, hcheck, hloop, hcomplete, rfl⟩) n
      hcycle
  have hready : s.ready.toList.head? = none := by
    rcases hstop with hready | hall
    · exact hready
    · exact absurd (by simpa using hall) hstuck
  have hcounted := Sorted.initial.counted (fun n hn => Std.ExtTreeMap.mem_map.mp hn) hloop
  refine ⟨cycleMembers parents (Std.ExtTreeSet.ofList
    ((s.remainingParents.toList.filter fun (_, count) => count != 0).map (·.1))), ?_,
    fun n => ?_, ?_⟩
  · rw [GraphIndex.build, hparents, Except.ok_bind, checkParents_eq_ok.mpr hcheck, Except.ok_bind]
    dsimp only
    rw [hloop, Except.ok_bind, if_pos hstuck]
  · rw [mem_cycleMembers, ← hrelation]
    exact (hsorted.cycle_blocked fun n => hsorted.mem_blocked hcounted hready).symm
  · exact Std.ExtTreeSet.ordered_toList.filter _

/-- A cycle of two nodes, a node that descends from it, and a node that is
its own parent. -/
theorem build_cycle_pair :
    ∃ cycleNodes, GraphIndex.build [⟨1, [2]⟩, ⟨2, [1]⟩, ⟨3, [2]⟩, (⟨4, [4]⟩ : GraphNode Nat)] =
        .error (.cycle cycleNodes) ∧ 1 ∈ cycleNodes ∧ 4 ∈ cycleNodes := by
  have hself : NamesParent [⟨1, [2]⟩, ⟨2, [1]⟩, ⟨3, [2]⟩, (⟨4, [4]⟩ : GraphNode Nat)] 4 4 := by
    simp [NamesParent]
  have hup : NamesParent [⟨1, [2]⟩, ⟨2, [1]⟩, ⟨3, [2]⟩, (⟨4, [4]⟩ : GraphNode Nat)] 2 1 := by
    simp [NamesParent]
  have hdown : NamesParent [⟨1, [2]⟩, ⟨2, [1]⟩, ⟨3, [2]⟩, (⟨4, [4]⟩ : GraphNode Nat)] 1 2 := by
    simp [NamesParent]
  obtain ⟨cycleNodes, hbuild, hmem, -⟩ := build_cycle
    [⟨1, [2]⟩, ⟨2, [1]⟩, ⟨3, [2]⟩, (⟨4, [4]⟩ : GraphNode Nat)] (by decide) (by decide) (by decide)
    ⟨4, .single hself⟩
  exact ⟨cycleNodes, hbuild, (hmem 1).mpr (.head hdown (.single hup)), (hmem 4).mpr (.single hself)⟩

end Cycles

end RGit
