/-
RGit/Graph/Build.lean

Building the graph index sorts the nodes.

`build` takes one ready node after another.  `Sorted` is what the main loop
keeps: the order so far puts every node after its parents, every counter
holds the number of parents still to come, and the ready nodes are exactly
the ones with no such parent.  An index is only built when every node was
taken, so its parent relation has no cycle (`build_acyclic`).
-/
import RGit.Graph.Reachability
import RGit.Lib.Loops
import Mathlib.Data.List.Perm.Subperm
import Mathlib.Logic.Relation

namespace RGit

section Build

variable {K : Type} [Ord K] [Std.TransOrd K] [Std.LawfulEqOrd K] [DecidableEq K]
variable {parents children : BTreeMap K (BTreeSet K)}

/-- `p` is a parent of the node `n`. -/
def ParentOf (parents : BTreeMap K (BTreeSet K)) (p n : K) : Prop := p ∈ parents.getD n ∅

/-- The parents of `n` that are not in the order yet. -/
def missingParents (parents : BTreeMap K (BTreeSet K)) (order : List K) (n : K) : List K :=
  (parents.getD n ∅).toList.filter fun p => p ∉ order

omit [Std.LawfulEqOrd K] [DecidableEq K] in
theorem mem_of_parentOf {p n : K} (h : ParentOf parents p n) : n ∈ parents := by
  by_contra hn
  rw [ParentOf, Std.ExtTreeMap.getD_eq_fallback hn] at h
  simp at h

theorem missingParents_eq_nil {order : List K} {n : K} :
    missingParents parents order n = [] ↔ ∀ p, ParentOf parents p n → p ∈ order := by
  simp only [missingParents, List.filter_eq_nil_iff, Std.ExtTreeSet.mem_toList, decide_eq_true_eq,
    not_not]
  rfl

/-- Taking a parent leaves one parent less to come. -/
theorem length_missingParents_append {order : List K} {node n : K} (hnode : node ∉ order) :
    (missingParents parents (order ++ [node]) n).length =
      (missingParents parents order n).length - if node ∈ parents.getD n ∅ then 1 else 0 := by
  have hfilter : missingParents parents (order ++ [node]) n =
      (missingParents parents order n).filter fun p => p != node := by
    rw [missingParents, missingParents, List.filter_filter]
    refine List.filter_congr fun p _ => ?_
    rw [Bool.eq_iff_iff]
    simp [not_or, and_comm]
  have hnodup : (missingParents parents order n).Nodup :=
    ((parents.getD n ∅).distinct_toList.imp compare_ne_eq_iff.mp).filter _
  rw [hfilter]
  split
  · rename_i hmem
    have hmissing : node ∈ missingParents parents order n := by
      simp [missingParents, hmem, hnode]
    rw [← hnodup.erase_eq_filter, List.length_erase_of_mem hmissing]
  · rename_i hmem
    rw [List.filter_eq_self.mpr]
    · rfl
    · intro p hp
      have hpmem : p ∈ parents.getD n ∅ := by
        simp only [missingParents, List.mem_filter, Std.ExtTreeSet.mem_toList] at hp
        exact hp.1
      rw [bne_iff_ne]
      rintro rfl
      exact hmem hpmem

/-! ### Children -/

omit [DecidableEq K] in
/-- The inner loop: `node` becomes a child of each of its parents. -/
theorem mem_addChild {node c p : K} {ps : List K} :
    (c ∈ (ps.foldl (fun children parent => children.modify parent (·.insert node))
        children).getD p ∅ ↔
      c ∈ children.getD p ∅ ∨ p ∈ ps ∧ p ∈ children ∧ c = node) ∧
    (p ∈ ps.foldl (fun children parent => children.modify parent (·.insert node)) children ↔
      p ∈ children) := by
  induction ps generalizing children with
  | nil => simp
  | cons q ps ih =>
      rw [List.foldl_cons]
      refine ⟨ih.1.trans ?_, ih.2.trans Std.ExtTreeMap.mem_modify⟩
      rw [Std.ExtTreeMap.mem_modify, Std.ExtTreeMap.getD_modify, List.mem_cons]
      by_cases hq : q = p
      · subst hq
        by_cases hmem : q ∈ children
        · obtain ⟨v, hv⟩ := BTreeMap.mem_iff_get.mp hmem
          simp only [Std.ReflCmp.compare_self, if_true, hv, Option.map_some, Option.getD_some,
            BTreeSet.mem_insert_iff, Std.ExtTreeMap.getD_eq_getD_getElem?]
          constructor
          · rintro ((rfl | h) | ⟨-, -, h⟩)
            · exact .inr ⟨.inl trivial, hmem, rfl⟩
            · exact .inl h
            · exact .inr ⟨.inl trivial, hmem, h⟩
          · rintro (h | ⟨-, -, rfl⟩)
            · exact .inl (.inr h)
            · exact .inl (.inl rfl)
        · simp [hmem, Std.ExtTreeMap.getD_eq_fallback]
      · rw [if_neg (compare_ne_eq_iff.mpr hq)]
        simp [Ne.symm hq]

omit [DecidableEq K] in
/-- The children of a node are the nodes it is a parent of. -/
theorem mem_childrenByNode {p c : K} (hp : p ∈ parents) :
    c ∈ (childrenByNode parents).getD p ∅ ↔ ParentOf parents p c := by
  have hloop : ∀ (step : BTreeMap K (BTreeSet K) → K × BTreeSet K → BTreeMap K (BTreeSet K)),
      (∀ children node ps, step children (node, ps) =
        ps.toList.foldl (fun children parent => children.modify parent (·.insert node))
          children) →
      ∀ (l : List (K × BTreeSet K)) (children : BTreeMap K (BTreeSet K)), p ∈ children →
        (c ∈ (l.foldl step children).getD p ∅ ↔
          c ∈ children.getD p ∅ ∨ ∃ ps, (c, ps) ∈ l ∧ p ∈ ps) := by
    intro step hstep l
    induction l with
    | nil => simp
    | cons x l ih =>
        obtain ⟨node, ps⟩ := x
        intro children hmem
        rw [List.foldl_cons, hstep, ih _ ((mem_addChild (c := c)).2.mpr hmem), mem_addChild.1]
        simp only [Std.ExtTreeSet.mem_toList, hmem, true_and, List.mem_cons, Prod.mk.injEq]
        constructor
        · rintro ((h | ⟨h, rfl⟩) | ⟨ps', h, h'⟩)
          · exact .inl h
          · exact .inr ⟨ps, .inl ⟨rfl, rfl⟩, h⟩
          · exact .inr ⟨ps', .inr h, h'⟩
        · rintro (h | ⟨ps', ⟨rfl, rfl⟩ | h, h'⟩)
          · exact .inl (.inl h)
          · exact .inl (.inr ⟨h', rfl⟩)
          · exact .inr ⟨ps', h, h'⟩
  have hmem : p ∈ parents.map fun _ (_ : BTreeSet K) => (∅ : BTreeSet K) :=
    Std.ExtTreeMap.mem_map.mpr hp
  rw [childrenByNode, hloop _ (fun _ _ _ => rfl) _ _ hmem, ParentOf]
  have hempty : c ∉ (parents.map fun _ (_ : BTreeSet K) => (∅ : BTreeSet K)).getD p ∅ := by
    cases hget : parents[p]? <;> simp [Std.ExtTreeMap.getD_eq_getD_getElem?, hget]
  simp only [hempty, false_or, BTreeMap.mem_toList_iff_get]
  constructor
  · rintro ⟨ps, hget, h⟩
    rwa [Std.ExtTreeMap.getD_eq_getD_getElem?, hget]
  · intro h
    obtain ⟨ps, hget⟩ := BTreeMap.mem_iff_get.mp (mem_of_parentOf h)
    rw [Std.ExtTreeMap.getD_eq_getD_getElem?, hget] at h
    exact ⟨ps, hget, h⟩

/-! ### One pass -/

/-- What the inner loop of a pass does to the counters and the ready nodes. -/
theorem releaseChildren {cs : List K} (hnodup : cs.Nodup) (s : BuildState K) :
    let t := cs.foldl BuildState.releaseChild s
    t.generations = s.generations ∧ t.topologicalOrder = s.topologicalOrder ∧
    (∀ n, t.remainingParents.getD n 0 =
      s.remainingParents.getD n 0 - if n ∈ cs then 1 else 0) ∧
    ∀ n, n ∈ t.ready ↔ n ∈ s.ready ∨ n ∈ cs ∧ s.remainingParents.getD n 0 - 1 = 0 := by
  induction cs generalizing s with
  | nil => simp
  | cons c cs ih =>
      obtain ⟨hc, hnodup⟩ := List.nodup_cons.mp hnodup
      intro t
      obtain ⟨hgenerations, horder, hremaining, hready⟩ := ih hnodup (s.releaseChild c)
      have hcount : ∀ n, (s.releaseChild c).remainingParents.getD n 0 =
          s.remainingParents.getD n 0 - if n = c then 1 else 0 := by
        intro n
        rw [BuildState.releaseChild, Std.ExtTreeMap.getD_insert]
        by_cases hn : c = n
        · subst hn
          simp
        · simp [hn, Ne.symm hn]
      have hmem : ∀ n, n ∈ (s.releaseChild c).ready ↔
          n ∈ s.ready ∨ n = c ∧ s.remainingParents.getD n 0 - 1 = 0 := by
        intro n
        rw [BuildState.releaseChild]
        dsimp only
        split
        · rename_i hzero
          rw [BTreeSet.mem_insert_iff, or_comm]
          refine or_congr_right ⟨?_, fun h => h.1.symm⟩
          rintro rfl
          exact ⟨rfl, hzero⟩
        · rename_i hpos
          refine ⟨.inl, ?_⟩
          rintro (h | ⟨rfl, h⟩)
          · exact h
          · exact absurd h hpos
      refine ⟨hgenerations, horder, fun n => ?_, fun n => ?_⟩
      · refine (hremaining n).trans ?_
        rw [hcount]
        by_cases hn : n = c
        · subst hn
          simp [hc]
        · simp [hn]
      · refine (hready n).trans ?_
        rw [hmem, hcount, List.mem_cons]
        by_cases hn : n = c
        · subst hn
          simp [hc]
        · simp [hn]

/-! ### The main loop -/

/-- What the main loop keeps. -/
structure Sorted (parents : BTreeMap K (BTreeSet K)) (s : BuildState K) : Prop where
  nodup : s.topologicalOrder.Nodup
  nodes : ∀ n ∈ s.topologicalOrder, n ∈ parents
  after : ∀ above n below, s.topologicalOrder = above ++ n :: below →
    ∀ p, ParentOf parents p n → p ∈ above
  remaining : ∀ n ∈ parents, s.remainingParents.getD n 0 =
    (missingParents parents s.topologicalOrder n).length
  ready : ∀ n, n ∈ s.ready ↔ n ∈ parents ∧ n ∉ s.topologicalOrder ∧
    ∀ p, ParentOf parents p n → p ∈ s.topologicalOrder

theorem Sorted.initial : Sorted parents
    ⟨parents.map fun _ ps => ps.size,
      Std.ExtTreeSet.ofList
        (((parents.map fun _ ps => ps.size).toList.filter fun (_, count) => count == 0).map (·.1)),
      ∅, []⟩ where
  nodup := List.nodup_nil
  nodes _ h := by cases h
  after above n below h := by simp at h
  remaining n hn := by
    obtain ⟨ps, hps⟩ := BTreeMap.mem_iff_get.mp hn
    simp [missingParents, Std.ExtTreeMap.getD_eq_getD_getElem?, hps]
  ready n := by
    rw [Std.ExtTreeSet.mem_ofList, List.contains_iff_mem]
    simp only [List.mem_map, List.mem_filter, Prod.exists, BTreeMap.mem_toList_iff_get,
      Std.ExtTreeMap.getElem?_map, Option.map_eq_some_iff, beq_iff_eq, List.not_mem_nil,
      not_false_eq_true, true_and, imp_false, ParentOf]
    constructor
    · rintro ⟨_, _, ⟨⟨ps, hps, rfl⟩, hzero⟩, rfl⟩
      refine ⟨BTreeMap.mem_iff_get.mpr ⟨ps, hps⟩, fun p hp => ?_⟩
      rw [Std.ExtTreeMap.getD_eq_getD_getElem?, hps, Option.getD_some,
        Std.ExtTreeSet.eq_empty_iff_size_eq_zero.mpr hzero] at hp
      simp at hp
    · rintro ⟨hn, hnone⟩
      obtain ⟨ps, hps⟩ := BTreeMap.mem_iff_get.mp hn
      simp only [Std.ExtTreeMap.getD_eq_getD_getElem?, hps, Option.getD_some] at hnone
      refine ⟨n, _, ⟨⟨ps, hps, rfl⟩, ?_⟩, rfl⟩
      exact Std.ExtTreeSet.eq_empty_iff_size_eq_zero.mp
        (Std.ExtTreeSet.eq_empty_iff_forall_not_mem.mpr hnone)

/-- Taking a ready node keeps the order sorted. -/
theorem Sorted.step {s t : BuildState K} {node : K} (h : Sorted parents s)
    (hnode : node ∈ s.ready)
    (hstep : buildStep parents (childrenByNode parents) node s = .ok t) :
    Sorted parents t ∧ t.topologicalOrder = s.topologicalOrder ++ [node] := by
  obtain ⟨hmem, hnew, habove⟩ := (h.ready node).mp hnode
  rw [buildStep] at hstep
  split at hstep
  · cases hstep
  cases hstep
  have hnodup : ((childrenByNode parents).getD node ∅).toList.Nodup :=
    Std.ExtTreeSet.distinct_toList.imp compare_ne_eq_iff.mp
  obtain ⟨-, horder, hremaining, hready⟩ := releaseChildren hnodup
    { s with
      ready := s.ready.erase node
      generations := s.generations.insert node _
      topologicalOrder := s.topologicalOrder ++ [node] }
  have hchild : ∀ n, n ∈ ((childrenByNode parents).getD node ∅).toList ↔ ParentOf parents node n :=
    fun n => Std.ExtTreeSet.mem_toList.trans (mem_childrenByNode hmem)
  refine ⟨⟨?_, ?_, ?_, ?_, ?_⟩, horder⟩
  all_goals rw [horder]
  · exact List.nodup_append.mpr ⟨h.nodup, List.nodup_singleton _, by
      intro a ha b hb
      rw [List.mem_singleton] at hb
      rintro rfl
      exact hnew (hb ▸ ha)⟩
  · intro n hn
    rcases List.mem_append.mp hn with hn | hn
    · exact h.nodes n hn
    · rwa [List.mem_singleton.mp hn]
  · intro above n below hsplit p hp
    rcases List.append_eq_append_iff.mp hsplit with ⟨mid, rfl, hmid⟩ | ⟨mid, hmid, hbelow⟩
    · cases mid with
      | nil =>
          cases hmid
          rw [List.append_nil]
          exact habove p hp
      | cons x mid =>
          cases mid <;> cases hmid
    · cases mid with
      | nil =>
          cases hbelow
          rw [List.append_nil] at hmid
          exact hmid ▸ habove p hp
      | cons x mid =>
          cases hbelow
          exact h.after above n mid hmid p hp
  · intro n hn
    rw [hremaining, h.remaining n hn, length_missingParents_append hnew]
    exact congrArg _ (if_congr (hchild n) rfl rfl)
  · intro n
    rw [hready, BTreeSet.mem_erase_iff, h.ready, hchild]
    simp only [List.mem_append, List.mem_singleton]
    by_cases hparent : ParentOf parents node n
    · have hn := mem_of_parentOf hparent
      have hfresh : n ∉ s.topologicalOrder := by
        intro hold
        obtain ⟨above, below, hsplit⟩ := List.append_of_mem hold
        exact hnew (hsplit ▸ List.mem_append_left _ (h.after above n below hsplit node hparent))
      have hother : n ≠ node := by
        rintro rfl
        exact hnew (habove n hparent)
      -- the counter reaches zero when no parent is left
      have hcount : s.remainingParents.getD n 0 - 1 = 0 ↔
          ∀ p, ParentOf parents p n → p ∈ s.topologicalOrder ++ [node] := by
        have hlength : (missingParents parents (s.topologicalOrder ++ [node]) n).length = _ :=
          length_missingParents_append hnew
        rw [if_pos (show node ∈ parents.getD n ∅ from hparent)] at hlength
        rw [h.remaining n hn, ← hlength, List.length_eq_zero_iff, missingParents_eq_nil]
      simp only [List.mem_append, List.mem_singleton] at hcount
      constructor
      · rintro (⟨-, -, -, hall⟩ | ⟨-, hzero⟩)
        · exact absurd (hall node hparent) hnew
        · exact ⟨hn, not_or.mpr ⟨hfresh, hother⟩, hcount.mp hzero⟩
      · rintro ⟨-, -, hall⟩
        exact .inr ⟨hparent, hcount.mpr hall⟩
    · constructor
      · rintro (⟨hne, hn, hfresh, hall⟩ | ⟨h', -⟩)
        · exact ⟨hn, not_or.mpr ⟨hfresh, Ne.symm hne⟩, fun p hp => .inl (hall p hp)⟩
        · exact absurd h' hparent
      · rintro ⟨hn, hfresh, hall⟩
        obtain ⟨hfresh, hne⟩ := not_or.mp hfresh
        refine .inl ⟨Ne.symm hne, hn, hfresh, fun p hp => (hall p hp).resolve_right ?_⟩
        rintro rfl
        exact hparent hp

omit [Std.LawfulEqOrd K] [DecidableEq K] in
/-- What every pass keeps, the main loop keeps. -/
theorem buildLoop_preserves {P : BuildState K → Prop}
    (hstep : ∀ {s t : BuildState K} {node : K}, P s → s.ready.toList.head? = some node →
      buildStep parents children node s = .ok t → P t)
    {fuel : Nat} {s t : BuildState K} (h : P s)
    (hloop : buildLoop parents children fuel s = .ok t) : P t := by
  induction fuel generalizing s with
  | zero =>
      cases hloop
      exact h
  | succ fuel ih =>
      rw [buildLoop] at hloop
      cases hhead : s.ready.toList.head? with
      | none =>
          rw [hhead] at hloop
          cases hloop
          exact h
      | some node =>
          rw [hhead] at hloop
          obtain ⟨u, hu, hloop⟩ := Except.bind_eq_ok.mp hloop
          exact ih (hstep h hhead hu) hloop

theorem Sorted.loop {fuel : Nat} {s t : BuildState K} (h : Sorted parents s)
    (hloop : buildLoop parents (childrenByNode parents) fuel s = .ok t) : Sorted parents t := by
  refine buildLoop_preserves (fun h hhead hstep => ?_) h hloop
  have hnode := Std.ExtTreeSet.mem_toList.mp (List.mem_of_mem_head? hhead)
  exact (h.step hnode hstep).1

/-! ### The index -/

omit [DecidableEq K] in
/-- The first loop of `build` records every node with the set of its parents. -/
theorem parentsByNode_get {nodes : List (GraphNode K)} (h : parentsByNode nodes = .ok parents)
    {n : K} {ps : BTreeSet K} :
    parents[n]? = some ps ↔
      ∃ node ∈ nodes, node.id = n ∧ Std.ExtTreeSet.ofList node.parents = ps := by
  have hfill : insertUnique GraphNode.id (fun node => Std.ExtTreeSet.ofList node.parents)
      (fun node => GraphError.duplicateNode node.id) nodes ∅ = .ok parents := h
  rw [insertUnique_get hfill]
  simp

theorem parentsByNode_parentOf {nodes : List (GraphNode K)}
    (h : parentsByNode nodes = .ok parents) {p n : K} :
    ParentOf parents p n ↔ ∃ node ∈ nodes, node.id = n ∧ p ∈ node.parents := by
  have hset : ∀ node : GraphNode K,
      p ∈ (Std.ExtTreeSet.ofList node.parents : BTreeSet K) ↔ p ∈ node.parents := by
    intro node
    rw [Std.ExtTreeSet.mem_ofList, List.contains_iff_mem]
  constructor
  · intro hp
    obtain ⟨ps, hps⟩ := BTreeMap.mem_iff_get.mp (mem_of_parentOf hp)
    obtain ⟨node, hnode, rfl, rfl⟩ := (parentsByNode_get h).mp hps
    rw [ParentOf, Std.ExtTreeMap.getD_eq_getD_getElem?, hps, Option.getD_some, hset] at hp
    exact ⟨node, hnode, rfl, hp⟩
  · rintro ⟨node, hnode, rfl, hp⟩
    have hps := (parentsByNode_get h).mpr ⟨node, hnode, rfl, rfl⟩
    rw [ParentOf, Std.ExtTreeMap.getD_eq_getD_getElem?, hps, Option.getD_some, hset]
    exact hp

/-- What is above a node of a sorted order comes before it. -/
theorem Sorted.above {s : BuildState K} (h : Sorted parents s) {p n : K}
    (hpath : Relation.TransGen (ParentOf parents) p n) (hn : n ∈ s.topologicalOrder) :
    p ∈ s.topologicalOrder ∧ s.topologicalOrder.idxOf p < s.topologicalOrder.idxOf n := by
  -- one step upwards goes to a smaller position
  have hstep : ∀ {p n : K}, ParentOf parents p n → n ∈ s.topologicalOrder →
      p ∈ s.topologicalOrder ∧ s.topologicalOrder.idxOf p < s.topologicalOrder.idxOf n := by
    intro p n hp hn
    obtain ⟨above, below, hsplit⟩ := List.append_of_mem hn
    have habove := h.after above n below hsplit p hp
    have hnodup := h.nodup
    rw [hsplit] at hnodup ⊢
    have hn : n ∉ above := fun hn =>
      List.disjoint_of_nodup_append hnodup hn List.mem_cons_self
    refine ⟨List.mem_append_left _ habove, ?_⟩
    rw [List.idxOf_append_of_mem habove, List.idxOf_append_of_notMem hn,
      List.idxOf_cons_self, Nat.add_zero]
    exact List.idxOf_lt_length_of_mem habove
  induction hpath with
  | single hp => exact hstep hp hn
  | tail _ hp ih =>
      obtain ⟨hmem, hlt⟩ := hstep hp hn
      obtain ⟨hmem', hlt'⟩ := ih hmem
      exact ⟨hmem', hlt'.trans hlt⟩

/-- In a sorted order no node is above itself. -/
theorem Sorted.acyclic {s : BuildState K} (h : Sorted parents s) {n : K}
    (hn : n ∈ s.topologicalOrder) : ¬ Relation.TransGen (ParentOf parents) n n :=
  fun hcycle => lt_irrefl _ (h.above hcycle hn).2

/-- An index is built from acyclic nodes only. -/
theorem build_acyclic {nodes : List (GraphNode K)} {g : GraphIndex K}
    (h : GraphIndex.build nodes = .ok g) (n : K) :
    ¬ Relation.TransGen (fun p n => ∃ node ∈ nodes, node.id = n ∧ p ∈ node.parents) n n := by
  rw [GraphIndex.build] at h
  simp only [Except.bind_eq_ok, Except.ite_error_eq_ok, not_not] at h
  obtain ⟨parents, hparents, -, -, s, hloop, hlength, -⟩ := h
  have hsorted := Sorted.initial.loop hloop
  have hsubset : s.topologicalOrder ⊆ parents.toList.map (·.1) := by
    intro n hn
    obtain ⟨ps, hps⟩ := BTreeMap.mem_iff_get.mp (hsorted.nodes n hn)
    exact List.mem_map.mpr ⟨(n, ps), BTreeMap.mem_toList_iff_get.mpr hps, rfl⟩
  have hperm : s.topologicalOrder.Perm (parents.toList.map (·.1)) := by
    refine (List.Nodup.subperm hsorted.nodup hsubset).perm_of_length_le ?_
    rw [List.length_map, Std.ExtTreeMap.length_toList, hlength]
  have hall : ∀ n ∈ parents, n ∈ s.topologicalOrder := by
    intro n hn
    obtain ⟨ps, hps⟩ := BTreeMap.mem_iff_get.mp hn
    exact hperm.mem_iff.mpr (List.mem_map.mpr ⟨(n, ps), BTreeMap.mem_toList_iff_get.mpr hps, rfl⟩)
  intro hcycle
  have hcycle : Relation.TransGen (ParentOf parents) n n :=
    hcycle.lift id fun p n hp => (parentsByNode_parentOf hparents).mpr hp
  obtain ⟨p, -, hlast⟩ := Relation.TransGen.tail'_iff.mp hcycle
  exact hsorted.acyclic (hall n (mem_of_parentOf hlast)) hcycle

end Build

end RGit
