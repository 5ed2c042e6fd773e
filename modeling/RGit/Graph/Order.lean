/-
RGit/Graph/Order.lean

What the graph index holds.

`Indexed` adds to the sortedness of the main loop that every node was the
least one that could be taken, and that its generation is the length of its
longest chain of parents.  The loop stops early only when some node waits for
itself (`complete_of_acyclic`), so an index is built exactly for the complete
acyclic graphs (`build_spec`).
-/
import RGit.Graph.Build
import RGit.Lib.Topological

namespace RGit

section Order

variable {K : Type} [Ord K] [Std.TransOrd K] [Std.LawfulEqOrd K] [DecidableEq K]
variable {parents children : BTreeMap K (BTreeSet K)}

/-! ### Generations -/

/-- The larger of two words, by its value. -/
instance lawfulOrderMax_uint64 : Std.LawfulOrderMax UInt64 := by
  refine .of_max_le_iff (fun a b c => ?_) (fun a b => ?_)
  · show (if a ≤ b then b else a) ≤ c ↔ a ≤ c ∧ b ≤ c
    simp only [UInt64.le_iff_toNat_le]
    split <;> omega
  · show (if a ≤ b then b else a) = a ∨ (if a ≤ b then b else a) = b
    split <;> simp

/-- A generation is one more than the largest of the parents'. -/
theorem nextGeneration_eq_some {generations : List UInt64} {generation : UInt64}
    (h : nextGeneration generations = some generation) :
    (generations = [] ∧ generation = 0) ∨
    ∃ largest ∈ generations, (∀ x ∈ generations, x.toNat ≤ largest.toNat) ∧
      generation.toNat = largest.toNat + 1 := by
  rw [nextGeneration] at h
  cases hmax : generations.max? with
  | none =>
      rw [hmax] at h
      cases h
      exact .inl ⟨List.max?_eq_none_iff.mp hmax, rfl⟩
  | some largest =>
      rw [hmax] at h
      dsimp only at h
      split at h
      · rename_i hlt
        cases h
        obtain ⟨hmem, hle⟩ := List.max?_eq_some_iff.mp hmax
        refine .inr ⟨largest, hmem, fun x hx => UInt64.le_iff_toNat_le.mp (hle x hx), ?_⟩
        rw [UInt64.toNat_add]
        exact Nat.mod_eq_of_lt hlt
      · cases h

/-- It only overflows when a parent has the largest generation there is. -/
theorem nextGeneration_isSome {generations : List UInt64}
    (h : ∀ x ∈ generations, x.toNat + 1 < 2 ^ 64) :
    ∃ generation, nextGeneration generations = some generation := by
  rw [nextGeneration]
  cases hmax : generations.max? with
  | none => exact ⟨0, rfl⟩
  | some largest =>
      have hmem := (List.max?_eq_some_iff.mp hmax).1
      exact ⟨largest + 1, if_pos (h largest hmem)⟩

/-! ### The main loop -/

/-- What the main loop keeps, about the nodes taken so far. -/
structure Indexed (parents : BTreeMap K (BTreeSet K)) (s : BuildState K) : Prop where
  sorted : Sorted parents s
  least : ∀ above n below, s.topologicalOrder = above ++ n :: below →
    ∀ m, Open (ParentOf parents) parents.keys above m → (compare n m).isLE
  generation : ∀ n ∈ s.topologicalOrder,
    IsGreatest (chainLengths (ParentOf parents) n) (s.generations.getD n 0).toNat
  bounded : ∀ n ∈ s.topologicalOrder,
    (s.generations.getD n 0).toNat < s.topologicalOrder.length

theorem Sorted.ready_iff_open {s : BuildState K} (h : Sorted parents s) {n : K} :
    n ∈ s.ready ↔ Open (ParentOf parents) parents.keys s.topologicalOrder n := by
  rw [h.ready, Open, Std.ExtTreeMap.mem_keys]

theorem Indexed.initial : Indexed parents
    ⟨parents.map fun _ ps => ps.size,
      Std.ExtTreeSet.ofList
        (((parents.map fun _ ps => ps.size).toList.filter fun (_, count) => count == 0).map (·.1)),
      ∅, []⟩ where
  sorted := Sorted.initial
  least above n below h := by simp at h
  generation _ h := by cases h
  bounded _ h := by cases h

/-- What a pass does to the generations and to the order. -/
theorem buildStep_eq_ok {s t : BuildState K} {node : K}
    (h : buildStep parents children node s = .ok t) :
    ∃ generation,
      nextGeneration ((parents.getD node ∅).toList.map fun parent =>
        s.generations.getD parent 0) = some generation ∧
      t.generations = s.generations.insert node generation ∧
      t.topologicalOrder = s.topologicalOrder ++ [node] := by
  rw [buildStep] at h
  split at h
  · cases h
  rename_i generation hgeneration
  cases h
  have hnodup : (children.getD node ∅).toList.Nodup :=
    Std.ExtTreeSet.distinct_toList.imp compare_ne_eq_iff.mp
  obtain ⟨hgenerations, horder, -, -⟩ := releaseChildren hnodup
    { s with
      ready := s.ready.erase node
      generations := s.generations.insert node generation
      topologicalOrder := s.topologicalOrder ++ [node] }
  exact ⟨generation, hgeneration, hgenerations, horder⟩

omit [DecidableEq K] in
/-- The first ready node is the least one. -/
theorem isLE_of_head {s : BTreeSet K} {node m : K} (hhead : s.toList.head? = some node)
    (hm : m ∈ s) : (compare node m).isLE := by
  have hordered := s.ordered_toList
  obtain ⟨rest, hrest⟩ := List.head?_eq_some_iff.mp hhead
  rw [hrest, List.pairwise_cons] at hordered
  rw [← Std.ExtTreeSet.mem_toList, hrest, List.mem_cons] at hm
  rcases hm with rfl | hm
  · exact Std.ReflCmp.isLE_rfl
  · rw [hordered.1 m hm]
    rfl

theorem Indexed.step {s t : BuildState K} {node : K} (h : Indexed parents s)
    (hhead : s.ready.toList.head? = some node)
    (hstep : buildStep parents (childrenByNode parents) node s = .ok t) : Indexed parents t := by
  have hnode := Std.ExtTreeSet.mem_toList.mp (List.mem_of_mem_head? hhead)
  obtain ⟨-, hnew, habove⟩ := (h.sorted.ready node).mp hnode
  obtain ⟨generation, hgeneration, hgenerations, horder⟩ := buildStep_eq_ok hstep
  have hself : t.generations.getD node 0 = generation := by
    rw [hgenerations, Std.ExtTreeMap.getD_insert_self]
  have hother : ∀ n ∈ s.topologicalOrder, t.generations.getD n 0 = s.generations.getD n 0 := by
    intro n hn
    have hne : node ≠ n := by
      rintro rfl
      exact hnew hn
    rw [hgenerations, Std.ExtTreeMap.getD_insert, if_neg (compare_ne_eq_iff.mpr hne)]
  refine ⟨(h.sorted.step hnode hstep).1, ?_, ?_, ?_⟩
  all_goals rw [horder]
  · intro above n below hsplit m hm
    rcases List.append_eq_append_iff.mp hsplit with ⟨mid, rfl, hmid⟩ | ⟨mid, hmid, hbelow⟩
    · cases mid with
      | nil =>
          cases hmid
          rw [List.append_nil] at hm
          exact isLE_of_head hhead (h.sorted.ready_iff_open.mpr hm)
      | cons x mid =>
          cases mid <;> cases hmid
    · cases mid with
      | nil =>
          cases hbelow
          rw [List.append_nil] at hmid
          exact isLE_of_head hhead (h.sorted.ready_iff_open.mpr (hmid ▸ hm))
      | cons x mid =>
          cases hbelow
          exact h.least above n mid hmid m hm
  · intro n hn
    rcases List.mem_append.mp hn with hn | hn
    · rw [hother n hn]
      exact h.generation n hn
    · obtain rfl := List.mem_singleton.mp hn
      rw [hself]
      rcases nextGeneration_eq_some hgeneration with ⟨hnil, rfl⟩ | ⟨largest, hmem, hle, hsucc⟩
      · refine isGreatest_chainLengths_zero fun p hp => ?_
        rw [List.map_eq_nil_iff] at hnil
        exact List.not_mem_nil (hnil ▸ Std.ExtTreeSet.mem_toList.mpr hp)
      · obtain ⟨q, hq, rfl⟩ := List.mem_map.mp hmem
        rw [hsucc]
        refine isGreatest_chainLengths_succ (fun p => (s.generations.getD p 0).toNat)
          (fun p hp => h.generation p (habove p hp)) (Std.ExtTreeSet.mem_toList.mp hq) ?_
        intro p hp
        exact hle _ (List.mem_map_of_mem (Std.ExtTreeSet.mem_toList.mpr hp))
  · intro n hn
    rw [List.length_append, List.length_singleton]
    rcases List.mem_append.mp hn with hn | hn
    · rw [hother n hn]
      exact (h.bounded n hn).trans (Nat.lt_succ_self _)
    · obtain rfl := List.mem_singleton.mp hn
      rw [hself]
      rcases nextGeneration_eq_some hgeneration with ⟨-, rfl⟩ | ⟨largest, hmem, -, hsucc⟩
      · exact Nat.succ_pos _
      · obtain ⟨q, hq, rfl⟩ := List.mem_map.mp hmem
        rw [hsucc]
        exact Nat.succ_lt_succ (h.bounded q (habove q (Std.ExtTreeSet.mem_toList.mp hq)))

/-! ### When the loop stops -/

/-- Every node is taken at most once. -/
theorem Sorted.length_le {s : BuildState K} (h : Sorted parents s) :
    s.topologicalOrder.length ≤ parents.size := by
  rw [← Std.ExtTreeMap.length_keys]
  refine (List.Nodup.subperm h.nodup fun n hn => ?_).length_le
  exact Std.ExtTreeMap.mem_keys.mpr (h.nodes n hn)

/-- When as many nodes were taken as there are, it was all of them. -/
theorem Sorted.perm_keys {s : BuildState K} (h : Sorted parents s)
    (hlength : s.topologicalOrder.length = parents.size) :
    s.topologicalOrder.Perm parents.keys := by
  have hsubset : s.topologicalOrder ⊆ parents.keys := fun n hn =>
    Std.ExtTreeMap.mem_keys.mpr (h.nodes n hn)
  refine (List.Nodup.subperm h.nodup hsubset).perm_of_length_le ?_
  rw [Std.ExtTreeMap.length_keys, hlength]

/-- No pass fails, and the loop only stops when nothing is ready or when it
made all its passes. -/
theorem Indexed.total {s : BuildState K} (h : Indexed parents s)
    (hsize : parents.size < 2 ^ 64) (fuel : Nat) :
    ∃ t, buildLoop parents (childrenByNode parents) fuel s = .ok t ∧
      (t.ready.toList.head? = none ∨
        t.topologicalOrder.length = s.topologicalOrder.length + fuel) := by
  induction fuel generalizing s with
  | zero => exact ⟨s, rfl, .inr rfl⟩
  | succ fuel ih =>
      rw [buildLoop]
      cases hhead : s.ready.toList.head? with
      | none => exact ⟨s, rfl, .inl hhead⟩
      | some node =>
          have hnode := Std.ExtTreeSet.mem_toList.mp (List.mem_of_mem_head? hhead)
          obtain ⟨-, -, habove⟩ := (h.sorted.ready node).mp hnode
          have hbound := h.sorted.length_le
          -- every generation so far is below the number of nodes
          obtain ⟨generation, hgeneration⟩ : ∃ generation, nextGeneration
              ((parents.getD node ∅).toList.map fun parent => s.generations.getD parent 0) =
                some generation := by
            refine nextGeneration_isSome fun x hx => ?_
            obtain ⟨p, hp, rfl⟩ := List.mem_map.mp hx
            have hp := h.bounded p (habove p (Std.ExtTreeSet.mem_toList.mp hp))
            omega
          obtain ⟨u, hu⟩ : ∃ u, buildStep parents (childrenByNode parents) node s = .ok u := by
            rw [buildStep, hgeneration]
            exact ⟨_, rfl⟩
          obtain ⟨-, -, -, horder⟩ := buildStep_eq_ok hu
          obtain ⟨t, ht, hstop⟩ := ih (h.step hhead hu)
          refine ⟨t, Except.bind_eq_ok.mpr ⟨u, hu, ht⟩, hstop.imp_right fun hlength => ?_⟩
          rw [hlength, horder, List.length_append, List.length_singleton, Nat.add_right_comm]
          rfl

/-- Nothing is ready only when everything was taken, unless there is a cycle. -/
theorem Sorted.complete {s : BuildState K} (h : Sorted parents s)
    (hparents : ∀ p n, ParentOf parents p n → p ∈ parents)
    (hacyclic : ∀ n, ¬ Relation.TransGen (ParentOf parents) n n)
    (hready : s.ready.toList.head? = none) : s.topologicalOrder.length = parents.size := by
  refine le_antisymm h.length_le ?_
  by_contra hlt
  have hmissing : ∃ n ∈ parents.keys, n ∉ s.topologicalOrder := by
    by_contra hnone
    push Not at hnone
    have hnodup : parents.keys.Nodup := parents.distinct_keys.imp compare_ne_eq_iff.mp
    have hle := (List.Nodup.subperm hnodup hnone).length_le
    rw [Std.ExtTreeMap.length_keys] at hle
    exact hlt hle
  obtain ⟨n, hn⟩ := exists_open (fun p n hp _ => Std.ExtTreeMap.mem_keys.mpr (hparents p n hp))
    hacyclic hmissing
  have hmem := Std.ExtTreeSet.mem_toList.mpr (h.ready_iff_open.mpr hn)
  rw [List.head?_eq_none_iff.mp hready] at hmem
  cases hmem

/-! ### The nodes -/

/-- The node `n` names `p` as a parent. -/
def NamesParent (nodes : List (GraphNode K)) (p n : K) : Prop :=
  ∃ node ∈ nodes, node.id = n ∧ p ∈ node.parents

omit [DecidableEq K] in
/-- The first loop accepts the nodes exactly when no id is repeated. -/
theorem parentsByNode_isOk {nodes : List (GraphNode K)} :
    (∃ parents, parentsByNode nodes = .ok parents) ↔ (nodes.map (·.id)).Nodup := by
  refine insertUnique_isOk.trans ?_
  simp

omit [DecidableEq K] in
theorem mem_parentsByNode {nodes : List (GraphNode K)} (h : parentsByNode nodes = .ok parents)
    {n : K} : n ∈ parents ↔ n ∈ nodes.map (·.id) := by
  simp only [BTreeMap.mem_iff_get, parentsByNode_get h, List.mem_map]
  constructor
  · rintro ⟨_, node, hnode, rfl, -⟩
    exact ⟨node, hnode, rfl⟩
  · rintro ⟨node, hnode, rfl⟩
    exact ⟨_, node, hnode, rfl, rfl⟩

theorem parentOf_eq_namesParent {nodes : List (GraphNode K)}
    (h : parentsByNode nodes = .ok parents) : ParentOf parents = NamesParent nodes := by
  funext p n
  exact propext (parentsByNode_parentOf h)

omit [DecidableEq K] in
theorem perm_keys_parentsByNode {nodes : List (GraphNode K)}
    (h : parentsByNode nodes = .ok parents) : parents.keys.Perm (nodes.map (·.id)) := by
  refine (List.perm_ext_iff_of_nodup ?_ (parentsByNode_isOk.mp ⟨parents, h⟩)).mpr fun n => ?_
  · exact parents.distinct_keys.imp compare_ne_eq_iff.mp
  · rw [Std.ExtTreeMap.mem_keys, mem_parentsByNode h]

omit [DecidableEq K] in
/-- The second loop accepts them exactly when every parent is a node. -/
theorem checkParents_eq_ok :
    checkParents parents = .ok () ↔ ∀ p n, ParentOf parents p n → p ∈ parents := by
  simp only [checkParents, forM_eq_ok, Prod.forall, BTreeMap.mem_toList_iff_get,
    Std.ExtTreeSet.mem_toList, ParentOf]
  constructor
  · intro h p n hp
    obtain ⟨ps, hps⟩ := BTreeMap.mem_iff_get.mp (mem_of_parentOf hp)
    rw [Std.ExtTreeMap.getD_eq_getD_getElem?, hps, Option.getD_some] at hp
    have hcheck := h n ps hps p hp
    split at hcheck
    · assumption
    · cases hcheck
  · intro h n ps hps p hp
    refine if_pos (h p n ?_)
    rwa [Std.ExtTreeMap.getD_eq_getD_getElem?, hps, Option.getD_some]

/-- The same nodes, in any order and with their parents in any order and any
number of times. -/
def SameNodes (nodes nodes' : List (GraphNode K)) : Prop :=
  ∃ l, nodes.Perm l ∧
    List.Forall₂ (fun a b => a.id = b.id ∧ ∀ p, p ∈ a.parents ↔ p ∈ b.parents) l nodes'

/-- The parent map forgets everything else about the nodes. -/
theorem parentsByNode_sameNodes {nodes nodes' : List (GraphNode K)}
    (h : parentsByNode nodes = .ok parents) (hsame : SameNodes nodes nodes') :
    parentsByNode nodes' = .ok parents := by
  obtain ⟨l, hperm, hrel⟩ := hsame
  have hids : l.map (·.id) = nodes'.map (·.id) := by
    rw [← List.forall₂_eq_eq_eq, List.forall₂_map_left_iff, List.forall₂_map_right_iff]
    exact hrel.imp fun _ _ hab => hab.1
  have hnodup : (nodes'.map (·.id)).Nodup := by
    rw [← hids]
    exact (hperm.map _).nodup_iff.mp (parentsByNode_isOk.mp ⟨parents, h⟩)
  obtain ⟨parents', h'⟩ := parentsByNode_isOk.mpr hnodup
  rw [h']
  refine congrArg _ (Std.ExtTreeMap.ext_getElem? fun n => Option.ext fun ps => ?_)
  have hset : ∀ {a b : GraphNode K}, (∀ p, p ∈ a.parents ↔ p ∈ b.parents) →
      (Std.ExtTreeSet.ofList a.parents : BTreeSet K) = Std.ExtTreeSet.ofList b.parents := by
    intro a b hab
    refine Std.ExtTreeSet.ext_mem fun p => ?_
    simp [Std.ExtTreeSet.mem_ofList, hab]
  rw [parentsByNode_get h, parentsByNode_get h']
  constructor
  · rintro ⟨node, hnode, rfl, rfl⟩
    obtain ⟨other, hother, heq, hmem⟩ := forall₂_exists_of_mem hrel.flip hnode
    exact ⟨other, hperm.mem_iff.mpr hother, heq, hset hmem⟩
  · rintro ⟨node, hnode, rfl, rfl⟩
    obtain ⟨other, hother, heq, hmem⟩ := forall₂_exists_of_mem hrel (hperm.mem_iff.mp hnode)
    exact ⟨other, hother, heq.symm, (hset hmem).symm⟩

/-! ### The index -/

omit [DecidableEq K] in
theorem build_eq_ok {nodes : List (GraphNode K)} {g : GraphIndex K} :
    GraphIndex.build nodes = .ok g ↔
      ∃ parents s, parentsByNode nodes = .ok parents ∧
        (∀ p n, ParentOf parents p n → p ∈ parents) ∧
        buildLoop parents (childrenByNode parents) parents.size
          ⟨parents.map fun _ ps => ps.size,
            Std.ExtTreeSet.ofList (((parents.map fun _ ps => ps.size).toList.filter
              fun (_, count) => count == 0).map (·.1)), ∅, []⟩ = .ok s ∧
        s.topologicalOrder.length = parents.size ∧
        g = ⟨parents.map fun node ps => ⟨ps.toList, s.generations.getD node 0⟩,
          s.topologicalOrder⟩ := by
  rw [GraphIndex.build]
  simp only [Except.bind_eq_ok, Except.ite_error_eq_ok, not_not, Except.ok.injEq]
  constructor
  · rintro ⟨parents, hparents, ⟨⟩, hcheck, s, hloop, hlength, rfl⟩
    exact ⟨parents, s, hparents, checkParents_eq_ok.mp hcheck, hloop, hlength, rfl⟩
  · rintro ⟨parents, s, hparents, hcheck, hloop, hlength, rfl⟩
    exact ⟨parents, hparents, (), checkParents_eq_ok.mpr hcheck, s, hloop, hlength, rfl⟩

/-- An order of all the nodes in which every node comes after its parents. -/
def IsTopological (nodes : List (GraphNode K)) (order : List K) : Prop :=
  order.Perm (nodes.map (·.id)) ∧ Follows (NamesParent nodes) order

/-- An index is built exactly for unique nodes with known parents and no cycle. -/
theorem build_isOk_iff {nodes : List (GraphNode K)} (hlength : nodes.length < 2 ^ 64) :
    (∃ g, GraphIndex.build nodes = .ok g) ↔
      (nodes.map (·.id)).Nodup ∧
      (∀ node ∈ nodes, ∀ p ∈ node.parents, p ∈ nodes.map (·.id)) ∧
      ∀ n, ¬ Relation.TransGen (NamesParent nodes) n n := by
  constructor
  · rintro ⟨g, hg⟩
    obtain ⟨parents, s, hparents, hcheck, -, -, -⟩ := build_eq_ok.mp hg
    refine ⟨parentsByNode_isOk.mp ⟨parents, hparents⟩, fun node hnode p hp => ?_,
      build_acyclic hg⟩
    rw [← mem_parentsByNode hparents]
    exact hcheck p node.id ((parentsByNode_parentOf hparents).mpr ⟨node, hnode, rfl, hp⟩)
  · rintro ⟨hnodup, hpresent, hacyclic⟩
    obtain ⟨parents, hparents⟩ := parentsByNode_isOk.mpr hnodup
    have hrelation := parentOf_eq_namesParent hparents
    have hcheck : ∀ p n, ParentOf parents p n → p ∈ parents := by
      intro p n hp
      rw [hrelation] at hp
      obtain ⟨node, hnode, -, hp⟩ := hp
      exact (mem_parentsByNode hparents).mpr (hpresent node hnode p hp)
    have hsize : parents.size = nodes.length := by
      rw [← Std.ExtTreeMap.length_keys, (perm_keys_parentsByNode hparents).length_eq,
        List.length_map]
    obtain ⟨s, hloop, hstop⟩ := Indexed.initial.total (hsize ▸ hlength) parents.size
    have hcomplete : s.topologicalOrder.length = parents.size := by
      rcases hstop with hready | hall
      · exact (Sorted.initial.loop hloop).complete hcheck (hrelation ▸ hacyclic) hready
      · simpa using hall
    exact ⟨_, build_eq_ok.mpr ⟨parents, s, hparents, hcheck, hloop, hcomplete, rfl⟩⟩

/-- The generation of a node is the length of its longest chain of parents. -/
theorem build_generation {nodes : List (GraphNode K)} {g : GraphIndex K}
    (h : GraphIndex.build nodes = .ok g) {n : K} (hn : n ∈ nodes.map (·.id)) :
    ∃ generation, g.generation n = .ok generation ∧
      IsGreatest (chainLengths (NamesParent nodes) n) generation.toNat := by
  obtain ⟨parents, s, hparents, -, hloop, hcomplete, rfl⟩ := build_eq_ok.mp h
  have hindexed : Indexed parents s :=
    buildLoop_preserves (fun h hhead hstep => h.step hhead hstep) Indexed.initial hloop
  have hids := (hindexed.sorted.perm_keys hcomplete).trans (perm_keys_parentsByNode hparents)
  obtain ⟨ps, hps⟩ := BTreeMap.mem_iff_get.mp ((mem_parentsByNode hparents).mpr hn)
  refine ⟨s.generations.getD n 0, by simp [GraphIndex.generation, hps], ?_⟩
  rw [← parentOf_eq_namesParent hparents]
  exact hindexed.generation n (hids.mem_iff.mpr hn)

/-- **What `build` computes.**  An index is built exactly for unique nodes
with known parents and no cycle.  It then holds the least topological order
and the length of every node's longest chain of parents, and only depends on
which nodes there are and which parents each of them names.  A collection
holds fewer than `2 ^ 64` nodes, so no generation overflows. -/
theorem build_spec (nodes : List (GraphNode K)) (hlength : nodes.length < 2 ^ 64) :
    ((∃ g, GraphIndex.build nodes = .ok g) ↔
      (nodes.map (·.id)).Nodup ∧
      (∀ node ∈ nodes, ∀ p ∈ node.parents, p ∈ nodes.map (·.id)) ∧
      ∀ n, ¬ Relation.TransGen (NamesParent nodes) n n) ∧
    ∀ g, GraphIndex.build nodes = .ok g →
      IsTopological nodes g.topologicalOrder ∧
      (∀ other, IsTopological nodes other → (compare g.topologicalOrder other).isLE) ∧
      (∀ n ∈ nodes.map (·.id), ∃ generation, g.generation n = .ok generation ∧
        IsGreatest (chainLengths (NamesParent nodes) n) generation.toNat) ∧
      ∀ nodes', SameNodes nodes nodes' → GraphIndex.build nodes' = .ok g := by
  refine ⟨build_isOk_iff hlength, fun g hg => ?_⟩
  obtain ⟨parents, s, hparents, hcheck, hloop, hcomplete, rfl⟩ := build_eq_ok.mp hg
  have hrelation := parentOf_eq_namesParent hparents
  have hindexed : Indexed parents s :=
    buildLoop_preserves (fun h hhead hstep => h.step hhead hstep) Indexed.initial hloop
  have hkeys := hindexed.sorted.perm_keys hcomplete
  have hids := hkeys.trans (perm_keys_parentsByNode hparents)
  refine ⟨⟨hids, hrelation ▸ hindexed.sorted.after⟩, ?_, fun n hn => build_generation hg hn, ?_⟩
  · rintro other ⟨hperm, hother⟩
    refine hother.isLE_of_least hindexed.sorted.nodup ?_ (hperm.trans hids.symm)
    intro above n below hsplit m hm
    refine hindexed.least above n below hsplit m ?_
    rw [hrelation]
    exact ⟨hkeys.mem_iff.mp hm.1, hm.2⟩
  · intro nodes' hsame
    exact build_eq_ok.mpr ⟨parents, s, parentsByNode_sameNodes hparents hsame, hcheck, hloop,
      hcomplete, rfl⟩

/-- A merge of two branches, listed the other way round and with a parent
named twice. -/
theorem build_spec_diamond :
    ∃ g, GraphIndex.build [⟨3, [2, 1]⟩, ⟨2, [0]⟩, ⟨1, [0]⟩, (⟨0, []⟩ : GraphNode Nat)] = .ok g ∧
      GraphIndex.build [⟨0, []⟩, ⟨1, [0, 0]⟩, ⟨2, [0]⟩, ⟨3, [1, 2]⟩] = .ok g ∧
      IsTopological [⟨3, [2, 1]⟩, ⟨2, [0]⟩, ⟨1, [0]⟩, ⟨0, []⟩] g.topologicalOrder := by
  have hspec := build_spec [⟨3, [2, 1]⟩, ⟨2, [0]⟩, ⟨1, [0]⟩, (⟨0, []⟩ : GraphNode Nat)] (by decide)
  have hok : (GraphIndex.build
      [⟨3, [2, 1]⟩, ⟨2, [0]⟩, ⟨1, [0]⟩, (⟨0, []⟩ : GraphNode Nat)]).isOk = true := by
    decide
  cases hg : GraphIndex.build [⟨3, [2, 1]⟩, ⟨2, [0]⟩, ⟨1, [0]⟩, (⟨0, []⟩ : GraphNode Nat)] with
  | error e =>
      rw [hg] at hok
      cases hok
  | ok g =>
      obtain ⟨horder, -, -, hsame⟩ := hspec.2 g hg
      refine ⟨g, rfl, hsame _ ?_, horder⟩
      refine ⟨[⟨0, []⟩, ⟨1, [0]⟩, ⟨2, [0]⟩, ⟨3, [2, 1]⟩], ?_, ?_⟩
      · exact List.reverse_perm [⟨0, []⟩, ⟨1, [0]⟩, ⟨2, [0]⟩, (⟨3, [2, 1]⟩ : GraphNode Nat)]
      · simp [or_comm]

end Order

end RGit
