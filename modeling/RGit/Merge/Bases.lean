/-
RGit/Merge/Bases.lean

Which snapshot is the base of a merge.

The graph that `merge_base` reads is what can be reached from the two sides,
and the depth-first check accepts it when it has no cycle.
Removing the direct parents of the common ancestors then leaves the maximal
ones (`mem_bestCommon`).
-/
import RGit.Lib.Topological
import RGit.Lib.Worklist
import RGit.Merge.Ancestry
import RGit.Merge.Portable
import RGit.Merge.ValidGraph
import Mathlib.Algebra.Order.BigOperators.Group.List

namespace RGit.Cli

section Bases

variable {repo : Repo}

/-- `p` is a parent of the snapshot `n`. -/
def IsParent (repo : Repo) (p n : String) : Prop :=
  ∃ snapshot, readSnapshot repo n = .ok snapshot ∧ p ∈ parents snapshot

/-- `a` is the snapshot `n`, or `n` descends from it. -/
def Ancestor (repo : Repo) (a n : String) : Prop := Relation.ReflTransGen (IsParent repo) a n

/-- The history of the two sides of a merge: it can be read, it has no cycle,
and no snapshot names a parent twice. -/
structure SoundHistory (repo : Repo) (line incoming : String) : Prop where
  complete : ∀ id, Ancestor repo id line ∨ Ancestor repo id incoming →
    ∃ snapshot, readSnapshot repo id = .ok snapshot
  acyclic : ∀ id, Ancestor repo id line ∨ Ancestor repo id incoming →
    ¬ Relation.TransGen (IsParent repo) id id
  distinct : ∀ id snapshot, Ancestor repo id line ∨ Ancestor repo id incoming →
    readSnapshot repo id = .ok snapshot → (parents snapshot).Nodup

theorem SoundHistory.symm {line incoming : String} (h : SoundHistory repo line incoming) :
    SoundHistory repo incoming line :=
  ⟨fun id hid => h.complete id hid.symm, fun id hid => h.acyclic id hid.symm,
    fun id snapshot hid => h.distinct id snapshot hid.symm⟩

/-- The history of one side. -/
theorem SoundHistory.incoming {line incoming : String} (h : SoundHistory repo line incoming) :
    SoundHistory repo incoming incoming :=
  ⟨fun id hid => h.complete id (.inr (or_self_iff.mp hid)),
    fun id hid => h.acyclic id (.inr (or_self_iff.mp hid)),
    fun id snapshot hid => h.distinct id snapshot (.inr (or_self_iff.mp hid))⟩

/-! ### The graph -/

/-- What is reached from some snapshots are their ancestors. -/
theorem reached_iff {roots : List String} {id : String} :
    Reached (readSnapshot repo) parents roots id ↔ ∃ root ∈ roots, Ancestor repo id root := by
  constructor
  · intro h
    induction h with
    | root hroot => exact ⟨_, hroot, .refl⟩
    | step _ hread hparent ih =>
        obtain ⟨root, hroot, hpath⟩ := ih
        exact ⟨root, hroot, .head ⟨_, hread, hparent⟩ hpath⟩
  · rintro ⟨root, hroot, hpath⟩
    induction hpath using Relation.ReflTransGen.head_induction_on with
    | refl => exact .root hroot
    | head hparent _ ih =>
        obtain ⟨snapshot, hread, hparent⟩ := hparent
        exact .step ih hread hparent

/-- The loop of `merge_base` is a worklist over the snapshots that can be read. -/
theorem loadGraph_eq_workLoop {fuel : Nat} {pending : List String}
    {graph : BTreeMap String Snapshot}
    (hgraph : ∀ (id : String) (snapshot : Snapshot), graph[id]? = some snapshot →
      readSnapshot repo id = .ok snapshot) :
    loadGraph repo fuel pending graph =
      workLoop id (readSnapshot repo) parents fuel pending graph := by
  induction fuel, pending, graph using loadGraph.induct with
  | case1 fuel graph => cases fuel <;> rfl
  | case2 next pending graph => rfl
  | case3 fuel next pending graph hcontains ih =>
      obtain ⟨snapshot, hget⟩ := BTreeMap.contains_iff_get.mp hcontains
      have hsame : graph.insert next snapshot = graph := by
        refine Std.ExtTreeMap.ext_getElem? fun k => Option.ext fun a => ?_
        rw [BTreeMap.get_insert_eq_some_iff]
        by_cases hk : next = k
        · subst hk
          simp [hget]
        · simp [hk]
      rw [loadGraph, if_pos hcontains, workLoop, hgraph next snapshot hget, Except.ok_bind, id,
        if_pos hcontains, hsame, ih hgraph]
  | case4 fuel next pending graph hcontains ih =>
      rw [loadGraph, if_neg hcontains, workLoop]
      cases hread : readSnapshot repo next with
      | error e => rfl
      | ok snapshot =>
          rw [Except.ok_bind, Except.ok_bind, id, if_neg hcontains, ih snapshot]
          intro k snapshot' hget
          rcases BTreeMap.get_insert_eq_some_iff.mp hget with ⟨rfl, rfl⟩ | ⟨-, hget⟩
          · exact hread
          · exact hgraph k snapshot' hget

theorem openEdges_le_passes (snapshots : BTreeMap String Snapshot) :
    openEdges parents snapshots.toList ∅ ≤ passes snapshots := by
  have hall : snapshots.toList.filter (fun p =>
      !(∅ : BTreeMap String Snapshot).contains p.1) = snapshots.toList := by
    simp
  rw [openEdges, hall, passes]
  exact List.sum_le_sum fun _ _ => Nat.le_succ _

/-- The graph that is read from some snapshots holds their ancestors. -/
theorem loadGraph_roots {roots : List String}
    (hcomplete : ∀ id, (∃ root ∈ roots, Ancestor repo id root) →
      ∃ snapshot, readSnapshot repo id = .ok snapshot) :
    ∃ graph, loadGraph repo (passes repo.snapshots + roots.length) roots.reverse ∅ = .ok graph ∧
      ∀ (key : String) (snapshot : Snapshot), graph[key]? = some snapshot ↔
        (∃ root ∈ roots, Ancestor repo key root) ∧ readSnapshot repo key = .ok snapshot := by
  have hall : ∀ (e : String) (a : Snapshot), readSnapshot repo e = .ok a →
      repo.snapshots[id e]? = some a := fun e a hread => (readSnapshot_eq_ok.mp hread).2.1
  obtain ⟨graph, hgraph⟩ : ∃ graph, workLoop id (readSnapshot repo) parents
      (workFuel parents repo.snapshots roots) roots.reverse ∅ = .ok graph :=
    workLoop_isOk hall (fun e he => hcomplete e (reached_iff.mp he)) workInvariant_init
  refine ⟨graph, ?_, fun key snapshot => ?_⟩
  · obtain ⟨more, hmore⟩ : ∃ more, passes repo.snapshots + roots.length =
        workFuel parents repo.snapshots roots + more := by
      have hle := openEdges_le_passes repo.snapshots
      refine ⟨passes repo.snapshots - openEdges parents repo.snapshots.toList ∅, ?_⟩
      rw [workFuel]
      omega
    rw [loadGraph_eq_workLoop (by simp), hmore]
    exact (workLoop_fuel hall more (by simp [workFuel])).trans hgraph
  · rw [((workLoop_eq_ok hall).mp hgraph).2]
    constructor
    · rintro ⟨e, he, rfl, hread⟩
      exact ⟨reached_iff.mp he, hread⟩
    · rintro ⟨hkey, hread⟩
      exact ⟨key, reached_iff.mpr hkey, rfl, hread⟩

/-- The graph of a merge holds the ancestors of the two sides. -/
theorem loadGraph_eq_ok {line incoming : String} (h : SoundHistory repo line incoming) :
    ∃ graph, loadGraph repo (passes repo.snapshots + 2) [incoming, line] ∅ = .ok graph ∧
      ∀ (key : String) (snapshot : Snapshot), graph[key]? = some snapshot ↔
        (Ancestor repo key line ∨ Ancestor repo key incoming) ∧
          readSnapshot repo key = .ok snapshot := by
  have hsides : ∀ key, (∃ root ∈ [line, incoming], Ancestor repo key root) ↔
      Ancestor repo key line ∨ Ancestor repo key incoming := by simp
  simp only [← hsides]
  exact loadGraph_roots fun id hid => h.complete id ((hsides id).mp hid)

/-! ### Ancestors -/

/-- The graph holds a set of snapshots and everything they descend from. -/
structure Holds (repo : Repo) (graph : BTreeMap String Snapshot) : Prop where
  read : ∀ (key : String) (snapshot : Snapshot), graph[key]? = some snapshot →
    readSnapshot repo key = .ok snapshot
  closed : ∀ (key : String) (snapshot : Snapshot), graph[key]? = some snapshot →
    ∀ p ∈ parents snapshot, p ∈ graph

variable {graph : BTreeMap String Snapshot}

/-- The loop of `ancestors` collects the keys of a worklist over the graph. -/
theorem mem_ancestorsLoop {fuel : Nat} {pending : List String} {visited : BTreeSet String}
    {done result : BTreeMap String Snapshot} (hvisited : ∀ k, k ∈ visited ↔ k ∈ done)
    (h : workLoop id (fun k => Except.ofOption graph[k]? ()) parents fuel pending done =
      .ok result) (k : String) :
    k ∈ ancestorsLoop graph fuel pending visited ↔ k ∈ result := by
  induction fuel generalizing pending visited done with
  | zero =>
      cases pending <;> cases h <;> exact hvisited k
  | succ fuel ih =>
      cases pending with
      | nil =>
          cases h
          exact hvisited k
      | cons next pending =>
          rw [workLoop] at h
          obtain ⟨snapshot, hget, h⟩ := Except.bind_eq_ok.mp h
          rw [Except.ofOption_eq_ok] at hget
          have hcontains : visited.contains next = done.contains next := by
            rw [Bool.eq_iff_iff, ← Std.ExtTreeSet.mem_iff_contains,
              ← Std.ExtTreeMap.mem_iff_contains, hvisited]
          rw [ancestorsLoop, hcontains]
          rw [id] at h
          by_cases hseen : done.contains next = true
          · rw [if_pos hseen] at h ⊢
            refine ih (fun k => ?_) h
            rw [hvisited, Std.ExtTreeMap.mem_insert, Std.LawfulEqCmp.compare_eq_iff_eq]
            refine ⟨.inr, ?_⟩
            rintro (rfl | hk)
            · exact Std.ExtTreeMap.mem_iff_contains.mpr hseen
            · exact hk
          · rw [if_neg hseen] at h ⊢
            rw [hget, Option.map_some, Option.getD_some]
            refine ih (fun k => ?_) h
            rw [BTreeSet.mem_insert_iff, Std.ExtTreeMap.mem_insert,
              Std.LawfulEqCmp.compare_eq_iff_eq, hvisited]

/-- `ancestors` of a snapshot of the graph. -/
theorem mem_ancestorsOf (hgraph : Holds repo graph) {root : String} (hroot : root ∈ graph)
    (k : String) : k ∈ ancestorsOf graph root ↔ Ancestor repo k root := by
  have hall : ∀ (e : String) (a : Snapshot), Except.ofOption graph[e]? () = .ok a →
      graph[id e]? = some a := fun e a h => Except.ofOption_eq_ok.mp h
  have hinside : ∀ {key}, Reached (fun k => Except.ofOption graph[k]? ()) parents [root] key →
      key ∈ graph := by
    intro key h
    induction h with
    | root h => exact List.mem_singleton.mp h ▸ hroot
    | step _ hget hparent _ => exact hgraph.closed _ _ (Except.ofOption_eq_ok.mp hget) _ hparent
  have hreached : ∀ {key}, Reached (fun k => Except.ofOption graph[k]? ()) parents [root] key ↔
      Ancestor repo key root := by
    have hroots : ∀ key, Ancestor repo key root ↔ ∃ r ∈ [root], Ancestor repo key r := by simp
    intro key
    rw [hroots, ← reached_iff]
    constructor
    · intro h
      induction h with
      | root h => exact .root h
      | step _ hget hparent ih =>
          exact .step ih (hgraph.read _ _ (Except.ofOption_eq_ok.mp hget)) hparent
    · intro h
      refine h.of_agree (fun e he => ?_) (fun e a hget => ?_)
      · obtain ⟨snapshot, hget⟩ := BTreeMap.mem_iff_get.mp (hinside he)
        exact ⟨snapshot, Except.ofOption_eq_ok.mpr hget⟩
      · exact hgraph.read e a (Except.ofOption_eq_ok.mp hget)
  obtain ⟨result, hresult⟩ : ∃ result, workLoop id (fun k => Except.ofOption graph[k]? ()) parents
      (workFuel parents graph [root]) [root].reverse ∅ = .ok result := by
    refine workLoop_isOk hall (fun e he => ?_) workInvariant_init
    obtain ⟨snapshot, hget⟩ := BTreeMap.mem_iff_get.mp (hinside he)
    exact ⟨snapshot, Except.ofOption_eq_ok.mpr hget⟩
  have hrun : workLoop id (fun k => Except.ofOption graph[k]? ()) parents (passes graph + 1)
      [root] ∅ = .ok result := by
    obtain ⟨more, hmore⟩ : ∃ more, passes graph + 1 = workFuel parents graph [root] + more := by
      have hle := openEdges_le_passes graph
      refine ⟨passes graph - openEdges parents graph.toList ∅, ?_⟩
      rw [workFuel, List.length_singleton]
      omega
    rw [hmore]
    exact (workLoop_fuel hall more (by simp [workFuel])).trans hresult
  rw [ancestorsOf, mem_ancestorsLoop (by simp) hrun, BTreeMap.mem_iff_get]
  simp only [((workLoop_eq_ok hall).mp hresult).2]
  constructor
  · rintro ⟨snapshot, e, he, rfl, -⟩
    exact hreached.mp he
  · intro hk
    have hk := hreached.mpr hk
    obtain ⟨snapshot, hget⟩ := BTreeMap.mem_iff_get.mp (hinside hk)
    exact ⟨snapshot, k, hk, rfl, Except.ofOption_eq_ok.mpr hget⟩

/-! ### The depth-first check -/

/-- `validate_graph` accepts a graph without cycles and repeated parents. -/
theorem validateGraph_eq_ok (hgraph : Holds repo graph)
    (hacyclic : ∀ k ∈ graph, ¬ Relation.TransGen (IsParent repo) k k)
    (hdistinct : ∀ (k : String) (snapshot : Snapshot), graph[k]? = some snapshot →
      (parents snapshot).Nodup) : validateGraph graph = .ok () := by
  have hparent : ∀ {p n}, NamedParent graph p n → IsParent repo p n := by
    rintro p n ⟨snapshot, hget, hp⟩
    exact ⟨snapshot, hgraph.read n snapshot hget, hp⟩
  refine validateGraph_of_valid ⟨?_, hdistinct, fun k hcycle => ?_⟩
  · rintro p n ⟨snapshot, hget, hp⟩
    exact hgraph.closed n snapshot hget p hp
  · obtain ⟨p, -, hlast⟩ := Relation.TransGen.tail'_iff.mp hcycle
    exact hacyclic k (mem_of_namedParent hlast) (Relation.TransGen.mono (fun _ _ => hparent) k k hcycle)

/-! ### The maximal common ancestors -/

/-- A common ancestor of two snapshots. -/
def CommonAncestor (repo : Repo) (line incoming : String) : Set String :=
  {c | Ancestor repo c line ∧ Ancestor repo c incoming}

/-- Erasing some keys, one list after the other. -/
theorem mem_foldl_erase {f : String → List String} {l : List String} {s : BTreeSet String}
    {k : String} :
    k ∈ l.foldl (fun best id => (f id).foldl (fun best parent => best.erase parent) best) s ↔
      k ∈ s ∧ ∀ id ∈ l, k ∉ f id := by
  have hinner : ∀ (ps : List String) (s : BTreeSet String),
      k ∈ ps.foldl (fun best parent => best.erase parent) s ↔ k ∈ s ∧ k ∉ ps := by
    intro ps
    induction ps with
    | nil => simp
    | cons p ps ih =>
        intro s
        rw [List.foldl_cons, ih, BTreeSet.mem_erase_iff, List.mem_cons, not_or]
        constructor
        · rintro ⟨⟨hne, hs⟩, hps⟩
          exact ⟨hs, Ne.symm hne, hps⟩
        · rintro ⟨hs, hne, hps⟩
          exact ⟨⟨Ne.symm hne, hs⟩, hps⟩
  induction l generalizing s with
  | nil => simp
  | cons id l ih =>
      rw [List.foldl_cons, List.forall_mem_cons, ← and_assoc, ← hinner]
      exact ih

variable {line incoming : String}

/-- What `merge_base` keeps are the maximal common ancestors. -/
theorem mem_bestCommon (hgraph : Holds repo graph)
    (hacyclic : ∀ k ∈ graph, ¬ Relation.TransGen (IsParent repo) k k)
    (hinside : ∀ k, Ancestor repo k line → k ∈ graph)
    (hincoming : incoming ∈ graph) (c : String) :
    c ∈ bestCommon graph line incoming ↔
      MaximalIn (IsParent repo) (CommonAncestor repo line incoming) c := by
  have hcommon : ∀ k, k ∈ (ancestorsOf graph line).filter (ancestorsOf graph incoming).contains ↔
      k ∈ CommonAncestor repo line incoming := by
    intro k
    rw [BTreeSet.mem_filter_iff, ← Std.ExtTreeSet.mem_iff_contains,
      mem_ancestorsOf hgraph (hinside line .refl), mem_ancestorsOf hgraph hincoming]
    rfl
  rw [bestCommon, mem_foldl_erase, hcommon, maximalIn_iff]
  · refine and_congr_right fun hc => forall_congr' fun d => ?_
    rw [Std.ExtTreeSet.mem_toList, hcommon]
    refine imp_congr_right fun hd => not_congr ?_
    obtain ⟨snapshot, hget⟩ := BTreeMap.mem_iff_get.mp (hinside d hd.1)
    rw [hget, Option.map_some, Option.getD_some]
    constructor
    · intro hparent
      exact ⟨snapshot, hgraph.read d snapshot hget, hparent⟩
    · rintro ⟨snapshot', hread, hparent⟩
      rw [hgraph.read d snapshot hget] at hread
      cases hread
      exact hparent
  · intro a b e hab hbe he
    exact ⟨.trans hbe he.1, .trans hbe he.2⟩
  · intro a ha
    exact hacyclic a (hinside a ha.1)

/-- The maximal common ancestors of two snapshots. -/
def Base (repo : Repo) (line incoming : String) (c : String) : Prop :=
  MaximalIn (IsParent repo) (CommonAncestor repo line incoming) c

theorem base_comm {c : String} : Base repo incoming line c ↔ Base repo line incoming c := by
  have hset : CommonAncestor repo incoming line = CommonAncestor repo line incoming := by
    ext c
    exact and_comm
  rw [Base, hset, Base]

/-- Every common ancestor is an ancestor of a maximal one. -/
theorem SoundHistory.exists_base (h : SoundHistory repo line incoming) {c : String}
    (hc : c ∈ CommonAncestor repo line incoming) :
    ∃ m, Base repo line incoming m ∧ Ancestor repo c m := by
  obtain ⟨graph, -, hgraph⟩ := loadGraph_eq_ok h
  have hfinite : (CommonAncestor repo line incoming).Finite := by
    refine (graph.keys.finite_toSet).subset fun k hk => ?_
    obtain ⟨snapshot, hread⟩ := h.complete k (.inl hk.1)
    exact Std.ExtTreeMap.mem_keys.mpr
      (BTreeMap.mem_iff_get.mpr ⟨snapshot, (hgraph k snapshot).mpr ⟨.inl hk.1, hread⟩⟩)
  exact exists_maximalIn hfinite (fun k hk => h.acyclic k (.inl hk.1)) hc

/-- The error of a merge with several bases. -/
def multipleBases : CliError :=
  .failure "multiple merge bases require recursive merging; integration was not published"

/-- What `merge_base` does is decided by the maximal common ancestors. -/
theorem mergeBase_cases {incoming : Snapshot} (h : SoundHistory repo line incoming.id)
    (legacyBase : Option String) :
    (∃ c d, Base repo line incoming.id c ∧ Base repo line incoming.id d ∧ c ≠ d ∧
      mergeBase repo (some line) incoming legacyBase = .error multipleBases) ∨
    (∃ b, Base repo line incoming.id b.id ∧ (∀ c, Base repo line incoming.id c → c = b.id) ∧
      readSnapshot repo b.id = .ok b ∧
      mergeBase repo (some line) incoming legacyBase = .ok (some b)) ∨
    (∀ c, ¬ Base repo line incoming.id c) ∧
      mergeBase repo (some line) incoming legacyBase = readOptionalSnapshot repo legacyBase := by
  obtain ⟨graph, hload, hget⟩ := loadGraph_eq_ok h
  have hmem : ∀ {k}, Ancestor repo k line ∨ Ancestor repo k incoming.id → k ∈ graph := by
    intro k hk
    obtain ⟨snapshot, hread⟩ := h.complete k hk
    exact BTreeMap.mem_iff_get.mpr ⟨snapshot, (hget k snapshot).mpr ⟨hk, hread⟩⟩
  have hof : ∀ {k}, k ∈ graph → Ancestor repo k line ∨ Ancestor repo k incoming.id := by
    intro k hk
    obtain ⟨snapshot, hk⟩ := BTreeMap.mem_iff_get.mp hk
    exact ((hget k snapshot).mp hk).1
  have hholds : Holds repo graph := by
    refine ⟨fun k snapshot hk => ((hget k snapshot).mp hk).2, fun k snapshot hk p hp => ?_⟩
    obtain ⟨hreach, hread⟩ := (hget k snapshot).mp hk
    have hparent : IsParent repo p k := ⟨snapshot, hread, hp⟩
    exact hmem (hreach.imp (.head hparent) (.head hparent))
  have hacyclic : ∀ k ∈ graph, ¬ Relation.TransGen (IsParent repo) k k :=
    fun k hk => h.acyclic k (hof hk)
  have hvalid : validateGraph graph = .ok () := by
    refine validateGraph_eq_ok hholds hacyclic fun k snapshot hk => ?_
    obtain ⟨hreach, hread⟩ := (hget k snapshot).mp hk
    exact h.distinct k snapshot hreach hread
  have hbest : ∀ c, c ∈ (bestCommon graph line incoming.id).toList ↔
      Base repo line incoming.id c := by
    intro c
    rw [Std.ExtTreeSet.mem_toList]
    exact mem_bestCommon hholds hacyclic (fun k hk => hmem (.inl hk)) (hmem (.inr .refl)) c
  have hnodup : (bestCommon graph line incoming.id).toList.Nodup :=
    Std.ExtTreeSet.distinct_toList.imp compare_ne_eq_iff.mp
  rw [mergeBase, hload, Except.ok_bind, hvalid, Except.ok_bind]
  generalize (bestCommon graph line incoming.id).toList = best at hbest hnodup
  match best with
  | [] => exact .inr (.inr ⟨fun c hc => List.not_mem_nil ((hbest c).mpr hc), rfl⟩)
  | [c] =>
      have hc := (hbest c).mp (List.mem_singleton_self c)
      obtain ⟨b, hb⟩ := BTreeMap.mem_iff_get.mp (hmem (.inl hc.1.1))
      have hread := hholds.read c b hb
      have hid : b.id = c := (readSnapshot_eq_ok.mp hread).2.2
      refine .inr (.inl ⟨b, hid ▸ hc, fun d hd => ?_, hid ▸ hread, congrArg _ hb⟩)
      exact hid ▸ List.mem_singleton.mp ((hbest d).mpr hd)
  | c :: d :: rest =>
      refine .inl ⟨c, d, (hbest c).mp (by simp), (hbest d).mp (by simp), ?_, rfl⟩
      rintro rfl
      simp at hnodup

/-- Merges with the same maximal common ancestors have the same outcome. -/
theorem mergeBase_congr {line' : String} {incoming incoming' : Snapshot}
    {legacyBase legacyBase' : Option String} (h : SoundHistory repo line incoming.id)
    (h' : SoundHistory repo line' incoming'.id)
    (hsame : ∀ c, Base repo line' incoming'.id c ↔ Base repo line incoming.id c)
    (hlegacy : (∀ c, ¬ Base repo line incoming.id c) → legacyBase' = legacyBase) :
    mergeBase repo (some line') incoming' legacyBase' =
      mergeBase repo (some line) incoming legacyBase := by
  have hcases' := mergeBase_cases h' legacyBase'
  simp only [hsame] at hcases'
  rcases mergeBase_cases h legacyBase with
    ⟨c, d, hc, hd, hne, hrun⟩ | ⟨b, hb, hunique, hread, hrun⟩ | ⟨hnone, hrun⟩
  · rcases hcases' with ⟨-, -, -, -, -, hrun'⟩ | ⟨b, -, hunique, -⟩ | ⟨hnone, -⟩
    · rw [hrun, hrun']
    · exact absurd ((hunique c hc).trans (hunique d hd).symm) hne
    · exact absurd hc (hnone c)
  · rcases hcases' with ⟨c, d, hc, hd, hne, -⟩ | ⟨b', hb', -, hread', hrun'⟩ | ⟨hnone, -⟩
    · exact absurd ((hunique c hc).trans (hunique d hd).symm) hne
    · rw [hunique b'.id hb', hread] at hread'
      rw [hrun, hrun', Except.ok.inj hread']
    · exact absurd hb (hnone b.id)
  · rcases hcases' with ⟨c, -, hc, -⟩ | ⟨b, hb, -⟩ | ⟨-, hrun'⟩
    · exact absurd hc (hnone c)
    · exact absurd hb (hnone b.id)
    · rw [hrun, hrun', hlegacy hnone]

/-- **The base of a merge.**  In a history that can be read, without cycles and
without a parent named twice: when the two sides have a common ancestor, a
base is found exactly when there is one maximal common ancestor, every common
ancestor is then an ancestor of the base, and several maximal ones are
refused.  The legacy base is only used without a common ancestor, and the two
sides can be exchanged. -/
theorem mergeBase_spec (repo : Repo) (line : String) (incoming : Snapshot)
    (legacyBase : Option String) (h : SoundHistory repo line incoming.id) :
    ((CommonAncestor repo line incoming.id).Nonempty →
      ((∃ b, mergeBase repo (some line) incoming legacyBase = .ok (some b)) ↔
        ∃! c, Base repo line incoming.id c) ∧
      (∀ b, mergeBase repo (some line) incoming legacyBase = .ok (some b) →
        b.id ∈ CommonAncestor repo line incoming.id ∧ readSnapshot repo b.id = .ok b ∧
          ∀ c ∈ CommonAncestor repo line incoming.id, Ancestor repo c b.id) ∧
      ((∃ e, mergeBase repo (some line) incoming legacyBase = .error e) ↔
        ∃ c d, Base repo line incoming.id c ∧ Base repo line incoming.id d ∧ c ≠ d) ∧
      ∀ other, mergeBase repo (some line) incoming other =
        mergeBase repo (some line) incoming legacyBase) ∧
    (¬ (CommonAncestor repo line incoming.id).Nonempty →
      mergeBase repo (some line) incoming legacyBase = readOptionalSnapshot repo legacyBase) ∧
    ∀ other : Snapshot, other.id = line →
      mergeBase repo (some incoming.id) other legacyBase =
        mergeBase repo (some line) incoming legacyBase := by
  refine ⟨fun hcommon => ?_, fun hnone => ?_, fun other hother => ?_⟩
  · obtain ⟨c₀, hc₀⟩ := hcommon
    obtain ⟨m, hm, -⟩ := h.exists_base hc₀
    refine ⟨?_, fun b hb => ?_, ?_, fun other => ?_⟩
    · rcases mergeBase_cases h legacyBase with
        ⟨c, d, hc, hd, hne, hrun⟩ | ⟨b, hb, hunique, -, hrun⟩ | ⟨hnone, -⟩
      · simp only [hrun, reduceCtorEq, exists_false, false_iff]
        intro hunique
        exact hne (hunique.unique hc hd)
      · exact ⟨fun _ => ⟨b.id, hb, hunique⟩, fun _ => ⟨b, hrun⟩⟩
      · exact absurd hm (hnone m)
    · rcases mergeBase_cases h legacyBase with
        ⟨-, -, -, -, -, hrun⟩ | ⟨b', hb', hunique, hread, hrun⟩ | ⟨hnone, -⟩
      · rw [hrun] at hb
        cases hb
      · rw [hrun] at hb
        cases hb
        refine ⟨hb'.1, hread, fun c hc => ?_⟩
        obtain ⟨d, hd, hcd⟩ := h.exists_base hc
        exact hunique d hd ▸ hcd
      · exact absurd hm (hnone m)
    · rcases mergeBase_cases h legacyBase with
        ⟨c, d, hc, hd, hne, hrun⟩ | ⟨b, -, hunique, -, hrun⟩ | ⟨hnone, -⟩
      · exact ⟨fun _ => ⟨c, d, hc, hd, hne⟩, fun _ => ⟨_, hrun⟩⟩
      · simp only [hrun, reduceCtorEq, exists_false, false_iff]
        rintro ⟨c, d, hc, hd, hne⟩
        exact hne ((hunique c hc).trans (hunique d hd).symm)
      · exact absurd hm (hnone m)
    · exact mergeBase_congr h h (fun _ => Iff.rfl) fun hnone => absurd hm (hnone m)
  · rcases mergeBase_cases h legacyBase with ⟨c, -, hc, -⟩ | ⟨b, hb, -⟩ | ⟨-, hrun⟩
    · exact absurd ⟨c, hc.1⟩ hnone
    · exact absurd ⟨b.id, hb.1⟩ hnone
    · exact hrun
  · subst hother
    exact mergeBase_congr h h.symm (fun _ => base_comm) fun _ => rfl

end Bases

/-! ### Two snapshots -/

/-- The second snapshot, with some merge parents next to the first one. -/
def childSnapshot (mergeParents : List String) : Snapshot :=
  { portableSide "snap_000000000002" "b" with
    parentSnapshot := some "snap_000000000001"
    mergeParents := mergeParents }

/-- The line is the first snapshot, and the second one descends from it. -/
def childRepo (mergeParents : List String) : Repo :=
  { portableRepo "a" "b" with
    snapshots := ((∅ : BTreeMap String Snapshot).insert "snap_000000000001"
      (portableSide "snap_000000000001" "a")).insert "snap_000000000002"
      (childSnapshot mergeParents) }

section Child

variable {mergeParents : List String}

theorem readSnapshot_childRepo {id : String} {snapshot : Snapshot}
    (hread : readSnapshot (childRepo mergeParents) id = .ok snapshot) :
    (id = "snap_000000000001" ∧ snapshot = portableSide "snap_000000000001" "a") ∨
      (id = "snap_000000000002" ∧ snapshot = childSnapshot mergeParents) := by
  obtain ⟨-, hget, -⟩ := readSnapshot_eq_ok.mp hread
  rcases BTreeMap.get_insert_eq_some_iff.mp hget with ⟨rfl, rfl⟩ | ⟨-, hget⟩
  · exact .inr ⟨rfl, rfl⟩
  · rcases BTreeMap.get_insert_eq_some_iff.mp hget with ⟨rfl, rfl⟩ | ⟨-, hget⟩
    · exact .inl ⟨rfl, rfl⟩
    · simp at hget

theorem readSnapshot_childRepo_first (mergeParents : List String) :
    readSnapshot (childRepo mergeParents) "snap_000000000001" =
      .ok (portableSide "snap_000000000001" "a") := by
  refine readSnapshot_eq_ok.mpr ⟨by decide, ?_, rfl⟩
  refine BTreeMap.get_insert_eq_some_iff.mpr (.inr ⟨by decide, ?_⟩)
  exact BTreeMap.get_insert_eq_some_iff.mpr (.inl ⟨rfl, rfl⟩)

theorem readSnapshot_childRepo_second (mergeParents : List String) :
    readSnapshot (childRepo mergeParents) "snap_000000000002" =
      .ok (childSnapshot mergeParents) :=
  readSnapshot_eq_ok.mpr
    ⟨by decide, BTreeMap.get_insert_eq_some_iff.mpr (.inl ⟨rfl, rfl⟩), rfl⟩

/-- The only edge of the history. -/
theorem isParent_childRepo (h : ∀ p ∈ mergeParents, p = "snap_000000000001") {p n : String} :
    IsParent (childRepo mergeParents) p n ↔
      p = "snap_000000000001" ∧ n = "snap_000000000002" := by
  constructor
  · rintro ⟨snapshot, hread, hp⟩
    rcases readSnapshot_childRepo hread with ⟨-, rfl⟩ | ⟨rfl, rfl⟩
    · cases hp
    · rcases List.mem_cons.mp hp with rfl | hp
      · exact ⟨rfl, rfl⟩
      · exact ⟨h p hp, rfl⟩
  · rintro ⟨rfl, rfl⟩
    exact ⟨_, readSnapshot_childRepo_second mergeParents, List.mem_cons_self⟩

theorem ancestor_childRepo (h : ∀ p ∈ mergeParents, p = "snap_000000000001") {a n : String} :
    Ancestor (childRepo mergeParents) a n ↔
      a = n ∨ (a = "snap_000000000001" ∧ n = "snap_000000000002") := by
  constructor
  · intro hpath
    rcases Relation.ReflTransGen.cases_head hpath with rfl | ⟨b, hab, hrest⟩
    · exact .inl rfl
    · obtain ⟨rfl, rfl⟩ := (isParent_childRepo h).mp hab
      rcases Relation.ReflTransGen.cases_head hrest with rfl | ⟨c, hbc, -⟩
      · exact .inr ⟨rfl, rfl⟩
      · exact absurd ((isParent_childRepo h).mp hbc).1 (by decide)
  · rintro (rfl | hedge)
    · exact .refl
    · exact .single ((isParent_childRepo h).mpr hedge)

theorem childRepo_acyclic (h : ∀ p ∈ mergeParents, p = "snap_000000000001") (id : String) :
    ¬ Relation.TransGen (IsParent (childRepo mergeParents)) id id := by
  intro hcycle
  obtain ⟨next, hedge, hrest⟩ := Relation.TransGen.head'_iff.mp hcycle
  obtain ⟨rfl, rfl⟩ := (isParent_childRepo h).mp hedge
  rcases (ancestor_childRepo h).mp hrest with heq | ⟨heq, -⟩
  · exact absurd heq (by decide)
  · exact absurd heq (by decide)

theorem childRepo_complete (h : ∀ p ∈ mergeParents, p = "snap_000000000001") (id : String)
    (hid : Ancestor (childRepo mergeParents) id "snap_000000000001" ∨
      Ancestor (childRepo mergeParents) id "snap_000000000002") :
    ∃ snapshot, readSnapshot (childRepo mergeParents) id = .ok snapshot := by
  have hends : id = "snap_000000000001" ∨ id = "snap_000000000002" := by
    simp only [ancestor_childRepo h] at hid
    tauto
  rcases hends with rfl | rfl
  · exact ⟨_, readSnapshot_childRepo_first mergeParents⟩
  · exact ⟨_, readSnapshot_childRepo_second mergeParents⟩

/-- The first snapshot is the only base. -/
theorem base_childRepo (h : ∀ p ∈ mergeParents, p = "snap_000000000001") {c : String} :
    Base (childRepo mergeParents) "snap_000000000001" "snap_000000000002" c ↔
      c = "snap_000000000001" := by
  have hcommon : ∀ d, d ∈ CommonAncestor (childRepo mergeParents) "snap_000000000001"
      "snap_000000000002" ↔ d = "snap_000000000001" := by
    intro d
    rw [CommonAncestor, Set.mem_ofPred_eq, ancestor_childRepo h, ancestor_childRepo h]
    constructor
    · rintro ⟨hd | ⟨-, hne⟩, -⟩
      · exact hd
      · exact absurd hne (by decide)
    · rintro rfl
      exact ⟨.inl rfl, .inr ⟨rfl, rfl⟩⟩
  constructor
  · intro hbase
    exact (hcommon c).mp hbase.1
  · rintro rfl
    exact ⟨(hcommon _).mpr rfl, fun d hd _ => (hcommon d).mp hd⟩

theorem soundHistory_childRepo :
    SoundHistory (childRepo []) "snap_000000000001" "snap_000000000002" := by
  have hnone : ∀ p ∈ ([] : List String), p = "snap_000000000001" := nofun
  refine ⟨childRepo_complete hnone, fun id _ => childRepo_acyclic hnone id, ?_⟩
  intro id snapshot _ hread
  rcases readSnapshot_childRepo hread with ⟨-, rfl⟩ | ⟨-, rfl⟩
  · exact List.nodup_nil
  · exact List.nodup_singleton _

end Child

theorem mergeBase_spec_child :
    SoundHistory (childRepo []) "snap_000000000001" (childSnapshot []).id ∧
      mergeBase (childRepo []) (some "snap_000000000001") (childSnapshot []) none =
        .ok (some (portableSide "snap_000000000001" "a")) := by
  have hnone : ∀ p ∈ ([] : List String), p = "snap_000000000001" := nofun
  refine ⟨soundHistory_childRepo, ?_⟩
  have hbase := (base_childRepo hnone).mpr rfl
  obtain ⟨hunique, hleast, -⟩ := (mergeBase_spec (childRepo []) "snap_000000000001"
    (childSnapshot []) none soundHistory_childRepo).1 ⟨_, hbase.1⟩
  obtain ⟨b, hb⟩ := hunique.mpr ⟨_, hbase, fun c hc => (base_childRepo hnone).mp hc⟩
  obtain ⟨hcommon, hread, -⟩ := hleast b hb
  have hid : b.id = "snap_000000000001" := by
    rcases (ancestor_childRepo hnone).mp hcommon.1 with hid | ⟨hid, -⟩ <;> exact hid
  rw [hid, readSnapshot_childRepo_first] at hread
  rw [hb, Except.ok.inj hread]

/-- The second snapshot names the first one twice: the history has no cycle and
one maximal common ancestor, but no base is returned. -/
theorem mergeBase_repeated_parent :
    (∀ id, Ancestor (childRepo ["snap_000000000001"]) id "snap_000000000001" ∨
        Ancestor (childRepo ["snap_000000000001"]) id "snap_000000000002" →
      ∃ snapshot, readSnapshot (childRepo ["snap_000000000001"]) id = .ok snapshot) ∧
    (∀ id, ¬ Relation.TransGen (IsParent (childRepo ["snap_000000000001"])) id id) ∧
    readSnapshot (childRepo ["snap_000000000001"]) "snap_000000000002" =
      .ok (childSnapshot ["snap_000000000001"]) ∧
    (∃! c, Base (childRepo ["snap_000000000001"]) "snap_000000000001" "snap_000000000002" c) ∧
    mergeBase (childRepo ["snap_000000000001"]) (some "snap_000000000001")
        (childSnapshot ["snap_000000000001"]) none =
      .error (.failure "snapshot has duplicate parents") := by
  have hone : ∀ p ∈ ["snap_000000000001"], p = "snap_000000000001" :=
    fun p hp => List.mem_singleton.mp hp
  refine ⟨childRepo_complete hone, childRepo_acyclic hone, readSnapshot_childRepo_second _,
    ⟨_, (base_childRepo hone).mpr rfl, fun c hc => (base_childRepo hone).mp hc⟩, ?_⟩
  decide

end RGit.Cli
