/-
RGit/Store/Ancestry.lean

The history of snapshots and of operations in a store.

`generation` and `is_reachable` collect the ancestors of an object and build
a graph of them.  The graph is a part of the store that holds the parents of
what it holds (`ClosedPart`), so what is true of its paths is true of the
paths in the store; and calls that quarantine nothing change no answer, for
the part stays the same (`ancestryClosure_mono`).
-/
import RGit.Graph.Ancestors
import RGit.Store.Lines

namespace RGit

open MemoryStore Relation

/-- The object stored as `n` has the kind, and names `p` as a parent. -/
def KindParent (s : MemorySnapshot) (kind : ObjectKind) (p n : ObjectId) : Prop :=
  ∃ o role, visibleObject s n = .ok o ∧ o.kind = kind ∧ parentRole kind = some role ∧
    p ∈ parentIds role o

/-- The nodes of the graph of a kind. -/
def kindNodes (closure : BTreeMap ObjectId StoredObject) (kind : ObjectKind)
    (role : ReferenceRole) : List (GraphNode ObjectId) :=
  (closure.values.filter fun object => object.kind = kind).map fun object =>
    ⟨object.id, parentIds role object⟩

/-! ### The graph of a part of the store -/

/-- A part of the store that holds the parents of what it holds. -/
structure ClosedPart (s : MemorySnapshot) (kind : ObjectKind)
    (objects : BTreeMap ObjectId StoredObject) : Prop where
  stored : ∀ (id : ObjectId) (o : StoredObject), objects[id]? = some o → visibleObject s id = .ok o
  parents : ∀ p n, n ∈ objects → KindParent s kind p n →
    ∃ o, objects[p]? = some o ∧ o.kind = kind

section Graphs

variable [Unicode] [Hashes] {s : MemorySnapshot} {objects : BTreeMap ObjectId StoredObject}
  {kind : ObjectKind} {role : ReferenceRole}

omit [Unicode] [Hashes] in
theorem graph_eq_ok (hrole : parentRole kind = some role) {g : GraphIndex ObjectId} :
    graph objects kind = .ok g ↔ GraphIndex.build (kindNodes objects kind role) = .ok g := by
  simp only [graph, hrole, Except.ofOption, Except.ok_bind, Except.mapError_eq_ok, kindNodes]

/-- An object is stored under its own identifier. -/
theorem SoundSnapshot.id_eq (hsound : SoundSnapshot s) {id : ObjectId} {o : StoredObject}
    (h : visibleObject s id = .ok o) : o.id = id :=
  (MemoryStore.decode_eq_ok.mp (hsound.decoded id o (visibleObject_eq_ok.mp h).2)).2.2.2.1

namespace ClosedPart

theorem mem_kindNodes (hsound : SoundSnapshot s) (h : ClosedPart s kind objects)
    {node : GraphNode ObjectId} :
    node ∈ kindNodes objects kind role ↔
      ∃ o, objects[node.id]? = some o ∧ o.kind = kind ∧ node.parents = parentIds role o := by
  simp only [kindNodes, List.mem_map, List.mem_filter, decide_eq_true_eq,
    BTreeMap.mem_values_iff]
  constructor
  · rintro ⟨o, ⟨⟨id, ho⟩, hkind⟩, rfl⟩
    obtain rfl := hsound.id_eq (h.stored id o ho)
    exact ⟨o, ho, hkind, rfl⟩
  · rintro ⟨o, ho, hkind, hparents⟩
    refine ⟨o, ⟨⟨node.id, ho⟩, hkind⟩, ?_⟩
    obtain ⟨id, parents⟩ := node
    rw [hsound.id_eq (h.stored id o ho), ← hparents]

theorem mem_ids (hsound : SoundSnapshot s) (h : ClosedPart s kind objects) {n : ObjectId} :
    n ∈ (kindNodes objects kind role).map (·.id) ↔ ∃ o, objects[n]? = some o ∧ o.kind = kind := by
  rw [List.mem_map]
  constructor
  · rintro ⟨node, hnode, rfl⟩
    obtain ⟨o, ho, hkind, -⟩ := (h.mem_kindNodes hsound).mp hnode
    exact ⟨o, ho, hkind⟩
  · rintro ⟨o, ho, hkind⟩
    exact ⟨⟨n, parentIds role o⟩, (h.mem_kindNodes hsound).mpr ⟨o, ho, hkind, rfl⟩, rfl⟩

/-- Each node is there once. -/
theorem nodup_kindNodes (hsound : SoundSnapshot s) (h : ClosedPart s kind objects) :
    ((kindNodes objects kind role).map (·.id)).Nodup := by
  have hkeys : objects.values.map (·.id) = objects.toList.map (·.1) := by
    rw [BTreeMap.values_eq_map_toList, List.map_map]
    refine List.map_congr_left fun e he => ?_
    exact hsound.id_eq (h.stored e.1 e.2 (BTreeMap.mem_toList_iff_get.mp he))
  have hall : (objects.values.map (·.id)).Nodup := hkeys ▸ objects.nodup_keys
  rw [kindNodes, List.map_map]
  exact hall.sublist (List.filter_sublist.map _)

omit [Unicode] [Hashes] in
theorem length_kindNodes_le (h : ClosedPart s kind objects) :
    (kindNodes objects kind role).length ≤ s.objects.size := by
  have hsubset : objects.keys ⊆ s.objects.keys := by
    intro id hid
    obtain ⟨o, ho⟩ := BTreeMap.mem_iff_get.mp (Std.ExtTreeMap.mem_keys.mp hid)
    exact Std.ExtTreeMap.mem_keys.mpr
      (BTreeMap.mem_iff_get.mpr ⟨o, (visibleObject_eq_ok.mp (h.stored id o ho)).2⟩)
  have hnodup : objects.keys.Nodup := objects.distinct_keys.imp compare_ne_eq_iff.mp
  calc (kindNodes objects kind role).length
      = (objects.values.filter fun object => object.kind = kind).length := List.length_map _
    _ ≤ objects.values.length := List.length_filter_le _ _
    _ = objects.keys.length := by
        rw [BTreeMap.values_eq_map_toList, ← Std.ExtTreeMap.map_fst_toList_eq_keys,
          List.length_map, List.length_map]
    _ ≤ s.objects.keys.length := (List.Nodup.subperm hnodup hsubset).length_le
    _ = s.objects.size := Std.ExtTreeMap.length_keys

/-- The nodes name the parents that the stored objects name. -/
theorem namesParent_iff (hsound : SoundSnapshot s) (h : ClosedPart s kind objects)
    (hrole : parentRole kind = some role) {p n : ObjectId} :
    NamesParent (kindNodes objects kind role) p n ↔ n ∈ objects ∧ KindParent s kind p n := by
  constructor
  · rintro ⟨node, hnode, rfl, hp⟩
    obtain ⟨o, ho, hkind, hparents⟩ := (h.mem_kindNodes hsound).mp hnode
    exact ⟨BTreeMap.mem_iff_get.mpr ⟨o, ho⟩, o, role, h.stored _ o ho, hkind, hrole,
      hparents ▸ hp⟩
  · rintro ⟨hn, o, role', hvisible, hkind, hrole', hp⟩
    obtain rfl := Option.some.inj (hrole.symm.trans hrole')
    obtain ⟨o', ho'⟩ := BTreeMap.mem_iff_get.mp hn
    obtain rfl := Except.ok.inj (hvisible.symm.trans (h.stored n o' ho'))
    exact ⟨⟨n, parentIds role o⟩, (h.mem_kindNodes hsound).mpr ⟨o, ho', hkind, rfl⟩, rfl, hp⟩

/-- The history of what is in the part is all in the graph. -/
theorem agreeAbove (hsound : SoundSnapshot s) (h : ClosedPart s kind objects)
    (hrole : parentRole kind = some role) {n : ObjectId} (hn : n ∈ objects) :
    AgreeAbove (KindParent s kind) (NamesParent (kindNodes objects kind role)) n := by
  intro m hpath p
  have hm : m ∈ objects := by
    induction hpath using ReflTransGen.head_induction_on with
    | refl => exact hn
    | head hstep _ ih =>
        obtain ⟨o, ho, -⟩ := h.parents _ _ ih hstep
        exact BTreeMap.mem_iff_get.mpr ⟨o, ho⟩
  rw [h.namesParent_iff hsound hrole, and_iff_right hm]

/-- **The graph of a kind can be built** exactly when the history of the part
has no cycle. -/
theorem graph_isOk_iff (hsound : SoundSnapshot s) (hsize : s.objects.size < 2 ^ 64)
    (h : ClosedPart s kind objects) (hrole : parentRole kind = some role) :
    (∃ g, graph objects kind = .ok g) ↔ ∀ n ∈ objects, ¬ TransGen (KindParent s kind) n n := by
  simp only [graph_eq_ok hrole]
  rw [build_isOk_iff (h.length_kindNodes_le.trans_lt hsize)]
  constructor
  · rintro ⟨-, -, hacyclic⟩ n hn hcycle
    exact hacyclic n ((h.agreeAbove hsound hrole hn).transGen_iff.mp hcycle)
  · intro hacyclic
    refine ⟨h.nodup_kindNodes hsound, fun node hnode p hp => ?_, fun n hcycle => ?_⟩
    · obtain ⟨hn, hparent⟩ :=
        (h.namesParent_iff hsound hrole).mp ⟨node, hnode, rfl, hp⟩
      exact (h.mem_ids hsound).mpr (h.parents p node.id hn hparent)
    · obtain ⟨q, -, hlast⟩ := TransGen.tail'_iff.mp hcycle
      obtain ⟨hn, -⟩ := (h.namesParent_iff hsound hrole).mp hlast
      exact hacyclic n hn ((h.agreeAbove hsound hrole hn).transGen_iff.mpr hcycle)

end ClosedPart

end Graphs

/-! ### Collecting the ancestors -/

section Ancestry

variable {s t : MemorySnapshot} {kind : ObjectKind} {role : ReferenceRole} {root : ObjectId}
  {objects : BTreeMap ObjectId StoredObject}

/-- Whatever is visible in one snapshot is so in the other. -/
def SeesMore (s t : MemorySnapshot) : Prop :=
  ∀ (id : ObjectId) (o : StoredObject), visibleObject s id = .ok o → visibleObject t id = .ok o

theorem SeesMore.of_eq (hobjects : s.objects = t.objects) (hquarantined : s.quarantined = t.quarantined) :
    SeesMore s t := by
  intro id o h
  rw [visibleObject_eq_ok] at h ⊢
  rwa [← hobjects, ← hquarantined]

theorem ancestryCheck_eq_ok {o : StoredObject} :
    ancestryCheck s kind root = .ok o ↔ visibleObject s root = .ok o ∧ o.kind = kind := by
  simp only [ancestryCheck, Except.bind_eq_ok, Except.ite_error_eq_ok, not_not, ne_eq,
    Except.ok.injEq]
  constructor
  · rintro ⟨o', hvisible, hkind, rfl⟩
    exact ⟨hvisible, hkind⟩
  · rintro ⟨hvisible, hkind⟩
    exact ⟨o, hvisible, hkind, rfl⟩

theorem ancestryCheck_stored (e : ObjectId) (o : StoredObject) (h : ancestryCheck s kind e = .ok o) :
    s.objects[id e]? = some o := (visibleObject_eq_ok.mp (ancestryCheck_eq_ok.mp h).1).2

/-- What is reached from an object are its ancestors. -/
theorem reached_iff_ancestor (hrole : parentRole kind = some role) {p : ObjectId} :
    Reached (ancestryCheck s kind) (parentIds role) [root] p ↔ ReflTransGen (KindParent s kind) p root := by
  constructor
  · intro h
    induction h with
    | root hroot =>
        rw [List.mem_singleton] at hroot
        rw [hroot]
    | step _ ho hp ih =>
        obtain ⟨hvisible, hkind⟩ := ancestryCheck_eq_ok.mp ho
        exact .head ⟨_, role, hvisible, hkind, hrole, hp⟩ ih
  · intro h
    induction h using ReflTransGen.head_induction_on with
    | refl => exact .root List.mem_cons_self
    | head hstep _ ih =>
        obtain ⟨o, role', hvisible, hkind, hrole', hp⟩ := hstep
        obtain rfl := Option.some.inj (hrole.symm.trans hrole')
        exact .step ih (ancestryCheck_eq_ok.mpr ⟨hvisible, hkind⟩) hp

/-- **What `ancestry_closure` collects**: the ancestors of an object, when all
of them are visible and of the kind. -/
theorem ancestryClosure_eq_ok (hrole : parentRole kind = some role) :
    ancestryClosure s [root] kind = .ok objects ↔
      (∀ p, ReflTransGen (KindParent s kind) p root →
        ∃ o, visibleObject s p = .ok o ∧ o.kind = kind) ∧
      ∀ (k : ObjectId) (o : StoredObject), objects[k]? = some o ↔
        ReflTransGen (KindParent s kind) k root ∧ visibleObject s k = .ok o ∧ o.kind = kind := by
  rw [ancestryClosure, hrole, Except.ofOption, Except.ok_bind,
    workLoop_eq_ok ancestryCheck_stored]
  simp only [reached_iff_ancestor hrole, ancestryCheck_eq_ok]
  refine and_congr_right fun _ => forall_congr' fun k => forall_congr' fun o => ?_
  refine iff_congr Iff.rfl ?_
  constructor
  · rintro ⟨e, he, rfl, ho⟩
    exact ⟨he, ho⟩
  · rintro ⟨hk, ho⟩
    exact ⟨k, hk, rfl, ho⟩

theorem ancestryClosure_isOk_iff (hrole : parentRole kind = some role) :
    (∃ objects, ancestryClosure s [root] kind = .ok objects) ↔
      ∀ p, ReflTransGen (KindParent s kind) p root →
        ∃ o, visibleObject s p = .ok o ∧ o.kind = kind := by
  constructor
  · rintro ⟨objects, h⟩
    exact ((ancestryClosure_eq_ok hrole).mp h).1
  · intro hvisible
    rw [ancestryClosure, hrole]
    refine workLoop_isOk ancestryCheck_stored (fun e he => ?_) workInvariant_init
    obtain ⟨o, ho⟩ := hvisible e ((reached_iff_ancestor hrole).mp he)
    exact ⟨o, ancestryCheck_eq_ok.mpr ho⟩

theorem closedPart_of_ancestryClosure (hrole : parentRole kind = some role)
    (h : ancestryClosure s [root] kind = .ok objects) : ClosedPart s kind objects := by
  obtain ⟨hvisible, hget⟩ := (ancestryClosure_eq_ok hrole).mp h
  refine ⟨fun k o ho => ((hget k o).mp ho).2.1, fun p n hn hp => ?_⟩
  obtain ⟨o, ho⟩ := BTreeMap.mem_iff_get.mp hn
  have hpath : ReflTransGen (KindParent s kind) p root := .head hp ((hget n o).mp ho).1
  obtain ⟨parent, hparent, hkind⟩ := hvisible p hpath
  exact ⟨parent, (hget p parent).mpr ⟨hpath, hparent, hkind⟩, hkind⟩

/-- The same ancestors are collected from a store that shows more. -/
theorem ancestryClosure_mono (h : SeesMore s t) {roots : List ObjectId}
    (hclosure : ancestryClosure s roots kind = .ok objects) :
    ancestryClosure t roots kind = .ok objects := by
  rw [ancestryClosure] at hclosure ⊢
  obtain ⟨role, hrole, hloop⟩ := Except.bind_eq_ok.mp hclosure
  rw [hrole, Except.ok_bind]
  refine workLoop_mono ancestryCheck_stored ancestryCheck_stored (fun e o ho => ?_) hloop
  obtain ⟨hvisible, hkind⟩ := ancestryCheck_eq_ok.mp ho
  exact ancestryCheck_eq_ok.mpr ⟨h e o hvisible, hkind⟩

/-- A generation that can be computed stays the same when more is visible. -/
theorem generation_mono (h : SeesMore s t) {id : ObjectId} {g : UInt64}
    (hg : generation s id = .ok g) : generation t id = .ok g := by
  simp only [generation, Except.bind_eq_ok] at hg ⊢
  obtain ⟨o, ho, objects, hobjects, index, hindex, hg⟩ := hg
  exact ⟨o, h id o ho, objects, ancestryClosure_mono h hobjects, index, hindex, hg⟩

/-- And so does an answer about reachability. -/
theorem isReachable_mono (h : SeesMore s t) {a d : ObjectId} {answer : Bool}
    (hreach : isReachable s a d = .ok answer) : isReachable t a d = .ok answer := by
  simp only [isReachable, Except.bind_eq_ok, Except.ite_error_eq_ok] at hreach ⊢
  obtain ⟨o, ho, o', ho', hkind, objects, hobjects, hanswer⟩ := hreach
  exact ⟨o, h a o ho, o', h d o' ho', hkind, objects, ancestryClosure_mono h hobjects, hanswer⟩

theorem generation_toOption_congr (h : SeesMore s t) (h' : SeesMore t s) (id : ObjectId) :
    (generation s id).toOption = (generation t id).toOption := by
  cases hs : generation s id with
  | ok g => rw [generation_mono h hs]
  | error e =>
      cases ht : generation t id with
      | ok g =>
          rw [generation_mono h' ht] at hs
          cases hs
      | error e' => rfl

theorem generation_isOk_congr (h : SeesMore s t) (h' : SeesMore t s) (id : ObjectId) :
    (generation s id).isOk = (generation t id).isOk := by
  have hoption := generation_toOption_congr h h' id
  revert hoption
  cases generation s id <;> cases generation t id <;>
    simp [Except.toOption, Except.isOk, Except.toBool]

end Ancestry

/-! ### The queries -/

/-- Every ancestor of an object is visible and of the kind, and none is above
itself. -/
structure SoundAncestry (s : MemorySnapshot) (kind : ObjectKind) (root : ObjectId) : Prop where
  visible : ∀ p, ReflTransGen (KindParent s kind) p root →
    ∃ o, visibleObject s p = .ok o ∧ o.kind = kind
  acyclic : ∀ p, ReflTransGen (KindParent s kind) p root → ¬ TransGen (KindParent s kind) p p

theorem SoundAncestry.of_path {s : MemorySnapshot} {kind : ObjectKind} {a root : ObjectId}
    (h : SoundAncestry s kind root) (hpath : ReflTransGen (KindParent s kind) a root) :
    SoundAncestry s kind a :=
  ⟨fun p hp => h.visible p (hp.trans hpath), fun p hp => h.acyclic p (hp.trans hpath)⟩

section Queries

variable [Unicode] [Hashes] {s : MemorySnapshot} {kind : ObjectKind} {role : ReferenceRole}
  {root : ObjectId} {o : StoredObject} {objects : BTreeMap ObjectId StoredObject}

omit [Unicode] [Hashes] in
theorem exists_parentRole (h : kind = .snapshot ∨ kind = .operation) :
    ∃ role, parentRole kind = some role := by
  rcases h with rfl | rfl
  · exact ⟨_, rfl⟩
  · exact ⟨_, rfl⟩

omit [Unicode] [Hashes] in
/-- The object itself is among the ancestors that are collected. -/
theorem get_of_ancestryClosure (hrole : parentRole o.kind = some role)
    (ho : visibleObject s root = .ok o) (h : ancestryClosure s [root] o.kind = .ok objects) :
    objects[root]? = some o :=
  (((ancestryClosure_eq_ok hrole).mp h).2 root o).mpr ⟨.refl, ho, rfl⟩

/-- The graph of the ancestors is built when none is above itself. -/
theorem graph_isOk_of_sound (hsound : SoundSnapshot s) (hsize : s.objects.size < 2 ^ 64)
    (hrole : parentRole kind = some role) (h : SoundAncestry s kind root)
    (hobjects : ancestryClosure s [root] kind = .ok objects) :
    ∃ g, graph objects kind = .ok g := by
  have hpart := closedPart_of_ancestryClosure hrole hobjects
  refine (hpart.graph_isOk_iff hsound hsize hrole).mpr fun n hn => ?_
  obtain ⟨o, ho⟩ := BTreeMap.mem_iff_get.mp hn
  exact h.acyclic n (((ancestryClosure_eq_ok hrole).mp hobjects).2 n o |>.mp ho).1

/-- **When there is a generation.** -/
theorem generation_isOk_iff (hsound : SoundSnapshot s) (hsize : s.objects.size < 2 ^ 64)
    (hrole : parentRole o.kind = some role) (ho : visibleObject s root = .ok o) :
    (∃ g, generation s root = .ok g) ↔ SoundAncestry s o.kind root := by
  constructor
  · rintro ⟨g, hg⟩
    rw [generation, ho, Except.ok_bind] at hg
    obtain ⟨objects, hobjects, hg⟩ := Except.bind_eq_ok.mp hg
    obtain ⟨index, hindex, -⟩ := Except.bind_eq_ok.mp hg
    have hpart := closedPart_of_ancestryClosure hrole hobjects
    obtain ⟨hvisible, hget⟩ := (ancestryClosure_eq_ok hrole).mp hobjects
    refine ⟨hvisible, fun p hp => ?_⟩
    obtain ⟨o', ho'⟩ := hvisible p hp
    exact (hpart.graph_isOk_iff hsound hsize hrole).mp ⟨index, hindex⟩ p
      (BTreeMap.mem_iff_get.mpr ⟨o', (hget p o').mpr ⟨hp, ho'⟩⟩)
  · intro h
    obtain ⟨objects, hobjects⟩ := (ancestryClosure_isOk_iff hrole).mpr h.visible
    obtain ⟨index, hindex⟩ := graph_isOk_of_sound hsound hsize hrole h hobjects
    have hpart := closedPart_of_ancestryClosure hrole hobjects
    have hroot : root ∈ (kindNodes objects o.kind role).map (·.id) :=
      (hpart.mem_ids hsound).mpr ⟨o, get_of_ancestryClosure hrole ho hobjects, rfl⟩
    obtain ⟨g, hg, -⟩ := build_generation ((graph_eq_ok hrole).mp hindex) hroot
    refine ⟨g, ?_⟩
    rw [generation, ho, Except.ok_bind, hobjects, Except.ok_bind, hindex, Except.ok_bind, hg]
    rfl

/-- A generation is the length of the longest chain of parents. -/
theorem generation_longest (hsound : SoundSnapshot s) (hrole : parentRole o.kind = some role)
    (ho : visibleObject s root = .ok o) {g : UInt64} (hg : generation s root = .ok g) :
    IsGreatest (chainLengths (KindParent s o.kind) root) g.toNat := by
  rw [generation, ho, Except.ok_bind] at hg
  obtain ⟨objects, hobjects, hg⟩ := Except.bind_eq_ok.mp hg
  obtain ⟨index, hindex, hg⟩ := Except.bind_eq_ok.mp hg
  have hpart := closedPart_of_ancestryClosure hrole hobjects
  have hget := get_of_ancestryClosure hrole ho hobjects
  obtain ⟨g', hg', hlongest⟩ := build_generation ((graph_eq_ok hrole).mp hindex)
    ((hpart.mem_ids hsound).mpr ⟨o, hget, rfl⟩)
  rw [Except.mapError_eq_ok, hg'] at hg
  cases hg
  rwa [(hpart.agreeAbove hsound hrole (BTreeMap.mem_iff_get.mpr ⟨o, hget⟩)).chainLengths_eq]

/-- **Reachability in a sound ancestry** is a path of parents. -/
theorem isReachable_of_sound (hsound : SoundSnapshot s) (hsize : s.objects.size < 2 ^ 64)
    (hrole : parentRole o.kind = some role) (ho : visibleObject s root = .ok o)
    (h : SoundAncestry s o.kind root) {a : ObjectId} {oa : StoredObject}
    (ha : visibleObject s a = .ok oa) (hkind : oa.kind = o.kind) :
    ∃ answer, isReachable s a root = .ok answer ∧
      (answer = true ↔ a = root ∨ TransGen (KindParent s o.kind) a root) := by
  obtain ⟨objects, hobjects⟩ := (ancestryClosure_isOk_iff hrole).mpr h.visible
  obtain ⟨-, hget⟩ := (ancestryClosure_eq_ok hrole).mp hobjects
  have hroot := get_of_ancestryClosure hrole ho hobjects
  rw [isReachable, ha, Except.ok_bind, ho, Except.ok_bind, if_neg (not_not.mpr hkind), hkind,
    hobjects, Except.ok_bind]
  by_cases hmem : ReflTransGen (KindParent s o.kind) a root
  · obtain ⟨index, hindex⟩ := graph_isOk_of_sound hsound hsize hrole h hobjects
    have hpart := closedPart_of_ancestryClosure hrole hobjects
    have hin : objects[a]? = some oa := (hget a oa).mpr ⟨hmem, ha, hkind⟩
    obtain ⟨answer, hanswer, hiff⟩ := build_isReachable ((graph_eq_ok hrole).mp hindex)
      ((hpart.mem_ids hsound).mpr ⟨oa, hin, hkind⟩) ((hpart.mem_ids hsound).mpr ⟨o, hroot, rfl⟩)
    rw [BTreeMap.contains_iff_get.mpr ⟨oa, hin⟩, Bool.not_true, if_neg Bool.false_ne_true, hindex,
      Except.ok_bind, hanswer]
    refine ⟨answer, rfl, ?_⟩
    rw [hiff, (hpart.agreeAbove hsound hrole (BTreeMap.mem_iff_get.mpr ⟨o, hroot⟩)).transGen_iff]
  · have hout : objects.contains a = false := by
      rw [← Bool.not_eq_true, BTreeMap.contains_iff_get]
      rintro ⟨o', ho'⟩
      exact hmem ((hget a o').mp ho').1
    rw [hout, Bool.not_false, if_pos rfl]
    refine ⟨false, rfl, ?_⟩
    rw [reflTransGen_iff_eq_or_transGen] at hmem
    simp only [Bool.false_eq_true, false_iff]
    rintro (rfl | hpath)
    · exact hmem (.inl rfl)
    · exact hmem (.inr hpath)

/-! ### Later calls -/

/-- A call that quarantines nothing shows at least as much as before. -/
theorem StoreCall.seesMore (c : StoreCall) (hc : ∀ id, c ≠ .quarantine id) (s : MemorySnapshot) :
    SeesMore s (c.run s) := by
  have hsame : (c.run s).quarantined = s.quarantined := by
    have hpublish : ∀ {publication : Publication} {validator : PublicationValidator}
        {r : Except StoreError (List ReferenceState)} {t : MemorySnapshot},
        MemoryStore.publish publication validator s = (r, t) → t.quarantined = s.quarantined := by
      intro publication validator r t h
      rcases publish_cases h with ⟨rfl, -⟩ | ⟨p, -, hbegin, -, rfl⟩
      · rfl
      · obtain ⟨rfl, -, -, hstage⟩ := beginPublish_eq_ok.mp hbegin
        obtain ⟨staged, hobjects, -, -, hstaged⟩ := stage_eq_ok.mp hstage
        rw [hstaged]
        exact (StagesObjects.of_loop hobjects).quarantined
    cases c with
    | put id bytes =>
        rw [run]
        cases h : MemoryStore.put id bytes s with
        | mk r t =>
            rcases put_cases h with ⟨rfl, -⟩ | ⟨rfl, -⟩ | ⟨_, _, -, -, -, -, rfl⟩
            · rfl
            · rfl
            · rfl
    | markPromised id =>
        rw [run]
        cases h : MemoryStore.markPromised id s with
        | mk r t =>
            rcases markPromised_cases h with ⟨rfl, -⟩ | ⟨rfl, -⟩ | ⟨_, -, -, -, -, rfl⟩
            · rfl
            · rfl
            · rfl
    | quarantine id => exact absurd rfl (hc id)
    | publish publication validator => exact hpublish Prod.mk.eta.symm
    | compareAndSwap key expected target operation validator =>
        rw [run]
        rcases compareAndSwap_eq (s := s) key expected target operation validator with
          ⟨e, -, hcas⟩ | ⟨state, t, hp, hcas⟩
        · rw [hcas]
        · rw [hcas]
          exact hpublish hp
  intro id o ho
  obtain ⟨hfree, hget⟩ := visibleObject_eq_ok.mp ho
  rw [visibleObject_eq_ok, hsame]
  exact ⟨hfree, (StoreCall.effect s c).1 id o hget⟩

theorem StoreCall.seesMore_runs (calls : List StoreCall)
    (hcalls : ∀ c ∈ calls, ∀ id, c ≠ .quarantine id) (s : MemorySnapshot) :
    SeesMore s (calls.foldl run s) := by
  induction calls generalizing s with
  | nil => exact fun _ _ ho => ho
  | cons c calls ih =>
      obtain ⟨hc, hcalls⟩ := List.forall_mem_cons.mp hcalls
      intro id o ho
      exact ih hcalls (c.run s) id o (c.seesMore hc s id o ho)

/-- **Generations and reachability in any store.**  There is a generation
exactly when the ancestry is sound, it is the length of the longest chain of
parents, and it grows towards the descendants; an ancestor is reachable exactly
by a path of parents.  Later calls that quarantine nothing change no answer.
A collection holds fewer than `2 ^ 64` objects, so no generation overflows. -/
theorem generation_spec (calls : List StoreCall)
    (hsize : (calls.foldl StoreCall.run {}).objects.size < 2 ^ 64) (root : ObjectId)
    (o : StoredObject) (ho : visibleObject (calls.foldl StoreCall.run {}) root = .ok o)
    (hkind : o.kind = .snapshot ∨ o.kind = .operation) :
    let s := calls.foldl StoreCall.run {}
    ((∃ g, generation s root = .ok g) ↔ SoundAncestry s o.kind root) ∧
    (∀ g, generation s root = .ok g →
      IsGreatest (chainLengths (KindParent s o.kind) root) g.toNat) ∧
    (∀ a oa, visibleObject s a = .ok oa → oa.kind = o.kind → SoundAncestry s o.kind root →
      ∃ answer, isReachable s a root = .ok answer ∧
        (answer = true ↔ a = root ∨ TransGen (KindParent s o.kind) a root)) ∧
    (∀ a g, TransGen (KindParent s o.kind) a root → generation s root = .ok g →
      ∃ g', generation s a = .ok g' ∧ g' < g) ∧
    ∀ later : List StoreCall, (∀ c ∈ later, ∀ id, c ≠ .quarantine id) →
      (∀ g, generation s root = .ok g → generation (later.foldl StoreCall.run s) root = .ok g) ∧
      ∀ a answer, isReachable s a root = .ok answer →
        isReachable (later.foldl StoreCall.run s) a root = .ok answer := by
  intro s
  have hsound : SoundSnapshot s := StoreCall.sound_runs calls .initial
  obtain ⟨role, hrole⟩ := exists_parentRole hkind
  refine ⟨generation_isOk_iff hsound hsize hrole ho,
    fun g hg => generation_longest hsound hrole ho hg,
    fun a oa ha haKind h => isReachable_of_sound hsound hsize hrole ho h ha haKind,
    fun a g hpath hg => ?_, fun later hlater => ?_⟩
  · have hancestry := (generation_isOk_iff hsound hsize hrole ho).mp ⟨g, hg⟩
    obtain ⟨oa, ha, haKind⟩ := hancestry.visible a hpath.to_reflTransGen
    have hsoundA : SoundAncestry s oa.kind a :=
      haKind.symm ▸ hancestry.of_path hpath.to_reflTransGen
    have hroleA : parentRole oa.kind = some role := haKind.symm ▸ hrole
    obtain ⟨g', hg'⟩ := (generation_isOk_iff hsound hsize hroleA ha).mpr hsoundA
    have hlongest := generation_longest hsound hroleA ha hg'
    rw [haKind] at hlongest
    exact ⟨g', hg', UInt64.lt_iff_toNat_lt.mpr
      (lt_of_isGreatest_chainLengths hpath hlongest (generation_longest hsound hrole ho hg))⟩
  · have hmore := StoreCall.seesMore_runs later hlater s
    exact ⟨fun g hg => generation_mono hmore hg, fun a answer h => isReachable_mono hmore h⟩

end Queries

section Sample

local instance ancestryUnicode : Unicode := asciiUnicode

/-- A snapshot on top of the sample snapshot. -/
def childSnapshot : TypedObject :=
  .snapshot {
    policyRef := rootPolicyRef
    rootManifest := sampleManifestId
    parents := [sampleSnapshotId]
    changeId := sampleStable
    author := sampleStable
    device := sampleStable
    logicalTime := 1
    wallTime := sampleTime
    messageBlob := none }

def childSnapshotId : ObjectId :=
  ⟨.sha256, sampleDigest 0xad3b4285c30aee233a4c7f3f4bd8fd39a21db58f6e2b6ba2f694c48a8ebb0c43⟩

def historyObjects : List (TypedObject × ObjectId) :=
  [(sampleSnapshot, sampleSnapshotId), (childSnapshot, childSnapshotId)]

def historyCalls : List StoreCall :=
  historyObjects.map fun (t, id) => .put id (objectBytes t)

theorem historyCalls_stored :
    letI := objectHashes historyObjects
    (historyCalls.foldl StoreCall.run {}).objects.size < 2 ^ 64 ∧
      (visibleObject (historyCalls.foldl StoreCall.run {}) childSnapshotId).toOption.map
        StoredObject.kind = some .snapshot ∧
      generation (historyCalls.foldl StoreCall.run {}) childSnapshotId = .ok 1 := by
  generalize hrun : @StoreCall.run _ (objectHashes historyObjects) = run
  delta StoreCall.run put MemoryStore.decode AnyObject.decodeVerified AnyObject.decode AnyObject.id
    at hrun
  rw [decodeCanonical_eq_atOnce, encodeWithLimits_eq_atOnce] at hrun
  subst hrun
  decide +kernel

theorem generation_spec_child :
    letI := objectHashes historyObjects
    SoundAncestry (historyCalls.foldl StoreCall.run {}) .snapshot childSnapshotId ∧
      IsGreatest (chainLengths (KindParent (historyCalls.foldl StoreCall.run {}) .snapshot)
        childSnapshotId) 1 := by
  let := objectHashes historyObjects
  obtain ⟨hsize, hvisible, hgeneration⟩ := historyCalls_stored
  cases ho : visibleObject (historyCalls.foldl StoreCall.run {}) childSnapshotId with
  | error e =>
      rw [ho] at hvisible
      cases hvisible
  | ok o =>
      rw [ho] at hvisible
      have hkind : o.kind = .snapshot := Option.some.inj hvisible
      obtain ⟨hiff, hlongest, -⟩ :=
        generation_spec historyCalls hsize childSnapshotId o ho (.inl hkind)
      rw [hkind] at hiff hlongest
      exact ⟨hiff.mp ⟨1, hgeneration⟩, hlongest 1 hgeneration⟩

end Sample

end RGit
