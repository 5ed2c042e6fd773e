/-
RGit/Store/GraphTables.lean

The graph tables.

`rebuild_graph_indexes` inserts the rows of every object, first those about
the objects themselves and then those about their parents.  When it succeeds
the tables hold these rows (`rebuildGraphIndexes_eq_ok`), which is what
`verify_derived_indexes` expects (`mirrorsGraph_rebuild`).
-/
import Mathlib.Data.List.Perm.Basic
import RGit.Store.Indexing

namespace RGit

open MemoryStore

namespace Database

/-! ### The rows of a snapshot -/

/-- The objects in the order of their identifiers. -/
def objectList (s : MemorySnapshot) : List StoredObject := s.objects.toList.map (·.2)

theorem mem_objectList {s : MemorySnapshot} {o : StoredObject} :
    o ∈ objectList s ↔ ∃ id : ObjectId, s.objects[id]? = some o := by
  simp only [objectList, List.mem_map, Prod.exists, BTreeMap.mem_toList_iff_get,
    exists_eq_right]

/-- The rows about an object itself can be written. -/
def NodeFits (s : MemorySnapshot) (o : StoredObject) : Prop :=
  (∃ rows, generationRows s o = .ok rows) ∧ ∃ rows, operationRows s o = .ok rows

/-- The rows about an object itself. -/
def nodeRows (s : MemorySnapshot) (o : StoredObject) : List GraphRow :=
  (generationRows s o).toOption.getD [] ++ (operationRows s o).toOption.getD []

/-- The rows of the graph tables. -/
def graphRows (s : MemorySnapshot) : List GraphRow :=
  (objectList s).flatMap (nodeRows s) ++ (objectList s).flatMap (parentRows s)

/-- The tables with other graph rows. -/
def withGraph (db : Database) (rows : List GraphRow) : Database := { db with graph := rows }

/-! ### Inserting rows -/

section Inserting

variable {s : MemorySnapshot} {db db' : Database}

theorem insertRows_append (rows rows' : List GraphRow) (db : Database) :
    insertRows (rows ++ rows') db = insertRows rows db >>= insertRows rows' := by
  simp only [insertRows, List.foldlM_append]
  rfl

/-- Rows are inserted exactly when the tables are consistent after each. -/
theorem insertRows_eq_ok {rows : List GraphRow} :
    insertRows rows db = .ok db' ↔
      (∀ inserted, inserted <+: rows → inserted ≠ [] →
        (db.withGraph (db.graph ++ inserted)).Consistent) ∧
        db' = db.withGraph (db.graph ++ rows) := by
  induction rows generalizing db with
  | nil =>
      constructor
      · intro h
        cases h
        refine ⟨fun inserted hprefix hne => absurd (List.prefix_nil.mp hprefix) hne, ?_⟩
        simp [withGraph]
      · rintro ⟨-, rfl⟩
        simp [insertRows, withGraph]
  | cons row rows ih =>
      have hcons : insertRows (row :: rows) db =
          execute (insertGraph row) db >>= insertRows rows := rfl
      have happend : ∀ inserted, (db.withGraph (db.graph ++ [row])).withGraph
          ((db.withGraph (db.graph ++ [row])).graph ++ inserted) =
          db.withGraph (db.graph ++ row :: inserted) := by
        intro inserted
        simp [withGraph]
      simp only [hcons, Except.bind_eq_ok, execute_eq_ok]
      constructor
      · rintro ⟨_, ⟨hrow, rfl⟩, hrest⟩
        obtain ⟨hinserted, rfl⟩ := ih.mp hrest
        refine ⟨fun inserted hprefix hne => ?_, happend rows⟩
        cases inserted with
        | nil => exact absurd rfl hne
        | cons row' inserted =>
            obtain ⟨rfl, htail⟩ := List.cons_prefix_cons.mp hprefix
            by_cases hnil : inserted = []
            · subst hnil
              exact hrow
            · exact happend inserted ▸ hinserted inserted htail hnil
      · rintro ⟨hinserted, rfl⟩
        refine ⟨db.withGraph (db.graph ++ [row]),
          ⟨hinserted [row] (List.cons_prefix_cons.mpr ⟨rfl, List.nil_prefix⟩) (by simp), rfl⟩,
          ih.mpr ⟨fun inserted hprefix hne => ?_, (happend rows).symm⟩⟩
        exact (happend inserted).symm ▸
          hinserted (row :: inserted) (List.cons_prefix_cons.mpr ⟨rfl, hprefix⟩) (by simp)

theorem indexNode_eq_ok {o : StoredObject} :
    indexNode s db o = .ok db' ↔ NodeFits s o ∧ insertRows (nodeRows s o) db = .ok db' := by
  simp only [indexNode, NodeFits, nodeRows, insertRows_append, Except.bind_eq_ok]
  cases hgeneration : generationRows s o with
  | error e => simp
  | ok generations =>
      cases hoperation : operationRows s o with
      | error e => simp
      | ok operations => simp [Except.toOption]

theorem foldlM_indexNode_eq_ok {objects : List StoredObject} :
    objects.foldlM (indexNode s) db = .ok db' ↔
      (∀ o ∈ objects, NodeFits s o) ∧ insertRows (objects.flatMap (nodeRows s)) db = .ok db' := by
  induction objects generalizing db with
  | nil => simp [insertRows]
  | cons o objects ih =>
      simp only [List.foldlM_cons, Except.bind_eq_ok, indexNode_eq_ok, ih, List.forall_mem_cons,
        List.flatMap_cons, insertRows_append]
      constructor
      · rintro ⟨db₁, ⟨hfits, hrows⟩, hrest, hinsert⟩
        exact ⟨⟨hfits, hrest⟩, db₁, hrows, hinsert⟩
      · rintro ⟨⟨hfits, hrest⟩, db₁, hrows, hinsert⟩
        exact ⟨db₁, ⟨hfits, hrows⟩, hrest, hinsert⟩

theorem foldlM_indexParents (s : MemorySnapshot) (objects : List StoredObject) (db : Database) :
    objects.foldlM (indexParents s) db = insertRows (objects.flatMap (parentRows s)) db := by
  induction objects generalizing db with
  | nil => rfl
  | cons o objects ih =>
      rw [List.foldlM_cons, List.flatMap_cons, insertRows_append]
      exact bind_congr fun db => ih db

/-- **When the graph tables can be rebuilt**, and what they then hold. -/
theorem rebuildGraphIndexes_eq_ok :
    rebuildGraphIndexes s db = .ok db' ↔
      (∀ o ∈ objectList s, NodeFits s o) ∧
        (∀ inserted, inserted <+: graphRows s → (db.withGraph inserted).Consistent) ∧
        db' = db.withGraph (graphRows s) := by
  have hrebuild : rebuildGraphIndexes s db = .ok db' ↔
      (∀ o ∈ objectList s, NodeFits s o) ∧ (db.withGraph []).Consistent ∧
        insertRows (graphRows s) (db.withGraph []) = .ok db' := by
    have hloops : rebuildGraphIndexes s db = (do
        let db ← execute deleteGraph db
        let db ← (objectList s).foldlM (indexNode s) db
        (objectList s).foldlM (indexParents s) db) := rfl
    simp only [hloops, graphRows, insertRows_append, Except.bind_eq_ok, execute_eq_ok,
      foldlM_indexParents, foldlM_indexNode_eq_ok]
    constructor
    · rintro ⟨_, ⟨hempty, rfl⟩, db₁, ⟨hfits, hnodes⟩, hparents⟩
      exact ⟨hfits, hempty, db₁, hnodes, hparents⟩
    · rintro ⟨hfits, hempty, db₁, hnodes, hparents⟩
      exact ⟨_, ⟨hempty, rfl⟩, db₁, ⟨hfits, hnodes⟩, hparents⟩
  rw [hrebuild, insertRows_eq_ok]
  constructor
  · rintro ⟨hfits, hempty, hinserted, rfl⟩
    refine ⟨hfits, fun inserted hprefix => ?_, rfl⟩
    by_cases hnil : inserted = []
    · subst hnil
      exact hempty
    · exact hinserted inserted hprefix hnil
  · rintro ⟨hfits, hinserted, rfl⟩
    exact ⟨hfits, hinserted [] List.nil_prefix, fun inserted hprefix _ => hinserted inserted hprefix,
      rfl⟩

end Inserting

/-! ### What the verification expects -/

section Expected

variable {s : MemorySnapshot} {o : StoredObject}

theorem expectedOperationRows_eq {rows : List GraphRow} (h : operationRows s o = .ok rows) :
    expectedOperationRows s o = .ok rows := by
  rw [operationRows] at h
  rw [expectedOperationRows]
  split at h
  next hkind =>
      cases hgraph : graphGeneration s o with
      | none =>
          simp only [hgraph, Except.bind_eq_ok, Except.ok.injEq] at h
          obtain ⟨-, -, rfl⟩ := h
          rfl
      | some generation =>
          simp only [hgraph, operationRow, Except.bind_eq_ok, Except.ofOption_eq_ok] at h
          obtain ⟨time, htime, generation', hgeneration, time', htime', hrows⟩ := h
          simp [hkind, operationRow, htime, hgeneration, htime', hrows, Except.ofOption]
  next hkind =>
      cases h
      cases graphGeneration s o <;> simp [hkind]

theorem NodeFits.expectedRows (h : NodeFits s o) :
    expectedRows s o = .ok (nodeRows s o ++ parentRows s o) := by
  obtain ⟨⟨generations, hgenerations⟩, operations, hoperations⟩ := h
  simp [Database.expectedRows, nodeRows, hgenerations, hoperations,
    expectedOperationRows_eq hoperations, Except.toOption]

/-- The rows that were inserted are those that are expected. -/
theorem mapM_expectedRows (h : ∀ o ∈ objectList s, NodeFits s o) :
    ∃ rows, (objectList s).mapM (Database.expectedRows s) = .ok rows ∧
      rows.flatten.Perm (graphRows s) := by
  refine ⟨(objectList s).map fun o => nodeRows s o ++ parentRows s o, mapM_eq_ok.mpr ?_, ?_⟩
  · rw [List.forall₂_map_right_iff]
    exact List.forall₂_same.mpr fun o ho => (h o ho).expectedRows
  · rw [← List.flatMap_def]
    exact (List.flatMap_append_perm _ _ _).symm

end Expected

end Database

theorem mirrorsGraph_rebuild {s : MemorySnapshot} {db db' : Database}
    (h : db.rebuildGraphIndexes s = .ok db') : MirrorsGraph db' s := by
  obtain ⟨hfits, -, rfl⟩ := Database.rebuildGraphIndexes_eq_ok.mp h
  exact Database.mapM_expectedRows hfits

end RGit
