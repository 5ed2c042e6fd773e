/-
RGit/Store/Statements.lean

When the statements of a transaction are accepted.

A statement that keeps the kinds in the rows breaks no foreign key that held
before it (`Consistent.of_keys`), so only the keys of what it inserts have to
be looked at.  Indexing an object is refused exactly where its kind or the
kinds its edges expect disagree with the rows (`indexObject_ok`), and the
graph tables can be rebuilt whenever their numbers fit (`rebuild_ok`).
-/
import RGit.Store.OperationEdges
import RGit.Store.Transactions

namespace RGit

open MemoryStore

namespace Database

/-! ### Keys -/

section Keys

variable {db db' : Database} {objects objects' : BTreeMap ObjectId ObjectRow}

theorem mem_foreignKeys {key : ForeignKey} :
    key ∈ db.foreignKeys ↔
      (∃ (source : ObjectId) (edges : List ReferenceEdge), db.edges[source]? = some edges ∧
        key ∈ edgeKeys source edges) ∨
      (∃ id ∈ db.locations, key = ⟨id, none⟩) ∨
      (∃ row ∈ db.graph, key ∈ row.foreignKeys) ∨
      (∃ (k : ReferenceKey) (row : ReferenceRow), db.references[k]? = some row ∧
        key ∈ referenceKeys row) ∨
      ∃ id ∈ db.incidents, key = ⟨id, none⟩ := by
  simp only [foreignKeys, List.mem_append, List.mem_flatMap, List.mem_map, Prod.exists,
    BTreeMap.mem_toList_iff_get, Std.ExtTreeSet.mem_toList, or_assoc, eq_comm (a := key)]

theorem satisfies_iff {key : ForeignKey} :
    satisfies objects key = true ↔
      ∃ row, objects[key.id]? = some row ∧ ∀ kind, key.kind = some kind → row.kind = some kind := by
  rw [satisfies]
  cases hrow : objects[key.id]? with
  | none => simp
  | some row =>
      cases hkind : key.kind with
      | none => simp
      | some kind => simp

/-- The rows stay, with the kinds they have. -/
def KeepsKinds (objects objects' : BTreeMap ObjectId ObjectRow) : Prop :=
  ∀ (id : ObjectId) (row : ObjectRow), objects[id]? = some row →
    ∃ row', objects'[id]? = some row' ∧ ∀ kind, row.kind = some kind → row'.kind = some kind

theorem KeepsKinds.refl (objects : BTreeMap ObjectId ObjectRow) : KeepsKinds objects objects :=
  fun _ row hrow => ⟨row, hrow, fun _ h => h⟩

theorem KeepsKinds.insert {id : ObjectId} {row : ObjectRow}
    (h : ∀ old, objects[id]? = some old → ∀ kind, old.kind = some kind → row.kind = some kind) :
    KeepsKinds objects (objects.insert id row) := by
  intro id' old hold
  by_cases hid : id = id'
  · subst hid
    exact ⟨row, BTreeMap.get_insert_self _ _ _, h old hold⟩
  · exact ⟨old, (BTreeMap.get_insert_of_ne _ _ hid).trans hold, fun _ h => h⟩

theorem KeepsKinds.satisfies (h : KeepsKinds objects objects') {key : ForeignKey}
    (hkey : satisfies objects key = true) : satisfies objects' key = true := by
  obtain ⟨row, hrow, hkind⟩ := satisfies_iff.mp hkey
  obtain ⟨row', hrow', hkeeps⟩ := h key.id row hrow
  exact satisfies_iff.mpr ⟨row', hrow', fun kind hk => hkeeps kind (hkind kind hk)⟩

theorem Consistent.valid (h : db.Consistent) {id : ObjectId} {row : ObjectRow}
    (hrow : db.objects[id]? = some row) : row.valid = true :=
  h.rows (id, row) (BTreeMap.mem_toList_iff_get.mpr hrow)

/-- **A statement that keeps the kinds is accepted** if its rows are valid and
what it inserts has its keys. -/
theorem Consistent.of_keys (h : db.Consistent)
    (hvalid : ∀ (id : ObjectId) (row : ObjectRow), db'.objects[id]? = some row →
      row.valid = true)
    (hkinds : KeepsKinds db.objects db'.objects)
    (hkeys : ∀ key ∈ db'.foreignKeys, key ∈ db.foreignKeys ∨ satisfies db'.objects key = true)
    (hgraph : db'.graph = db.graph) (hreferences : db'.references = db.references) :
    db'.Consistent where
  rows entry hentry := hvalid entry.1 entry.2 (BTreeMap.mem_toList_iff_get.mp hentry)
  keys key hkey := by
    rcases hkeys key hkey with hold | hnew
    · exact hkinds.satisfies (h.keys key hold)
    · exact hnew
  operations := hgraph ▸ h.operations
  unique := hgraph ▸ h.unique
  references := hreferences ▸ h.references

/-- A statement on the inventory. -/
theorem Consistent.insertRow (h : db.Consistent) {id : ObjectId} {row : ObjectRow}
    (hvalid : row.valid = true)
    (hkind : ∀ old, db.objects[id]? = some old → ∀ kind, old.kind = some kind →
      row.kind = some kind) :
    ({ db with objects := db.objects.insert id row } : Database).Consistent := by
  refine h.of_keys (fun id' row' hrow' => ?_) (.insert hkind) (fun key hkey => .inl hkey) rfl rfl
  rcases BTreeMap.get_insert_eq_some_iff.mp hrow' with ⟨-, rfl⟩ | ⟨-, hrow'⟩
  · exact hvalid
  · exact h.valid hrow'

/-- A statement on the edges. -/
theorem Consistent.setEdges (h : db.Consistent) {edges : BTreeMap ObjectId (List ReferenceEdge)}
    (hedges : ∀ (source : ObjectId) (inserted : List ReferenceEdge),
      edges[source]? = some inserted → db.edges[source]? = some inserted ∨
        ∀ key ∈ edgeKeys source inserted, satisfies db.objects key = true) :
    ({ db with edges := edges } : Database).Consistent := by
  refine h.of_keys (fun _ _ => h.valid) (.refl _) (fun key hkey => ?_) rfl rfl
  rcases mem_foreignKeys.mp hkey with ⟨source, inserted, hget, hmem⟩ | hother
  · rcases hedges source inserted hget with hold | hnew
    · exact .inl (mem_foreignKeys.mpr (.inl ⟨source, inserted, hold, hmem⟩))
    · exact .inr (hnew key hmem)
  · exact .inl (mem_foreignKeys.mpr (.inr hother))

/-- A statement on the locations. -/
theorem Consistent.setLocations (h : db.Consistent) {locations : BTreeSet ObjectId}
    (hlocations : ∀ id ∈ locations, id ∈ db.locations ∨ ∃ row, db.objects[id]? = some row) :
    ({ db with locations := locations } : Database).Consistent := by
  refine h.of_keys (fun _ _ => h.valid) (.refl _) (fun key hkey => ?_) rfl rfl
  rcases mem_foreignKeys.mp hkey with hedge | ⟨id, hid, rfl⟩ | hother
  · exact .inl (mem_foreignKeys.mpr (.inl hedge))
  · rcases hlocations id hid with hold | ⟨row, hrow⟩
    · exact .inl (mem_foreignKeys.mpr (.inr (.inl ⟨id, hold, rfl⟩)))
    · exact .inr (satisfies_iff.mpr ⟨row, hrow, by simp⟩)
  · exact .inl (mem_foreignKeys.mpr (.inr (.inr hother)))

theorem Consistent.deleteLocation (h : db.Consistent) (id : ObjectId) :
    (db.deleteLocation id).Consistent :=
  h.setLocations fun _ hid => .inl (BTreeSet.mem_erase_iff.mp hid).2

theorem Consistent.deleteEdges (h : db.Consistent) (source : ObjectId) :
    (db.deleteEdges source).Consistent :=
  h.setEdges fun _ _ hget => .inl (BTreeMap.get_erase_eq_some_iff.mp hget).2

theorem Consistent.setIncidentReadOnly (h : db.Consistent) : db.setIncidentReadOnly.Consistent :=
  h.of_keys (fun _ _ => h.valid) (.refl _) (fun _ hkey => .inl hkey) rfl rfl

theorem setRevision_ok (h : db.Consistent) (revision : UInt64)
    (hrevision : revision ≤ maxSqliteInteger) :
    setRevision revision db = .ok { db with revision := revision } := by
  have hset : ({ db with revision := revision } : Database).Consistent :=
    h.of_keys (fun _ _ => h.valid) (.refl _) (fun _ hkey => .inl hkey) rfl rfl
  rw [setRevision, toSqlU64_eq_ok.mpr ⟨hrevision, rfl⟩, Except.ok_bind]
  exact execute_eq_ok.mpr ⟨hset, rfl⟩

theorem Consistent.insertIncident (h : db.Consistent) {id : ObjectId}
    (hrow : ∃ row, db.objects[id]? = some row) : (db.insertIncident id).Consistent := by
  obtain ⟨row, hrow⟩ := hrow
  refine h.of_keys (fun _ _ => h.valid) (.refl _) (fun key hkey => ?_) rfl rfl
  rcases mem_foreignKeys.mp hkey with hedge | hlocation | hgraph | hreference | ⟨id', hid', rfl⟩
  · exact .inl (mem_foreignKeys.mpr (.inl hedge))
  · exact .inl (mem_foreignKeys.mpr (.inr (.inl hlocation)))
  · exact .inl (mem_foreignKeys.mpr (.inr (.inr (.inl hgraph))))
  · exact .inl (mem_foreignKeys.mpr (.inr (.inr (.inr (.inl hreference)))))
  · rcases List.mem_append.mp hid' with hold | hnew
    · exact .inl (mem_foreignKeys.mpr (.inr (.inr (.inr (.inr ⟨id', hold, rfl⟩)))))
    · rw [List.mem_singleton.mp hnew]
      exact .inr (satisfies_iff.mpr ⟨row, hrow, by simp⟩)

end Keys

/-! ### Indexing an object -/

section Indexing

variable {db : Database} {o : StoredObject} {revision : UInt64}

theorem targetRow_valid {edge : ReferenceEdge} {row : Option ObjectRow}
    (h : ∀ old ∈ row, old.valid = true) : (targetRow revision edge row).valid = true := by
  cases row with
  | none => rfl
  | some old =>
      have hold := h old rfl
      obtain ⟨kind, schema, presence, length, first⟩ := old
      cases presence <;> cases kind <;> simp_all [targetRow, ObjectRow.valid]

theorem Consistent.upsertTarget (h : db.Consistent) (revision : UInt64) (edge : ReferenceEdge) :
    (db.upsertTarget revision edge).Consistent := by
  refine h.insertRow (targetRow_valid fun old hold => h.valid hold) fun old hold kind hkind => ?_
  simp [hold, targetRow, hkind]

theorem Consistent.upsertObject (h : db.Consistent) (revision : UInt64)
    (hown : ∀ row, db.objects[o.id]? = some row → ∀ kind, row.kind = some kind → kind = o.kind) :
    (db.upsertObject o revision).Consistent := by
  refine h.insertRow rfl fun old hold kind hkind => ?_
  rw [hown old hold kind hkind]

theorem Consistent.insertEdge (h : db.Consistent) {source : ObjectId} {edge : ReferenceEdge}
    (hsource : ∃ row, db.objects[source]? = some row)
    (hedges : ∀ edge' ∈ db.edgesOf source ++ [edge],
      satisfies db.objects ⟨edge'.id, edge'.expectedKind⟩ = true) :
    (db.insertEdge source edge).Consistent := by
  refine h.setEdges fun source' inserted hget => ?_
  rcases BTreeMap.get_insert_eq_some_iff.mp hget with ⟨rfl, rfl⟩ | ⟨-, hget⟩
  · refine .inr fun key hkey => ?_
    rcases List.mem_cons.mp hkey with rfl | hkey
    · obtain ⟨row, hrow⟩ := hsource
      exact satisfies_iff.mpr ⟨row, hrow, by simp⟩
    · obtain ⟨edge', hedge', rfl⟩ := List.mem_map.mp hkey
      exact hedges edge' hedge'
  · exact .inl hget

end Indexing

/-! ### The rows of the graph tables -/

/-- The object that a row of the graph tables is about. -/
def rowOwner : GraphRow → ObjectId
  | .generation id _ _ => id
  | .operation id _ _ => id
  | .snapshotParent id _ _ => id
  | .operationParent id _ _ => id

theorem clashes_of_rowOwner_ne {a b : GraphRow} (h : rowOwner a ≠ rowOwner b) :
    a.clashes b = false := by
  cases a <;> cases b <;> simp only [rowOwner] at h <;> simp [GraphRow.clashes, h]

/-- The numbers that the graph tables hold for an object fit their columns. -/
def FitsColumns (s : MemorySnapshot) (o : StoredObject) : Prop :=
  ∀ g, graphGeneration s o = some g → g ≤ maxSqliteInteger ∧
    (o.kind = .operation → ∀ time, valueUnsignedField o.object.value 6 = some time →
      time ≤ maxSqliteInteger)

section Rows

variable {s : MemorySnapshot} {o : StoredObject} {row : GraphRow}

theorem graphGeneration_eq_some {g : UInt64} :
    graphGeneration s o = some g ↔
      (o.kind = .snapshot ∨ o.kind = .operation) ∧ generation s o.id = .ok g := by
  rw [graphGeneration]
  split
  next hkind =>
      simp only [hkind, true_and]
      cases generation s o.id <;> simp [Except.toOption]
  next hkind => simp [hkind]

theorem generationRows_eq_ok {rows : List GraphRow} :
    generationRows s o = .ok rows ↔
      (graphGeneration s o = none ∧ rows = []) ∨
        ∃ g, graphGeneration s o = some g ∧ g ≤ maxSqliteInteger ∧
          rows = [.generation o.id o.kind g] := by
  rw [generationRows]
  cases graphGeneration s o with
  | none =>
      constructor
      · rintro ⟨⟩
        exact .inl ⟨rfl, rfl⟩
      · rintro (⟨-, rfl⟩ | ⟨g, hg, -⟩)
        · rfl
        · cases hg
  | some g =>
      simp only [Except.bind_eq_ok, toSqlU64_eq_ok, Except.ok.injEq, reduceCtorEq, false_and,
        Option.some.injEq, exists_eq_left', false_or]
      constructor
      · rintro ⟨_, ⟨hg, rfl⟩, rfl⟩
        exact ⟨hg, rfl⟩
      · rintro ⟨hg, rfl⟩
        exact ⟨g, ⟨hg, rfl⟩, rfl⟩

theorem operationRow_eq_ok {missing : StoreError} {g : UInt64} {rows : List GraphRow} :
    operationRow missing o g = .ok rows ↔
      ∃ time, valueUnsignedField o.object.value 6 = some time ∧ g ≤ maxSqliteInteger ∧
        time ≤ maxSqliteInteger ∧ rows = [.operation o.id g time] := by
  simp only [operationRow, Except.bind_eq_ok, Except.ofOption_eq_ok, toSqlU64_eq_ok,
    Except.ok.injEq]
  constructor
  · rintro ⟨time, htime, _, ⟨hg, rfl⟩, _, ⟨hbound, rfl⟩, rfl⟩
    exact ⟨time, htime, hg, hbound, rfl⟩
  · rintro ⟨time, htime, hg, hbound, rfl⟩
    exact ⟨time, htime, g, ⟨hg, rfl⟩, time, ⟨hbound, rfl⟩, rfl⟩

theorem operationRows_eq_ok {rows : List GraphRow} :
    operationRows s o = .ok rows ↔
      (o.kind ≠ .operation ∧ rows = []) ∨
        o.kind = .operation ∧ ∃ time, valueUnsignedField o.object.value 6 = some time ∧
          ((graphGeneration s o = none ∧ rows = []) ∨
            ∃ g, graphGeneration s o = some g ∧ g ≤ maxSqliteInteger ∧
              time ≤ maxSqliteInteger ∧ rows = [.operation o.id g time]) := by
  rw [operationRows]
  split
  next hkind =>
      cases graphGeneration s o with
      | none =>
          simp only [hkind, Except.bind_eq_ok, Except.ofOption_eq_ok, Except.ok.injEq, ne_eq,
            not_true_eq_false, false_and, true_and, false_or, reduceCtorEq, exists_false, or_false,
            eq_comm (a := rows)]
      | some g => simp [hkind, operationRow_eq_ok]
  next hkind => simp [hkind]

/-- **The rows about an object can be written** exactly when their numbers fit. -/
theorem nodeFits_iff (htime : o.kind = .operation →
      ∃ time, valueUnsignedField o.object.value 6 = some time) :
    NodeFits s o ↔ FitsColumns s o := by
  constructor
  · rintro ⟨⟨generations, hgenerations⟩, operations, hoperations⟩ g hg
    refine ⟨?_, fun hkind time htime => ?_⟩
    · rcases generationRows_eq_ok.mp hgenerations with ⟨hnone, -⟩ | ⟨g', hg', hbound, -⟩
      · rw [hg] at hnone
        cases hnone
      · rw [hg, Option.some.injEq] at hg'
        exact hg' ▸ hbound
    · rcases operationRows_eq_ok.mp hoperations with ⟨hother, -⟩ | ⟨-, time', htime', hrows⟩
      · exact absurd hkind hother
      · rw [htime, Option.some.injEq] at htime'
        subst htime'
        rcases hrows with ⟨hnone, -⟩ | ⟨g', -, -, hbound, -⟩
        · rw [hg] at hnone
          cases hnone
        · exact hbound
  · intro hfits
    constructor
    · cases hg : graphGeneration s o with
      | none => exact ⟨[], generationRows_eq_ok.mpr (.inl ⟨hg, rfl⟩)⟩
      | some g => exact ⟨_, generationRows_eq_ok.mpr (.inr ⟨g, hg, (hfits g hg).1, rfl⟩)⟩
    · by_cases hkind : o.kind = .operation
      · obtain ⟨time, htime⟩ := htime hkind
        cases hg : graphGeneration s o with
        | none => exact ⟨[], operationRows_eq_ok.mpr (.inr ⟨hkind, time, htime, .inl ⟨hg, rfl⟩⟩)⟩
        | some g =>
            obtain ⟨hbound, htimes⟩ := hfits g hg
            exact ⟨_, operationRows_eq_ok.mpr (.inr ⟨hkind, time, htime,
              .inr ⟨g, hg, hbound, htimes hkind time htime, rfl⟩⟩)⟩
      · exact ⟨[], operationRows_eq_ok.mpr (.inl ⟨hkind, rfl⟩)⟩

/-- The rows about an object that fits. -/
theorem NodeFits.nodeRows_eq (h : NodeFits s o) :
    (graphGeneration s o = none ∧ nodeRows s o = []) ∨
      ∃ g, graphGeneration s o = some g ∧
        ((o.kind ≠ .operation ∧ nodeRows s o = [.generation o.id o.kind g]) ∨
          o.kind = .operation ∧ ∃ time, nodeRows s o =
            [.generation o.id .operation g, .operation o.id g time]) := by
  obtain ⟨⟨generations, hgenerations⟩, operations, hoperations⟩ := h
  have hrows : nodeRows s o = generations ++ operations := by
    simp [nodeRows, hgenerations, hoperations, Except.toOption]
  rw [hrows]
  rcases generationRows_eq_ok.mp hgenerations with ⟨hnone, rfl⟩ | ⟨g, hg, -, rfl⟩
  · refine .inl ⟨hnone, ?_⟩
    rcases operationRows_eq_ok.mp hoperations with ⟨-, rfl⟩ | ⟨-, -, -, ⟨-, rfl⟩ | ⟨g, hg, -⟩⟩
    · rfl
    · rfl
    · rw [hnone] at hg
      cases hg
  · refine .inr ⟨g, hg, ?_⟩
    rcases operationRows_eq_ok.mp hoperations with
      ⟨hkind, rfl⟩ | ⟨hkind, time, -, ⟨hnone, -⟩ | ⟨g', hg', -, -, rfl⟩⟩
    · exact .inl ⟨hkind, rfl⟩
    · rw [hg] at hnone
      cases hnone
    · rw [hg, Option.some.injEq] at hg'
      subst hg'
      exact .inr ⟨hkind, time, by rw [hkind]; rfl⟩

theorem mem_parents {role : ReferenceRole} {parent : ObjectId} {position : Nat}
    (h : (parent, position) ∈ parents role o) : parent ∈ parentIds role o :=
  List.mem_of_getElem? (List.mk_mem_zipIdx_iff_getElem?.mp h)

theorem mem_parentRows (h : row ∈ parentRows s o) :
    (o.kind = .snapshot ∧ ∃ position, ∃ parent ∈ parentIds .snapshotParent o,
      row = .snapshotParent o.id position parent) ∨
    (o.kind = .operation ∧ (generation s o.id).isOk = true ∧
      ∃ position, ∃ parent ∈ parentIds .operationParent o, (generation s parent).isOk = true ∧
        row = .operationParent o.id position parent) := by
  rw [parentRows] at h
  split at h
  next hkind =>
      obtain ⟨⟨parent, position⟩, hmem, rfl⟩ := List.mem_map.mp h
      exact .inl ⟨hkind, position, parent, mem_parents hmem, rfl⟩
  next hkind =>
      split at h
      next hok =>
          obtain ⟨⟨parent, position⟩, hmem, rfl⟩ := List.mem_map.mp h
          obtain ⟨hmem, hparent⟩ := List.mem_filter.mp hmem
          exact .inr ⟨hkind, hok, position, parent, mem_parents hmem, hparent, rfl⟩
      next => cases h
  next => cases h

theorem rowOwner_of_mem_parentRows (h : row ∈ parentRows s o) : rowOwner row = o.id := by
  rcases mem_parentRows h with ⟨-, position, parent, -, rfl⟩ |
      ⟨-, -, position, parent, -, -, rfl⟩
  · rfl
  · rfl

/-- Distinct parents are numbered apart. -/
theorem parents_pairwise {role : ReferenceRole} (h : (parentIds role o).Nodup) :
    (parents role o).Pairwise fun a b => a.2 ≠ b.2 ∧ a.1 ≠ b.1 := by
  rw [parents, List.pairwise_iff_getElem]
  intro i j hi hj hij
  simp only [List.getElem_zipIdx, Nat.zero_add]
  refine ⟨hij.ne, fun heq => ?_⟩
  rw [List.length_zipIdx] at hi hj
  exact hij.ne ((List.Nodup.getElem_inj_iff h).mp heq)

theorem parentRows_unique (h : ∀ role, parentRole o.kind = some role → (parentIds role o).Nodup) :
    (parentRows s o).Pairwise fun a b => a.clashes b = false := by
  rw [parentRows]
  split
  next hkind =>
      rw [List.pairwise_map]
      refine (parents_pairwise (h _ (by rw [hkind]; rfl))).imp fun {a b} hne => ?_
      simp [GraphRow.clashes, hne.1, hne.2]
  next hkind =>
      split
      · rw [List.pairwise_map]
        refine ((parents_pairwise (h _ (by rw [hkind]; rfl))).filter _).imp fun {a b} hne => ?_
        simp [GraphRow.clashes, hne.1, hne.2]
      · exact .nil
  next => exact .nil

end Rows

/-! ### Rebuilding the graph tables -/

section Rebuilding

variable {db : Database} {t : MemorySnapshot}

/-- Graph rows are accepted if they have their keys and are kept apart. -/
theorem Consistent.withGraph (h : db.Consistent) {rows : List GraphRow}
    (hkeys : ∀ row ∈ rows, ∀ key ∈ row.foreignKeys, satisfies db.objects key = true)
    (hoperations : ∀ row ∈ rows, ∀ id ∈ row.operations, rows.any (·.isOperation id) = true)
    (hunique : rows.Pairwise fun a b => a.clashes b = false) :
    (db.withGraph rows).Consistent where
  rows := h.rows
  keys key hkey := by
    have hold : key ∈ db.foreignKeys → satisfies db.objects key = true := h.keys key
    rcases mem_foreignKeys.mp hkey with hedge | hlocation | ⟨row, hrow, hmem⟩ | hreference |
      hincident
    · exact hold (mem_foreignKeys.mpr (.inl hedge))
    · exact hold (mem_foreignKeys.mpr (.inr (.inl hlocation)))
    · exact hkeys row hrow key hmem
    · exact hold (mem_foreignKeys.mpr (.inr (.inr (.inr (.inl hreference)))))
    · exact hold (mem_foreignKeys.mpr (.inr (.inr (.inr (.inr hincident)))))
  operations := hoperations
  unique := hunique
  references := h.references

variable [Unicode] [Hashes]

/-- What the rows of the graph tables rest on. -/
structure GraphReady (db : Database) (t : MemorySnapshot) : Prop where
  consistent : db.Consistent
  objects : MirrorsObjects db t
  decoded : ∀ (id : ObjectId) (o : StoredObject), t.objects[id]? = some o →
    decode id o.bytes = .ok o

namespace GraphReady

variable (h : GraphReady db t)
include h

theorem get_of_mem {o : StoredObject} (ho : o ∈ objectList t) : t.objects[o.id]? = some o := by
  obtain ⟨id, hget⟩ := mem_objectList.mp ho
  rwa [(MemoryStore.decode_eq_ok.mp (h.decoded id o hget)).2.2.2.1]

theorem satisfies_kind {o : StoredObject} (ho : o ∈ objectList t) :
    satisfies db.objects ⟨o.id, some o.kind⟩ = true := by
  obtain ⟨row, hrow, hkind, -⟩ := h.objects.present o.id o (h.get_of_mem ho)
  exact satisfies_iff.mpr ⟨row, hrow, fun kind hk => hkind.trans hk⟩

/-- The row of a parent has the kind of the child. -/
theorem satisfies_parent {o : StoredObject} (ho : o ∈ objectList t) {role : ReferenceRole}
    (hrole : parentRole o.kind = some role) {parent : ObjectId}
    (hparent : parent ∈ parentIds role o) :
    satisfies db.objects ⟨parent, some o.kind⟩ = true := by
  have hget := h.get_of_mem ho
  obtain ⟨edge, hedge, rfl⟩ := List.mem_map.mp hparent
  obtain ⟨hedge, herole⟩ := List.mem_filter.mp hedge
  have hkind := expectedKind_of_parent (h.decoded _ _ hget) hrole hedge (by simpa using herole)
  have hof : db.edgesOf o.id = o.references := by
    rw [h.objects.edges, hget]
    rfl
  refine h.consistent.keys _ (mem_foreignKeys.mpr (.inl ?_))
  rw [edgesOf] at hof
  cases hedges : db.edges[o.id]? with
  | none =>
      rw [hedges, Option.getD_none] at hof
      rw [← hof] at hedge
      cases hedge
  | some edges =>
      rw [hedges, Option.getD_some] at hof
      refine ⟨o.id, edges, hedges, List.mem_cons_of_mem _ (List.mem_map.mpr ⟨edge, hof ▸ hedge, ?_⟩)⟩
      rw [hkind]

/-- A parent with a generation is an operation, if its child is one. -/
theorem parent_operation {o : StoredObject} (ho : o ∈ objectList t) (hkind : o.kind = .operation)
    {parent : ObjectId} (hparent : parent ∈ parentIds .operationParent o)
    (hok : (generation t parent).isOk = true) :
    ∃ p ∈ objectList t, p.id = parent ∧ p.kind = .operation := by
  obtain ⟨g, hg⟩ := Except.isOk_iff.mp hok
  rw [generation, Except.bind_eq_ok] at hg
  obtain ⟨p, hp, -⟩ := hg
  have hget := (visibleObject_eq_ok.mp hp).2
  have hmem : p ∈ objectList t := mem_objectList.mpr ⟨parent, hget⟩
  have hid : p.id = parent := (MemoryStore.decode_eq_ok.mp (h.decoded parent p hget)).2.2.2.1
  refine ⟨p, hmem, hid, ?_⟩
  obtain ⟨row, hrow, hrowKind⟩ := satisfies_iff.mp
    (h.satisfies_parent ho (by rw [hkind]; rfl) hparent)
  obtain ⟨row', hrow', hkind', -⟩ := h.objects.present parent p hget
  rw [hrow, Option.some.injEq] at hrow'
  subst hrow'
  rw [hrowKind o.kind rfl, Option.some.injEq] at hkind'
  rw [← hkind', hkind]

theorem objectList_pairwise : (objectList t).Pairwise fun a b => a.id ≠ b.id := by
  have hkeys := BTreeMap.nodup_keys t.objects
  rw [List.Nodup, List.pairwise_map] at hkeys
  rw [objectList, List.pairwise_map]
  refine hkeys.imp_of_mem fun {a b} ha hb hne hid => hne ?_
  have hown : ∀ entry ∈ t.objects.toList, entry.2.id = entry.1 := fun entry hentry =>
    (MemoryStore.decode_eq_ok.mp
      (h.decoded entry.1 entry.2 (BTreeMap.mem_toList_iff_get.mp hentry))).2.2.2.1
  rw [← hown a ha, ← hown b hb, hid]

variable (hfits : ∀ o ∈ objectList t, NodeFits t o)
include hfits

omit [Unicode] [Hashes] h in
theorem rowOwner_of_mem_nodeRows {o : StoredObject} (ho : o ∈ objectList t) {row : GraphRow}
    (hrow : row ∈ nodeRows t o) : rowOwner row = o.id := by
  rcases (hfits o ho).nodeRows_eq with ⟨-, heq⟩ | ⟨g, -, ⟨-, heq⟩ | ⟨-, time, heq⟩⟩
  all_goals
    rw [heq] at hrow
    simp only [List.mem_cons, List.not_mem_nil, or_false] at hrow
  · subst hrow
    rfl
  · rcases hrow with rfl | rfl <;> rfl

/-- The rows are kept apart by their keys. -/
theorem graphRows_unique : (graphRows t).Pairwise fun a b => a.clashes b = false := by
  rw [graphRows, List.pairwise_append, List.pairwise_flatMap, List.pairwise_flatMap]
  refine ⟨⟨fun o ho => ?_, ?_⟩, ⟨fun o ho => ?_, ?_⟩, fun a ha b hb => ?_⟩
  · rcases (hfits o ho).nodeRows_eq with ⟨-, heq⟩ | ⟨g, -, ⟨-, heq⟩ | ⟨-, time, heq⟩⟩
    all_goals
      rw [heq]
      simp [GraphRow.clashes]
  · refine h.objectList_pairwise.imp_of_mem fun {o o'} ho ho' hne a ha b hb => ?_
    refine clashes_of_rowOwner_ne ?_
    rwa [rowOwner_of_mem_nodeRows hfits ho ha, rowOwner_of_mem_nodeRows hfits ho' hb]
  · exact parentRows_unique fun role hrole => nodup_parentIds (h.decoded _ _ (h.get_of_mem ho)) hrole
  · refine h.objectList_pairwise.imp_of_mem fun {o o'} ho ho' hne a ha b hb => ?_
    refine clashes_of_rowOwner_ne ?_
    rwa [rowOwner_of_mem_parentRows ha, rowOwner_of_mem_parentRows hb]
  · obtain ⟨o, ho, ha⟩ := List.mem_flatMap.mp ha
    obtain ⟨o', -, hb⟩ := List.mem_flatMap.mp hb
    rcases mem_parentRows hb with ⟨-, position, parent, -, rfl⟩ |
      ⟨-, -, position, parent, -, -, rfl⟩
    all_goals
      rcases (hfits o ho).nodeRows_eq with ⟨-, heq⟩ | ⟨g, -, ⟨-, heq⟩ | ⟨-, time, heq⟩⟩
      all_goals
        rw [heq] at ha
        simp only [List.mem_cons, List.not_mem_nil, or_false] at ha
      · subst ha
        rfl
      · rcases ha with rfl | rfl <;> rfl

/-- Every row has its keys into the inventory. -/
theorem graphRows_keys {row : GraphRow} (hrow : row ∈ graphRows t) {key : ForeignKey}
    (hkey : key ∈ row.foreignKeys) : satisfies db.objects key = true := by
  rcases List.mem_append.mp hrow with hrow | hrow
  · obtain ⟨o, ho, hrow⟩ := List.mem_flatMap.mp hrow
    have hkind := h.satisfies_kind ho
    rcases (hfits o ho).nodeRows_eq with ⟨-, heq⟩ | ⟨g, -, ⟨-, heq⟩ | ⟨hoperation, time, heq⟩⟩
    all_goals
      rw [heq] at hrow
      simp only [List.mem_cons, List.not_mem_nil, or_false] at hrow
    · subst hrow
      rw [List.mem_singleton.mp hkey]
      exact hkind
    · rw [hoperation] at hkind
      rcases hrow with rfl | rfl
      all_goals
        rw [List.mem_singleton.mp hkey]
        exact hkind
  · obtain ⟨o, ho, hrow⟩ := List.mem_flatMap.mp hrow
    rcases mem_parentRows hrow with ⟨hkind, position, parent, hparent, rfl⟩ |
      ⟨-, -, position, parent, -, -, rfl⟩
    · have hown := h.satisfies_kind ho
      have hparents := h.satisfies_parent ho (by rw [hkind]; rfl) hparent
      rw [hkind] at hown hparents
      simp only [GraphRow.foreignKeys, List.mem_cons, List.not_mem_nil, or_false] at hkey
      rcases hkey with rfl | rfl
      · exact hown
      · exact hparents
    · cases hkey

omit [Unicode] [Hashes] h in
theorem any_isOperation {o : StoredObject} (ho : o ∈ objectList t) (hkind : o.kind = .operation)
    (hok : (generation t o.id).isOk = true) :
    ((objectList t).flatMap (nodeRows t)).any (·.isOperation o.id) = true := by
  obtain ⟨g, hg⟩ := Except.isOk_iff.mp hok
  have hgraph := graphGeneration_eq_some.mpr ⟨.inr hkind, hg⟩
  rw [List.any_eq_true]
  rcases (hfits o ho).nodeRows_eq with ⟨hnone, -⟩ | ⟨g', -, ⟨hother, -⟩ | ⟨-, time, heq⟩⟩
  · rw [hgraph] at hnone
    cases hnone
  · exact absurd hkind hother
  · refine ⟨.operation o.id g' time, List.mem_flatMap.mpr ⟨o, ho, ?_⟩, by simp [GraphRow.isOperation]⟩
    rw [heq]
    simp

/-- **The graph tables can be rebuilt** when their numbers fit. -/
theorem rebuild_ok :
    rebuildGraphIndexes t db = .ok (db.withGraph (graphRows t)) ∧
      (db.withGraph (graphRows t)).Consistent := by
  have hall : ∀ inserted, inserted <+: graphRows t → (db.withGraph inserted).Consistent := by
    intro inserted hprefix
    have hmem : ∀ row ∈ inserted, row ∈ graphRows t := fun row hrow => hprefix.mem hrow
    refine h.consistent.withGraph (fun row hrow key => h.graphRows_keys hfits (hmem row hrow))
      (fun row hrow id hid => ?_) ((h.graphRows_unique hfits).sublist hprefix.sublist)
    -- a row about a parent stands behind all rows about the objects themselves
    rcases List.mem_append.mp (hmem row hrow) with hnode | hparent
    · obtain ⟨o, ho, hnode⟩ := List.mem_flatMap.mp hnode
      rcases (hfits o ho).nodeRows_eq with ⟨-, heq⟩ | ⟨g, -, ⟨-, heq⟩ | ⟨-, time, heq⟩⟩
      all_goals
        rw [heq] at hnode
        simp only [List.mem_cons, List.not_mem_nil, or_false] at hnode
      · subst hnode
        cases hid
      · rcases hnode with rfl | rfl <;> cases hid
    · obtain ⟨o, ho, hparent⟩ := List.mem_flatMap.mp hparent
      rcases mem_parentRows hparent with ⟨-, position, parent, -, rfl⟩ |
        ⟨hkind, hok, position, parent, hparentId, hparentOk, rfl⟩
      · cases hid
      · have hnodes : (objectList t).flatMap (nodeRows t) <+: inserted := by
          rcases List.prefix_or_prefix_of_prefix hprefix (List.prefix_append _ _) with hin | hin
          · obtain ⟨o', ho', hrow⟩ := List.mem_flatMap.mp (hin.mem hrow)
            rcases (hfits o' ho').nodeRows_eq with ⟨-, heq⟩ | ⟨g, -, ⟨-, heq⟩ | ⟨-, time, heq⟩⟩
            all_goals
              rw [heq] at hrow
              simp at hrow
          · exact hin
        have hany : ∀ p ∈ objectList t, p.kind = .operation →
            (generation t p.id).isOk = true → inserted.any (·.isOperation p.id) = true := by
          intro p hp hpkind hpok
          have hanyNode := any_isOperation hfits hp hpkind hpok
          rw [List.any_eq_true] at hanyNode ⊢
          obtain ⟨row, hrow, hoperation⟩ := hanyNode
          exact ⟨row, hnodes.mem hrow, hoperation⟩
        simp only [GraphRow.operations, List.mem_cons, List.not_mem_nil, or_false] at hid
        rcases hid with rfl | rfl
        · exact hany o ho hkind hok
        · obtain ⟨p, hp, rfl, hpkind⟩ := h.parent_operation ho hkind hparentId hparentOk
          exact hany p hp hpkind hparentOk
  exact ⟨rebuildGraphIndexes_eq_ok.mpr ⟨hfits, hall, rfl⟩, hall _ List.prefix_rfl⟩

end GraphReady

end Rebuilding

end Database

end RGit
