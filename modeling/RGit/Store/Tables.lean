/-
RGit/Store/Tables.lean

The metadata database: its tables, its constraints and its statements.

A table is kept by its primary key.  The four graph tables are one list of
tagged rows, since every write deletes and rebuilds them together.  The role
of an edge stands for its registered name, and a path or a length that only
the file system determines is left out.  `execute` runs a statement and
refuses it when a `CHECK`, a `UNIQUE` or a foreign key of the schema does not
hold afterwards; foreign keys are immediate, so this is after each statement.
-/
import RGit.Store.Memory

namespace RGit

/-- `MAX_SQLITE_INTEGER`. -/
def maxSqliteInteger : UInt64 := 9223372036854775807

/-- `to_sql_u64`: what fits a signed column. -/
def toSqlU64 (value : UInt64) : Except StoreError UInt64 :=
  if value > maxSqliteInteger then .error .revisionOverflow else .ok value

/-! ### Rows -/

/-- The column `presence`. -/
inductive RowPresence where
  | present
  | promised
  | quarantined
  | unavailable
  deriving DecidableEq

/-- A row of `objects`. -/
structure ObjectRow where
  kind : Option ObjectKind
  schema : Option UInt64
  presence : RowPresence
  canonicalLength : Option Nat
  firstSeenRevision : UInt64
  deriving DecidableEq

/-- The `CHECK` of `objects`. -/
def ObjectRow.valid (row : ObjectRow) : Bool :=
  match row.presence with
  | .present => row.kind.isSome && row.schema.isSome && row.canonicalLength.isSome
  | .promised | .quarantined => row.canonicalLength.isNone
  | .unavailable => row.kind.isSome && row.schema.isSome && row.canonicalLength.isNone

/-- A row of `references`. -/
structure ReferenceRow where
  target : ObjectId
  targetKind : ObjectKind
  generation : UInt64
  operation : ObjectId
  deriving DecidableEq

/-- A row of `graph_generations`, `operations`, `snapshot_parents` or
`operation_parents`. -/
inductive GraphRow where
  | generation (object : ObjectId) (kind : ObjectKind) (generation : UInt64)
  | operation (operation : ObjectId) (generation logicalTime : UInt64)
  | snapshotParent (snapshot : ObjectId) (position : Nat) (parent : ObjectId)
  | operationParent (operation : ObjectId) (position : Nat) (parent : ObjectId)
  deriving DecidableEq

/-- What a foreign key into `objects` asks for: a row, and its kind where the
key is composite and not null. -/
structure ForeignKey where
  id : ObjectId
  kind : Option ObjectKind
  deriving DecidableEq

namespace GraphRow

/-- The foreign keys into `objects`. -/
def foreignKeys : GraphRow → List ForeignKey
  | .generation id kind _ => [⟨id, some kind⟩]
  | .operation id _ _ => [⟨id, some .operation⟩]
  | .snapshotParent id _ parent => [⟨id, some .snapshot⟩, ⟨parent, some .snapshot⟩]
  | .operationParent _ _ _ => []

/-- The foreign keys into `operations`. -/
def operations : GraphRow → List ObjectId
  | .operationParent id _ parent => [id, parent]
  | _ => []

def isOperation (id : ObjectId) : GraphRow → Bool
  | .operation id' _ _ => id' = id
  | _ => false

/-- Two rows that a `PRIMARY KEY` or a `UNIQUE` keeps apart. -/
def clashes : GraphRow → GraphRow → Bool
  | .generation a _ _, .generation b _ _ => a = b
  | .operation a _ _, .operation b _ _ => a = b
  | .snapshotParent a i p, .snapshotParent b j q => a = b ∧ (i = j ∨ p = q)
  | .operationParent a i p, .operationParent b j q => a = b ∧ (i = j ∨ p = q)
  | _, _ => false

end GraphRow

structure Database where
  revision : UInt64 := 0
  incidentReadOnly : Bool := false
  objects : BTreeMap ObjectId ObjectRow := ∅
  edges : BTreeMap ObjectId (List ReferenceEdge) := ∅
  locations : BTreeSet ObjectId := ∅
  graph : List GraphRow := []
  references : BTreeMap ReferenceKey ReferenceRow := ∅
  incidents : List ObjectId := []

namespace Database

/-- The rows of `object_edges` with a source, by ordinal. -/
def edgesOf (db : Database) (source : ObjectId) : List ReferenceEdge :=
  (db.edges[source]?).getD []

/-! ### Constraints -/

def edgeKeys (source : ObjectId) (edges : List ReferenceEdge) : List ForeignKey :=
  ⟨source, none⟩ :: edges.map fun edge => ⟨edge.id, edge.expectedKind⟩

def referenceKeys (row : ReferenceRow) : List ForeignKey :=
  [⟨row.target, some row.targetKind⟩, ⟨row.operation, some .operation⟩]

/-- The foreign keys into `objects` of every table. -/
def foreignKeys (db : Database) : List ForeignKey :=
  (db.edges.toList.flatMap fun entry => edgeKeys entry.1 entry.2) ++
    db.locations.toList.map (fun id => ⟨id, none⟩) ++
    db.graph.flatMap GraphRow.foreignKeys ++
    (db.references.toList.flatMap fun entry => referenceKeys entry.2) ++
    db.incidents.map fun id => ⟨id, none⟩

def satisfies (objects : BTreeMap ObjectId ObjectRow) (key : ForeignKey) : Bool :=
  match objects[key.id]? with
  | none => false
  | some row => key.kind.all fun kind => row.kind == some kind

/-- The constraints of the schema. -/
structure Consistent (db : Database) : Prop where
  rows : ∀ entry ∈ db.objects.toList, entry.2.valid = true
  keys : ∀ key ∈ db.foreignKeys, satisfies db.objects key = true
  operations : ∀ row ∈ db.graph, ∀ id ∈ row.operations, db.graph.any (·.isOperation id) = true
  unique : db.graph.Pairwise fun a b => a.clashes b = false
  references : ∀ entry ∈ db.references.toList, entry.2.targetKind = entry.1.expectedKind

instance (db : Database) : Decidable (Consistent db) :=
  decidable_of_iff
    ((∀ entry ∈ db.objects.toList, entry.2.valid = true) ∧
      (∀ key ∈ db.foreignKeys, satisfies db.objects key = true) ∧
      (∀ row ∈ db.graph, ∀ id ∈ row.operations, db.graph.any (·.isOperation id) = true) ∧
      (db.graph.Pairwise fun a b => a.clashes b = false) ∧
      ∀ entry ∈ db.references.toList, entry.2.targetKind = entry.1.expectedKind)
    ⟨fun ⟨hrows, hkeys, hoperations, hunique, hreferences⟩ =>
        ⟨hrows, hkeys, hoperations, hunique, hreferences⟩,
      fun h => ⟨h.rows, h.keys, h.operations, h.unique, h.references⟩⟩

/-- One statement of a transaction. -/
def execute (statement : Database → Database) (db : Database) : Except StoreError Database :=
  if (statement db).Consistent then .ok (statement db) else .error .database

theorem execute_eq_ok {statement : Database → Database} {db db' : Database} :
    execute statement db = .ok db' ↔ (statement db).Consistent ∧ statement db = db' := by
  simp [execute]

/-! ### Statements -/

/-- `INSERT INTO objects .. presence 1 .. ON CONFLICT DO UPDATE`. -/
def upsertObject (object : StoredObject) (revision : UInt64) (db : Database) : Database :=
  let firstSeen := ((db.objects[object.id]?).map (·.firstSeenRevision)).getD revision
  let row : ObjectRow := ⟨some object.kind, some object.object.schemaVersion, .present,
    some object.bytes.length, firstSeen⟩
  { db with objects := db.objects.insert object.id row }

/-- The row of the target of an edge, from the row it had. -/
def targetRow (revision : UInt64) (edge : ReferenceEdge) : Option ObjectRow → ObjectRow
  | none => ⟨edge.expectedKind, none, .promised, none, revision⟩
  | some row => { row with kind := row.kind.or edge.expectedKind }

/-- `INSERT INTO objects .. presence 2 .. DO UPDATE SET kind=COALESCE(..)`. -/
def upsertTarget (revision : UInt64) (edge : ReferenceEdge) (db : Database) : Database :=
  { db with objects := db.objects.insert edge.id (targetRow revision edge db.objects[edge.id]?) }

/-- `INSERT INTO objects .. presence 2 .. ON CONFLICT DO NOTHING`. -/
def insertPromised (id : ObjectId) (revision : UInt64) (db : Database) : Database :=
  match db.objects[id]? with
  | none => { db with objects := db.objects.insert id ⟨none, none, .promised, none, revision⟩ }
  | some _ => db

/-- `UPDATE objects SET presence=3, canonical_length=NULL`. -/
def markQuarantined (id : ObjectId) (db : Database) : Database :=
  match db.objects[id]? with
  | none => db
  | some row =>
      let row := { row with presence := .quarantined, canonicalLength := none }
      { db with objects := db.objects.insert id row }

def deleteEdges (source : ObjectId) (db : Database) : Database :=
  { db with edges := db.edges.erase source }

def insertEdge (source : ObjectId) (edge : ReferenceEdge) (db : Database) : Database :=
  { db with edges := db.edges.insert source (db.edgesOf source ++ [edge]) }

def deleteLocation (id : ObjectId) (db : Database) : Database :=
  { db with locations := db.locations.erase id }

def insertLocation (id : ObjectId) (db : Database) : Database :=
  { db with locations := db.locations.insert id }

def deleteGraph (db : Database) : Database := { db with graph := [] }

def insertGraph (row : GraphRow) (db : Database) : Database :=
  { db with graph := db.graph ++ [row] }

def insertReference (key : ReferenceKey) (row : ReferenceRow) (db : Database) : Database :=
  { db with references := db.references.insert key row }

def insertIncident (id : ObjectId) (db : Database) : Database :=
  { db with incidents := db.incidents ++ [id] }

def setIncidentReadOnly (db : Database) : Database := { db with incidentReadOnly := true }

/-! ### Functions on a transaction -/

/-- `index_object`. -/
def indexObject (object : StoredObject) (revision : UInt64) (db : Database) :
    Except StoreError Database := do
  let revision ← toSqlU64 revision
  let db ← execute (upsertObject object revision) db
  let db ← object.references.foldlM (fun db edge => execute (upsertTarget revision edge) db) db
  let db ← execute (deleteEdges object.id) db
  let db ← object.references.foldlM (fun db edge => execute (insertEdge object.id edge) db) db
  let db ← execute (deleteLocation object.id) db
  execute (insertLocation object.id) db

/-- `set_revision`. -/
def setRevision (revision : UInt64) (db : Database) : Except StoreError Database := do
  let revision ← toSqlU64 revision
  execute (fun db => { db with revision := revision }) db

/-- `write_reference_cas`. -/
def writeReferenceCas (update : RefUpdate) (state : ReferenceState) (operation : ObjectId)
    (db : Database) : Except StoreError Database :=
  match update.expected with
  | .absent =>
      match db.references[update.key]? with
      | some _ => .error .referenceConflict
      | none =>
          execute (insertReference update.key
            ⟨state.target, update.key.expectedKind, 0, operation⟩) db
  | .exact expected => do
      let generation ← toSqlU64 expected.generation
      match db.references[update.key]? with
      | none => .error .referenceConflict
      | some row =>
          if row.target = expected.target ∧ row.generation = generation ∧
              row.operation = expected.operation ∧ row.generation < maxSqliteInteger then
            execute (insertReference update.key
              ⟨state.target, update.key.expectedKind, row.generation + 1, operation⟩) db
          else .error .referenceConflict

/-! ### Graph indexes -/

/-- `value_unsigned_field`. -/
def valueUnsignedField (value : Value) (key : UInt64) : Option UInt64 :=
  ((MemoryStore.valueMap value).bind fun m => MemoryStore.valueField m key).bind
    MemoryStore.valueUnsigned

/-- The generation of an object of a kind that has one. -/
def graphGeneration (s : MemorySnapshot) (object : StoredObject) : Option UInt64 :=
  if object.kind = .snapshot ∨ object.kind = .operation then
    (MemoryStore.generation s object.id).toOption
  else none

/-- The row of `graph_generations` of an object. -/
def generationRows (s : MemorySnapshot) (object : StoredObject) :
    Except StoreError (List GraphRow) :=
  match graphGeneration s object with
  | none => .ok []
  | some generation => do
      let generation ← toSqlU64 generation
      .ok [.generation object.id object.kind generation]

/-- The row of `operations` of an object with a generation; `missing` is what
an operation without a logical time is reported as. -/
def operationRow (missing : StoreError) (object : StoredObject) (generation : UInt64) :
    Except StoreError (List GraphRow) := do
  let logicalTime ← Except.ofOption (valueUnsignedField object.object.value 6) missing
  let generation ← toSqlU64 generation
  let logicalTime ← toSqlU64 logicalTime
  .ok [.operation object.id generation logicalTime]

/-- The row of `operations` that `rebuild_graph_indexes` inserts. -/
def operationRows (s : MemorySnapshot) (object : StoredObject) :
    Except StoreError (List GraphRow) :=
  if object.kind = .operation then
    match graphGeneration s object with
    | none => do
        -- the logical time is read before the generation is asked for
        let _ ← Except.ofOption (valueUnsignedField object.object.value 6) StoreError.invalidGraph
        .ok []
    | some generation => operationRow .invalidGraph object generation
  else .ok []

/-- The parents of an object with their positions. -/
def parents (role : ReferenceRole) (object : StoredObject) : List (ObjectId × Nat) :=
  (MemoryStore.parentIds role object).zipIdx

/-- The rows of `snapshot_parents` and `operation_parents` of an object. -/
def parentRows (s : MemorySnapshot) (object : StoredObject) : List GraphRow :=
  match object.kind with
  | .snapshot =>
      (parents .snapshotParent object).map fun (parent, position) =>
        .snapshotParent object.id position parent
  | .operation =>
      if (MemoryStore.generation s object.id).isOk then
        ((parents .operationParent object).filter fun (parent, _) =>
            (MemoryStore.generation s parent).isOk).map fun (parent, position) =>
          .operationParent object.id position parent
      else []
  | _ => []

def insertRows (rows : List GraphRow) (db : Database) : Except StoreError Database :=
  rows.foldlM (fun db row => execute (insertGraph row) db) db

/-- One pass of the first loop of `rebuild_graph_indexes`. -/
def indexNode (s : MemorySnapshot) (db : Database) (object : StoredObject) :
    Except StoreError Database := do
  let generations ← generationRows s object
  let db ← insertRows generations db
  let operations ← operationRows s object
  insertRows operations db

/-- One pass of the second loop of `rebuild_graph_indexes`. -/
def indexParents (s : MemorySnapshot) (db : Database) (object : StoredObject) :
    Except StoreError Database :=
  insertRows (parentRows s object) db

/-- `rebuild_graph_indexes`. -/
def rebuildGraphIndexes (s : MemorySnapshot) (db : Database) : Except StoreError Database := do
  let objects := s.objects.toList.map (·.2)
  let db ← execute deleteGraph db
  let db ← objects.foldlM (indexNode s) db
  objects.foldlM (indexParents s) db

/-- The row of `operations` that `verify_derived_indexes` expects. -/
def expectedOperationRows (s : MemorySnapshot) (object : StoredObject) :
    Except StoreError (List GraphRow) :=
  match graphGeneration s object with
  | some generation =>
      if object.kind = .operation then operationRow .unsupportedDatabase object generation
      else .ok []
  | none => .ok []

/-- The rows of one object as `verify_derived_indexes` expects them. -/
def expectedRows (s : MemorySnapshot) (object : StoredObject) :
    Except StoreError (List GraphRow) := do
  let generations ← generationRows s object
  let operations ← expectedOperationRows s object
  .ok (generations ++ operations ++ parentRows s object)

/-- `verify_derived_indexes`: sorted tables are equal when one is a
rearrangement of the other. -/
def verifyDerivedIndexes (db : Database) (s : MemorySnapshot) : Except StoreError Unit := do
  let rows ← (s.objects.toList.map (·.2)).mapM (expectedRows s)
  if rows.flatten.isPerm db.graph then .ok () else .error .unsupportedDatabase

end Database

end RGit
