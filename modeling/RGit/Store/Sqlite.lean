/-
RGit/Store/Sqlite.lean

The durable store: the database, the loose objects and the snapshot in memory.

Every call reloads the database into memory first and checks it against the
loose objects on the way.  A writing call then stages its change with the
rules of the in-memory store, makes the bytes durable, writes the tables in
one transaction and installs the staged snapshot.  An operation takes the
store and returns its result with the store it leaves, also when it fails; a
transaction that fails leaves the database as it was.
-/
import RGit.Store.Invariant
import RGit.Store.Loose
import RGit.Store.Tables

namespace RGit

/-- `SqliteStore`; the evidence files that no incident row names are kept by
the object they are about. -/
structure SqliteStore where
  database : Database := {}
  loose : LooseStore := {}
  memory : MemorySnapshot := {}
  orphans : List ObjectId := []

namespace SqliteStore

open MemoryStore

/-! ### Reading the database -/

/-- The columns of a present row against the object. -/
def checkRow (row : ObjectRow) (object : StoredObject) : Except StoreError Unit :=
  if row.kind ≠ some object.kind ∨ row.schema ≠ some object.object.schemaVersion ∨
      row.canonicalLength ≠ some object.bytes.length then .error .unsupportedDatabase
  else .ok ()

/-- `verify_object_indexes`. -/
def verifyObjectIndexes (db : Database) (object : StoredObject) : Except StoreError Unit :=
  if !db.locations.contains object.id then .error .unsupportedDatabase
  else if db.edgesOf object.id ≠ object.references then .error .unsupportedDatabase
  else .ok ()

section Reading

variable [Unicode] [Hashes]

/-- One pass of the object loop of `load_snapshot`. -/
def readRow (db : Database) (loose : LooseStore) (s : MemorySnapshot)
    (entry : ObjectId × ObjectRow) : Except StoreError MemorySnapshot :=
  match entry.2.presence with
  | .present => do
      let object ← (loose.readObjectAudited entry.1).mapError fun _ => .unsupportedDatabase
      checkRow entry.2 object
      verifyObjectIndexes db object
      .ok { s with objects := s.objects.insert entry.1 object }
  | .promised => .ok { s with promised := s.promised.insert entry.1 }
  | .quarantined => .ok { s with quarantined := s.quarantined.insert entry.1 }
  | .unavailable => .ok s

/-- The reference loop of `load_snapshot`. -/
def readReferences (db : Database) : BTreeMap ReferenceKey ReferenceState :=
  db.references.map fun _ row => ⟨row.target, row.generation, row.operation⟩

/-- The operation names the target, with the kind of the key. -/
def operationNames (operation : StoredObject) (key : ReferenceKey) (target : ObjectId) : Bool :=
  operation.references.any fun edge =>
    edge.id = target ∧ edge.expectedKind = some key.expectedKind

/-- One pass of the verification loop of `load_snapshot`. -/
def checkReference (s : MemorySnapshot) (entry : ReferenceKey × ReferenceState) :
    Except StoreError Unit := do
  let (key, state) := entry
  let target ← Except.ofOption s.objects[state.target]? .unsupportedDatabase
  let operation ← Except.ofOption s.objects[state.operation]? .unsupportedDatabase
  if target.kind ≠ key.expectedKind ∨ operation.kind ≠ .operation ∨
      !referenceIdentityMatches key target ∨
      (key = .operationHead ∧ state.target ≠ state.operation) then
    .error .unsupportedDatabase
  else
    let _ ← (closureFrom s (referenceRoots key state)).mapError fun _ => .unsupportedDatabase
    if key ≠ .operationHead ∧ !operationNames operation key state.target then
      .error .unsupportedDatabase
    else .ok ()

/-- `load_snapshot`. -/
def loadSnapshot (db : Database) (loose : LooseStore) : Except StoreError MemorySnapshot := do
  let s ← db.objects.toList.foldlM (readRow db loose) { revision := db.revision }
  let s := { s with references := readReferences db }
  forM s.references.toList (checkReference s)
  db.verifyDerivedIndexes s
  .ok s

/-- `verify_incidents`: every incident is open and closes the store. -/
def verifyIncidents (db : Database) : Except StoreError Unit :=
  if db.incidents.any (fun id =>
      (db.objects[id]?).map (·.presence) ≠ some .quarantined) then .error .unsupportedDatabase
  else if db.incidentReadOnly ≠ !db.incidents.isEmpty then .error .unsupportedDatabase
  else .ok ()

/-- `SqliteStore::refresh`. -/
def refresh (store : SqliteStore) : Except StoreError SqliteStore := do
  verifyIncidents store.database
  let s ← loadSnapshot store.database store.loose
  .ok { store with memory := s }

end Reading

/-! ### Opening a store -/

section Opening

variable [Unicode] [Hashes]

/-- `INSERT INTO objects .. presence 3 .. ON CONFLICT DO UPDATE`. -/
def upsertQuarantined (id : ObjectId) (revision : UInt64) (db : Database) : Database :=
  let row : ObjectRow := match db.objects[id]? with
    | none => ⟨none, none, .quarantined, none, revision⟩
    | some row => { row with presence := .quarantined, canonicalLength := none }
  { db with objects := db.objects.insert id row }

/-- One pass of `reconcile_orphan_evidence`. -/
def reconcileEvidence (db : Database) (id : ObjectId) : Except StoreError Database :=
  if db.revision = maxSqliteInteger then .error .revisionOverflow
  else do
    let revision := db.revision + 1
    let db ← db.execute (upsertQuarantined id revision)
    let db ← db.execute (Database.deleteLocation id)
    let db ← db.execute (Database.insertIncident id)
    db.execute fun db => { db with revision := revision, incidentReadOnly := true }

/-- `reconcile_orphan_evidence`: one transaction for each file. -/
def reconcileOrphanEvidence (store : SqliteStore) : Except StoreError SqliteStore := do
  let db ← store.orphans.foldlM reconcileEvidence store.database
  .ok { store with database := db, orphans := [] }

/-- `SqliteStore::open` of an existing store, header and sidecar files aside. -/
def reopen (store : SqliteStore) : Except StoreError SqliteStore := do
  let store ← reconcileOrphanEvidence store
  refresh store

end Opening

/-! ### Writing -/

/-- An operation of the store. -/
abbrev Operation (α : Type) := SqliteStore → Except StoreError α × SqliteStore

/-- `add_edge_promises`. -/
def addEdgePromises (s : MemorySnapshot) (object : StoredObject) : MemorySnapshot :=
  object.references.foldl
    (fun s edge =>
      if !s.objects.contains edge.id && !s.quarantined.contains edge.id &&
          !s.promised.contains edge.id then
        { s with promised := s.promised.insert edge.id }
      else s) s

/-- `begin_checked`. -/
def beginChecked (revision : UInt64) (db : Database) : Except StoreError Unit :=
  if db.revision ≠ revision then .error .referenceConflict else .ok ()

/-- `finish`, with what the transaction wrote. -/
def finish {α : Type} (base : UInt64) (result : α) (written : Database × MemorySnapshot) :
    Operation α := fun store =>
  if store.memory.revision ≠ base then
    (.error .referenceConflict, { store with database := written.1 })
  else (.ok result, { store with database := written.1, memory := written.2 })

section Writing

variable [Unicode] [Hashes]

/-- `verify_durable_object`. -/
def verifyDurableObject (loose : LooseStore) (expected : StoredObject) :
    Except StoreError Unit := do
  let observed ← (loose.readObjectAudited expected.id).mapError fun _ => .objectStorage
  if observed.kind ≠ expected.kind ∨ observed.bytes ≠ expected.bytes then
    .error .unsupportedDatabase
  else .ok ()

/-- What `put`, `mark_promised` and `publish` begin with. -/
def whileMutable {α : Type} (body : Operation α) : Operation α := fun store =>
  match refresh store with
  | .error e => (.error e, store)
  | .ok store =>
      if store.database.incidentReadOnly then (.error .incidentReadOnly, store) else body store

/-- The transaction of `put`. -/
def putTransaction (id : ObjectId) (base : UInt64) (staged : MemorySnapshot)
    (loose : LooseStore) (db : Database) : Except StoreError (Database × MemorySnapshot) := do
  let object ← visibleObject staged id
  let staged := addEdgePromises staged object
  beginChecked base db
  verifyDurableObject loose object
  let db ← db.indexObject object (base + 1)
  let db ← db.rebuildGraphIndexes staged
  let db ← db.setRevision staged.revision
  .ok (db, staged)

/-- `SqliteStore::put`. -/
def put (id : ObjectId) (bytes : Bytes) : Operation PutOutcome :=
  whileMutable fun store =>
    let base := store.memory.revision
    match MemoryStore.put id bytes store.memory with
    | (.error e, _) => (.error e, store)
    | (.ok .alreadyPresent, _) => (.ok .alreadyPresent, store)
    | (.ok .new, staged) =>
        match store.loose.put id bytes with
        | (.error _, loose) => (.error .objectStorage, { store with loose := loose })
        | (.ok _, loose) =>
            let store := { store with loose := loose }
            match putTransaction id base staged loose store.database with
            | .error e => (.error e, store)
            | .ok written => finish base .new written store

/-- The transaction of `mark_promised`. -/
def markTransaction (id : ObjectId) (base : UInt64) (staged : MemorySnapshot) (db : Database) :
    Except StoreError (Database × MemorySnapshot) := do
  beginChecked base db
  let revision ← toSqlU64 staged.revision
  let db ← db.execute (Database.insertPromised id revision)
  let db ← db.setRevision staged.revision
  .ok (db, staged)

/-- `SqliteStore::mark_promised`. -/
def markPromised (id : ObjectId) : Operation Unit :=
  whileMutable fun store =>
    let base := store.memory.revision
    match MemoryStore.markPromised id store.memory with
    | (.error e, _) => (.error e, store)
    | (.ok (), staged) =>
        if staged.revision = base then (.ok (), store)
        else
          match markTransaction id base staged store.database with
          | .error e => (.error e, store)
          | .ok written => finish base () written store

/-- The transaction of `quarantine`. -/
def quarantineTransaction (id : ObjectId) (base : UInt64) (staged : MemorySnapshot)
    (db : Database) : Except StoreError (Database × MemorySnapshot) := do
  beginChecked base db
  let db ← db.execute (Database.deleteLocation id)
  let db ← db.execute (Database.deleteEdges id)
  let db ← db.execute (Database.markQuarantined id)
  let db ← db.rebuildGraphIndexes staged
  let _ ← toSqlU64 staged.revision
  let db ← db.execute (Database.insertIncident id)
  let db ← db.execute Database.setIncidentReadOnly
  let db ← db.setRevision staged.revision
  .ok (db, staged)

/-- `SqliteStore::quarantine`: it does not ask whether the store is mutable,
and its evidence file outlives a failed transaction. -/
def quarantine (id : ObjectId) : Operation Unit := fun store =>
  match refresh store with
  | .error e => (.error e, store)
  | .ok store =>
      let base := store.memory.revision
      match MemoryStore.quarantine id store.memory with
      | (.error e, _) => (.error e, store)
      | (.ok (), staged) =>
          if staged.revision = base then (.ok (), store)
          else
            let staged := { staged with
              objects := staged.objects.erase id
              promised := staged.promised.erase id }
            match quarantineTransaction id base staged store.database with
            | .error e => (.error e, { store with orphans := store.orphans ++ [id] })
            | .ok written => finish base () written store

/-- The loop of `publish` that makes the bytes durable. -/
def putLoose : List PublicationObject → LooseStore → Except StoreError Unit × LooseStore
  | [], loose => (.ok (), loose)
  | candidate :: candidates, loose =>
      match loose.put candidate.id candidate.bytes with
      | (.error _, loose) => (.error .objectStorage, loose)
      | (.ok _, loose) => putLoose candidates loose

/-- The loop of `publish` that adds promises. -/
def promiseEdges (candidates : List PublicationObject) (staged : MemorySnapshot) :
    Except StoreError MemorySnapshot :=
  candidates.foldlM (fun s candidate => do
    .ok (addEdgePromises s (← visibleObject staged candidate.id))) staged

/-- One pass of the loop of `publish` that indexes objects. -/
def indexCandidate (loose : LooseStore) (staged : MemorySnapshot) (db : Database)
    (candidate : PublicationObject) : Except StoreError Database := do
  let object ← visibleObject staged candidate.id
  verifyDurableObject loose object
  db.indexObject object staged.revision

/-- The transaction of `publish`. -/
def publishTransaction (publication : Publication) (results : List ReferenceState)
    (base : UInt64) (staged : MemorySnapshot) (loose : LooseStore) (db : Database) :
    Except StoreError (Database × MemorySnapshot) := do
  let staged ← promiseEdges publication.objects staged
  beginChecked base db
  let db ← publication.objects.foldlM (indexCandidate loose staged) db
  let db ← db.rebuildGraphIndexes staged
  let db ← (publication.updates.zip results).foldlM
    (fun db (update, state) => db.writeReferenceCas update state publication.operation) db
  let db ← db.setRevision staged.revision
  .ok (db, staged)

/-- `SqliteStore::publish`. -/
def publish (publication : Publication) (validator : PublicationValidator) :
    Operation (List ReferenceState) :=
  whileMutable fun store =>
    let base := store.memory.revision
    match MemoryStore.publish publication validator store.memory with
    | (.error e, _) => (.error e, store)
    | (.ok results, staged) =>
        match putLoose publication.objects store.loose with
        | (.error e, loose) => (.error e, { store with loose := loose })
        | (.ok (), loose) =>
            let store := { store with loose := loose }
            match publishTransaction publication results base staged loose store.database with
            | .error e => (.error e, store)
            | .ok written => finish base results written store

/-- `SqliteStore::compare_and_swap`. -/
def compareAndSwap (key : ReferenceKey) (expected : ExpectedRef) (target operation : ObjectId)
    (validator : PublicationValidator) : Operation ReferenceState := fun store =>
  match publish (swapPublication key expected target operation) validator store with
  | (.error e, store) => (.error e, store)
  | (.ok (state :: _), store) => (.ok state, store)
  | (.ok [], store) => (.error .referenceConflict, store)

/-! ### Reading -/

/-- A read of the snapshot that `refresh` installs. -/
def reading {α : Type} (read : MemorySnapshot → Except StoreError α) : Operation α :=
  fun store =>
    match refresh store with
    | .error e => (.error e, store)
    | .ok store => (read store.memory, store)

/-- `SqliteStore::get`. -/
def get (id : ObjectId) : Operation StoredObject := reading fun s => visibleObject s id

/-- `SqliteStore::presence`. -/
def presence (id : ObjectId) : Operation (Option ObjectPresence) :=
  reading fun s => .ok (MemoryStore.presence s id)

/-- `SqliteStore::reference`. -/
def reference (key : ReferenceKey) : Operation (Option ReferenceState) :=
  reading fun s => .ok s.references[key]?

end Writing

end SqliteStore

end RGit
