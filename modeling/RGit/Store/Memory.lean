/-
RGit/Store/Memory.lean

The in-memory reference backend.

An operation takes the snapshot behind the lock and returns its result
together with the snapshot it leaves there, also when it fails.  `publish`
takes the lock twice: `beginPublish` stages against the snapshot it finds,
`commitPublish` installs what was staged if the revision has not moved.
-/
import RGit.Lib.Worklist
import RGit.Graph.Reachability
import RGit.Store.Model

namespace RGit

structure MemorySnapshot where
  objects : BTreeMap ObjectId StoredObject := ∅
  promised : BTreeSet ObjectId := ∅
  quarantined : BTreeSet ObjectId := ∅
  references : BTreeMap ReferenceKey ReferenceState := ∅
  revision : UInt64 := 0

namespace MemoryStore

/-! ### Lookups -/

/-- `MemoryStore::decode`. -/
def decode [Unicode] [Hashes] (id : ObjectId) (bytes : Bytes) : Except StoreError StoredObject := do
  let object ← (AnyObject.decodeVerified bytes id .bulk).mapError .invalidObject
  (StoredObject.new id bytes object).mapError .invalidObject

/-- `MemoryStore::visible_object`. -/
def visibleObject (s : MemorySnapshot) (id : ObjectId) : Except StoreError StoredObject :=
  if s.quarantined.contains id then .error .quarantined
  else
    match s.objects[id]? with
    | some object => .ok object
    | none => if s.promised.contains id then .error .promised else .error .notPresent

/-- `MemoryStore::check_expected`. -/
def checkExpected (s : MemorySnapshot) (update : RefUpdate) : Except StoreError Unit :=
  let actual := s.references[update.key]?
  let holds := match update.expected with
    | .absent => actual.isNone
    | .exact expected => actual == some expected
  if holds then .ok () else .error .referenceConflict

/-- `MemoryStore::next_state`. -/
def nextState (s : MemorySnapshot) (publication : Publication) (update : RefUpdate) :
    Except StoreError ReferenceState := do
  let generation ← match s.references[update.key]? with
    | none => .ok 0
    | some old => Except.ofOption (checkedAdd old.generation 1) .generationOverflow
  .ok ⟨update.target, generation, publication.operation⟩

/-! ### Reading canonical records -/

def valueMap : Value → Option Entries
  | .map m => some m
  | _ => none

def valueArray : Value → Option (List Value)
  | .array vs => some vs
  | _ => none

def valueField (m : Entries) (key : UInt64) : Option Value := lookupKey m key

def valueBytes : Value → Option Bytes
  | .bytes b => some b
  | _ => none

def valueUnsigned : Value → Option UInt64
  | .unsigned n => some n
  | _ => none

def objectId (v : Value) : Option ObjectId := do
  (ObjectId.fromBytes (← valueBytes v)).toOption

def objectIdField (m : Entries) (key : UInt64) : Option ObjectId := do
  objectId (← valueField m key)

def typedRef (v : Value) : Option (ObjectKind × ObjectId) := do
  let m ← valueMap v
  let kind ← (Decode.kindOf (← valueUnsigned (← valueField m 0))).toOption
  some (kind, ← objectIdField m 1)

/-- `validate_line_predecessor`. -/
def validateLinePredecessor (state : Entries) (expected : ExpectedRef) :
    Except StoreError Unit := do
  let generation ← Except.ofOption ((valueField state 6).bind valueUnsigned) .operationMismatch
  let previous := (valueField state 7).bind objectId
  match expected with
  | .absent =>
      if generation = 0 ∧ previous = none then .ok () else .error .operationMismatch
  | .exact old => do
      let following ← Except.ofOption (checkedAdd old.generation 1) .generationOverflow
      if generation = following ∧ previous = some old.target then .ok ()
      else .error .operationMismatch

/-- The fields of a declaration and those of the line state they announce. -/
def declaredFields : List (UInt64 × UInt64) :=
  [(0, 2), (1, 3), (2, 4), (3, 5), (4, 6), (6, 8), (7, 9), (8, 10), (9, 11)]

/-- `line_action_matches`. -/
def lineActionMatches (action : Value) (state : Entries) : Bool :=
  match valueMap action with
  | none => false
  | some action =>
      (valueField action 0).bind valueUnsigned == some 1 &&
        match (valueField action 3).bind valueMap with
        | none => false
        | some declaration =>
            declaredFields.all (fun (declarationKey, stateKey) =>
              valueField declaration declarationKey == valueField state stateKey) &&
              valueField declaration 5 == valueField state 7

/-- `transition_matches`. -/
def transitionMatches (action : Value) (update : RefUpdate) : Bool :=
  match valueMap action with
  | none => false
  | some action =>
      let before := (valueField action 1).bind typedRef
      let after := (valueField action 2).bind typedRef
      let expectedBefore := match update.expected with
        | .absent => none
        | .exact state => some (update.key.expectedKind, state.target)
      (valueField action 0).bind valueUnsigned == some 0 && before == expectedBefore &&
        after == some (update.key.expectedKind, update.target)

/-- `reference_identity_matches`. -/
def referenceIdentityMatches (key : ReferenceKey) (target : StoredObject) : Bool :=
  match valueMap target.object.value with
  | none => false
  | some m =>
      match key with
      | .line id | .release id => (valueField m 3).bind valueBytes == some id.1
      | .change id => (valueField m 3).bind valueBytes == some id.1
      | .operationHead | .marker _ => true

/-! ### Operations and their actions -/

/-- The first action that matches and is not consumed. -/
def findAction (actions : List Value) (consumed : List Nat) (holds : Value → Bool) :
    Option Nat :=
  (actions.zipIdx.find? fun (action, index) => !consumed.contains index && holds action).map (·.2)

/-- Consumes one matching action. -/
def consumeAction (actions : List Value) (consumed : List Nat) (holds : Value → Bool) :
    Except StoreError (List Nat) :=
  match findAction actions consumed holds with
  | some index => .ok (index :: consumed)
  | none => .error .operationMismatch

/-- The branch of `validate_operation` for the operation head. -/
def checkOperationHead (publication : Publication) (operation : StoredObject)
    (update : RefUpdate) : Except StoreError Unit :=
  let parents := (operation.references.filter fun edge => edge.role = .operationParent).map (·.id)
  if update.target ≠ publication.operation then .error .operationMismatch
  else
    match update.expected with
    | .absent => if parents.isEmpty then .ok () else .error .operationMismatch
    | .exact state => if state.target ∈ parents then .ok () else .error .operationMismatch

/-- The checks on a new line state: its line, its operation, its predecessor. -/
def checkLineState (publication : Publication) (s : MemorySnapshot) (lineId : LineId)
    (update : RefUpdate) : Except StoreError Entries := do
  let lineState ← visibleObject s update.target
  let lineState ← Except.ofOption (valueMap lineState.object.value) .operationMismatch
  let line ← Except.ofOption (valueField lineState 3) .operationMismatch
  if valueBytes line ≠ some lineId.1 then .error .operationMismatch
  else if objectIdField lineState 12 ≠ some publication.operation then .error .operationMismatch
  else
    validateLinePredecessor lineState update.expected
    .ok lineState

/-- One pass of the loop of `validate_operation`. -/
def validateUpdate (publication : Publication) (operation : StoredObject) (s : MemorySnapshot)
    (actions : List Value) (consumed : List Nat) (update : RefUpdate) :
    Except StoreError (List Nat) :=
  match update.key with
  | .operationHead => do
      checkOperationHead publication operation update
      .ok consumed
  | .line lineId => do
      let lineState ← checkLineState publication s lineId update
      consumeAction actions consumed fun action => lineActionMatches action lineState
  | _ => consumeAction actions consumed fun action => transitionMatches action update

/-- The actions of an operation. -/
def operationActions (operation : StoredObject) : Except StoreError (List Value) := do
  let m ← Except.ofOption (valueMap operation.object.value) .operationMismatch
  Except.ofOption ((valueField m 8).bind valueArray) .operationMismatch

/-- `MemoryStore::validate_operation`. -/
def validateOperation (publication : Publication) (operation : StoredObject)
    (s : MemorySnapshot) : Except StoreError Unit := do
  let actions ← operationActions operation
  let consumed ← publication.updates.foldlM (validateUpdate publication operation s actions) []
  if consumed.length ≠ actions.length then .error .operationMismatch else .ok ()

/-! ### Closures and graphs -/

/-- The object of an edge, with the errors of `closure_from`. -/
def closureObject (s : MemorySnapshot) (id : ObjectId) : Except StoreError StoredObject :=
  match visibleObject s id with
  | .ok object => .ok object
  | .error .notPresent => .error (.closure .missing)
  | .error .promised => .error (.closure .promised)
  | .error .quarantined => .error (.closure .quarantined)
  | .error e => .error e

/-- The kind check of `closure_from`. -/
def checkEdgeKind (edge : ReferenceEdge) (object : StoredObject) :
    Except StoreError StoredObject :=
  match edge.expectedKind with
  | none => .ok object
  | some expected =>
      if object.kind ≠ expected then .error (.closure (.wrongKind expected object.kind))
      else .ok object

/-- What `closure_from` does with one edge. -/
def closureCheck (s : MemorySnapshot) (edge : ReferenceEdge) : Except StoreError StoredObject := do
  let object ← closureObject s edge.id
  checkEdgeKind edge object

/-- `MemoryStore::closure_from`. -/
def closureFrom (s : MemorySnapshot) (roots : List ReferenceEdge) :
    Except StoreError (BTreeMap ObjectId StoredObject) :=
  workLoop ReferenceEdge.id (closureCheck s) StoredObject.references
    (workFuel StoredObject.references s.objects roots) roots.reverse ∅

/-- The role of a parent edge, for the kinds that form a graph. -/
def parentRole : ObjectKind → Option ReferenceRole
  | .snapshot => some .snapshotParent
  | .operation => some .operationParent
  | _ => none

def parentIds (role : ReferenceRole) (object : StoredObject) : List ObjectId :=
  (object.references.filter fun edge => edge.role = role).map (·.id)

/-- `MemoryStore::graph`. -/
def graph (objects : BTreeMap ObjectId StoredObject) (kind : ObjectKind) :
    Except StoreError (GraphIndex ObjectId) := do
  let role ← Except.ofOption (parentRole kind) .invalidGraph
  let nodes := (objects.values.filter fun object => object.kind = kind).map fun object =>
    (⟨object.id, parentIds role object⟩ : GraphNode ObjectId)
  (GraphIndex.build nodes).mapError fun _ => .invalidGraph

/-- `MemoryStore::validate_affected_graphs`. -/
def validateAffectedGraphs (closure : BTreeMap ObjectId StoredObject) : Except StoreError Unit := do
  let _ ← graph closure .snapshot
  let _ ← graph closure .operation
  .ok ()

/-- What `ancestry_closure` does with one identifier. -/
def ancestryCheck (s : MemorySnapshot) (kind : ObjectKind) (id : ObjectId) :
    Except StoreError StoredObject := do
  let object ← visibleObject s id
  if object.kind ≠ kind then .error .invalidGraph else .ok object

/-- `MemoryStore::ancestry_closure`. -/
def ancestryClosure (s : MemorySnapshot) (roots : List ObjectId) (kind : ObjectKind) :
    Except StoreError (BTreeMap ObjectId StoredObject) := do
  let role ← Except.ofOption (parentRole kind) .invalidGraph
  workLoop id (ancestryCheck s kind) (parentIds role)
    (workFuel (parentIds role) s.objects roots) roots.reverse ∅

/-! ### Staging a publication -/

section Staging

variable [Unicode] [Hashes]

/-- One pass of the object loop of `stage`. -/
def stageObject (staged : MemorySnapshot) (candidate : PublicationObject) :
    Except StoreError MemorySnapshot := do
  let decoded ← decode candidate.id candidate.bytes
  match staged.objects[candidate.id]? with
  | some existing =>
      if existing.bytes ≠ decoded.bytes then .error (.invalidObject .digest)
      else .ok { staged with promised := staged.promised.erase candidate.id }
  | none =>
      .ok { staged with
        objects := staged.objects.insert candidate.id decoded
        promised := staged.promised.erase candidate.id }

/-- One pass of the first update loop of `stage`, over the keys so far. -/
def checkUpdate (s staged : MemorySnapshot) (keys : List ReferenceKey) (update : RefUpdate) :
    Except StoreError (List ReferenceKey) :=
  if update.key ∈ keys then .error .duplicateReferenceUpdate
  else do
    checkExpected s update
    let target ← visibleObject staged update.target
    if target.kind ≠ update.key.expectedKind then .error .referenceKind
    else if !referenceIdentityMatches update.key target then .error .referenceKind
    else .ok (update.key :: keys)

/-- The roots of the closure of a publication. -/
def publicationRoots (publication : Publication) : List ReferenceEdge :=
  ⟨.operationAfter, some .operation, publication.operation⟩ ::
    publication.updates.map fun update =>
      ⟨.operationAfter, some update.key.expectedKind, update.target⟩

/-- One pass of the last loop of `stage`. -/
def installReference (s : MemorySnapshot) (publication : Publication)
    (references : BTreeMap ReferenceKey ReferenceState) (update : RefUpdate) :
    Except StoreError (BTreeMap ReferenceKey ReferenceState) := do
  let state ← nextState s publication update
  .ok (references.insert update.key state)

/-- The checks of `stage` on the objects once they are staged. -/
def checkStaged (publication : Publication) (s staged : MemorySnapshot) :
    Except StoreError Unit := do
  let operation ← visibleObject staged publication.operation
  if operation.kind ≠ .operation then .error .referenceKind
  else
    let _ ← publication.updates.foldlM (checkUpdate s staged) []
    validateOperation publication operation staged
    let closure ← closureFrom staged (publicationRoots publication)
    validateAffectedGraphs closure

/-- `MemoryStore::stage`. -/
def stage (publication : Publication) (s : MemorySnapshot) : Except StoreError MemorySnapshot := do
  let staged ← publication.objects.foldlM stageObject s
  checkStaged publication s staged
  let references ← publication.updates.foldlM (installReference s publication) staged.references
  .ok { staged with references := references }

end Staging

/-! ### The store -/

/-- An operation under the lock. -/
abbrev Locked (α : Type) := MemorySnapshot → Except StoreError α × MemorySnapshot

section Store

variable [Unicode] [Hashes]

/-- `MemoryStore::put`. -/
def put (id : ObjectId) (bytes : Bytes) : Locked PutOutcome := fun s =>
  match decode id bytes with
  | .error e => (.error e, s)
  | .ok decoded =>
      match s.objects[id]? with
      | some existing =>
          if existing.bytes = decoded.bytes then (.ok .alreadyPresent, s)
          else (.error (.invalidObject .digest), s)
      | none =>
          match checkedAdd s.revision 1 with
          | none => (.error .revisionOverflow, s)
          | some nextRevision =>
              (.ok .new, { s with
                objects := s.objects.insert id decoded
                promised := s.promised.erase id
                revision := nextRevision })

omit [Unicode] [Hashes] in
/-- `MemoryStore::get`. -/
def get (id : ObjectId) : Locked StoredObject := fun s => (visibleObject s id, s)

/-- `MemoryStore::presence`. -/
def presence (s : MemorySnapshot) (id : ObjectId) : Option ObjectPresence :=
  if s.quarantined.contains id then some .quarantined
  else if s.objects.contains id then some .present
  else if s.promised.contains id then some .promised
  else none

/-- `MemoryStore::mark_promised`. -/
def markPromised (id : ObjectId) : Locked Unit := fun s =>
  if !s.objects.contains id && !s.promised.contains id then
    match checkedAdd s.revision 1 with
    | none => (.error .revisionOverflow, s)
    | some nextRevision =>
        (.ok (), { s with promised := s.promised.insert id, revision := nextRevision })
  else (.ok (), s)

/-- `MemoryStore::quarantine`. -/
def quarantine (id : ObjectId) : Locked Unit := fun s =>
  if !s.objects.contains id && !s.promised.contains id then (.error .notPresent, s)
  else if !s.quarantined.contains id then
    match checkedAdd s.revision 1 with
    | none => (.error .revisionOverflow, s)
    | some nextRevision =>
        (.ok (), { s with quarantined := s.quarantined.insert id, revision := nextRevision })
  else (.ok (), s)

/-- What `publish` holds between its two critical sections. -/
structure StagedPublication where
  publication : Publication
  staged : MemorySnapshot
  baseRevision : UInt64
  nextRevision : UInt64

/-- The first critical section of `publish`. -/
def beginPublish (publication : Publication) (s : MemorySnapshot) :
    Except StoreError StagedPublication := do
  let nextRevision ← Except.ofOption (checkedAdd s.revision 1) .revisionOverflow
  let staged ← stage publication s
  .ok ⟨publication, staged, s.revision, nextRevision⟩

namespace StagedPublication

/-- What the validator is shown. -/
def candidate (p : StagedPublication) : PublicationCandidate :=
  ⟨p.publication, p.staged.objects, p.staged.references⟩

/-- The new states, in the order of the updates. -/
def results (p : StagedPublication) : List ReferenceState :=
  p.publication.updates.filterMap fun update => p.staged.references[update.key]?

end StagedPublication

/-- The second critical section of `publish`. -/
def commitPublish (p : StagedPublication) : Locked (List ReferenceState) := fun s =>
  if s.revision ≠ p.baseRevision then (.error .referenceConflict, s)
  else (.ok p.results, { p.staged with revision := p.nextRevision })

/-- `MemoryStore::publish`, with nobody in between. -/
def publish (publication : Publication) (validator : PublicationValidator) :
    Locked (List ReferenceState) := fun s =>
  match beginPublish publication s with
  | .error e => (.error e, s)
  | .ok p =>
      match validator p.candidate with
      | .error e => (.error e, s)
      | .ok () => commitPublish p s

/-- The publication of `compare_and_swap`. -/
def swapPublication (key : ReferenceKey) (expected : ExpectedRef) (target operation : ObjectId) :
    Publication :=
  ⟨[], [⟨key, expected, target⟩], operation⟩

/-- `MemoryStore::compare_and_swap`. -/
def compareAndSwap (key : ReferenceKey) (expected : ExpectedRef) (target operation : ObjectId)
    (validator : PublicationValidator) : Locked ReferenceState := fun s =>
  match publish (swapPublication key expected target operation) validator s with
  | (.error e, s) => (.error e, s)
  | (.ok (state :: _), s) => (.ok state, s)
  | (.ok [], s) => (.error .referenceConflict, s)

/-- `MemoryStore::generation`. -/
def generation (s : MemorySnapshot) (id : ObjectId) : Except StoreError UInt64 := do
  let object ← visibleObject s id
  let objects ← ancestryClosure s [id] object.kind
  let g ← graph objects object.kind
  (g.generation id).mapError fun _ => .invalidGraph

/-- `MemoryStore::is_reachable`. -/
def isReachable (s : MemorySnapshot) (ancestor descendant : ObjectId) : Except StoreError Bool := do
  let ancestorObject ← visibleObject s ancestor
  let descendantObject ← visibleObject s descendant
  if ancestorObject.kind ≠ descendantObject.kind then .error .invalidGraph
  else
    let objects ← ancestryClosure s [descendant] ancestorObject.kind
    if !objects.contains ancestor then .ok false
    else
      let g ← graph objects ancestorObject.kind
      (g.isReachable ancestor descendant).mapError fun _ => .invalidGraph

end Store

end MemoryStore

end RGit
