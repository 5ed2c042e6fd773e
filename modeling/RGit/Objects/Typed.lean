/-
RGit/Objects/Typed.lean

The typed objects of kinds 1 to 13: content, history, lines, operations,
markers, releases and policies.

A type of the schema is a structure with its own `validate` and its own
`fields`, the entries of its canonical map in the order the encoder pushes
them; `CanonicalObject` is the trait that turns the two into an encoding and
an identifier.  Every implementation of `canonical_value` returns
`Ok(Value::Map(m))`, so the model keeps `m`.
-/
import RGit.Lib.Loops
import RGit.Objects.Path

namespace RGit

open Discriminant (code)

inductive ObjectError where
  | canonical (e : CanonicalError)
  | nonNormalizedText
  | invalid (message : String)
  | manifestCollision
  deriving DecidableEq

/-- `MAX_INLINE_BLOB_BYTES`. -/
def maxInlineBlobBytes : Nat := 64 * 1024

/-- `MAX_CHUNK_BYTES`, the byte string limit of the bulk profile. -/
def maxChunkBytes : Nat := 4 * 1024 * 1024

/-- `FASTCDC_V0_MIN_SIZE`. -/
def fastcdcV0MinSize : UInt64 := 256 * 1024

/-- `FASTCDC_V0_TARGET_SIZE`. -/
def fastcdcV0TargetSize : UInt64 := 1024 * 1024

/-- `FASTCDC_V0_MAX_SIZE`. -/
def fastcdcV0MaxSize : UInt64 := 4 * 1024 * 1024

/-- The resource profile of a kind. -/
def kindLimits : ObjectKind → CanonicalLimits
  | .chunk | .blob => .bulk
  | _ => .metadata

/-- Implemented by every immutable logical object. -/
class CanonicalObject (α : Type) where
  kind : ObjectKind
  schemaVersion : UInt64 := 0
  fields : α → Entries
  validate : α → Except ObjectError Unit := fun _ => .ok ()

namespace CanonicalObject

variable {α : Type} [CanonicalObject α]

def canonicalValue (o : α) : Value := .map (fields o)

/-- `CanonicalObject::encode`. -/
def encode [Unicode] (o : α) : Except ObjectError Bytes := do
  validate o
  ((canonicalValue o).encodeWithLimits (kindLimits (kind α))).mapError .canonical

/-- `CanonicalObject::id`. -/
def id [Unicode] [Hashes] (o : α) (algorithm : HashAlgorithm) : Except ObjectError ObjectId := do
  let bytes ← encode o
  .ok (ObjectId.fromPayload (code (kind α)) (schemaVersion α) bytes algorithm)

end CanonicalObject

/-! ### Shared pieces of the schemas -/

/-- `header_version(kind, schema, policy)`. -/
def headerVersion (kind : ObjectKind) (schema : UInt64) (policy : PolicyRef) : Entries :=
  [(0, .unsigned (code kind)), (1, .unsigned schema), (2, policy.value)]

/-- `header(kind, policy)`. -/
def header (kind : ObjectKind) (policy : PolicyRef) : Entries := headerVersion kind 0 policy

/-- `optional_header(kind, policy)`. -/
def optionalHeader (kind : ObjectKind) (policy : Option PolicyRef) : Entries :=
  optional [(0, .unsigned (code kind)), (1, .unsigned 0)] 2 (policy.map PolicyRef.value)

/-- `windows(2).any(|pair| pair[0] >= pair[1])`. -/
def outOfOrder {α : Type} [Ord α] (l : List α) : Bool :=
  anyWindow (fun a b => (compare a b).isGE) l

/-- `u64::checked_add`. -/
def checkedAdd (a b : UInt64) : Option UInt64 :=
  if a.toNat + b.toNat < 2 ^ 64 then some (a + b) else none

/-- `ensure_nfc(values)`. -/
def ensureNfc [Unicode] (values : List String) : Except ObjectError Unit :=
  if values.all isNfc then .ok () else .error .nonNormalizedText

def ensureSignaturePurpose (s : Signature) (expected : SignaturePurpose) :
    Except ObjectError Unit :=
  if s.purpose = expected then .ok ()
  else .error (.invalid "signature purpose does not match object kind")

def ensureSignatureSet (signatures : List Signature) (expected : SignaturePurpose) :
    Except ObjectError Unit := do
  if signatures = [] then .error (.invalid "signed object requires at least one signature")
  else
    forM signatures fun s => ensureSignaturePurpose s expected
    if outOfOrder signatures then
      .error (.invalid "signatures must be canonically sorted and duplicate-free")
    else .ok ()

/-- A list of signatures as a value. -/
def signatureArray (signatures : List Signature) : Value :=
  .array (signatures.map Signature.value)

/-! ### Chunks and blobs -/

structure Chunk where
  policyRef : PolicyRef
  bytes : Bytes
  deriving DecidableEq

instance : CanonicalObject Chunk where
  kind := .chunk
  fields c := header .chunk c.policyRef ++ [(3, .bytes c.bytes)]
  validate c :=
    if c.bytes.length > maxChunkBytes then
      .error (.invalid "chunk exceeds schema-0 4 MiB maximum")
    else .ok ()

structure ChunkRef where
  id : ObjectId
  plaintextLength : UInt64
  deriving DecidableEq

def ChunkRef.value (c : ChunkRef) : Value :=
  .map [(0, oid c.id), (1, .unsigned c.plaintextLength)]

inductive BlobContent where
  | inlined (bytes : Bytes)
  | chunks (chunks : List ChunkRef)
  deriving DecidableEq

inductive ChunkAlgorithm where
  | fastCdc
  deriving DecidableEq

instance : Discriminant ChunkAlgorithm where
  values := [.fastCdc]
  code
    | .fastCdc => 0
  mem_values a := by cases a; decide
  codes := by decide

structure ChunkProfile where
  algorithm : ChunkAlgorithm
  version : UInt64
  minSize : UInt64
  targetSize : UInt64
  maxSize : UInt64
  deriving DecidableEq

namespace ChunkProfile

def fastcdcV0 : ChunkProfile where
  algorithm := .fastCdc
  version := 0
  minSize := fastcdcV0MinSize
  targetSize := fastcdcV0TargetSize
  maxSize := fastcdcV0MaxSize

def value (p : ChunkProfile) : Value :=
  .map [(0, .unsigned (code p.algorithm)), (1, .unsigned p.version), (2, .unsigned p.minSize),
    (3, .unsigned p.targetSize), (4, .unsigned p.maxSize)]

def validate (p : ChunkProfile) : Except ObjectError Unit :=
  if p ≠ fastcdcV0 then .error (.invalid "invalid chunk profile size bounds") else .ok ()

end ChunkProfile

structure Blob where
  policyRef : PolicyRef
  byteLength : UInt64
  content : BlobContent
  chunkProfile : Option ChunkProfile
  contentHint : Option String
  deriving DecidableEq

namespace Blob

/-- The sum of the chunk lengths, if it does not overflow. -/
def chunkTotal (chunks : List ChunkRef) : Option UInt64 :=
  chunks.foldlM (fun sum c => checkedAdd sum c.plaintextLength) 0

/-- The guard of the last refusing arm: some chunk or their sum is wrong. -/
def badChunks (b : Blob) (chunks : List ChunkRef) : Bool :=
  chunks.isEmpty
    || chunks.any (fun c => c.plaintextLength == 0 ||
        decide (c.plaintextLength > (b.chunkProfile.map ChunkProfile.maxSize).getD 0))
    || ((chunkTotal chunks).filter (· == b.byteLength)).isNone

def validate [Unicode] (b : Blob) : Except ObjectError Unit := do
  Except.ifSome b.contentHint fun hint => ensureNfc [hint]
  match b.content with
  | .inlined bytes =>
      if b.chunkProfile.isSome then
        .error (.invalid "inline blob must not declare a chunk profile")
      else if bytes.length > maxInlineBlobBytes then
        .error (.invalid "inline blob exceeds 64 KiB")
      else if bytes.length ≠ b.byteLength.toNat then
        .error (.invalid "inline length mismatch")
      else Except.ifSome b.chunkProfile ChunkProfile.validate
  | .chunks chunks =>
      if b.chunkProfile.isNone then
        .error (.invalid "chunked blob requires a chunk profile")
      else if b.byteLength.toNat ≤ maxInlineBlobBytes then
        .error (.invalid "blob at or below 64 KiB must use inline representation")
      else if b.badChunks chunks then
        .error (.invalid "chunk lengths do not equal blob length")
      else Except.ifSome b.chunkProfile ChunkProfile.validate

def fields (b : Blob) : Entries :=
  let m := header .blob b.policyRef ++ [(3, .unsigned b.byteLength)]
  let m := match b.content with
    | .inlined bytes => m ++ [(4, .bytes bytes)]
    | .chunks chunks => m ++ [(5, .array (chunks.map ChunkRef.value))]
  let m := optional m 6 (b.contentHint.map .text)
  optional m 7 (b.chunkProfile.map ChunkProfile.value)

end Blob

instance [Unicode] : CanonicalObject Blob where
  kind := .blob
  fields := Blob.fields
  validate := Blob.validate

/-! ### Manifests, subprojects, secret references -/

inductive FileMode where
  | regular
  | executable
  deriving DecidableEq

instance : Discriminant FileMode where
  values := [.regular, .executable]
  code
    | .regular => 0
    | .executable => 1
  mem_values a := by cases a <;> decide
  codes := by decide

inductive ManifestTarget where
  | file (blob : ObjectId) (mode : FileMode)
  | directory (manifest : ObjectId)
  | symlink (targetBlob : ObjectId)
  | subproject (id : ObjectId)
  | secretRef (id : ObjectId)
  deriving DecidableEq

structure ManifestEntry [Unicode] where
  name : PathSegment
  target : ManifestTarget
  policyRef : PolicyRef
  deriving DecidableEq

/-- Kind number, target and mode of an entry's target. -/
def ManifestTarget.parts : ManifestTarget → UInt64 × ObjectId × Option UInt64
  | .file blob mode => (0, blob, some (code mode))
  | .directory manifest => (1, manifest, none)
  | .symlink targetBlob => (2, targetBlob, none)
  | .subproject id => (3, id, none)
  | .secretRef id => (4, id, none)

def ManifestEntry.value [Unicode] (e : ManifestEntry) : Value :=
  let (kind, target, mode) := e.target.parts
  .map (optional
    [(0, e.name.toValue), (1, .unsigned kind), (2, oid target), (4, e.policyRef.value)]
    3 (mode.map .unsigned))

structure Manifest [Unicode] where
  policyRef : PolicyRef
  entries : List ManifestEntry
  deriving DecidableEq

namespace Manifest

variable [Unicode]

/-- One pass of the loop in `validate`: names and folded names seen so far. -/
def validateEntry (seen : List String × List String) (e : ManifestEntry) :
    Except ObjectError (List String × List String) := do
  (e.name.ensurePortable).mapError fun _ => .invalid "manifest entry is not portable"
  if e.name.value ∈ seen.1 ∨ e.name.caseFold ∈ seen.2 then .error .manifestCollision
  else .ok (e.name.value :: seen.1, e.name.caseFold :: seen.2)

def validate (m : Manifest) : Except ObjectError Unit := do
  let _ ← m.entries.foldlM validateEntry ([], [])
  .ok ()

/-- `entries.sort_by_key(|entry| entry.name.canonical_bytes())`. -/
def sortedEntries (m : Manifest) : List ManifestEntry :=
  m.entries.insertionSort fun a b =>
    (compare a.name.canonicalBytes b.name.canonicalBytes).isLE

def fields (m : Manifest) : Entries :=
  header .manifest m.policyRef ++ [(3, .array (m.sortedEntries.map ManifestEntry.value))]

end Manifest

instance [Unicode] : CanonicalObject Manifest where
  kind := .manifest
  fields := Manifest.fields
  validate := Manifest.validate

structure Subproject where
  policyRef : PolicyRef
  systemKind : String
  repositoryIdentity : Bytes
  revision : Bytes
  nativeProjection : Option ObjectId
  deriving DecidableEq

instance [Unicode] : CanonicalObject Subproject where
  kind := .subproject
  fields o := optional
    (header .subproject o.policyRef ++
      [(3, .text o.systemKind), (4, .bytes o.repositoryIdentity), (5, .bytes o.revision)])
    6 (o.nativeProjection.map oid)
  validate o := ensureNfc [o.systemKind]

structure SecretRef where
  policyRef : PolicyRef
  providerKind : String
  locator : String
  exactVersion : Option String
  valueSchemaId : Bytes
  materializationTarget : String
  requiredCapability : String
  encryptedDevelopmentValue : Option ObjectId
  deriving DecidableEq

instance [Unicode] : CanonicalObject SecretRef where
  kind := .secretRef
  fields o := optional (optional
    (header .secretRef o.policyRef ++
      [(3, .text o.providerKind), (4, .text o.locator), (6, .bytes o.valueSchemaId),
        (7, .text o.materializationTarget), (8, .text o.requiredCapability)])
    5 (o.exactVersion.map .text))
    9 (o.encryptedDevelopmentValue.map oid)
  validate o := do
    ensureNfc [o.providerKind, o.locator, o.materializationTarget, o.requiredCapability]
    Except.ifSome o.exactVersion fun v => ensureNfc [v]

/-! ### Snapshots, changes, lines -/

structure Snapshot where
  policyRef : PolicyRef
  rootManifest : ObjectId
  parents : List ObjectId
  changeId : ChangeId
  author : ActorId
  device : DeviceId
  logicalTime : UInt64
  wallTime : WallTime
  messageBlob : Option ObjectId
  deriving DecidableEq

instance : CanonicalObject Snapshot where
  kind := .snapshot
  fields o := optional
    (header .snapshot o.policyRef ++
      [(3, oid o.rootManifest), (4, oidArray o.parents), (5, stable o.changeId),
        (6, stable o.author), (7, stable o.device), (8, .unsigned o.logicalTime),
        (9, o.wallTime.value)])
    10 (o.messageBlob.map oid)
  validate o :=
    if countDistinct o.parents = o.parents.length then .ok ()
    else .error (.invalid "snapshot parents must be duplicate-free")

inductive ChangeState where
  | opened
  | abandoned
  | landed
  | superseded
  deriving DecidableEq

instance : Discriminant ChangeState where
  values := [.opened, .abandoned, .landed, .superseded]
  code
    | .opened => 0
    | .abandoned => 1
    | .landed => 2
    | .superseded => 3
  mem_values a := by cases a <;> decide
  codes := by decide

structure ChangeRevision where
  policyRef : PolicyRef
  changeId : ChangeId
  previousRevision : Option ObjectId
  titleBlob : ObjectId
  descriptionBlob : ObjectId
  baseSnapshot : ObjectId
  currentSnapshot : ObjectId
  targetLine : LineId
  observedGeneration : UInt64
  owner : ActorId
  author : ActorId
  state : ChangeState
  reviewPolicy : PolicyRef
  landingPolicy : PolicyRef
  deriving DecidableEq

instance : CanonicalObject ChangeRevision where
  kind := .changeRevision
  fields o := optional
    (header .changeRevision o.policyRef ++
      [(3, stable o.changeId), (5, oid o.titleBlob), (6, oid o.descriptionBlob),
        (7, oid o.baseSnapshot), (8, oid o.currentSnapshot), (9, stable o.targetLine),
        (10, .unsigned o.observedGeneration), (11, stable o.owner), (12, stable o.author),
        (13, .unsigned (code o.state)), (14, o.reviewPolicy.value),
        (15, o.landingPolicy.value)])
    4 (o.previousRevision.map oid)

structure LineState where
  policyRef : PolicyRef
  lineId : LineId
  displayName : String
  headSnapshot : ObjectId
  generation : UInt64
  previousState : Option ObjectId
  integrationPolicy : PolicyRef
  approvalPolicy : PolicyRef
  releasePolicy : PolicyRef
  visibilityPolicy : PolicyRef
  transactionOperation : ObjectId
  signature : Signature
  deriving DecidableEq

namespace LineState

def unsignedMap (o : LineState) : Entries :=
  optional
    (header .lineState o.policyRef ++
      [(3, stable o.lineId), (4, .text o.displayName), (5, oid o.headSnapshot),
        (6, .unsigned o.generation), (8, o.integrationPolicy.value),
        (9, o.approvalPolicy.value), (10, o.releasePolicy.value),
        (11, o.visibilityPolicy.value), (12, oid o.transactionOperation)])
    7 (o.previousState.map oid)

def validate [Unicode] (o : LineState) : Except ObjectError Unit := do
  ensureNfc [o.displayName]
  if (o.generation == 0) = o.previousState.isSome then
    .error (.invalid "only generation zero may omit previous line state")
  else ensureSignaturePurpose o.signature .lineState

end LineState

instance [Unicode] : CanonicalObject LineState where
  kind := .lineState
  fields o := o.unsignedMap ++ [(13, o.signature.value)]
  validate := LineState.validate

/-! ### Conflicts -/

structure ConflictRegion where
  start : UInt64
  stop : UInt64
  deriving DecidableEq

def ConflictRegion.value (r : ConflictRegion) : Value :=
  .map [(0, .unsigned r.start), (1, .unsigned r.stop)]

inductive ConflictKind where
  | content
  | addAdd
  | modifyDelete
  | typeChange
  deriving DecidableEq

instance : Discriminant ConflictKind where
  values := [.content, .addAdd, .modifyDelete, .typeChange]
  code
    | .content => 0
    | .addAdd => 1
    | .modifyDelete => 2
    | .typeChange => 3
  mem_values a := by cases a <;> decide
  codes := by decide

structure Conflict [Unicode] where
  policyRef : PolicyRef
  base : TypedObjectRef
  left : TypedObjectRef
  right : TypedObjectRef
  path : PortablePath
  conflictKind : ConflictKind
  mergeDriver : String
  mergeDriverVersion : String
  regions : List ConflictRegion
  deriving DecidableEq

/-- One pass of the region loop: the end of the previous region. -/
def validateRegion (previousEnd : Option UInt64) (r : ConflictRegion) :
    Except ObjectError (Option UInt64) :=
  if r.start ≥ r.stop ∨ previousEnd.any (fun e => decide (r.start < e)) then
    .error (.invalid "conflict regions must be nonempty, ordered, and nonoverlapping")
  else .ok (some r.stop)

instance [Unicode] : CanonicalObject Conflict where
  kind := .conflict
  fields o := header .conflict o.policyRef ++
    [(3, o.base.value), (4, o.left.value), (5, o.right.value), (6, o.path.value),
      (7, .unsigned (code o.conflictKind)), (8, .text o.mergeDriver),
      (9, .text o.mergeDriverVersion), (10, .array (o.regions.map ConflictRegion.value))]
  validate o := do
    ensureNfc [o.mergeDriver, o.mergeDriverVersion]
    let _ ← o.regions.foldlM validateRegion none
    .ok ()

/-! ### Operations -/

structure LineAdvanceDeclaration where
  policyRef : PolicyRef
  lineId : LineId
  displayName : String
  headSnapshot : ObjectId
  generation : UInt64
  previousState : Option ObjectId
  integrationPolicy : PolicyRef
  approvalPolicy : PolicyRef
  releasePolicy : PolicyRef
  visibilityPolicy : PolicyRef
  deriving DecidableEq

namespace LineAdvanceDeclaration

def value (d : LineAdvanceDeclaration) : Value :=
  .map (optional
    [(0, d.policyRef.value), (1, stable d.lineId), (2, .text d.displayName),
      (3, oid d.headSnapshot), (4, .unsigned d.generation), (6, d.integrationPolicy.value),
      (7, d.approvalPolicy.value), (8, d.releasePolicy.value), (9, d.visibilityPolicy.value)]
    5 (d.previousState.map oid))

def validate [Unicode] (d : LineAdvanceDeclaration) : Except ObjectError Unit := do
  ensureNfc [d.displayName]
  if (d.generation == 0) = d.previousState.isSome then
    .error (.invalid "only generation zero line advance may omit previous state")
  else .ok ()

end LineAdvanceDeclaration

inductive OperationAction where
  | transition (before after : Option TypedObjectRef)
  | lineAdvance (declaration : LineAdvanceDeclaration)
  deriving DecidableEq

namespace OperationAction

def value : OperationAction → Value
  | .transition before after =>
      .map (optional (optional [(0, .unsigned 0)] 1 (before.map TypedObjectRef.value))
        2 (after.map TypedObjectRef.value))
  | .lineAdvance declaration => .map [(0, .unsigned 1), (3, declaration.value)]

/-- One pass of the action loop in `Operation::validate`. -/
def validate [Unicode] : OperationAction → Except ObjectError Unit
  | .transition before after =>
      if before.isNone ∧ after.isNone then
        .error (.invalid "operation transition requires a before or after reference")
      else if after.any (fun r => r.kind == .lineState) then
        .error (.invalid "generic operation transition cannot install a line state")
      else .ok ()
  | .lineAdvance declaration => declaration.validate

end OperationAction

/-- The entries that both operation schemas push around their actions. -/
def operationEntries (schema : UInt64) (policyRef : PolicyRef) (parents : List ObjectId)
    (actor : ActorId) (device : DeviceId) (logicalTime : UInt64) (wallTime : WallTime)
    (actions : List Value) (inversePayloads : List ObjectId)
    (publicEnvelope privatePayload : Option ObjectId) (clientImplementation : String) :
    Entries :=
  optional (optional
    (headerVersion .operation schema policyRef ++
      [(3, oidArray parents), (4, stable actor), (5, stable device),
        (6, .unsigned logicalTime), (7, wallTime.value), (8, .array actions),
        (9, oidArray inversePayloads), (13, .text clientImplementation)])
    10 (publicEnvelope.map oid))
    11 (privatePayload.map oid)

structure Operation where
  policyRef : PolicyRef
  parents : List ObjectId
  actor : ActorId
  device : DeviceId
  logicalTime : UInt64
  wallTime : WallTime
  actions : List OperationAction
  inversePayloads : List ObjectId
  publicEnvelope : Option ObjectId
  privatePayload : Option ObjectId
  signature : Signature
  clientImplementation : String
  deriving DecidableEq

namespace Operation

def unsignedMap (o : Operation) : Entries :=
  operationEntries 0 o.policyRef o.parents o.actor o.device o.logicalTime o.wallTime
    (o.actions.map OperationAction.value) o.inversePayloads o.publicEnvelope
    o.privatePayload o.clientImplementation

def validate [Unicode] (o : Operation) : Except ObjectError Unit := do
  ensureNfc [o.clientImplementation]
  if countDistinct o.parents ≠ o.parents.length then
    .error (.invalid "operation parents must be duplicate-free")
  else
    forM o.actions OperationAction.validate
    ensureSignaturePurpose o.signature .operation

end Operation

instance [Unicode] : CanonicalObject Operation where
  kind := .operation
  fields o := o.unsignedMap ++ [(12, o.signature.value)]
  validate := Operation.validate

inductive OperationActionV1 where
  | boundTransition (key : ReferenceKey) (before : Option TypedObjectRef)
      (after : TypedObjectRef)
  | lineAdvance (declaration : LineAdvanceDeclaration)
  deriving DecidableEq

namespace OperationActionV1

def value : OperationActionV1 → Value
  | .boundTransition key before after =>
      .map (optional [(0, .unsigned 2), (1, key.value), (3, after.value)]
        2 (before.map TypedObjectRef.value))
  | .lineAdvance declaration => .map [(0, .unsigned 1), (3, declaration.value)]

/-- The key an action claims, after its own checks. -/
def claimedKey [Unicode] : OperationActionV1 → Except ObjectError ReferenceKey
  | .boundTransition key before after =>
      if key matches .line _ | .operationHead then
        .error (.invalid "bound transition key requires a dedicated operation action")
      else if before.any (fun r => r.kind != key.expectedKind)
          || after.kind != key.expectedKind then
        .error (.invalid "bound transition object kind does not match its reference key")
      else .ok key
  | .lineAdvance declaration => do
      declaration.validate
      .ok (.line declaration.lineId)

/-- One pass of the action loop in `OperationV1::validate`. -/
def validateStep [Unicode] (keys : List ReferenceKey) (a : OperationActionV1) :
    Except ObjectError (List ReferenceKey) := do
  let key ← a.claimedKey
  if key ∈ keys then .error (.invalid "operation actions must have unique reference keys")
  else .ok (key :: keys)

end OperationActionV1

structure OperationV1 where
  policyRef : PolicyRef
  parents : List ObjectId
  actor : ActorId
  device : DeviceId
  logicalTime : UInt64
  wallTime : WallTime
  actions : List OperationActionV1
  inversePayloads : List ObjectId
  publicEnvelope : Option ObjectId
  privatePayload : Option ObjectId
  signature : Signature
  clientImplementation : String
  deriving DecidableEq

namespace OperationV1

def unsignedMap (o : OperationV1) : Entries :=
  operationEntries 1 o.policyRef o.parents o.actor o.device o.logicalTime o.wallTime
    (o.actions.map OperationActionV1.value) o.inversePayloads o.publicEnvelope
    o.privatePayload o.clientImplementation

def validate [Unicode] (o : OperationV1) : Except ObjectError Unit := do
  ensureNfc [o.clientImplementation]
  if countDistinct o.parents ≠ o.parents.length then
    .error (.invalid "operation parents must be duplicate-free")
  else
    let _ ← o.actions.foldlM OperationActionV1.validateStep []
    ensureSignaturePurpose o.signature .operation

end OperationV1

instance [Unicode] : CanonicalObject OperationV1 where
  kind := .operation
  schemaVersion := 1
  fields o := o.unsignedMap ++ [(12, o.signature.value)]
  validate := OperationV1.validate

/-! ### Markers and releases -/

inductive MarkerKind where
  | release
  | deployment
  | review
  | policy
  | bookmark
  deriving DecidableEq

instance : Discriminant MarkerKind where
  values := [.release, .deployment, .review, .policy, .bookmark]
  code
    | .release => 0
    | .deployment => 1
    | .review => 2
    | .policy => 3
    | .bookmark => 4
  mem_values a := by cases a <;> decide
  codes := by decide

structure Marker where
  policyRef : PolicyRef
  markerKind : MarkerKind
  target : TypedObjectRef
  issuer : ActorId
  issueTime : WallTime
  typedPayload : Bytes
  signature : Signature
  deriving DecidableEq

def Marker.unsignedMap (o : Marker) : Entries :=
  header .marker o.policyRef ++
    [(3, .unsigned (code o.markerKind)), (4, o.target.value), (5, stable o.issuer),
      (6, o.issueTime.value), (7, .bytes o.typedPayload)]

instance : CanonicalObject Marker where
  kind := .marker
  fields o := o.unsignedMap ++ [(8, o.signature.value)]
  validate o := ensureSignaturePurpose o.signature .marker

structure Release where
  policyRef : PolicyRef
  sourceLine : LineId
  sourceGeneration : UInt64
  sourceSnapshot : ObjectId
  audiencePolicy : PolicyRef
  projectionRules : ObjectId
  projectedRoot : ObjectId
  projectionProof : ObjectId
  versionIdentifier : String
  releaseNotesBlob : Option ObjectId
  buildProvenance : List ObjectId
  artifacts : List ObjectId
  policyDecisionEvidence : List ObjectId
  issueTime : WallTime
  signatures : List Signature
  deriving DecidableEq

def Release.unsignedMap (o : Release) : Entries :=
  optional
    (header .release o.policyRef ++
      [(3, stable o.sourceLine), (4, .unsigned o.sourceGeneration), (5, oid o.sourceSnapshot),
        (6, o.audiencePolicy.value), (7, oid o.projectionRules), (8, oid o.projectedRoot),
        (9, oid o.projectionProof), (10, .text o.versionIdentifier),
        (12, oidArray o.buildProvenance), (13, oidArray o.artifacts),
        (14, oidArray o.policyDecisionEvidence), (15, o.issueTime.value)])
    11 (o.releaseNotesBlob.map oid)

instance [Unicode] : CanonicalObject Release where
  kind := .release
  fields o := o.unsignedMap ++ [(16, signatureArray o.signatures)]
  validate o := do
    ensureNfc [o.versionIdentifier]
    ensureSignatureSet o.signatures .release

/-! ### Policies -/

inductive PrincipalKind where
  | actor
  | group
  | role
  | service
  deriving DecidableEq

instance : Discriminant PrincipalKind where
  values := [.actor, .group, .role, .service]
  code
    | .actor => 0
    | .group => 1
    | .role => 2
    | .service => 3
  mem_values a := by cases a <;> decide
  codes := by decide

structure Principal where
  kind : PrincipalKind
  identifier : Bytes
  deriving DecidableEq

/-- The record of a principal, also `principal_value` of the registry objects. -/
def Principal.value (p : Principal) : Value :=
  .map [(0, .unsigned (code p.kind)), (1, .bytes p.identifier)]

inductive Capability where
  | discover
  | read
  | materialize
  | derive
  | review
  | integrate
  | release
  | administer
  | audit
  deriving DecidableEq

instance : Discriminant Capability where
  values :=
    [.discover, .read, .materialize, .derive, .review, .integrate, .release, .administer,
      .audit]
  code
    | .discover => 0
    | .read => 1
    | .materialize => 2
    | .derive => 3
    | .review => 4
    | .integrate => 5
    | .release => 6
    | .administer => 7
    | .audit => 8
  mem_values a := by cases a <;> decide
  codes := by decide

structure Grant where
  principalIndex : UInt64
  capabilities : List Capability
  deriving DecidableEq

/-- `capabilities.sort_unstable()` on the capability numbers. -/
def Grant.sortedCapabilities (g : Grant) : List UInt64 :=
  (g.capabilities.map code).insertionSort (· ≤ ·)

def Grant.value (g : Grant) : Value :=
  .map [(0, .unsigned g.principalIndex), (1, .array (g.sortedCapabilities.map .unsigned))]

inductive RedactionMode where
  | omitted
  | opaquePlaceholder
  | typedSummary
  deriving DecidableEq

instance : Discriminant RedactionMode where
  values := [.omitted, .opaquePlaceholder, .typedSummary]
  code
    | .omitted => 0
    | .opaquePlaceholder => 1
    | .typedSummary => 2
  mem_values a := by cases a <;> decide
  codes := by decide

inductive DerivationRule where
  | noDerivation
  | samePolicy
  | explicitEvidence
  deriving DecidableEq

instance : Discriminant DerivationRule where
  values := [.noDerivation, .samePolicy, .explicitEvidence]
  code
    | .noDerivation => 0
    | .samePolicy => 1
    | .explicitEvidence => 2
  mem_values a := by cases a <;> decide
  codes := by decide

structure Policy where
  policyRef : Option PolicyRef
  policyId : PolicyId
  versionSequence : UInt64
  previousVersion : Option ObjectId
  principals : List Principal
  grants : List Grant
  redactionMode : RedactionMode
  derivationRule : DerivationRule
  declassificationRequirements : List ObjectId
  keyEpoch : UInt64
  keyEnvelopeSet : ObjectId
  administrators : List ActorId
  activationConstraints : Bytes
  signatures : List Signature
  deriving DecidableEq

namespace Policy

def unsignedMap (o : Policy) : Entries :=
  optional
    (optionalHeader .policy o.policyRef ++
      [(3, stable o.policyId), (4, .unsigned o.versionSequence),
        (6, .array (o.principals.map Principal.value)), (7, .array (o.grants.map Grant.value)),
        (8, .unsigned (code o.redactionMode)), (9, .unsigned (code o.derivationRule)),
        (10, oidArray o.declassificationRequirements), (11, .unsigned o.keyEpoch),
        (12, oid o.keyEnvelopeSet), (13, .array (o.administrators.map stable)),
        (14, .bytes o.activationConstraints)])
    5 (o.previousVersion.map oid)

def validate (o : Policy) : Except ObjectError Unit := do
  ensureSignatureSet o.signatures .policy
  if (o.versionSequence == 0) = o.previousVersion.isSome then
    .error (.invalid "only policy version zero may omit a previous version")
  else if o.principals.any (fun p => p.identifier.isEmpty) then
    .error (.invalid "principal identifier must not be empty")
  else if o.grants.any (fun g => decide (g.principalIndex.toNat ≥ o.principals.length)) then
    .error (.invalid "grant references an absent principal")
  else if o.grants.any (fun g => countDistinct g.capabilities != g.capabilities.length) then
    .error (.invalid "grant capabilities contain duplicates")
  else if countDistinct o.declassificationRequirements
      ≠ o.declassificationRequirements.length then
    .error (.invalid "declassification requirements must be duplicate-free")
  else .ok ()

end Policy

instance : CanonicalObject Policy where
  kind := .policy
  fields o := o.unsignedMap ++ [(15, signatureArray o.signatures)]
  validate := Policy.validate

end RGit
