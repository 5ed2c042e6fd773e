/-
RGit/Objects/Registry.lean

The typed objects of kinds 14 to 31: the repository root, identities and
memberships, key envelopes, relations, evidence, projections, builds,
payloads, views, migrations and rulesets.  `TypedObject` collects the values
of all kinds and schemas.
-/
import RGit.Objects.Typed

namespace RGit

open Discriminant (code)

/-- `MAX_REGISTRY_ITEMS`. -/
def maxRegistryItems : Nat := 65536

/-! ### Shared checks -/

/-- `nfc(text)`. -/
def nfc [Unicode] (text : String) : Except ObjectError Unit :=
  if isNfc text then .ok () else .error .nonNormalizedText

/-- The value is a map in canonical form. -/
def isCanonicalMap [Unicode] (bytes : Bytes) : Bool :=
  match decodeCanonical bytes .metadata with
  | .ok (.map _) => true
  | _ => false

def validateCanonicalMap [Unicode] (bytes : Bytes) (message : String) :
    Except ObjectError Unit :=
  if isCanonicalMap bytes then .ok () else .error (.invalid message)

def sortedUniqueIds (ids : List ObjectId) (what : String) : Except ObjectError Unit :=
  if ids.length > maxRegistryItems then
    .error (.invalid "object reference set exceeds schema limit")
  else if outOfOrder ids then .error (.invalid what)
  else .ok ()

/-- `iter().map(|v| v.value().encode()).collect::<Result<Vec<_>, _>>()`. -/
def encodeAll [Unicode] (values : List Value) : Except CanonicalError (List Bytes) :=
  values.mapM Value.encode

/-- The encodings exist and are strictly increasing. -/
def sortedEncodings [Unicode] (values : List Value) (what : String) :
    Except ObjectError Unit := do
  let encoded ← (encodeAll values).mapError .canonical
  if outOfOrder encoded then .error (.invalid what) else .ok ()

def sortedUniqueRefs [Unicode] (values : List TypedObjectRef) (what : String) :
    Except ObjectError Unit :=
  if values.length > maxRegistryItems then
    .error (.invalid "typed reference set exceeds schema limit")
  else sortedEncodings (values.map TypedObjectRef.value) what

/-- `signatures(values, purpose)`. -/
def checkSignatures (values : List Signature) (purpose : SignaturePurpose) :
    Except ObjectError Unit :=
  if values = [] then .error (.invalid "signed object requires signatures")
  else if values.any (fun s => s.purpose != purpose) then
    .error (.invalid "signature purpose does not match object kind")
  else if outOfOrder values then
    .error (.invalid "signatures must be sorted and unique")
  else .ok ()

/-- A list of typed references as a value. -/
def typedRefArray (refs : List TypedObjectRef) : Value :=
  .array (refs.map TypedObjectRef.value)

/-! ### The repository root -/

abbrev RepositoryId := FixedBytes 16
abbrev GroupId := FixedBytes 16
abbrev MembershipId := FixedBytes 16

inductive FilesystemProfile where
  | portable
  | native
  deriving DecidableEq

instance : Discriminant FilesystemProfile where
  values := [.portable, .native]
  code
    | .portable => 0
    | .native => 1
  mem_values a := by cases a <;> decide
  codes := by decide

structure RepositoryRoot where
  repositoryId : RepositoryId
  rootPolicy : ObjectId
  trustedIdentities : List ObjectId
  bootstrapKeyEnvelopeSet : ObjectId
  genesisOperation : ObjectId
  initialLineStates : List ObjectId
  filesystemProfile : FilesystemProfile
  signatures : List Signature
  deriving DecidableEq

namespace RepositoryRoot

def unsignedMap (o : RepositoryRoot) : Entries :=
  optionalHeader .repositoryRoot none ++
    [(3, stable o.repositoryId), (4, oid o.rootPolicy), (5, oidArray o.trustedIdentities),
      (6, oid o.bootstrapKeyEnvelopeSet), (7, oid o.genesisOperation),
      (8, oidArray o.initialLineStates), (9, .unsigned (code o.filesystemProfile))]

def validate (o : RepositoryRoot) : Except ObjectError Unit := do
  sortedUniqueIds o.trustedIdentities "trusted identities must be sorted and unique"
  sortedUniqueIds o.initialLineStates "initial line states must be sorted and unique"
  if o.trustedIdentities = [] ∨ o.initialLineStates = [] then
    .error (.invalid "repository bootstrap sets must not be empty")
  else checkSignatures o.signatures .repositoryRoot

end RepositoryRoot

instance : CanonicalObject RepositoryRoot where
  kind := .repositoryRoot
  fields o := o.unsignedMap ++ [(10, signatureArray o.signatures)]
  validate := RepositoryRoot.validate

/-! ### Identities and memberships -/

inductive IdentitySubjectKind where
  | actor
  | device
  deriving DecidableEq

instance : Discriminant IdentitySubjectKind where
  values := [.actor, .device]
  code
    | .actor => 0
    | .device => 1
  mem_values a := by cases a <;> decide
  codes := by decide

inductive IdentityStatus where
  | active
  | suspended
  | revoked
  deriving DecidableEq

instance : Discriminant IdentityStatus where
  values := [.active, .suspended, .revoked]
  code
    | .active => 0
    | .suspended => 1
    | .revoked => 2
  mem_values a := by cases a <;> decide
  codes := by decide

inductive PublicKeyAlgorithm where
  | ed25519
  | x25519
  deriving DecidableEq

instance : Discriminant PublicKeyAlgorithm where
  values := [.ed25519, .x25519]
  code
    | .ed25519 => 0
    | .x25519 => 1
  mem_values a := by cases a <;> decide
  codes := by decide

structure PublicKeyRecord where
  algorithm : PublicKeyAlgorithm
  keyId : FixedBytes 32
  publicKey : Bytes
  notBefore : Option ObjectId
  notAfter : Option ObjectId
  deriving DecidableEq

namespace PublicKeyRecord

def value (k : PublicKeyRecord) : Value :=
  .map (optional (optional
    [(0, .unsigned (code k.algorithm)), (1, .bytes k.keyId.1), (2, .bytes k.publicKey)]
    3 (k.notBefore.map oid))
    4 (k.notAfter.map oid))

def validate (k : PublicKeyRecord) : Except ObjectError Unit :=
  if k.keyId.1 = List.replicate 32 0 ∨ k.publicKey.length ≠ 32 then
    .error (.invalid "identity key record is empty or reserved")
  else .ok ()

end PublicKeyRecord

structure Identity where
  policyRef : Option PolicyRef
  subjectKind : IdentitySubjectKind
  subject : FixedBytes 16
  version : UInt64
  previous : Option ObjectId
  signingKeys : List PublicKeyRecord
  encryptionKeys : List PublicKeyRecord
  issuer : ActorId
  status : IdentityStatus
  activationOperation : Option ObjectId
  notAfterOperation : Option ObjectId
  signatures : List Signature
  deriving DecidableEq

namespace Identity

def unsignedMap (o : Identity) : Entries :=
  optional (optional (optional
    (optionalHeader .identity o.policyRef ++
      [(3, .unsigned (code o.subjectKind)), (4, .bytes o.subject.1), (5, .unsigned o.version),
        (7, .array (o.signingKeys.map PublicKeyRecord.value)),
        (8, .array (o.encryptionKeys.map PublicKeyRecord.value)), (9, stable o.issuer),
        (10, .unsigned (code o.status))])
    6 (o.previous.map oid))
    11 (o.activationOperation.map oid))
    12 (o.notAfterOperation.map oid)

/-- The three links a bootstrap identity omits. -/
def linksAbsent (o : Identity) : Bool :=
  o.previous.isNone && o.activationOperation.isNone && o.policyRef.isNone

def validate [Unicode] (o : Identity) : Except ObjectError Unit := do
  let bootstrap := o.version == 0
  if bootstrap ≠ o.linksAbsent then
    .error (.invalid "only a version-zero bootstrap identity may omit policy, previous identity, and activation operation")
  else if !bootstrap && (o.policyRef.isNone || o.previous.isNone ||
      o.activationOperation.isNone) then
    .error (.invalid "nonbootstrap identity requires policy, previous identity, and activation operation")
  else if o.signingKeys = [] then .error (.invalid "identity requires a signing key")
  else
    forM (o.signingKeys ++ o.encryptionKeys) PublicKeyRecord.validate
    if o.signingKeys.any (fun k => k.algorithm != .ed25519)
        || o.encryptionKeys.any (fun k => k.algorithm != .x25519) then
      .error (.invalid "key algorithm does not match key use")
    else
      forM [o.signingKeys, o.encryptionKeys] fun keys =>
        sortedEncodings (keys.map PublicKeyRecord.value)
          "identity key records must be sorted and unique"
      if countDistinct ((o.signingKeys ++ o.encryptionKeys).map PublicKeyRecord.keyId)
          ≠ (o.signingKeys ++ o.encryptionKeys).length then
        .error (.invalid "identity key IDs must be unique across signing and encryption keys")
      else checkSignatures o.signatures .identity

end Identity

instance [Unicode] : CanonicalObject Identity where
  kind := .identity
  fields o := o.unsignedMap ++ [(13, signatureArray o.signatures)]
  validate := Identity.validate

inductive MembershipState where
  | active
  | removed
  deriving DecidableEq

instance : Discriminant MembershipState where
  values := [.active, .removed]
  code
    | .active => 0
    | .removed => 1
  mem_values a := by cases a <;> decide
  codes := by decide

structure GroupMembership where
  policyRef : PolicyRef
  membershipId : MembershipId
  groupId : GroupId
  version : UInt64
  previous : Option ObjectId
  principal : Principal
  state : MembershipState
  issuer : ActorId
  activationOperation : ObjectId
  notAfterOperation : Option ObjectId
  signatures : List Signature
  deriving DecidableEq

namespace GroupMembership

def unsignedMap (o : GroupMembership) : Entries :=
  optional (optional
    (optionalHeader .groupMembership (some o.policyRef) ++
      [(3, stable o.membershipId), (4, stable o.groupId), (5, .unsigned o.version),
        (7, o.principal.value), (8, .unsigned (code o.state)), (9, stable o.issuer),
        (10, oid o.activationOperation)])
    6 (o.previous.map oid))
    11 (o.notAfterOperation.map oid)

def validate (o : GroupMembership) : Except ObjectError Unit :=
  if (o.version == 0) = o.previous.isSome then
    .error (.invalid "only membership version zero may omit previous")
  else if o.principal.identifier = [] then .error (.invalid "membership principal is empty")
  else checkSignatures o.signatures .groupMembership

end GroupMembership

instance : CanonicalObject GroupMembership where
  kind := .groupMembership
  fields o := o.unsignedMap ++ [(12, signatureArray o.signatures)]
  validate := GroupMembership.validate

/-! ### Key envelopes -/

structure RecipientEnvelope where
  recipient : Principal
  keyId : FixedBytes 32
  envelope : Bytes
  deriving DecidableEq

namespace RecipientEnvelope

def value (r : RecipientEnvelope) : Value :=
  .map [(0, r.recipient.value), (1, .bytes r.keyId.1), (2, .bytes r.envelope)]

/-- One pass of the recipient loop in `KeyEnvelopeSet::validate`. -/
def validate (r : RecipientEnvelope) : Except ObjectError Unit :=
  if r.recipient.identifier = [] ∨ r.keyId.1 = List.replicate 32 0 ∨ r.envelope = [] then
    .error (.invalid "invalid recipient envelope")
  else .ok ()

end RecipientEnvelope

inductive KeyEnvelopeSuite where
  | x25519HkdfSha256Aes256Gcm
  deriving DecidableEq

instance : Discriminant KeyEnvelopeSuite where
  values := [.x25519HkdfSha256Aes256Gcm]
  code
    | .x25519HkdfSha256Aes256Gcm => 0
  mem_values a := by cases a; decide
  codes := by decide

structure KeyEnvelopeSet where
  policyRef : Option PolicyRef
  epoch : UInt64
  suite : KeyEnvelopeSuite
  recipients : List RecipientEnvelope
  deriving DecidableEq

instance [Unicode] : CanonicalObject KeyEnvelopeSet where
  kind := .keyEnvelopeSet
  fields o := optionalHeader .keyEnvelopeSet o.policyRef ++
    [(3, .unsigned o.epoch), (4, .unsigned (code o.suite)),
      (5, .array (o.recipients.map RecipientEnvelope.value))]
  validate o := do
    if (o.epoch == 0) ≠ o.policyRef.isNone then
      .error (.invalid "only bootstrap key envelope epoch zero may omit policy")
    else if o.recipients = [] then .error (.invalid "key envelope set has no recipients")
    else
      forM o.recipients RecipientEnvelope.validate
      sortedEncodings (o.recipients.map RecipientEnvelope.value)
        "recipient envelopes must be sorted and unique"

/-! ### Relations and resolutions -/

inductive ChangeRelationKind where
  | split
  | combine
  | supersede
  deriving DecidableEq

instance : Discriminant ChangeRelationKind where
  values := [.split, .combine, .supersede]
  code
    | .split => 0
    | .combine => 1
    | .supersede => 2
  mem_values a := by cases a <;> decide
  codes := by decide

structure ChangeRelation where
  policyRef : PolicyRef
  relationKind : ChangeRelationKind
  sources : List ObjectId
  results : List ObjectId
  provenance : List ObjectId
  creatingOperation : ObjectId
  deriving DecidableEq

instance : CanonicalObject ChangeRelation where
  kind := .changeRelation
  fields o := optionalHeader .changeRelation (some o.policyRef) ++
    [(3, .unsigned (code o.relationKind)), (4, oidArray o.sources), (5, oidArray o.results),
      (6, oidArray o.provenance), (7, oid o.creatingOperation)]
  validate o := do
    if o.sources = [] ∨ o.results = [] then
      .error (.invalid "change relation endpoints must not be empty")
    else
      sortedUniqueIds o.sources "relation sources must be sorted and unique"
      sortedUniqueIds o.results "relation results must be sorted and unique"
      sortedUniqueIds o.provenance "relation provenance must be sorted and unique"

inductive ResolutionKind where
  | left
  | right
  | base
  | manual
  | driver
  deriving DecidableEq

instance : Discriminant ResolutionKind where
  values := [.left, .right, .base, .manual, .driver]
  code
    | .left => 0
    | .right => 1
    | .base => 2
    | .manual => 3
    | .driver => 4
  mem_values a := by cases a <;> decide
  codes := by decide

structure ConflictResolution where
  policyRef : PolicyRef
  conflict : ObjectId
  resolved : TypedObjectRef
  resolver : ActorId
  device : DeviceId
  resolutionKind : ResolutionKind
  provenance : List TypedObjectRef
  wallTime : WallTime
  signatures : List Signature
  deriving DecidableEq

def ConflictResolution.unsignedMap (o : ConflictResolution) : Entries :=
  optionalHeader .conflictResolution (some o.policyRef) ++
    [(3, oid o.conflict), (4, o.resolved.value), (5, stable o.resolver), (6, stable o.device),
      (7, .unsigned (code o.resolutionKind)), (8, typedRefArray o.provenance),
      (9, o.wallTime.value)]

instance [Unicode] : CanonicalObject ConflictResolution where
  kind := .conflictResolution
  fields o := o.unsignedMap ++ [(10, signatureArray o.signatures)]
  validate o := do
    sortedUniqueRefs o.provenance "resolution provenance must be sorted and unique"
    checkSignatures o.signatures .conflictResolution

/-! ### Evidence -/

inductive EvidenceOutcome where
  | pass
  | fail
  | abstain
  | error
  deriving DecidableEq

instance : Discriminant EvidenceOutcome where
  values := [.pass, .fail, .abstain, .error]
  code
    | .pass => 0
    | .fail => 1
    | .abstain => 2
    | .error => 3
  mem_values a := by cases a <;> decide
  codes := by decide

structure EvidenceFields where
  policyRef : PolicyRef
  target : TypedObjectRef
  snapshot : ObjectId
  ruleset : ObjectId
  issuer : ActorId
  device : DeviceId
  outcome : EvidenceOutcome
  constraints : Bytes
  related : List TypedObjectRef
  wallTime : WallTime
  signatures : List Signature
  deriving DecidableEq

def evidenceMap (kind : ObjectKind) (v : EvidenceFields) : Entries :=
  optionalHeader kind (some v.policyRef) ++
    [(3, v.target.value), (4, oid v.snapshot), (5, oid v.ruleset), (6, stable v.issuer),
      (7, stable v.device), (8, .unsigned (code v.outcome)), (9, .bytes v.constraints),
      (10, typedRefArray v.related), (11, v.wallTime.value)]

def validateEvidence [Unicode] (v : EvidenceFields) (p : SignaturePurpose) :
    Except ObjectError Unit := do
  sortedUniqueRefs v.related "related evidence references must be sorted and unique"
  validateCanonicalMap v.constraints "evidence constraints must be a canonical CBOR map"
  checkSignatures v.signatures p

/-- The canonical object that `evidence_object!` declares. -/
abbrev evidenceObject [Unicode] (α : Type) (kind : ObjectKind) (purpose : SignaturePurpose)
    (get : α → EvidenceFields) : CanonicalObject α where
  kind := kind
  fields o := evidenceMap kind (get o) ++ [(12, signatureArray (get o).signatures)]
  validate o := validateEvidence (get o) purpose

structure ReviewEvidence where
  fields : EvidenceFields
  deriving DecidableEq

instance [Unicode] : CanonicalObject ReviewEvidence :=
  evidenceObject ReviewEvidence .reviewEvidence .reviewEvidence ReviewEvidence.fields

structure ApprovalEvidence where
  fields : EvidenceFields
  deriving DecidableEq

instance [Unicode] : CanonicalObject ApprovalEvidence :=
  evidenceObject ApprovalEvidence .approvalEvidence .approvalEvidence ApprovalEvidence.fields

structure PolicyDecisionEvidence where
  fields : EvidenceFields
  deriving DecidableEq

instance [Unicode] : CanonicalObject PolicyDecisionEvidence :=
  evidenceObject PolicyDecisionEvidence .policyDecisionEvidence .policyDecisionEvidence
    PolicyDecisionEvidence.fields

structure CiEvidence where
  fields : EvidenceFields
  checkName : String
  runnerIdentity : ObjectId
  buildProvenance : Option ObjectId
  deriving DecidableEq

def CiEvidence.unsignedMap (o : CiEvidence) : Entries :=
  optional
    (evidenceMap .ciEvidence o.fields ++ [(13, .text o.checkName), (14, oid o.runnerIdentity)])
    15 (o.buildProvenance.map oid)

instance [Unicode] : CanonicalObject CiEvidence where
  kind := .ciEvidence
  fields o := sortEntries (o.unsignedMap ++ [(12, signatureArray o.fields.signatures)])
  validate o := do
    nfc o.checkName
    if o.checkName = "" then .error (.invalid "CI check name must not be empty")
    else validateEvidence o.fields .ciEvidence

/-! ### Projections -/

inductive ProjectionRuleKind where
  | included
  | excluded
  | redacted
  deriving DecidableEq

instance : Discriminant ProjectionRuleKind where
  values := [.included, .excluded, .redacted]
  code
    | .included => 0
    | .excluded => 1
    | .redacted => 2
  mem_values a := by cases a <;> decide
  codes := by decide

structure ProjectionRule where
  ruleKind : ProjectionRuleKind
  parameters : Bytes
  deriving DecidableEq

def ProjectionRule.value (r : ProjectionRule) : Value :=
  .map [(0, .unsigned (code r.ruleKind)), (1, .bytes r.parameters)]

structure ProjectionRules where
  policyRef : PolicyRef
  version : UInt64
  previous : Option ObjectId
  rules : List ProjectionRule
  defaultFail : Bool
  deriving DecidableEq

instance [Unicode] : CanonicalObject ProjectionRules where
  kind := .projectionRules
  fields o := optional
    (optionalHeader .projectionRules (some o.policyRef) ++
      [(3, .unsigned o.version), (5, .array (o.rules.map ProjectionRule.value)),
        (6, .bool o.defaultFail)])
    4 (o.previous.map oid)
  validate o :=
    if (o.version == 0) = o.previous.isSome then
      .error (.invalid "only projection rules version zero may omit previous")
    else if !o.defaultFail then
      .error (.invalid "schema-0 projection rules must fail closed")
    else forM o.rules fun r => validateCanonicalMap r.parameters
      "projection rule parameters must be canonical CBOR maps"

inductive ProjectionProofAlgorithm where
  | merkleV0
  deriving DecidableEq

instance : Discriminant ProjectionProofAlgorithm where
  values := [.merkleV0]
  code
    | .merkleV0 => 0
  mem_values a := by cases a; decide
  codes := by decide

structure ProjectionProof where
  policyRef : PolicyRef
  algorithm : ProjectionProofAlgorithm
  sourceSnapshot : ObjectId
  rules : ObjectId
  audiencePolicy : ObjectId
  projectedManifest : ObjectId
  proof : Bytes
  deriving DecidableEq

instance : CanonicalObject ProjectionProof where
  kind := .projectionProof
  fields o := optionalHeader .projectionProof (some o.policyRef) ++
    [(3, .unsigned (code o.algorithm)), (4, oid o.sourceSnapshot), (5, oid o.rules),
      (6, oid o.audiencePolicy), (7, oid o.projectedManifest), (8, .bytes o.proof)]
  validate o :=
    if o.proof = [] then .error (.invalid "projection proof must not be empty") else .ok ()

/-! ### Builds and artifacts -/

structure BuildProvenance where
  policyRef : PolicyRef
  snapshot : ObjectId
  ruleset : ObjectId
  builderIdentity : ObjectId
  inputs : List TypedObjectRef
  outputs : List ObjectId
  reproducibility : Bytes
  wallTime : WallTime
  signatures : List Signature
  deriving DecidableEq

def BuildProvenance.unsignedMap (o : BuildProvenance) : Entries :=
  optionalHeader .buildProvenance (some o.policyRef) ++
    [(3, oid o.snapshot), (4, oid o.ruleset), (5, oid o.builderIdentity),
      (6, typedRefArray o.inputs), (7, oidArray o.outputs), (8, .bytes o.reproducibility),
      (9, o.wallTime.value)]

instance [Unicode] : CanonicalObject BuildProvenance where
  kind := .buildProvenance
  fields o := o.unsignedMap ++ [(10, signatureArray o.signatures)]
  validate o := do
    sortedUniqueRefs o.inputs "build inputs must be sorted and unique"
    sortedUniqueIds o.outputs "build outputs must be sorted and unique"
    validateCanonicalMap o.reproducibility
      "build reproducibility metadata must be a canonical CBOR map"
    checkSignatures o.signatures .buildProvenance

inductive ArtifactKind where
  | binary
  | sourceArchive
  | sbom
  | attestation
  deriving DecidableEq

instance : Discriminant ArtifactKind where
  values := [.binary, .sourceArchive, .sbom, .attestation]
  code
    | .binary => 0
    | .sourceArchive => 1
    | .sbom => 2
    | .attestation => 3
  mem_values a := by cases a <;> decide
  codes := by decide

inductive ArtifactDigestAlgorithm where
  | sha256
  | blake3
  deriving DecidableEq

instance : Discriminant ArtifactDigestAlgorithm where
  values := [.sha256, .blake3]
  code
    | .sha256 => 0
    | .blake3 => 1
  mem_values a := by cases a <;> decide
  codes := by decide

structure Artifact where
  policyRef : PolicyRef
  artifactKind : ArtifactKind
  digestAlgorithm : ArtifactDigestAlgorithm
  digest : Bytes
  byteLength : UInt64
  locator : Option String
  blob : Option ObjectId
  deriving DecidableEq

instance [Unicode] : CanonicalObject Artifact where
  kind := .artifact
  fields o := optional (optional
    (optionalHeader .artifact (some o.policyRef) ++
      [(3, .unsigned (code o.artifactKind)), (4, .unsigned (code o.digestAlgorithm)),
        (5, .bytes o.digest), (6, .unsigned o.byteLength)])
    7 (o.locator.map .text))
    8 (o.blob.map oid)
  validate o :=
    if o.digest.length ≠ 32 ∨ (o.locator.isNone ∧ o.blob.isNone) then
      .error (.invalid "artifact requires digest and location or blob")
    else Except.ifSome o.locator nfc

/-! ### Payloads -/

inductive OperationPayloadKind where
  | inverse
  | recovery
  | publicRedaction
  | privateAudit
  deriving DecidableEq

instance : Discriminant OperationPayloadKind where
  values := [.inverse, .recovery, .publicRedaction, .privateAudit]
  code
    | .inverse => 0
    | .recovery => 1
    | .publicRedaction => 2
    | .privateAudit => 3
  mem_values a := by cases a <;> decide
  codes := by decide

inductive OperationPayloadSchema where
  | canonicalCborMapV0
  deriving DecidableEq

instance : Discriminant OperationPayloadSchema where
  values := [.canonicalCborMapV0]
  code
    | .canonicalCborMapV0 => 0
  mem_values a := by cases a; decide
  codes := by decide

structure OperationPayload where
  policyRef : PolicyRef
  payloadKind : OperationPayloadKind
  references : List TypedObjectRef
  payloadSchema : OperationPayloadSchema
  canonicalPayload : Bytes
  deriving DecidableEq

instance [Unicode] : CanonicalObject OperationPayload where
  kind := .operationPayload
  fields o := optionalHeader .operationPayload (some o.policyRef) ++
    [(3, .unsigned (code o.payloadKind)), (4, typedRefArray o.references),
      (5, .unsigned (code o.payloadSchema)), (6, .bytes o.canonicalPayload)]
  validate o := do
    sortedUniqueRefs o.references "payload references must be sorted and unique"
    validateCanonicalMap o.canonicalPayload "operation payload must be a canonical CBOR map"

/-! ### Views -/

structure LineGeneration where
  lineId : LineId
  generation : UInt64
  state : ObjectId
  deriving DecidableEq

namespace LineGeneration

/-- The derived order on the fields in turn. -/
instance : Ord LineGeneration where
  compare := compareLex (compareOn fun l => l.lineId.1)
    (compareLex (compareOn LineGeneration.generation) (compareOn LineGeneration.state))

def value (l : LineGeneration) : Value :=
  .map [(0, stable l.lineId), (1, .unsigned l.generation), (2, oid l.state)]

end LineGeneration

structure View where
  policyRef : PolicyRef
  actor : ActorId
  device : DeviceId
  policies : List ObjectId
  lines : List LineGeneration
  projectedManifest : ObjectId
  validityConstraints : Bytes
  signatures : List Signature
  deriving DecidableEq

namespace View

def unsignedMap (o : View) : Entries :=
  optionalHeader .view (some o.policyRef) ++
    [(3, stable o.actor), (4, stable o.device), (5, oidArray o.policies),
      (6, .array (o.lines.map LineGeneration.value)), (7, oid o.projectedManifest),
      (8, .bytes o.validityConstraints)]

def validate [Unicode] (o : View) : Except ObjectError Unit := do
  sortedUniqueIds o.policies "view policies must be sorted and unique"
  if outOfOrder o.lines then .error (.invalid "view lines must be sorted and unique")
  else if countDistinct (o.lines.map LineGeneration.lineId) ≠ o.lines.length then
    .error (.invalid "view contains duplicate line IDs")
  else
    validateCanonicalMap o.validityConstraints
      "view validity constraints must be a canonical CBOR map"
    checkSignatures o.signatures .view

end View

instance [Unicode] : CanonicalObject View where
  kind := .view
  fields o := o.unsignedMap ++ [(9, signatureArray o.signatures)]
  validate := View.validate

/-! ### Migrations -/

structure IdMapping where
  old : ObjectId
  new : ObjectId
  deriving DecidableEq

def IdMapping.value (m : IdMapping) : Value := .map [(0, oid m.old), (1, oid m.new)]

inductive ObjectIdFormat where
  | v0
  | v1
  deriving DecidableEq

instance : Discriminant ObjectIdFormat where
  values := [.v0, .v1]
  code
    | .v0 => 0
    | .v1 => 1
  mem_values a := by cases a <;> decide
  codes := by decide

structure Migration where
  policyRef : PolicyRef
  sourceFormat : ObjectIdFormat
  targetFormat : ObjectIdFormat
  mappings : List IdMapping
  toolIdentity : ObjectId
  wallTime : WallTime
  signatures : List Signature
  deriving DecidableEq

namespace Migration

def unsignedMap (o : Migration) : Entries :=
  optionalHeader .migration (some o.policyRef) ++
    [(3, .unsigned (code o.sourceFormat)), (4, .unsigned (code o.targetFormat)),
      (5, .array (o.mappings.map IdMapping.value)), (6, oid o.toolIdentity),
      (7, o.wallTime.value)]

def validate [Unicode] (o : Migration) : Except ObjectError Unit := do
  if o.sourceFormat = o.targetFormat ∨ o.mappings = [] then
    .error (.invalid "migration must change formats and contain mappings")
  else
    sortedEncodings (o.mappings.map IdMapping.value)
      "migration mappings must be sorted and unique"
    if countDistinct (o.mappings.map IdMapping.old) ≠ o.mappings.length
        ∨ countDistinct (o.mappings.map IdMapping.new) ≠ o.mappings.length then
      .error (.invalid "migration must be one-to-one")
    else checkSignatures o.signatures .migration

end Migration

instance [Unicode] : CanonicalObject Migration where
  kind := .migration
  fields o := o.unsignedMap ++ [(8, signatureArray o.signatures)]
  validate := Migration.validate

/-! ### Rulesets -/

inductive RulesetKind where
  | review
  | approval
  | ci
  | landing
  | release
  deriving DecidableEq

instance : Discriminant RulesetKind where
  values := [.review, .approval, .ci, .landing, .release]
  code
    | .review => 0
    | .approval => 1
    | .ci => 2
    | .landing => 3
    | .release => 4
  mem_values a := by cases a <;> decide
  codes := by decide

structure Ruleset where
  policyRef : PolicyRef
  rulesetKind : RulesetKind
  version : UInt64
  previous : Option ObjectId
  constraints : Bytes
  requiredEvidenceKinds : List ObjectKind
  deriving DecidableEq

/-- The four kinds of evidence a ruleset may require. -/
def isEvidenceKind : ObjectKind → Bool
  | .reviewEvidence | .approvalEvidence | .ciEvidence | .policyDecisionEvidence => true
  | _ => false

instance [Unicode] : CanonicalObject Ruleset where
  kind := .ruleset
  fields o := optional
    (optionalHeader .ruleset (some o.policyRef) ++
      [(3, .unsigned (code o.rulesetKind)), (4, .unsigned o.version),
        (6, .bytes o.constraints),
        (7, .array (o.requiredEvidenceKinds.map fun k => .unsigned (code k)))])
    5 (o.previous.map oid)
  validate o :=
    if (o.version == 0) = o.previous.isSome then
      .error (.invalid "only ruleset version zero may omit previous")
    else if outOfOrder (o.requiredEvidenceKinds.map code)
        || o.requiredEvidenceKinds.any (fun k => !isEvidenceKind k) then
      .error (.invalid "ruleset evidence kinds must be sorted, unique evidence kinds")
    else validateCanonicalMap o.constraints "ruleset constraints must be a canonical CBOR map"

/-! ### All typed objects -/

section All

variable [Unicode]

/-- `o` is a value of one of the typed object structs, of kind `kind` and
schema `schema`. -/
inductive TypedObject where
  | chunk (o : Chunk)
  | blob (o : Blob)
  | secretRef (o : SecretRef)
  | manifest (o : Manifest)
  | subproject (o : Subproject)
  | snapshot (o : Snapshot)
  | changeRevision (o : ChangeRevision)
  | lineState (o : LineState)
  | conflict (o : Conflict)
  | operation (o : Operation)
  | operationV1 (o : OperationV1)
  | marker (o : Marker)
  | release (o : Release)
  | policy (o : Policy)
  | repositoryRoot (o : RepositoryRoot)
  | identity (o : Identity)
  | groupMembership (o : GroupMembership)
  | keyEnvelopeSet (o : KeyEnvelopeSet)
  | changeRelation (o : ChangeRelation)
  | conflictResolution (o : ConflictResolution)
  | reviewEvidence (o : ReviewEvidence)
  | approvalEvidence (o : ApprovalEvidence)
  | ciEvidence (o : CiEvidence)
  | policyDecisionEvidence (o : PolicyDecisionEvidence)
  | projectionRules (o : ProjectionRules)
  | projectionProof (o : ProjectionProof)
  | buildProvenance (o : BuildProvenance)
  | artifact (o : Artifact)
  | operationPayload (o : OperationPayload)
  | view (o : View)
  | migration (o : Migration)
  | ruleset (o : Ruleset)

namespace TypedObject

/-- A family member is used through the trait alone. -/
def elim {β : Type} (f : ∀ {α : Type} [CanonicalObject α], α → β) : TypedObject → β
  | .chunk o => f o
  | .blob o => f o
  | .secretRef o => f o
  | .manifest o => f o
  | .subproject o => f o
  | .snapshot o => f o
  | .changeRevision o => f o
  | .lineState o => f o
  | .conflict o => f o
  | .operation o => f o
  | .operationV1 o => f o
  | .marker o => f o
  | .release o => f o
  | .policy o => f o
  | .repositoryRoot o => f o
  | .identity o => f o
  | .groupMembership o => f o
  | .keyEnvelopeSet o => f o
  | .changeRelation o => f o
  | .conflictResolution o => f o
  | .reviewEvidence o => f o
  | .approvalEvidence o => f o
  | .ciEvidence o => f o
  | .policyDecisionEvidence o => f o
  | .projectionRules o => f o
  | .projectionProof o => f o
  | .buildProvenance o => f o
  | .artifact o => f o
  | .operationPayload o => f o
  | .view o => f o
  | .migration o => f o
  | .ruleset o => f o

def kind : TypedObject → ObjectKind := elim fun {α} _ _ => CanonicalObject.kind α

def schemaVersion : TypedObject → UInt64 := elim fun {α} _ _ => CanonicalObject.schemaVersion α

def fields : TypedObject → Entries := elim fun o => CanonicalObject.fields o

def validate : TypedObject → Except ObjectError Unit := elim fun o => CanonicalObject.validate o

def canonicalValue : TypedObject → Value := elim fun o => CanonicalObject.canonicalValue o

def encode : TypedObject → Except ObjectError Bytes := elim fun o => CanonicalObject.encode o

def id [Hashes] (o : TypedObject) (algorithm : HashAlgorithm) : Except ObjectError ObjectId :=
  o.elim fun o => CanonicalObject.id o algorithm

theorem encode_eq (o : TypedObject) :
    o.encode = (do
      o.validate
      (o.canonicalValue.encodeWithLimits (kindLimits o.kind)).mapError .canonical) := by
  cases o <;> rfl

theorem canonicalValue_eq (o : TypedObject) : o.canonicalValue = .map o.fields := by
  cases o <;> rfl

theorem id_eq [Hashes] (o : TypedObject) (algorithm : HashAlgorithm) :
    o.id algorithm = (do
      let bytes ← o.encode
      .ok (ObjectId.fromPayload (code o.kind) o.schemaVersion bytes algorithm)) := by
  cases o <;> rfl

/-- Encoding in closed form. -/
theorem encode_eq_ok {o : TypedObject} {b : Bytes} :
    o.encode = .ok b ↔
      o.validate = .ok () ∧
        (Value.map o.fields).encodeWithLimits (kindLimits o.kind) = .ok b := by
  rw [encode_eq, Except.bind_unit_eq_ok, Except.mapError_eq_ok, canonicalValue_eq]

end TypedObject

end All

end RGit
