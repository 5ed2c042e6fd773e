/-
RGit/Objects/References.lean

The edges of a decoded object: `references`, arm by arm.

Every arm pushes its edges in the order of the source.  The `add!` macro and
the loops of the arms are the five helpers below; what remains of an arm is
the list of its fields with their roles and expected kinds.
-/
import RGit.Objects.Decode

namespace RGit

/-- Why an object refers to another one. -/
inductive ReferenceRole where
  | objectPolicy
  | manifestEntryPolicy
  | reviewPolicy
  | landingPolicy
  | integrationPolicy
  | approvalPolicy
  | releasePolicy
  | visibilityPolicy
  | audiencePolicy
  | blobChunk
  | manifestEntryTarget
  | snapshotRootManifest
  | snapshotParent
  | snapshotMessage
  | changePreviousRevision
  | changeTitle
  | changeDescription
  | changeBaseSnapshot
  | changeCurrentSnapshot
  | lineHeadSnapshot
  | linePreviousState
  | lineTransactionOperation
  | subprojectNativeProjection
  | secretDevelopmentValue
  | conflictBase
  | conflictLeft
  | conflictRight
  | operationParent
  | operationBefore
  | operationAfter
  | operationLinePolicy
  | operationLineHeadSnapshot
  | operationLinePreviousState
  | operationLineIntegrationPolicy
  | operationLineApprovalPolicy
  | operationLineReleasePolicy
  | operationLineVisibilityPolicy
  | operationInversePayload
  | operationPublicEnvelope
  | operationPrivatePayload
  | markerTarget
  | releaseSourceSnapshot
  | releaseProjectionRules
  | releaseProjectionProof
  | releaseProjectedRoot
  | releaseNotes
  | releaseBuildProvenance
  | releaseArtifact
  | releasePolicyEvidence
  | policyPreviousVersion
  | policyDeclassificationRequirement
  | policyKeyEnvelopeSet
  | repositoryRootPolicy
  | repositoryTrustedIdentity
  | repositoryBootstrapKeyEnvelopeSet
  | repositoryGenesisOperation
  | repositoryInitialLineState
  | identityPrevious
  | identityKeyNotBefore
  | identityKeyNotAfter
  | identityActivationOperation
  | identityNotAfterOperation
  | membershipPrevious
  | membershipActivationOperation
  | membershipNotAfterOperation
  | changeRelationSource
  | changeRelationResult
  | changeRelationProvenance
  | changeRelationOperation
  | resolutionConflict
  | resolutionResult
  | resolutionProvenance
  | evidenceTarget
  | evidenceSnapshot
  | evidenceRuleset
  | evidenceRelated
  | ciRunnerIdentity
  | ciBuildProvenance
  | projectionRulesPrevious
  | projectionSourceSnapshot
  | projectionRules
  | projectionAudiencePolicy
  | projectionManifest
  | buildSnapshot
  | buildRuleset
  | buildIdentity
  | buildInput
  | buildOutput
  | artifactBlob
  | payloadReference
  | viewPolicy
  | viewLineState
  | viewManifest
  | migrationOldObject
  | migrationNewObject
  | migrationToolIdentity
  | rulesetPrevious
  deriving DecidableEq

structure ReferenceEdge where
  role : ReferenceRole
  expectedKind : Option ObjectKind
  id : ObjectId
  deriving DecidableEq

namespace Decode

abbrev Edges := DecodeResult (List ReferenceEdge)

/-! ### Pushing edges -/

/-- The edges of several fields, one after the other. -/
def concatEdges (parts : List Edges) : Edges := do
  let edges ← parts.mapM fun part => part
  .ok edges.flatten

/-- The same for the elements of a loop. -/
def eachEdges {α : Type} (as : List α) (f : α → Edges) : Edges := concatEdges (as.map f)

/-- One edge to an identifier. -/
def idEdge (v : Value) (k : UInt64) (role : ReferenceRole) (expected : Option ObjectKind) :
    Edges := do
  let id ← oid v k
  .ok [⟨role, expected, id⟩]

/-- `add!(key, role, expected)`: a null field counts as absent. -/
def addEdge (m : Entries) (k : UInt64) (role : ReferenceRole) (expected : Option ObjectKind) :
    Edges :=
  match optionalField m k with
  | none | some .null => .ok []
  | some v => idEdge v k role expected

/-- `if let Some(value) = optional_field(map, key) { push(oid(value, reported)?) }`. -/
def optionalEdge (m : Entries) (k reported : UInt64) (role : ReferenceRole)
    (expected : ObjectKind) : Edges :=
  match optionalField m k with
  | none => .ok []
  | some v => idEdge v reported role (some expected)

/-- `for value in array(field(map, key)?, key)? { push(oid(value, key)?) }`. -/
def addEdges (m : Entries) (k : UInt64) (role : ReferenceRole) (expected : ObjectKind) :
    Edges := do
  eachEdges (← array (← field m k) k) fun v => idEdge v k role (some expected)

/-- The edge of a typed reference. -/
def typedEdge (v : Value) (k : UInt64) (role : ReferenceRole) : Edges := do
  let r ← asMap v
  let kind ← kindOf (← unsigned (← field r 0) k)
  let id ← oid (← field r 1) k
  .ok [⟨role, some kind, id⟩]

def addTypedEdge (m : Entries) (k : UInt64) (role : ReferenceRole) : Edges := do
  typedEdge (← field m k) k role

def optionalTypedEdge (m : Entries) (k : UInt64) (role : ReferenceRole) : Edges :=
  match optionalField m k with
  | none => .ok []
  | some v => typedEdge v 8 role

def addTypedEdges (m : Entries) (k : UInt64) (role : ReferenceRole) : Edges := do
  eachEdges (← array (← field m k) k) fun v => typedEdge v k role

/-- The edge of a policy reference to its exact version. -/
def policyEdge (v : Value) (k : UInt64) (role : ReferenceRole) : Edges := do
  let p ← asMap v
  let id ← oid (← field p 1) k
  .ok [⟨role, some .policy, id⟩]

/-- `policy_fields`. -/
def policyFields : ObjectKind → List (UInt64 × ReferenceRole)
  | .changeRevision => [(2, .objectPolicy), (14, .reviewPolicy), (15, .landingPolicy)]
  | .lineState =>
      [(2, .objectPolicy), (8, .integrationPolicy), (9, .approvalPolicy), (10, .releasePolicy),
        (11, .visibilityPolicy)]
  | .release => [(2, .objectPolicy), (6, .audiencePolicy)]
  | _ => [(2, .objectPolicy)]

def addPolicyEdge (m : Entries) (k : UInt64) (role : ReferenceRole) : Edges :=
  match optionalField m k with
  | none => .ok []
  | some v => policyEdge v k role

/-! ### Nested fields -/

/-- `push(oid(field(map, key)?, reported)?)`. -/
def requiredEdge (m : Entries) (k reported : UInt64) (role : ReferenceRole)
    (expected : Option ObjectKind) : Edges := do
  idEdge (← field m k) reported role expected

def requiredPolicyEdge (m : Entries) (k reported : UInt64) (role : ReferenceRole) : Edges := do
  policyEdge (← field m k) reported role

def chunkEdges (v : Value) : Edges := do
  let chunk ← asMap v
  requiredEdge chunk 0 5 .blobChunk (some .chunk)

def blobEdges (m : Entries) : Edges :=
  match optionalField m 5 with
  | none => .ok []
  | some chunks => do eachEdges (← array chunks 5) chunkEdges

/-- The kind that a manifest entry of kind number `n` points to. -/
def entryTargetKind (n : UInt64) : DecodeResult ObjectKind :=
  if n = 0 ∨ n = 2 then .ok .blob
  else if n = 1 then .ok .manifest
  else if n = 3 then .ok .subproject
  else if n = 4 then .ok .secretRef
  else .error (.field 3)

def entryTargetEdge (entry : Entries) : Edges := do
  let kind ← unsigned (← field entry 1) 3
  let expected ← entryTargetKind kind
  requiredEdge entry 2 3 .manifestEntryTarget (some expected)

def manifestEntryEdges (v : Value) : Edges := do
  let entry ← asMap v
  concatEdges [entryTargetEdge entry, requiredPolicyEdge entry 4 3 .manifestEntryPolicy]

def declarationEdges (v : Value) : Edges := do
  let declaration ← asMap v
  concatEdges
    [requiredPolicyEdge declaration 0 8 .operationLinePolicy,
      requiredPolicyEdge declaration 6 8 .operationLineIntegrationPolicy,
      requiredPolicyEdge declaration 7 8 .operationLineApprovalPolicy,
      requiredPolicyEdge declaration 8 8 .operationLineReleasePolicy,
      requiredPolicyEdge declaration 9 8 .operationLineVisibilityPolicy,
      requiredEdge declaration 3 8 .operationLineHeadSnapshot (some .snapshot),
      optionalEdge declaration 5 8 .operationLinePreviousState .lineState]

def actionEdges (v : Value) : Edges := do
  let action ← asMap v
  let discriminator ← unsigned (← field action 0) 8
  if discriminator = 0 then
    concatEdges [optionalTypedEdge action 1 .operationBefore,
      optionalTypedEdge action 2 .operationAfter]
  else if discriminator = 2 then
    concatEdges [optionalTypedEdge action 2 .operationBefore,
      optionalTypedEdge action 3 .operationAfter]
  else if discriminator = 1 then declarationEdges (← field action 3)
  else .error (.field 8)

def keyRecordEdges (k : UInt64) (v : Value) : Edges := do
  let record ← asMap v
  concatEdges [optionalEdge record 3 k .identityKeyNotBefore .operation,
    optionalEdge record 4 k .identityKeyNotAfter .operation]

def viewLineEdges (v : Value) : Edges := do
  let line ← asMap v
  requiredEdge line 2 6 .viewLineState (some .lineState)

def mappingEdges (v : Value) : Edges := do
  let m ← asMap v
  concatEdges [requiredEdge m 0 5 .migrationOldObject none,
    requiredEdge m 1 5 .migrationNewObject none]

/-- A loop over an array field whose elements push their own edges. -/
def nestedEdges (m : Entries) (k : UInt64) (f : Value → Edges) : Edges := do
  eachEdges (← array (← field m k) k) f

/-! ### Arms -/

/-- The fields that all evidence kinds push. -/
def evidenceEdges (m : Entries) : List Edges :=
  [addTypedEdge m 3 .evidenceTarget, addEdge m 4 .evidenceSnapshot (some .snapshot),
    addEdge m 5 .evidenceRuleset (some .ruleset), addTypedEdges m 10 .evidenceRelated]

/-- The match over the kinds in `references`, field by field. -/
def kindEdges (kind : ObjectKind) (m : Entries) : List Edges :=
  match kind with
  | .blob => [blobEdges m]
  | .manifest => [nestedEdges m 3 manifestEntryEdges]
  | .snapshot =>
      [addEdge m 3 .snapshotRootManifest (some .manifest),
        addEdge m 10 .snapshotMessage (some .blob), addEdges m 4 .snapshotParent .snapshot]
  | .changeRevision =>
      [addEdge m 4 .changePreviousRevision (some .changeRevision),
        addEdge m 5 .changeTitle (some .blob), addEdge m 6 .changeDescription (some .blob),
        addEdge m 7 .changeBaseSnapshot (some .snapshot),
        addEdge m 8 .changeCurrentSnapshot (some .snapshot)]
  | .lineState =>
      [addEdge m 5 .lineHeadSnapshot (some .snapshot),
        addEdge m 7 .linePreviousState (some .lineState),
        addEdge m 12 .lineTransactionOperation (some .operation)]
  | .subproject => [addEdge m 6 .subprojectNativeProjection none]
  | .secretRef => [addEdge m 9 .secretDevelopmentValue none]
  | .release =>
      [addEdge m 5 .releaseSourceSnapshot (some .snapshot),
        addEdge m 7 .releaseProjectionRules (some .projectionRules),
        addEdge m 8 .releaseProjectedRoot (some .manifest),
        addEdge m 9 .releaseProjectionProof (some .projectionProof),
        addEdge m 11 .releaseNotes (some .blob),
        addEdges m 12 .releaseBuildProvenance .buildProvenance,
        addEdges m 13 .releaseArtifact .artifact,
        addEdges m 14 .releasePolicyEvidence .policyDecisionEvidence]
  | .policy =>
      [addEdge m 5 .policyPreviousVersion (some .policy),
        addEdge m 12 .policyKeyEnvelopeSet (some .keyEnvelopeSet),
        addEdges m 10 .policyDeclassificationRequirement .policyDecisionEvidence]
  | .conflict =>
      [addTypedEdge m 3 .conflictBase, addTypedEdge m 4 .conflictLeft,
        addTypedEdge m 5 .conflictRight]
  | .marker => [addTypedEdge m 4 .markerTarget]
  | .operation =>
      [addEdges m 3 .operationParent .operation,
        addEdges m 9 .operationInversePayload .operationPayload,
        nestedEdges m 8 actionEdges,
        addEdge m 10 .operationPublicEnvelope (some .operationPayload),
        addEdge m 11 .operationPrivatePayload (some .operationPayload)]
  | .repositoryRoot =>
      [addEdge m 4 .repositoryRootPolicy (some .policy),
        addEdges m 5 .repositoryTrustedIdentity .identity,
        addEdge m 6 .repositoryBootstrapKeyEnvelopeSet (some .keyEnvelopeSet),
        addEdge m 7 .repositoryGenesisOperation (some .operation),
        addEdges m 8 .repositoryInitialLineState .lineState]
  | .identity =>
      [addEdge m 6 .identityPrevious (some .identity), nestedEdges m 7 (keyRecordEdges 7),
        nestedEdges m 8 (keyRecordEdges 8),
        addEdge m 11 .identityActivationOperation (some .operation),
        addEdge m 12 .identityNotAfterOperation (some .operation)]
  | .groupMembership =>
      [addEdge m 6 .membershipPrevious (some .groupMembership),
        addEdge m 10 .membershipActivationOperation (some .operation),
        addEdge m 11 .membershipNotAfterOperation (some .operation)]
  | .changeRelation =>
      [addEdges m 4 .changeRelationSource .changeRevision,
        addEdges m 5 .changeRelationResult .changeRevision,
        addEdges m 6 .changeRelationProvenance .snapshot,
        addEdge m 7 .changeRelationOperation (some .operation)]
  | .conflictResolution =>
      [addEdge m 3 .resolutionConflict (some .conflict), addTypedEdge m 4 .resolutionResult,
        addTypedEdges m 8 .resolutionProvenance]
  | .reviewEvidence | .approvalEvidence | .policyDecisionEvidence => evidenceEdges m
  | .ciEvidence =>
      evidenceEdges m ++
        [addEdge m 14 .ciRunnerIdentity (some .identity),
          addEdge m 15 .ciBuildProvenance (some .buildProvenance)]
  | .projectionRules => [addEdge m 4 .projectionRulesPrevious (some .projectionRules)]
  | .projectionProof =>
      [addEdge m 4 .projectionSourceSnapshot (some .snapshot),
        addEdge m 5 .projectionRules (some .projectionRules),
        addEdge m 6 .projectionAudiencePolicy (some .policy),
        addEdge m 7 .projectionManifest (some .manifest)]
  | .buildProvenance =>
      [addEdge m 3 .buildSnapshot (some .snapshot), addEdge m 4 .buildRuleset (some .ruleset),
        addEdge m 5 .buildIdentity (some .identity), addTypedEdges m 6 .buildInput,
        addEdges m 7 .buildOutput .artifact]
  | .artifact => [addEdge m 8 .artifactBlob (some .blob)]
  | .operationPayload => [addTypedEdges m 4 .payloadReference]
  | .view =>
      [addEdges m 5 .viewPolicy .policy, nestedEdges m 6 viewLineEdges,
        addEdge m 7 .viewManifest (some .manifest)]
  | .migration =>
      [nestedEdges m 5 mappingEdges, addEdge m 6 .migrationToolIdentity (some .identity)]
  | .ruleset => [addEdge m 5 .rulesetPrevious (some .ruleset)]
  | .chunk | .keyEnvelopeSet => []

/-- The loop at the end of `references`: every edge where it is first met. -/
def uniqueEdges (edges : List ReferenceEdge) : List ReferenceEdge :=
  edges.foldl (fun unique edge => if edge ∈ unique then unique else unique ++ [edge]) []

end Decode

/-- `AnyObject::references`. -/
def AnyObject.references (o : AnyObject) : DecodeResult (List ReferenceEdge) := do
  let m ← Decode.asMap o.value
  let edges ← Decode.concatEdges
    ((Decode.policyFields o.kind).map (fun (k, role) => Decode.addPolicyEdge m k role) ++
      Decode.kindEdges o.kind m)
  .ok (Decode.uniqueEdges edges)

end RGit
