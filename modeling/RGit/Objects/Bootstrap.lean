/-
RGit/Objects/Bootstrap.lean

The material that a repository starts from: its root, the objects that the
root names, and the checks on them.
-/
import RGit.Objects.Registry

namespace RGit

open CanonicalObject

/-! ### Line states and their transactions -/

/-- `LineAdvanceDeclaration::matches`. -/
def LineAdvanceDeclaration.matchesState (d : LineAdvanceDeclaration) (state : LineState) : Bool :=
  d.policyRef = state.policyRef ∧ d.lineId = state.lineId ∧ d.displayName = state.displayName ∧
    d.headSnapshot = state.headSnapshot ∧ d.generation = state.generation ∧
    d.previousState = state.previousState ∧ d.integrationPolicy = state.integrationPolicy ∧
    d.approvalPolicy = state.approvalPolicy ∧ d.releasePolicy = state.releasePolicy ∧
    d.visibilityPolicy = state.visibilityPolicy

/-- The action declares the line state. -/
def OperationAction.declares (state : LineState) : OperationAction → Bool
  | .lineAdvance declaration => declaration.matchesState state
  | .transition .. => false

/-- `LineState::validate_transaction`. -/
def LineState.validateTransaction [Unicode] [Hashes] (state : LineState) (operation : Operation) :
    Except ObjectError Unit := do
  let id ← CanonicalObject.id operation state.transactionOperation.algorithm
  if id ≠ state.transactionOperation then
    .error (.invalid "line state transaction operation ID does not match operation")
  else if (operation.actions.filter fun action => action.declares state).length ≠ 1 then
    .error (.invalid "operation must contain exactly one matching line advance declaration")
  else .ok ()

/-! ### The bootstrap graph -/

/-- Complete schema-0 bootstrap material in dependency order. -/
structure BootstrapGraph where
  root : RepositoryRoot
  rootPolicy : Policy
  identities : List Identity
  keyEnvelopeSet : KeyEnvelopeSet
  genesisOperation : Operation
  initialLineStates : List LineState

namespace BootstrapGraph

variable [Unicode] [Hashes] (graph : BootstrapGraph) (algorithm : HashAlgorithm)

/-- One pass over the identities. -/
def identityId (identity : Identity) : Except ObjectError ObjectId := do
  validate identity
  if identity.version ≠ 0 ∨ identity.policyRef.isSome ∨ identity.previous.isSome ∨
      identity.activationOperation.isSome then
    .error (.invalid "bootstrap identity has nonbootstrap links")
  else id identity algorithm

/-- The comparison of the links of the root; the identifiers are computed one
after the other. -/
def checkRootLinks : Except ObjectError Unit := do
  let mismatch : Except ObjectError Unit :=
    .error (.invalid "repository root bootstrap object link mismatch")
  let policy ← id graph.rootPolicy algorithm
  if graph.root.rootPolicy ≠ policy then mismatch
  else
    let envelopes ← id graph.keyEnvelopeSet algorithm
    if graph.root.bootstrapKeyEnvelopeSet ≠ envelopes then mismatch
    else
      let operation ← id graph.genesisOperation algorithm
      if graph.root.genesisOperation ≠ operation then mismatch else .ok ()

/-- The policy that everything of the bootstrap is under. -/
def policyRef : PolicyRef := ⟨graph.rootPolicy.policyId, graph.root.rootPolicy⟩

/-- One pass over the initial line states. -/
def lineStateId (line : LineState) : Except ObjectError ObjectId := do
  validate line
  if line.generation ≠ 0 ∨ line.previousState.isSome ∨ line.policyRef ≠ graph.policyRef then
    .error (.invalid "initial line state is not a policy-bound genesis state")
  else
    line.validateTransaction graph.genesisOperation
    id line algorithm

/-- One pass over the signatures of the root. -/
def checkSigner (signature : Signature) : Except ObjectError Unit :=
  if graph.identities.any fun identity =>
      identity.subjectKind = .actor ∧ identity.subject = signature.signer ∧
        identity.signingKeys.any fun key => key.keyId = signature.signingKeyId then .ok ()
  else .error (.invalid "repository root signer is not a bootstrap identity key")

/-- `BootstrapGraph::validate`. -/
def validate : Except ObjectError Unit := do
  CanonicalObject.validate graph.root
  CanonicalObject.validate graph.rootPolicy
  CanonicalObject.validate graph.keyEnvelopeSet
  CanonicalObject.validate graph.genesisOperation
  if graph.rootPolicy.policyRef.isSome ∨ graph.rootPolicy.versionSequence ≠ 0 ∨
      graph.rootPolicy.previousVersion.isSome then
    .error (.invalid "bootstrap root policy must be version zero and parentless")
  else if graph.keyEnvelopeSet.policyRef.isSome ∨ graph.keyEnvelopeSet.epoch ≠ 0 then
    .error (.invalid "bootstrap key envelope set must be epoch zero and policy-free")
  else if graph.identities = [] ∨ graph.initialLineStates = [] then
    .error (.invalid "bootstrap identity and line sets must not be empty")
  else
    let identityIds ← graph.identities.mapM (identityId algorithm)
    if identityIds ≠ graph.root.trustedIdentities then
      .error (.invalid "repository root identity links do not match bootstrap identities")
    else
      graph.checkRootLinks algorithm
      if graph.rootPolicy.keyEnvelopeSet ≠ graph.root.bootstrapKeyEnvelopeSet then
        .error (.invalid "root policy does not name bootstrap key envelope set")
      else if graph.genesisOperation.parents ≠ [] then
        .error (.invalid "genesis operation must not have parents")
      else if graph.genesisOperation.policyRef ≠ graph.policyRef then
        .error (.invalid "genesis operation does not use the root policy")
      else
        let lineIds ← graph.initialLineStates.mapM (graph.lineStateId algorithm)
        if lineIds ≠ graph.root.initialLineStates then
          .error (.invalid "repository root line links do not match initial states")
        else forM graph.root.signatures graph.checkSigner

/-! ### What the checks say -/

section Checks

variable {graph algorithm}

theorem id_eq_ok {α : Type} [CanonicalObject α] {o : α} {id : ObjectId} :
    CanonicalObject.id o algorithm = .ok id ↔
      ∃ bytes, encode o = .ok bytes ∧
        id = ObjectId.fromPayload (Discriminant.code (kind α)) (schemaVersion α) bytes algorithm := by
  rw [CanonicalObject.id, Except.bind_eq_ok]
  simp only [Except.ok.injEq, eq_comm (a := id)]

/-- What is known of an initial line state of a valid bootstrap. -/
structure GenesisState (operation : Operation) (line : LineState) : Prop where
  encoded : ∃ bytes, encode line = .ok bytes
  generation : line.generation = 0
  previousState : line.previousState = none
  transaction : CanonicalObject.id operation line.transactionOperation.algorithm =
    .ok line.transactionOperation
  declared : ∃ action ∈ operation.actions, action.declares line = true

theorem genesisState_of_lineStateId {line : LineState} {lineId : ObjectId}
    (h : graph.lineStateId algorithm line = .ok lineId) :
    GenesisState graph.genesisOperation line := by
  simp only [lineStateId, Except.bind_eq_ok, Except.exists_unit_iff, Except.ite_error_eq_ok,
    not_or, ne_eq, not_not, Bool.not_eq_true, Option.isSome_eq_false_iff,
    Option.isNone_iff_eq_none] at h
  obtain ⟨-, ⟨hgeneration, hprevious, -⟩, htransaction, hid⟩ := h
  obtain ⟨bytes, hbytes, -⟩ := id_eq_ok.mp hid
  simp only [LineState.validateTransaction, Except.bind_eq_ok, Except.ite_error_eq_ok, ne_eq,
    not_not, and_true] at htransaction
  obtain ⟨id, hid, rfl, hcount⟩ := htransaction
  refine ⟨⟨bytes, hbytes⟩, hgeneration, hprevious, hid, ?_⟩
  obtain ⟨action, haction⟩ := List.length_eq_one_iff.mp hcount
  obtain ⟨hmem, hdeclares⟩ := List.mem_filter.mp (haction ▸ List.mem_singleton_self action)
  exact ⟨action, hmem, hdeclares⟩

/-- **What a valid bootstrap guarantees** about its operation and line states. -/
theorem genesis_of_validate (h : graph.validate algorithm = .ok ()) :
    (∃ bytes, encode graph.genesisOperation = .ok bytes) ∧
      ∀ line ∈ graph.initialLineStates, GenesisState graph.genesisOperation line := by
  simp only [validate, Except.bind_eq_ok, Except.exists_unit_iff, Except.ite_error_eq_ok] at h
  obtain ⟨-, -, -, -, -, -, -, identityIds, -, -, hlinks, -, -, -, lineIds, hlines, -⟩ := h
  constructor
  · simp only [checkRootLinks, Except.bind_eq_ok, Except.ite_error_eq_ok] at hlinks
    obtain ⟨-, -, -, -, -, -, operation, hid, -⟩ := hlinks
    obtain ⟨bytes, hbytes, -⟩ := id_eq_ok.mp hid
    exact ⟨bytes, hbytes⟩
  · intro line hline
    obtain ⟨lineId, -, hid⟩ := forall₂_exists_of_mem (mapM_eq_ok.mp hlines) hline
    exact genesisState_of_lineStateId hid

end Checks

end BootstrapGraph

end RGit
