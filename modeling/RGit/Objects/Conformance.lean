/-
RGit/Objects/Conformance.lean

The two object layers against each other, over all kinds and schemas.

`TypedObject` is what a writer can construct, `AnyObject.decode` is what a
reader admits.  A typed object that encodes is always admitted, with its
kind, schema and identifier.  The other way round the reader admits a little
more than the writers can express: `typedFits` is the exact condition.
-/
import RGit.Objects.ExpressContent
import RGit.Objects.ExpressOperation
import RGit.Objects.ExpressEvidence
import RGit.Objects.ExpressIdentity

namespace RGit

open Discriminant (code)

open Decode

/-! ### What the typed layer can express -/

/-- The field that holds the wall time of a kind. -/
def wallTimeKey : ObjectKind → Option UInt64
  | .snapshot | .conflictResolution | .buildProvenance => some 9
  | .operation | .migration => some 7
  | .marker => some 6
  | .release => some 15
  | .reviewEvidence | .approvalEvidence | .ciEvidence | .policyDecisionEvidence => some 11
  | _ => none

/-- The release notes of a release, if there are any, are an identifier. -/
def notesFit : ObjectKind → Entries → Bool
  | .release, m => (optionalOidField m 11).isOk
  | _, _ => true

/-- The wall time fits an `i64` and the release notes are an identifier. -/
def typedFits (kind : ObjectKind) (m : Entries) : Bool :=
  (wallTimeKey kind).all (wallTimeFieldFits m) && notesFit kind m

section Conformance

variable [Unicode] {m : Entries}

omit [Unicode] in
theorem schema_eq_zero {k : ObjectKind} {schema : UInt64} (hkind : k ≠ .operation)
    (h : k.supportsSchema schema = true) : schema = 0 := by
  simpa [ObjectKind.supportsSchema, hkind] using h

omit [Unicode] in
theorem isOk_unit_iff {ε : Type} {x : Except ε Unit} : x.isOk = true ↔ x = .ok () := by
  rw [Except.isOk_iff, Except.exists_unit_iff]

omit [Unicode] in
theorem releaseFits_iff :
    typedFits .release m = true ↔
      wallTimeFieldFits m 15 = true ∧ optionalOidField m 11 = .ok () := by
  simp [typedFits, wallTimeKey, notesFit, isOk_unit_iff]

/-- The record of a valid typed object is a valid record of its kind. -/
theorem validRecord_of_typed (o : TypedObject) (hm : Admitted (kindLimits o.kind) (.map m))
    (hvalid : o.validate = .ok ()) (heq : Value.map m = (Value.map o.fields).norm) :
    ValidRecord o.kind o.schemaVersion m ∧ typedFits o.kind m = true := by
  cases o with
  | chunk o => exact ⟨(chunk_iff hm).mpr ⟨o, hvalid, heq⟩, rfl⟩
  | blob o => exact ⟨(blob_iff hm).mpr ⟨o, hvalid, heq⟩, rfl⟩
  | secretRef o => exact ⟨(secretRef_iff hm).mpr ⟨o, hvalid, heq⟩, rfl⟩
  | manifest o => exact ⟨(manifest_iff hm).mpr ⟨o, hvalid, heq⟩, rfl⟩
  | subproject o => exact ⟨(subproject_iff hm).mpr ⟨o, hvalid, heq⟩, rfl⟩
  | snapshot o =>
      obtain ⟨hrecord, hfits⟩ := (snapshot_iff hm).mpr ⟨o, hvalid, heq⟩
      exact ⟨hrecord, (Bool.and_true _).trans hfits⟩
  | changeRevision o => exact ⟨(changeRevision_iff hm).mpr ⟨o, hvalid, heq⟩, rfl⟩
  | lineState o => exact ⟨(lineState_iff hm).mpr ⟨o, hvalid, heq⟩, rfl⟩
  | conflict o => exact ⟨(conflict_iff hm).mpr ⟨o, hvalid, heq⟩, rfl⟩
  | operation o =>
      obtain ⟨hrecord, hfits⟩ := (operation_iff hm).mpr ⟨o, hvalid, heq⟩
      exact ⟨hrecord, (Bool.and_true _).trans hfits⟩
  | operationV1 o =>
      obtain ⟨hrecord, hfits⟩ := (operationV1_iff hm).mpr ⟨o, hvalid, heq⟩
      exact ⟨hrecord, (Bool.and_true _).trans hfits⟩
  | marker o =>
      obtain ⟨hrecord, hfits⟩ := (marker_iff hm).mpr ⟨o, hvalid, heq⟩
      exact ⟨hrecord, (Bool.and_true _).trans hfits⟩
  | release o =>
      obtain ⟨hrecord, hfits, hnotes⟩ := (release_iff hm).mpr ⟨o, hvalid, heq⟩
      exact ⟨hrecord, releaseFits_iff.mpr ⟨hfits, hnotes⟩⟩
  | policy o => exact ⟨(policy_iff hm).mpr ⟨o, hvalid, heq⟩, rfl⟩
  | repositoryRoot o => exact ⟨(repositoryRoot_iff hm).mpr ⟨o, hvalid, heq⟩, rfl⟩
  | identity o => exact ⟨(identity_iff hm).mpr ⟨o, hvalid, heq⟩, rfl⟩
  | groupMembership o => exact ⟨(groupMembership_iff hm).mpr ⟨o, hvalid, heq⟩, rfl⟩
  | keyEnvelopeSet o => exact ⟨(keyEnvelopeSet_iff hm).mpr ⟨o, hvalid, heq⟩, rfl⟩
  | changeRelation o => exact ⟨(changeRelation_iff hm).mpr ⟨o, hvalid, heq⟩, rfl⟩
  | conflictResolution o =>
      obtain ⟨hrecord, hfits⟩ := (conflictResolution_iff hm).mpr ⟨o, hvalid, heq⟩
      exact ⟨hrecord, (Bool.and_true _).trans hfits⟩
  | reviewEvidence o =>
      obtain ⟨hrecord, hfits⟩ := (reviewEvidence_iff hm).mpr ⟨o, hvalid, heq⟩
      exact ⟨hrecord, (Bool.and_true _).trans hfits⟩
  | approvalEvidence o =>
      obtain ⟨hrecord, hfits⟩ := (approvalEvidence_iff hm).mpr ⟨o, hvalid, heq⟩
      exact ⟨hrecord, (Bool.and_true _).trans hfits⟩
  | ciEvidence o =>
      obtain ⟨hrecord, hfits⟩ := (ciEvidence_iff hm).mpr ⟨o, hvalid, heq⟩
      exact ⟨hrecord, (Bool.and_true _).trans hfits⟩
  | policyDecisionEvidence o =>
      obtain ⟨hrecord, hfits⟩ := (policyDecisionEvidence_iff hm).mpr ⟨o, hvalid, heq⟩
      exact ⟨hrecord, (Bool.and_true _).trans hfits⟩
  | projectionRules o => exact ⟨(projectionRules_iff hm).mpr ⟨o, hvalid, heq⟩, rfl⟩
  | projectionProof o => exact ⟨(projectionProof_iff hm).mpr ⟨o, hvalid, heq⟩, rfl⟩
  | buildProvenance o =>
      obtain ⟨hrecord, hfits⟩ := (buildProvenance_iff hm).mpr ⟨o, hvalid, heq⟩
      exact ⟨hrecord, (Bool.and_true _).trans hfits⟩
  | artifact o => exact ⟨(artifact_iff hm).mpr ⟨o, hvalid, heq⟩, rfl⟩
  | operationPayload o => exact ⟨(operationPayload_iff hm).mpr ⟨o, hvalid, heq⟩, rfl⟩
  | view o => exact ⟨(view_iff hm).mpr ⟨o, hvalid, heq⟩, rfl⟩
  | migration o =>
      obtain ⟨hrecord, hfits⟩ := (migration_iff hm).mpr ⟨o, hvalid, heq⟩
      exact ⟨hrecord, (Bool.and_true _).trans hfits⟩
  | ruleset o => exact ⟨(ruleset_iff hm).mpr ⟨o, hvalid, heq⟩, rfl⟩

/-- **A valid record that fits is the record of a valid typed object.** -/
theorem typed_of_validRecord {kind : ObjectKind} {schema : UInt64}
    (hsupported : kind.supportsSchema schema = true)
    (hm : Admitted (kindLimits kind) (.map m)) (hrecord : ValidRecord kind schema m)
    (hfits : typedFits kind m = true) :
    ∃ o : TypedObject, o.kind = kind ∧ o.schemaVersion = schema ∧ o.validate = .ok () ∧
      Value.map m = (Value.map o.fields).norm := by
  cases kind with
  | chunk =>
      obtain rfl := schema_eq_zero (k := .chunk) (by decide) hsupported
      obtain ⟨o, hvalid, heq⟩ := (chunk_iff hm).mp hrecord
      exact ⟨.chunk o, rfl, rfl, hvalid, heq⟩
  | blob =>
      obtain rfl := schema_eq_zero (k := .blob) (by decide) hsupported
      obtain ⟨o, hvalid, heq⟩ := (blob_iff hm).mp hrecord
      exact ⟨.blob o, rfl, rfl, hvalid, heq⟩
  | secretRef =>
      obtain rfl := schema_eq_zero (k := .secretRef) (by decide) hsupported
      obtain ⟨o, hvalid, heq⟩ := (secretRef_iff hm).mp hrecord
      exact ⟨.secretRef o, rfl, rfl, hvalid, heq⟩
  | manifest =>
      obtain rfl := schema_eq_zero (k := .manifest) (by decide) hsupported
      obtain ⟨o, hvalid, heq⟩ := (manifest_iff hm).mp hrecord
      exact ⟨.manifest o, rfl, rfl, hvalid, heq⟩
  | subproject =>
      obtain rfl := schema_eq_zero (k := .subproject) (by decide) hsupported
      obtain ⟨o, hvalid, heq⟩ := (subproject_iff hm).mp hrecord
      exact ⟨.subproject o, rfl, rfl, hvalid, heq⟩
  | snapshot =>
      obtain rfl := schema_eq_zero (k := .snapshot) (by decide) hsupported
      obtain ⟨o, hvalid, heq⟩ := (snapshot_iff hm).mp ⟨hrecord, (Bool.and_true _).symm.trans hfits⟩
      exact ⟨.snapshot o, rfl, rfl, hvalid, heq⟩
  | changeRevision =>
      obtain rfl := schema_eq_zero (k := .changeRevision) (by decide) hsupported
      obtain ⟨o, hvalid, heq⟩ := (changeRevision_iff hm).mp hrecord
      exact ⟨.changeRevision o, rfl, rfl, hvalid, heq⟩
  | lineState =>
      obtain rfl := schema_eq_zero (k := .lineState) (by decide) hsupported
      obtain ⟨o, hvalid, heq⟩ := (lineState_iff hm).mp hrecord
      exact ⟨.lineState o, rfl, rfl, hvalid, heq⟩
  | conflict =>
      obtain rfl := schema_eq_zero (k := .conflict) (by decide) hsupported
      obtain ⟨o, hvalid, heq⟩ := (conflict_iff hm).mp hrecord
      exact ⟨.conflict o, rfl, rfl, hvalid, heq⟩
  | operation =>
      have hschema : schema = 0 ∨ schema = 1 := by
        simpa [ObjectKind.supportsSchema] using hsupported
      rcases hschema with rfl | rfl
      · obtain ⟨o, hvalid, heq⟩ := (operation_iff hm).mp ⟨hrecord, (Bool.and_true _).symm.trans hfits⟩
        exact ⟨.operation o, rfl, rfl, hvalid, heq⟩
      · obtain ⟨o, hvalid, heq⟩ := (operationV1_iff hm).mp ⟨hrecord, (Bool.and_true _).symm.trans hfits⟩
        exact ⟨.operationV1 o, rfl, rfl, hvalid, heq⟩
  | marker =>
      obtain rfl := schema_eq_zero (k := .marker) (by decide) hsupported
      obtain ⟨o, hvalid, heq⟩ := (marker_iff hm).mp ⟨hrecord, (Bool.and_true _).symm.trans hfits⟩
      exact ⟨.marker o, rfl, rfl, hvalid, heq⟩
  | release =>
      obtain rfl := schema_eq_zero (k := .release) (by decide) hsupported
      obtain ⟨o, hvalid, heq⟩ := (release_iff hm).mp ⟨hrecord, releaseFits_iff.mp hfits⟩
      exact ⟨.release o, rfl, rfl, hvalid, heq⟩
  | policy =>
      obtain rfl := schema_eq_zero (k := .policy) (by decide) hsupported
      obtain ⟨o, hvalid, heq⟩ := (policy_iff hm).mp hrecord
      exact ⟨.policy o, rfl, rfl, hvalid, heq⟩
  | repositoryRoot =>
      obtain rfl := schema_eq_zero (k := .repositoryRoot) (by decide) hsupported
      obtain ⟨o, hvalid, heq⟩ := (repositoryRoot_iff hm).mp hrecord
      exact ⟨.repositoryRoot o, rfl, rfl, hvalid, heq⟩
  | identity =>
      obtain rfl := schema_eq_zero (k := .identity) (by decide) hsupported
      obtain ⟨o, hvalid, heq⟩ := (identity_iff hm).mp hrecord
      exact ⟨.identity o, rfl, rfl, hvalid, heq⟩
  | groupMembership =>
      obtain rfl := schema_eq_zero (k := .groupMembership) (by decide) hsupported
      obtain ⟨o, hvalid, heq⟩ := (groupMembership_iff hm).mp hrecord
      exact ⟨.groupMembership o, rfl, rfl, hvalid, heq⟩
  | keyEnvelopeSet =>
      obtain rfl := schema_eq_zero (k := .keyEnvelopeSet) (by decide) hsupported
      obtain ⟨o, hvalid, heq⟩ := (keyEnvelopeSet_iff hm).mp hrecord
      exact ⟨.keyEnvelopeSet o, rfl, rfl, hvalid, heq⟩
  | changeRelation =>
      obtain rfl := schema_eq_zero (k := .changeRelation) (by decide) hsupported
      obtain ⟨o, hvalid, heq⟩ := (changeRelation_iff hm).mp hrecord
      exact ⟨.changeRelation o, rfl, rfl, hvalid, heq⟩
  | conflictResolution =>
      obtain rfl := schema_eq_zero (k := .conflictResolution) (by decide) hsupported
      obtain ⟨o, hvalid, heq⟩ := (conflictResolution_iff hm).mp ⟨hrecord, (Bool.and_true _).symm.trans hfits⟩
      exact ⟨.conflictResolution o, rfl, rfl, hvalid, heq⟩
  | reviewEvidence =>
      obtain rfl := schema_eq_zero (k := .reviewEvidence) (by decide) hsupported
      obtain ⟨o, hvalid, heq⟩ := (reviewEvidence_iff hm).mp ⟨hrecord, (Bool.and_true _).symm.trans hfits⟩
      exact ⟨.reviewEvidence o, rfl, rfl, hvalid, heq⟩
  | approvalEvidence =>
      obtain rfl := schema_eq_zero (k := .approvalEvidence) (by decide) hsupported
      obtain ⟨o, hvalid, heq⟩ := (approvalEvidence_iff hm).mp ⟨hrecord, (Bool.and_true _).symm.trans hfits⟩
      exact ⟨.approvalEvidence o, rfl, rfl, hvalid, heq⟩
  | ciEvidence =>
      obtain rfl := schema_eq_zero (k := .ciEvidence) (by decide) hsupported
      obtain ⟨o, hvalid, heq⟩ := (ciEvidence_iff hm).mp ⟨hrecord, (Bool.and_true _).symm.trans hfits⟩
      exact ⟨.ciEvidence o, rfl, rfl, hvalid, heq⟩
  | policyDecisionEvidence =>
      obtain rfl := schema_eq_zero (k := .policyDecisionEvidence) (by decide) hsupported
      obtain ⟨o, hvalid, heq⟩ := (policyDecisionEvidence_iff hm).mp ⟨hrecord, (Bool.and_true _).symm.trans hfits⟩
      exact ⟨.policyDecisionEvidence o, rfl, rfl, hvalid, heq⟩
  | projectionRules =>
      obtain rfl := schema_eq_zero (k := .projectionRules) (by decide) hsupported
      obtain ⟨o, hvalid, heq⟩ := (projectionRules_iff hm).mp hrecord
      exact ⟨.projectionRules o, rfl, rfl, hvalid, heq⟩
  | projectionProof =>
      obtain rfl := schema_eq_zero (k := .projectionProof) (by decide) hsupported
      obtain ⟨o, hvalid, heq⟩ := (projectionProof_iff hm).mp hrecord
      exact ⟨.projectionProof o, rfl, rfl, hvalid, heq⟩
  | buildProvenance =>
      obtain rfl := schema_eq_zero (k := .buildProvenance) (by decide) hsupported
      obtain ⟨o, hvalid, heq⟩ := (buildProvenance_iff hm).mp ⟨hrecord, (Bool.and_true _).symm.trans hfits⟩
      exact ⟨.buildProvenance o, rfl, rfl, hvalid, heq⟩
  | artifact =>
      obtain rfl := schema_eq_zero (k := .artifact) (by decide) hsupported
      obtain ⟨o, hvalid, heq⟩ := (artifact_iff hm).mp hrecord
      exact ⟨.artifact o, rfl, rfl, hvalid, heq⟩
  | operationPayload =>
      obtain rfl := schema_eq_zero (k := .operationPayload) (by decide) hsupported
      obtain ⟨o, hvalid, heq⟩ := (operationPayload_iff hm).mp hrecord
      exact ⟨.operationPayload o, rfl, rfl, hvalid, heq⟩
  | view =>
      obtain rfl := schema_eq_zero (k := .view) (by decide) hsupported
      obtain ⟨o, hvalid, heq⟩ := (view_iff hm).mp hrecord
      exact ⟨.view o, rfl, rfl, hvalid, heq⟩
  | migration =>
      obtain rfl := schema_eq_zero (k := .migration) (by decide) hsupported
      obtain ⟨o, hvalid, heq⟩ := (migration_iff hm).mp ⟨hrecord, (Bool.and_true _).symm.trans hfits⟩
      exact ⟨.migration o, rfl, rfl, hvalid, heq⟩
  | ruleset =>
      obtain rfl := schema_eq_zero (k := .ruleset) (by decide) hsupported
      obtain ⟨o, hvalid, heq⟩ := (ruleset_iff hm).mp hrecord
      exact ⟨.ruleset o, rfl, rfl, hvalid, heq⟩

end Conformance

end RGit
