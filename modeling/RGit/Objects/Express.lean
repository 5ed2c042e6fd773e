/-
RGit/Objects/Express.lean

Kind by kind: the records the decoder accepts are the records of the typed
objects that pass their own checks.

For every kind there are two statements.  `T_fields_iff` lists the lookups
of the record that the typed object `T` encodes to; `T_iff` says that a
record is valid for the decoder exactly when it is the record of a valid
`T`.  Where the decoder is more generous than the type, the left side of
`T_iff` carries the missing condition: wall time components must fit an
`i64`, and the release notes of a release must be an identifier.
-/
import RGit.Objects.Fields

namespace RGit

open Discriminant (code)

open Decode CanonicalObject

/-- A record of `kind` and `schema` that the decoder accepts. -/
structure ValidRecord [Unicode] (kind : ObjectKind) (schema : UInt64) (m : Entries) : Prop where
  kind_eq : lookupKey m 0 = some (.unsigned (code kind))
  schema_eq : lookupKey m 1 = some (.unsigned schema)
  valid : validateFields kind schema m = .ok ()

/-- `m` is the record of a typed object that passes its own checks. -/
def Expresses (α : Type) [CanonicalObject α] (m : Entries) : Prop :=
  ∃ o : α, validate o = .ok () ∧ Value.map m = (canonicalValue o).norm

section Kinds

variable [Unicode] {limits : CanonicalLimits} {m : Entries}

theorem ensureNfc_eq_ok {ss : List String} :
    ensureNfc ss = .ok () ↔ ∀ s ∈ ss, isNfc s = true := by
  simp [ensureNfc]

theorem Admitted.isNfc_of_lookup {k : UInt64} {s : String} (hm : Admitted limits (.map m))
    (h : lookupKey m k = some (.text s)) : RGit.isNfc s = true := (hm.of_lookup h).isNfc

theorem Admitted.isNfc_of_lookup_map {k : UInt64} {s : Option String} {t : String}
    (hm : Admitted limits (.map m)) (h : lookupKey m k = s.map .text) (ht : t ∈ s) :
    RGit.isNfc t = true := by
  obtain rfl := Option.mem_def.mp ht
  exact hm.isNfc_of_lookup h

/-! ### Chunks -/

theorem chunk_fields_iff (hm : Admitted limits (.map m)) {o : Chunk} :
    Value.map m = (canonicalValue o).norm ↔
      (lookupKey m 0 = some (.unsigned (code ObjectKind.chunk)) ∧
        lookupKey m 1 = some (.unsigned 0) ∧ lookupKey m 2 = some o.policyRef.value ∧
        lookupKey m 3 = some (.bytes o.bytes)) ∧
      ∀ e ∈ m, e.1 ∈ [0, 1, 2, 3] ++ [] := by
  rw [canonicalValue, map_eq_norm_iff hm ([0, 1, 2, 3] ++ [])
    (by simp [fields, header, headerVersion]) (by simp [fields, header, headerVersion])]
  simp [fields, header, headerVersion, lookupKey_cons]

theorem chunk_iff (hm : Admitted limits (.map m)) :
    ValidRecord .chunk 0 m ↔ Expresses Chunk m := by
  constructor
  · rintro ⟨h₀, h₁, hvalid⟩
    obtain ⟨⟨-, hkeys⟩, hpolicy, hshape⟩ := (validateFields_eq_ok hm).mp hvalid
    obtain ⟨policy, h₂⟩ := hpolicy (.inl rfl)
    simp only [validateShapes, chunkShape, Except.bind_eq_ok, field_eq_ok, bytes_eq_ok,
      Except.ite_error_eq_ok, and_true] at hshape
    obtain ⟨_, h₃, b, rfl, hlen⟩ := hshape
    refine ⟨⟨policy, b⟩, ?_, (chunk_fields_iff hm).mpr ⟨⟨h₀, h₁, h₂, h₃⟩, hkeys⟩⟩
    simpa [validate] using hlen
  · rintro ⟨o, hvalid, ho⟩
    obtain ⟨⟨h₀, h₁, h₂, h₃⟩, hkeys⟩ := (chunk_fields_iff hm).mp ho
    refine ⟨h₀, h₁, (validateFields_eq_ok hm).mpr
      ⟨⟨by simp [fieldSets, h₀, h₁, h₂, h₃], hkeys⟩, fun _ => ⟨_, h₂⟩, ?_⟩⟩
    simp only [validateShapes, chunkShape, Except.bind_eq_ok, field_eq_ok, bytes_eq_ok,
      Except.ite_error_eq_ok, and_true]
    exact ⟨_, h₃, _, rfl, by simpa [validate] using hvalid⟩

/-! ### Snapshots -/

theorem snapshot_fields_iff (hm : Admitted limits (.map m)) {o : Snapshot} :
    Value.map m = (canonicalValue o).norm ↔
      (lookupKey m 0 = some (.unsigned (code ObjectKind.snapshot)) ∧
        lookupKey m 1 = some (.unsigned 0) ∧ lookupKey m 2 = some o.policyRef.value ∧
        lookupKey m 3 = some (RGit.oid o.rootManifest) ∧
        lookupKey m 4 = some (RGit.oidArray o.parents) ∧
        lookupKey m 5 = some (stable o.changeId) ∧ lookupKey m 6 = some (stable o.author) ∧
        lookupKey m 7 = some (stable o.device) ∧
        lookupKey m 8 = some (.unsigned o.logicalTime) ∧
        lookupKey m 9 = some o.wallTime.value.norm ∧
        lookupKey m 10 = o.messageBlob.map RGit.oid) ∧
      ∀ e ∈ m, e.1 ∈ [0, 1, 2, 3, 4, 5, 6, 7, 8, 9] ++ [10] := by
  rw [canonicalValue, map_eq_norm_iff hm ([0, 1, 2, 3, 4, 5, 6, 7, 8, 9] ++ [10])
    (by cases h : o.messageBlob <;> simp [fields, header, headerVersion, optional, h])
    (by cases h : o.messageBlob <;> simp [fields, header, headerVersion, optional, h])]
  simp [fields, header, headerVersion, lookupKey_cons, lookupKey_optional, Function.comp_def]

theorem snapshot_iff (hm : Admitted limits (.map m)) :
    (ValidRecord .snapshot 0 m ∧ wallTimeFieldFits m 9 = true) ↔ Expresses Snapshot m := by
  constructor
  · rintro ⟨⟨h₀, h₁, hvalid⟩, hfits⟩
    obtain ⟨⟨-, hkeys⟩, hpolicy, hshape⟩ := (validateFields_eq_ok hm).mp hvalid
    obtain ⟨policy, h₂⟩ := hpolicy (.inl rfl)
    simp only [validateShapes, snapshotShape, Except.bind_eq_ok, Except.exists_unit_iff,
      oidField_eq_ok, uniqueIdsField_eq_ok, stableField_eq_ok, unsignedField_eq_ok,
      optionalOidField_eq_ok] at hshape
    obtain ⟨⟨root, h₃⟩, ⟨parents, hnodup, h₄⟩, ⟨change, h₅⟩, ⟨author, h₆⟩, ⟨device, h₇⟩,
      ⟨time, h₈⟩, hwall, message, h₁₀⟩ := hshape
    obtain ⟨wall, h₉⟩ := (wallTimeField_eq_ok hm).mp ⟨hwall, hfits⟩
    refine ⟨⟨policy, root, parents, change, author, device, time, wall, message⟩, ?_,
      (snapshot_fields_iff hm).mpr ⟨⟨h₀, h₁, h₂, h₃, h₄, h₅, h₆, h₇, h₈, h₉, h₁₀⟩, hkeys⟩⟩
    simpa [validate, countDistinct_eq_length_iff] using hnodup
  · rintro ⟨o, hvalid, ho⟩
    obtain ⟨⟨h₀, h₁, h₂, h₃, h₄, h₅, h₆, h₇, h₈, h₉, h₁₀⟩, hkeys⟩ :=
      (snapshot_fields_iff hm).mp ho
    obtain ⟨hwall, hfits⟩ := (wallTimeField_eq_ok hm).mpr ⟨_, h₉⟩
    refine ⟨⟨h₀, h₁, (validateFields_eq_ok hm).mpr
      ⟨⟨by simp [fieldSets, *], hkeys⟩, fun _ => ⟨_, h₂⟩, ?_⟩⟩, hfits⟩
    simp only [validateShapes, snapshotShape, Except.bind_eq_ok, Except.exists_unit_iff,
      oidField_eq_ok, uniqueIdsField_eq_ok, stableField_eq_ok, unsignedField_eq_ok,
      optionalOidField_eq_ok]
    refine ⟨⟨_, h₃⟩, ⟨_, ?_, h₄⟩, ⟨_, h₅⟩, ⟨_, h₆⟩, ⟨_, h₇⟩, ⟨_, h₈⟩, hwall, _, h₁₀⟩
    simpa [validate, countDistinct_eq_length_iff] using hvalid

/-! ### Subprojects and secret references -/

theorem subproject_fields_iff (hm : Admitted limits (.map m)) {o : Subproject} :
    Value.map m = (canonicalValue o).norm ↔
      (lookupKey m 0 = some (.unsigned (code ObjectKind.subproject)) ∧
        lookupKey m 1 = some (.unsigned 0) ∧ lookupKey m 2 = some o.policyRef.value ∧
        lookupKey m 3 = some (.text o.systemKind) ∧
        lookupKey m 4 = some (.bytes o.repositoryIdentity) ∧
        lookupKey m 5 = some (.bytes o.revision) ∧
        lookupKey m 6 = o.nativeProjection.map RGit.oid) ∧
      ∀ e ∈ m, e.1 ∈ [0, 1, 2, 3, 4, 5] ++ [6] := by
  rw [canonicalValue, map_eq_norm_iff hm ([0, 1, 2, 3, 4, 5] ++ [6])
    (by cases h : o.nativeProjection <;>
      simp [fields, header, headerVersion, optional, h])
    (by cases h : o.nativeProjection <;>
      simp [fields, header, headerVersion, optional, h])]
  simp [fields, header, headerVersion, lookupKey_cons, lookupKey_optional, Function.comp_def]

theorem subproject_iff (hm : Admitted limits (.map m)) :
    ValidRecord .subproject 0 m ↔ Expresses Subproject m := by
  constructor
  · rintro ⟨h₀, h₁, hvalid⟩
    obtain ⟨⟨-, hkeys⟩, hpolicy, hshape⟩ := (validateFields_eq_ok hm).mp hvalid
    obtain ⟨policy, h₂⟩ := hpolicy (.inl rfl)
    simp only [validateShapes, subprojectShape, Except.bind_eq_ok, Except.exists_unit_iff,
      textField_eq_ok, bytesField_eq_ok, optionalOidField_eq_ok] at hshape
    obtain ⟨⟨system, h₃⟩, ⟨repository, h₄⟩, ⟨revision, h₅⟩, ⟨projection, h₆⟩⟩ := hshape
    refine ⟨⟨policy, system, repository, revision, projection⟩, ?_,
      (subproject_fields_iff hm).mpr ⟨⟨h₀, h₁, h₂, h₃, h₄, h₅, h₆⟩, hkeys⟩⟩
    exact ensureNfc_eq_ok.mpr (by simp [hm.isNfc_of_lookup h₃])
  · rintro ⟨o, hvalid, ho⟩
    obtain ⟨⟨h₀, h₁, h₂, h₃, h₄, h₅, h₆⟩, hkeys⟩ :=
      (subproject_fields_iff hm).mp ho
    refine ⟨h₀, h₁, (validateFields_eq_ok hm).mpr
      ⟨⟨by simp [fieldSets, *], hkeys⟩, fun _ => ⟨_, h₂⟩, ?_⟩⟩
    simp only [validateShapes, subprojectShape, Except.bind_eq_ok, Except.exists_unit_iff,
      textField_eq_ok, bytesField_eq_ok, optionalOidField_eq_ok]
    exact ⟨⟨_, h₃⟩, ⟨_, h₄⟩, ⟨_, h₅⟩, ⟨_, h₆⟩⟩

theorem secretRef_fields_iff (hm : Admitted limits (.map m)) {o : SecretRef} :
    Value.map m = (canonicalValue o).norm ↔
      (lookupKey m 0 = some (.unsigned (code ObjectKind.secretRef)) ∧
        lookupKey m 1 = some (.unsigned 0) ∧ lookupKey m 2 = some o.policyRef.value ∧
        lookupKey m 3 = some (.text o.providerKind) ∧ lookupKey m 4 = some (.text o.locator) ∧
        lookupKey m 6 = some (.bytes o.valueSchemaId) ∧
        lookupKey m 7 = some (.text o.materializationTarget) ∧
        lookupKey m 8 = some (.text o.requiredCapability) ∧
        lookupKey m 5 = o.exactVersion.map .text ∧
        lookupKey m 9 = o.encryptedDevelopmentValue.map RGit.oid) ∧
      ∀ e ∈ m, e.1 ∈ [0, 1, 2, 3, 4, 6, 7, 8] ++ [5, 9] := by
  rw [canonicalValue, map_eq_norm_iff hm ([0, 1, 2, 3, 4, 6, 7, 8] ++ [5, 9])
    (by cases h1 : o.exactVersion <;> cases h2 : o.encryptedDevelopmentValue <;>
      simp [fields, header, headerVersion, optional, h1, h2])
    (by cases h1 : o.exactVersion <;> cases h2 : o.encryptedDevelopmentValue <;>
      simp [fields, header, headerVersion, optional, h1, h2])]
  simp [fields, header, headerVersion, lookupKey_cons, lookupKey_optional, Function.comp_def]

theorem secretRef_iff (hm : Admitted limits (.map m)) :
    ValidRecord .secretRef 0 m ↔ Expresses SecretRef m := by
  constructor
  · rintro ⟨h₀, h₁, hvalid⟩
    obtain ⟨⟨-, hkeys⟩, hpolicy, hshape⟩ := (validateFields_eq_ok hm).mp hvalid
    obtain ⟨policy, h₂⟩ := hpolicy (.inl rfl)
    simp only [validateShapes, secretRefShape, Except.bind_eq_ok, Except.exists_unit_iff,
      forM_eq_ok, List.forall_mem_cons, List.not_mem_nil, false_implies, implies_true, and_true,
      textField_eq_ok, bytesField_eq_ok, ifSome_text_eq_ok, optionalOidField_eq_ok] at hshape
    obtain ⟨⟨⟨provider, h₃⟩, ⟨locator, h₄⟩, ⟨target, h₇⟩, ⟨capability, h₈⟩⟩, ⟨schema, h₆⟩,
      ⟨version, h₅⟩, ⟨value, h₉⟩⟩ := hshape
    refine ⟨⟨policy, provider, locator, version, schema, target, capability, value⟩, ?_,
      (secretRef_fields_iff hm).mpr ⟨⟨h₀, h₁, h₂, h₃, h₄, h₆, h₇, h₈, h₅, h₉⟩, hkeys⟩⟩
    simp only [validate, Except.bind_eq_ok, Except.exists_unit_iff, ensureNfc_eq_ok,
      Except.ifSome_eq_ok]
    refine ⟨by simp [hm.isNfc_of_lookup h₃, hm.isNfc_of_lookup h₄, hm.isNfc_of_lookup h₇,
      hm.isNfc_of_lookup h₈], fun v hv => ?_⟩
    simpa using hm.isNfc_of_lookup_map h₅ hv
  · rintro ⟨o, hvalid, ho⟩
    obtain ⟨⟨h₀, h₁, h₂, h₃, h₄, h₆, h₇, h₈, h₅, h₉⟩, hkeys⟩ :=
      (secretRef_fields_iff hm).mp ho
    refine ⟨h₀, h₁, (validateFields_eq_ok hm).mpr
      ⟨⟨by simp [fieldSets, *], hkeys⟩, fun _ => ⟨_, h₂⟩, ?_⟩⟩
    simp only [validateShapes, secretRefShape, Except.bind_eq_ok, Except.exists_unit_iff,
      forM_eq_ok, List.forall_mem_cons, List.not_mem_nil, false_implies, implies_true, and_true,
      textField_eq_ok, bytesField_eq_ok, ifSome_text_eq_ok, optionalOidField_eq_ok]
    exact ⟨⟨⟨_, h₃⟩, ⟨_, h₄⟩, ⟨_, h₇⟩, ⟨_, h₈⟩⟩, ⟨_, h₆⟩, ⟨_, h₅⟩, ⟨_, h₉⟩⟩

/-! ### Changes and lines -/

theorem changeRevision_fields_iff (hm : Admitted limits (.map m)) {o : ChangeRevision} :
    Value.map m = (canonicalValue o).norm ↔
      (lookupKey m 0 = some (.unsigned (code ObjectKind.changeRevision)) ∧
        lookupKey m 1 = some (.unsigned 0) ∧ lookupKey m 2 = some o.policyRef.value ∧
        lookupKey m 3 = some (stable o.changeId) ∧ lookupKey m 5 = some (RGit.oid o.titleBlob) ∧
        lookupKey m 6 = some (RGit.oid o.descriptionBlob) ∧
        lookupKey m 7 = some (RGit.oid o.baseSnapshot) ∧
        lookupKey m 8 = some (RGit.oid o.currentSnapshot) ∧
        lookupKey m 9 = some (stable o.targetLine) ∧
        lookupKey m 10 = some (.unsigned o.observedGeneration) ∧
        lookupKey m 11 = some (stable o.owner) ∧ lookupKey m 12 = some (stable o.author) ∧
        lookupKey m 13 = some (.unsigned (code o.state)) ∧
        lookupKey m 14 = some o.reviewPolicy.value ∧ lookupKey m 15 = some o.landingPolicy.value ∧
        lookupKey m 4 = o.previousRevision.map RGit.oid) ∧
      ∀ e ∈ m, e.1 ∈ [0, 1, 2, 3, 5, 6, 7, 8, 9, 10, 11, 12, 13, 14, 15] ++ [4] := by
  rw [canonicalValue, map_eq_norm_iff hm ([0, 1, 2, 3, 5, 6, 7, 8, 9, 10, 11, 12, 13, 14, 15] ++ [4])
    (by cases h : o.previousRevision <;>
      simp [fields, header, headerVersion, optional, h])
    (by cases h : o.previousRevision <;>
      simp [fields, header, headerVersion, optional, h])]
  simp [fields, header, headerVersion, lookupKey_cons, lookupKey_optional, Function.comp_def]

theorem changeRevision_iff (hm : Admitted limits (.map m)) :
    ValidRecord .changeRevision 0 m ↔ Expresses ChangeRevision m := by
  constructor
  · rintro ⟨h₀, h₁, hvalid⟩
    obtain ⟨⟨-, hkeys⟩, hpolicy, hshape⟩ := (validateFields_eq_ok hm).mp hvalid
    obtain ⟨policy, h₂⟩ := hpolicy (.inl rfl)
    simp only [validateShapes, changeRevisionShape, Except.bind_eq_ok, Except.exists_unit_iff,
      stableField_eq_ok, optionalOidField_eq_ok, forM_eq_ok, List.forall_mem_cons,
      List.not_mem_nil, false_implies, implies_true, and_true, oidField_eq_ok,
      unsignedField_eq_ok, enumField_eq_ok ChangeState 3 rfl rfl (by decide),
      policyField_eq_ok hm] at hshape
    obtain ⟨⟨change, h₃⟩, ⟨previous, h₄⟩,
      ⟨⟨title, h₅⟩, ⟨description, h₆⟩, ⟨base, h₇⟩, ⟨current, h₈⟩⟩, ⟨line, h₉⟩, ⟨generation, h₁₀⟩,
      ⟨owner, h₁₁⟩, ⟨author, h₁₂⟩, ⟨state, h₁₃⟩, ⟨review, h₁₄⟩, ⟨landing, h₁₅⟩⟩ := hshape
    refine ⟨⟨policy, change, previous, title, description, base, current, line, generation, owner,
      author, state, review, landing⟩, ?_,
      (changeRevision_fields_iff hm).mpr ⟨⟨h₀, h₁, h₂, h₃, h₅, h₆, h₇, h₈, h₉, h₁₀, h₁₁, h₁₂, h₁₃,
        h₁₄, h₁₅, h₄⟩, hkeys⟩⟩
    rfl
  · rintro ⟨o, hvalid, ho⟩
    obtain ⟨⟨h₀, h₁, h₂, h₃, h₅, h₆, h₇, h₈, h₉, h₁₀, h₁₁, h₁₂, h₁₃, h₁₄, h₁₅, h₄⟩, hkeys⟩ :=
      (changeRevision_fields_iff hm).mp ho
    refine ⟨h₀, h₁, (validateFields_eq_ok hm).mpr
      ⟨⟨by simp [fieldSets, *], hkeys⟩, fun _ => ⟨_, h₂⟩, ?_⟩⟩
    simp only [validateShapes, changeRevisionShape, Except.bind_eq_ok, Except.exists_unit_iff,
      stableField_eq_ok, optionalOidField_eq_ok, forM_eq_ok, List.forall_mem_cons,
      List.not_mem_nil, false_implies, implies_true, and_true, oidField_eq_ok,
      unsignedField_eq_ok, enumField_eq_ok ChangeState 3 rfl rfl (by decide),
      policyField_eq_ok hm]
    exact ⟨⟨_, h₃⟩, ⟨_, h₄⟩, ⟨⟨_, h₅⟩, ⟨_, h₆⟩, ⟨_, h₇⟩, ⟨_, h₈⟩⟩, ⟨_, h₉⟩, ⟨_, h₁₀⟩, ⟨_, h₁₁⟩,
      ⟨_, h₁₂⟩, ⟨_, h₁₃⟩, ⟨_, h₁₄⟩, ⟨_, h₁₅⟩⟩

theorem lineState_fields_iff (hm : Admitted limits (.map m)) {o : LineState} :
    Value.map m = (canonicalValue o).norm ↔
      (lookupKey m 0 = some (.unsigned (code ObjectKind.lineState)) ∧
        lookupKey m 1 = some (.unsigned 0) ∧ lookupKey m 2 = some o.policyRef.value ∧
        lookupKey m 3 = some (stable o.lineId) ∧ lookupKey m 4 = some (.text o.displayName) ∧
        lookupKey m 5 = some (RGit.oid o.headSnapshot) ∧
        lookupKey m 6 = some (.unsigned o.generation) ∧
        lookupKey m 8 = some o.integrationPolicy.value ∧
        lookupKey m 9 = some o.approvalPolicy.value ∧
        lookupKey m 10 = some o.releasePolicy.value ∧
        lookupKey m 11 = some o.visibilityPolicy.value ∧
        lookupKey m 12 = some (RGit.oid o.transactionOperation) ∧
        lookupKey m 13 = some o.signature.value ∧ lookupKey m 7 = o.previousState.map RGit.oid) ∧
      ∀ e ∈ m, e.1 ∈ [0, 1, 2, 3, 4, 5, 6, 8, 9, 10, 11, 12, 13] ++ [7] := by
  rw [canonicalValue, map_eq_norm_iff hm ([0, 1, 2, 3, 4, 5, 6, 8, 9, 10, 11, 12, 13] ++ [7])
    (by cases h : o.previousState <;>
      simp [fields, LineState.unsignedMap, header, headerVersion, optional, h])
    (by cases h : o.previousState <;>
      simp [fields, LineState.unsignedMap, header, headerVersion, optional, h])]
  simp [fields, LineState.unsignedMap, header, headerVersion, lookupKey_cons,
    lookupKey_optional, Function.comp_def, lookupKey_append]

theorem lineState_validate_iff {o : LineState} :
    validate o = .ok () ↔
      isNfc o.displayName = true ∧ ¬(o.generation == 0) = o.previousState.isSome ∧
        o.signature.purpose = .lineState := by
  simp only [validate, LineState.validate, Except.bind_eq_ok, Except.exists_unit_iff,
    ensureNfc_eq_ok, Except.ite_error_eq_ok, ensureSignaturePurpose,
    Except.ite_else_error_eq_ok, and_true, List.forall_mem_singleton]

theorem lineState_iff (hm : Admitted limits (.map m)) :
    ValidRecord .lineState 0 m ↔ Expresses LineState m := by
  constructor
  · rintro ⟨h₀, h₁, hvalid⟩
    obtain ⟨⟨-, hkeys⟩, hpolicy, hshape⟩ := (validateFields_eq_ok hm).mp hvalid
    obtain ⟨policy, h₂⟩ := hpolicy (.inl rfl)
    simp only [validateShapes, lineStateShape, Except.bind_eq_ok, Except.exists_unit_iff,
      stableField_eq_ok, textField_eq_ok, oidField_eq_ok, field_eq_ok, unsigned_eq_ok,
      predecessorField_eq_ok, forM_eq_ok, List.forall_mem_cons, List.not_mem_nil, false_implies,
      implies_true, and_true, policyField_eq_ok hm, signatureField_eq_ok hm] at hshape
    obtain ⟨⟨line, h₃⟩, ⟨name, h₄⟩, ⟨head, h₅⟩, _, h₆, generation, rfl, ⟨previous, hprevious, h₇⟩,
      ⟨operation, h₁₂⟩, ⟨⟨integration, h₈⟩, ⟨approval, h₉⟩, ⟨release, h₁₀⟩, ⟨visibility, h₁₁⟩⟩,
      ⟨signature, hpurpose, h₁₃⟩⟩ := hshape
    refine ⟨⟨policy, line, name, head, generation, previous, integration, approval, release,
      visibility, operation, signature⟩, ?_,
      (lineState_fields_iff hm).mpr ⟨⟨h₀, h₁, h₂, h₃, h₄, h₅, h₆, h₈, h₉, h₁₀, h₁₁, h₁₂, h₁₃,
        h₇⟩, hkeys⟩⟩
    exact lineState_validate_iff.mpr ⟨hm.isNfc_of_lookup h₄, hprevious, hpurpose⟩
  · rintro ⟨o, hvalid, ho⟩
    obtain ⟨⟨h₀, h₁, h₂, h₃, h₄, h₅, h₆, h₈, h₉, h₁₀, h₁₁, h₁₂, h₁₃, h₇⟩, hkeys⟩ :=
      (lineState_fields_iff hm).mp ho
    obtain ⟨-, hprevious, hpurpose⟩ := lineState_validate_iff.mp hvalid
    refine ⟨h₀, h₁, (validateFields_eq_ok hm).mpr
      ⟨⟨by simp [fieldSets, *], hkeys⟩, fun _ => ⟨_, h₂⟩, ?_⟩⟩
    simp only [validateShapes, lineStateShape, Except.bind_eq_ok, Except.exists_unit_iff,
      stableField_eq_ok, textField_eq_ok, oidField_eq_ok, field_eq_ok, unsigned_eq_ok,
      predecessorField_eq_ok, forM_eq_ok, List.forall_mem_cons, List.not_mem_nil, false_implies,
      implies_true, and_true, policyField_eq_ok hm, signatureField_eq_ok hm]
    exact ⟨⟨_, h₃⟩, ⟨_, h₄⟩, ⟨_, h₅⟩, _, h₆, _, rfl, ⟨_, hprevious, h₇⟩, ⟨_, h₁₂⟩,
      ⟨⟨_, h₈⟩, ⟨_, h₉⟩, ⟨_, h₁₀⟩, ⟨_, h₁₁⟩⟩, ⟨_, hpurpose, h₁₃⟩⟩

/-! ### Markers and releases -/

theorem marker_fields_iff (hm : Admitted limits (.map m)) {o : Marker} :
    Value.map m = (canonicalValue o).norm ↔
      (lookupKey m 0 = some (.unsigned (code ObjectKind.marker)) ∧
        lookupKey m 1 = some (.unsigned 0) ∧ lookupKey m 2 = some o.policyRef.value ∧
        lookupKey m 3 = some (.unsigned (code o.markerKind)) ∧
        lookupKey m 4 = some o.target.value ∧ lookupKey m 5 = some (stable o.issuer) ∧
        lookupKey m 6 = some o.issueTime.value.norm ∧
        lookupKey m 7 = some (.bytes o.typedPayload) ∧ lookupKey m 8 = some o.signature.value) ∧
      ∀ e ∈ m, e.1 ∈ [0, 1, 2, 3, 4, 5, 6, 7, 8] ++ [] := by
  rw [canonicalValue, map_eq_norm_iff hm ([0, 1, 2, 3, 4, 5, 6, 7, 8] ++ [])
    (by simp [fields, Marker.unsignedMap, header, headerVersion])
    (by simp [fields, Marker.unsignedMap, header, headerVersion])]
  simp [fields, Marker.unsignedMap, header, headerVersion, lookupKey_cons]

theorem marker_iff (hm : Admitted limits (.map m)) :
    (ValidRecord .marker 0 m ∧ wallTimeFieldFits m 6 = true) ↔ Expresses Marker m := by
  constructor
  · rintro ⟨⟨h₀, h₁, hvalid⟩, hfits⟩
    obtain ⟨⟨-, hkeys⟩, hpolicy, hshape⟩ := (validateFields_eq_ok hm).mp hvalid
    obtain ⟨policy, h₂⟩ := hpolicy (.inl rfl)
    simp only [validateShapes, markerShape, Except.bind_eq_ok, Except.exists_unit_iff,
      enumField_eq_ok MarkerKind 4 rfl rfl (by decide), typedField_eq_ok hm, stableField_eq_ok,
      bytesField_eq_ok, signatureField_eq_ok hm] at hshape
    obtain ⟨⟨kind, h₃⟩, ⟨target, h₄⟩, ⟨issuer, h₅⟩, hwall, ⟨payload, h₇⟩,
      ⟨signature, hpurpose, h₈⟩⟩ := hshape
    obtain ⟨time, h₆⟩ := (wallTimeField_eq_ok hm).mp ⟨hwall, hfits⟩
    refine ⟨⟨policy, kind, target, issuer, time, payload, signature⟩, ?_,
      (marker_fields_iff hm).mpr ⟨⟨h₀, h₁, h₂, h₃, h₄, h₅, h₆, h₇, h₈⟩, hkeys⟩⟩
    simpa [validate, ensureSignaturePurpose] using hpurpose
  · rintro ⟨o, hvalid, ho⟩
    obtain ⟨⟨h₀, h₁, h₂, h₃, h₄, h₅, h₆, h₇, h₈⟩, hkeys⟩ :=
      (marker_fields_iff hm).mp ho
    obtain ⟨hwall, hfits⟩ := (wallTimeField_eq_ok hm).mpr ⟨_, h₆⟩
    have hpurpose : o.signature.purpose = .marker := by
      simpa [validate, ensureSignaturePurpose] using hvalid
    refine ⟨⟨h₀, h₁, (validateFields_eq_ok hm).mpr
      ⟨⟨by simp [fieldSets, *], hkeys⟩, fun _ => ⟨_, h₂⟩, ?_⟩⟩, hfits⟩
    simp only [validateShapes, markerShape, Except.bind_eq_ok, Except.exists_unit_iff,
      enumField_eq_ok MarkerKind 4 rfl rfl (by decide), typedField_eq_ok hm, stableField_eq_ok,
      bytesField_eq_ok, signatureField_eq_ok hm]
    exact ⟨⟨_, h₃⟩, ⟨_, h₄⟩, ⟨_, h₅⟩, hwall, ⟨_, h₇⟩, ⟨_, hpurpose, h₈⟩⟩

theorem release_fields_iff (hm : Admitted limits (.map m)) {o : Release} :
    Value.map m = (canonicalValue o).norm ↔
      (lookupKey m 0 = some (.unsigned (code ObjectKind.release)) ∧
        lookupKey m 1 = some (.unsigned 0) ∧ lookupKey m 2 = some o.policyRef.value ∧
        lookupKey m 3 = some (stable o.sourceLine) ∧
        lookupKey m 4 = some (.unsigned o.sourceGeneration) ∧
        lookupKey m 5 = some (RGit.oid o.sourceSnapshot) ∧
        lookupKey m 6 = some o.audiencePolicy.value ∧
        lookupKey m 7 = some (RGit.oid o.projectionRules) ∧
        lookupKey m 8 = some (RGit.oid o.projectedRoot) ∧
        lookupKey m 9 = some (RGit.oid o.projectionProof) ∧
        lookupKey m 10 = some (.text o.versionIdentifier) ∧
        lookupKey m 12 = some (RGit.oidArray o.buildProvenance) ∧
        lookupKey m 13 = some (RGit.oidArray o.artifacts) ∧
        lookupKey m 14 = some (RGit.oidArray o.policyDecisionEvidence) ∧
        lookupKey m 15 = some o.issueTime.value.norm ∧
        lookupKey m 16 = some (signatureArray o.signatures) ∧
        lookupKey m 11 = o.releaseNotesBlob.map RGit.oid) ∧
      ∀ e ∈ m, e.1 ∈ [0, 1, 2, 3, 4, 5, 6, 7, 8, 9, 10, 12, 13, 14, 15, 16] ++ [11] := by
  rw [canonicalValue, map_eq_norm_iff hm ([0, 1, 2, 3, 4, 5, 6, 7, 8, 9, 10, 12, 13, 14, 15, 16] ++ [11])
    (by cases h : o.releaseNotesBlob <;>
      simp [fields, Release.unsignedMap, header, headerVersion, optional, h])
    (by cases h : o.releaseNotesBlob <;>
      simp [fields, Release.unsignedMap, header, headerVersion, optional, h])]
  simp [fields, Release.unsignedMap, header, headerVersion, lookupKey_cons,
    lookupKey_optional, Function.comp_def, lookupKey_append]

theorem release_iff (hm : Admitted .metadata (.map m)) :
    (ValidRecord .release 0 m ∧ wallTimeFieldFits m 15 = true ∧ optionalOidField m 11 = .ok ()) ↔
      Expresses Release m := by
  constructor
  · rintro ⟨⟨h₀, h₁, hvalid⟩, hfits, hnotes⟩
    obtain ⟨⟨-, hkeys⟩, hpolicy, hshape⟩ := (validateFields_eq_ok hm).mp hvalid
    obtain ⟨policy, h₂⟩ := hpolicy (.inl rfl)
    simp only [validateShapes, releaseShape, Except.bind_eq_ok, Except.exists_unit_iff,
      stableField_eq_ok, unsignedField_eq_ok, forM_eq_ok, List.forall_mem_cons, List.not_mem_nil,
      false_implies, implies_true, and_true, oidField_eq_ok, textField_eq_ok,
      policyField_eq_ok hm, oidArrayField_eq_ok, signatureSetField_eq_ok hm] at hshape
    obtain ⟨⟨line, h₃⟩, ⟨generation, h₄⟩, ⟨⟨snapshot, h₅⟩, ⟨rules, h₇⟩, ⟨root, h₈⟩⟩,
      ⟨version, h₁₀⟩, ⟨audience, h₆⟩, ⟨proof, h₉⟩,
      ⟨⟨provenance, h₁₂⟩, ⟨artifacts, h₁₃⟩, ⟨evidence, h₁₄⟩⟩, hwall,
      ⟨signatures, hsignatures, h₁₆⟩⟩ := hshape
    obtain ⟨time, h₁₅⟩ := (wallTimeField_eq_ok hm).mp ⟨hwall, hfits⟩
    obtain ⟨notes, h₁₁⟩ := optionalOidField_eq_ok.mp hnotes
    refine ⟨⟨policy, line, generation, snapshot, audience, rules, root, proof, version, notes,
      provenance, artifacts, evidence, time, signatures⟩, ?_,
      (release_fields_iff hm).mpr ⟨⟨h₀, h₁, h₂, h₃, h₄, h₅, h₆, h₇, h₈, h₉, h₁₀, h₁₂, h₁₃, h₁₄,
        h₁₅, h₁₆, h₁₁⟩, hkeys⟩⟩
    simp only [validate, Except.bind_eq_ok, Except.exists_unit_iff, ensureNfc_eq_ok,
      ensureSignatureSet_eq_ok]
    exact ⟨by simpa using hm.isNfc_of_lookup h₁₀, hsignatures⟩
  · rintro ⟨o, hvalid, ho⟩
    obtain ⟨⟨h₀, h₁, h₂, h₃, h₄, h₅, h₆, h₇, h₈, h₉, h₁₀, h₁₂, h₁₃, h₁₄, h₁₅, h₁₆, h₁₁⟩, hkeys⟩ :=
      (release_fields_iff hm).mp ho
    obtain ⟨hwall, hfits⟩ := (wallTimeField_eq_ok hm).mpr ⟨_, h₁₅⟩
    simp only [validate, Except.bind_eq_ok, Except.exists_unit_iff, ensureNfc_eq_ok,
      ensureSignatureSet_eq_ok] at hvalid
    obtain ⟨-, hsignatures⟩ := hvalid
    have hnotes := optionalOidField_eq_ok.mpr ⟨_, h₁₁⟩
    refine ⟨⟨h₀, h₁, (validateFields_eq_ok hm).mpr
      ⟨⟨by simp [fieldSets, *], hkeys⟩, fun _ => ⟨_, h₂⟩, ?_⟩⟩, hfits, hnotes⟩
    simp only [validateShapes, releaseShape, Except.bind_eq_ok, Except.exists_unit_iff,
      stableField_eq_ok, unsignedField_eq_ok, forM_eq_ok, List.forall_mem_cons, List.not_mem_nil,
      false_implies, implies_true, and_true, oidField_eq_ok, textField_eq_ok,
      policyField_eq_ok hm, oidArrayField_eq_ok, signatureSetField_eq_ok hm]
    exact ⟨⟨_, h₃⟩, ⟨_, h₄⟩, ⟨⟨_, h₅⟩, ⟨_, h₇⟩, ⟨_, h₈⟩⟩, ⟨_, h₁₀⟩, ⟨_, h₆⟩, ⟨_, h₉⟩,
      ⟨⟨_, h₁₂⟩, ⟨_, h₁₃⟩, ⟨_, h₁₄⟩⟩, hwall, ⟨_, hsignatures, h₁₆⟩⟩

end Kinds

end RGit
