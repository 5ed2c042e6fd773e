/-
RGit/Objects/ExpressRegistry.lean

Kinds 14 to 31, in the same two statements per kind as the first thirteen.
-/
import RGit.Objects.Express

namespace RGit

open Discriminant (code)

open Decode CanonicalObject

section Kinds

variable [Unicode] {limits : CanonicalLimits} {m : Entries}

theorem nfc_eq_ok {s : String} : nfc s = .ok () ↔ isNfc s = true := by simp [nfc]

theorem validateCanonicalMap_eq_ok {b : Bytes} {what : String} :
    validateCanonicalMap b what = .ok () ↔ isCanonicalMap b = true := by
  simp [validateCanonicalMap]

omit [Unicode] in
/-- A record whose schema has no policy field has none. -/
theorem policyHeader_of_absent {kind : ObjectKind} {keys : List UInt64}
    (hkeys : ∀ e ∈ m, e.1 ∈ keys) (hpolicy : 2 ∉ keys) (hkind : policyOptional kind = true) :
    PolicyHeader kind m := by
  have hnone : lookupKey m 2 = none := by
    rw [lookupKey_eq_none_iff, List.mem_map]
    rintro ⟨e, he, h⟩
    exact hpolicy (h ▸ hkeys e he)
  exact policyHeader_of_optional (p := none) hkind hnone

/-! ### The repository root -/

theorem repositoryRoot_fields_iff (hm : Admitted limits (.map m)) {o : RepositoryRoot} :
    Value.map m = (canonicalValue o).norm ↔
      (lookupKey m 0 = some (.unsigned (code ObjectKind.repositoryRoot)) ∧
        lookupKey m 1 = some (.unsigned 0) ∧ lookupKey m 3 = some (stable o.repositoryId) ∧
        lookupKey m 4 = some (RGit.oid o.rootPolicy) ∧
        lookupKey m 5 = some (RGit.oidArray o.trustedIdentities) ∧
        lookupKey m 6 = some (RGit.oid o.bootstrapKeyEnvelopeSet) ∧
        lookupKey m 7 = some (RGit.oid o.genesisOperation) ∧
        lookupKey m 8 = some (RGit.oidArray o.initialLineStates) ∧
        lookupKey m 9 = some (.unsigned (code o.filesystemProfile)) ∧
        lookupKey m 10 = some (signatureArray o.signatures)) ∧
      ∀ e ∈ m, e.1 ∈ [0, 1, 3, 4, 5, 6, 7, 8, 9, 10] ++ [] := by
  rw [canonicalValue, map_eq_norm_iff hm ([0, 1, 3, 4, 5, 6, 7, 8, 9, 10] ++ [])
    (by simp [fields, RepositoryRoot.unsignedMap, optionalHeader, optional])
    (by simp [fields, RepositoryRoot.unsignedMap, optionalHeader, optional])]
  simp [fields, RepositoryRoot.unsignedMap, optionalHeader, optional, lookupKey_cons]

omit [Unicode] in
theorem repositoryRoot_validate_iff {o : RepositoryRoot} :
    validate o = .ok () ↔
      SortedIds o.trustedIdentities ∧ SortedIds o.initialLineStates ∧
        (o.trustedIdentities ≠ [] ∧ o.initialLineStates ≠ []) ∧
        checkSignatures o.signatures .repositoryRoot = .ok () := by
  simp only [validate, RepositoryRoot.validate, Except.bind_eq_ok, Except.exists_unit_iff,
    sortedUniqueIds_eq_ok, Except.ite_error_eq_ok, not_or, ne_eq]

theorem repositoryRoot_iff (hm : Admitted .metadata (.map m)) :
    ValidRecord .repositoryRoot 0 m ↔ Expresses RepositoryRoot m := by
  constructor
  · rintro ⟨h₀, h₁, hvalid⟩
    obtain ⟨⟨-, hkeys⟩, hpolicy, hshape⟩ := (validateFields_eq_ok hm).mp hvalid
    simp only [validateShapes, repositoryRootShape, Except.bind_eq_ok, Except.exists_unit_iff,
      stableField_eq_ok, oidField_eq_ok, idSetField_eq_ok hm,
      enumField_eq_ok FilesystemProfile 1 rfl rfl (by decide),
      signatureSetField_eq_ok hm] at hshape
    obtain ⟨⟨repository, h₃⟩, ⟨policy, h₄⟩, ⟨identities, hidentities, hidentities', h₅⟩,
      ⟨envelopes, h₆⟩, ⟨genesis, h₇⟩, ⟨lines, hlines, hlines', h₈⟩, ⟨profile, h₉⟩,
      ⟨signatures, hsignatures, h₁₀⟩⟩ := hshape
    refine ⟨⟨repository, policy, identities, envelopes, genesis, lines, profile, signatures⟩, ?_,
      (repositoryRoot_fields_iff hm).mpr ⟨⟨h₀, h₁, h₃, h₄, h₅, h₆, h₇, h₈, h₉, h₁₀⟩, hkeys⟩⟩
    exact repositoryRoot_validate_iff.mpr
      ⟨hidentities, hlines, ⟨hidentities' trivial, hlines' trivial⟩, hsignatures⟩
  · rintro ⟨o, hvalid, ho⟩
    obtain ⟨⟨h₀, h₁, h₃, h₄, h₅, h₆, h₇, h₈, h₉, h₁₀⟩, hkeys⟩ :=
      (repositoryRoot_fields_iff hm).mp ho
    obtain ⟨hidentities, hlines, ⟨hidentities', hlines'⟩, hsignatures⟩ :=
      repositoryRoot_validate_iff.mp hvalid
    refine ⟨h₀, h₁, (validateFields_eq_ok hm).mpr
      ⟨⟨by simp [fieldSets, *], hkeys⟩, policyHeader_of_absent hkeys (by decide) rfl, ?_⟩⟩
    simp only [validateShapes, repositoryRootShape, Except.bind_eq_ok, Except.exists_unit_iff,
      stableField_eq_ok, oidField_eq_ok, idSetField_eq_ok hm,
      enumField_eq_ok FilesystemProfile 1 rfl rfl (by decide), signatureSetField_eq_ok hm]
    exact ⟨⟨_, h₃⟩, ⟨_, h₄⟩, ⟨_, hidentities, fun _ => hidentities', h₅⟩, ⟨_, h₆⟩, ⟨_, h₇⟩,
      ⟨_, hlines, fun _ => hlines', h₈⟩, ⟨_, h₉⟩, ⟨_, hsignatures, h₁₀⟩⟩

/-! ### Memberships -/

theorem groupMembership_fields_iff (hm : Admitted limits (.map m)) {o : GroupMembership} :
    Value.map m = (canonicalValue o).norm ↔
      (lookupKey m 0 = some (.unsigned (code ObjectKind.groupMembership)) ∧
        lookupKey m 1 = some (.unsigned 0) ∧ lookupKey m 2 = some o.policyRef.value ∧
        lookupKey m 3 = some (stable o.membershipId) ∧ lookupKey m 4 = some (stable o.groupId) ∧
        lookupKey m 5 = some (.unsigned o.version) ∧ lookupKey m 7 = some o.principal.value ∧
        lookupKey m 8 = some (.unsigned (code o.state)) ∧ lookupKey m 9 = some (stable o.issuer) ∧
        lookupKey m 10 = some (RGit.oid o.activationOperation) ∧
        lookupKey m 12 = some (signatureArray o.signatures) ∧
        lookupKey m 6 = o.previous.map RGit.oid ∧
        lookupKey m 11 = o.notAfterOperation.map RGit.oid) ∧
      ∀ e ∈ m, e.1 ∈ [0, 1, 2, 3, 4, 5, 7, 8, 9, 10, 12] ++ [6, 11] := by
  rw [canonicalValue, map_eq_norm_iff hm ([0, 1, 2, 3, 4, 5, 7, 8, 9, 10, 12] ++ [6, 11])
    (by cases h1 : o.previous <;> cases h2 : o.notAfterOperation <;>
      simp [fields, GroupMembership.unsignedMap, optionalHeader, optional, h1, h2])
    (by cases h1 : o.previous <;> cases h2 : o.notAfterOperation <;>
      simp [fields, GroupMembership.unsignedMap, optionalHeader, optional, h1, h2])]
  simp [fields, GroupMembership.unsignedMap, optionalHeader, lookupKey_cons,
    lookupKey_optional, Function.comp_def, lookupKey_append]

omit [Unicode] in
theorem groupMembership_validate_iff {o : GroupMembership} :
    validate o = .ok () ↔
      ¬(o.version == 0) = o.previous.isSome ∧ o.principal.identifier ≠ [] ∧
        checkSignatures o.signatures .groupMembership = .ok () := by
  simp only [validate, GroupMembership.validate, Except.ite_error_eq_ok, ne_eq]

theorem groupMembership_iff (hm : Admitted .metadata (.map m)) :
    ValidRecord .groupMembership 0 m ↔ Expresses GroupMembership m := by
  constructor
  · rintro ⟨h₀, h₁, hvalid⟩
    obtain ⟨⟨-, hkeys⟩, hpolicy, hshape⟩ := (validateFields_eq_ok hm).mp hvalid
    obtain ⟨policy, h₂⟩ := hpolicy (.inl rfl)
    simp only [validateShapes, groupMembershipShape, Except.bind_eq_ok, Except.exists_unit_iff,
      stableField_eq_ok, field_eq_ok, unsigned_eq_ok, predecessorField_eq_ok,
      principalField_eq_ok hm, enumField_eq_ok MembershipState 1 rfl rfl (by decide),
      oidField_eq_ok, optionalOidField_eq_ok, signatureSetField_eq_ok hm] at hshape
    obtain ⟨⟨membership, h₃⟩, ⟨group, h₄⟩, _, h₅, version, rfl, ⟨previous, hprevious, h₆⟩,
      ⟨principal, hprincipal, h₇⟩, ⟨state, h₈⟩, ⟨issuer, h₉⟩, ⟨activation, h₁₀⟩, ⟨notAfter, h₁₁⟩,
      ⟨signatures, hsignatures, h₁₂⟩⟩ := hshape
    refine ⟨⟨policy, membership, group, version, previous, principal, state, issuer, activation,
      notAfter, signatures⟩, ?_,
      (groupMembership_fields_iff hm).mpr ⟨⟨h₀, h₁, h₂, h₃, h₄, h₅, h₇, h₈, h₉, h₁₀, h₁₂, h₆,
        h₁₁⟩, hkeys⟩⟩
    exact groupMembership_validate_iff.mpr ⟨hprevious, hprincipal, hsignatures⟩
  · rintro ⟨o, hvalid, ho⟩
    obtain ⟨⟨h₀, h₁, h₂, h₃, h₄, h₅, h₇, h₈, h₉, h₁₀, h₁₂, h₆, h₁₁⟩, hkeys⟩ :=
      (groupMembership_fields_iff hm).mp ho
    obtain ⟨hprevious, hprincipal, hsignatures⟩ := groupMembership_validate_iff.mp hvalid
    refine ⟨h₀, h₁, (validateFields_eq_ok hm).mpr
      ⟨⟨by simp [fieldSets, *], hkeys⟩, fun _ => ⟨_, h₂⟩, ?_⟩⟩
    simp only [validateShapes, groupMembershipShape, Except.bind_eq_ok, Except.exists_unit_iff,
      stableField_eq_ok, field_eq_ok, unsigned_eq_ok, predecessorField_eq_ok,
      principalField_eq_ok hm, enumField_eq_ok MembershipState 1 rfl rfl (by decide),
      oidField_eq_ok, optionalOidField_eq_ok, signatureSetField_eq_ok hm]
    exact ⟨⟨_, h₃⟩, ⟨_, h₄⟩, _, h₅, _, rfl, ⟨_, hprevious, h₆⟩, ⟨_, hprincipal, h₇⟩, ⟨_, h₈⟩,
      ⟨_, h₉⟩, ⟨_, h₁₀⟩, ⟨_, h₁₁⟩, ⟨_, hsignatures, h₁₂⟩⟩

/-! ### Relations and resolutions -/

theorem changeRelation_fields_iff (hm : Admitted limits (.map m)) {o : ChangeRelation} :
    Value.map m = (canonicalValue o).norm ↔
      (lookupKey m 0 = some (.unsigned (code ObjectKind.changeRelation)) ∧
        lookupKey m 1 = some (.unsigned 0) ∧ lookupKey m 2 = some o.policyRef.value ∧
        lookupKey m 3 = some (.unsigned (code o.relationKind)) ∧
        lookupKey m 4 = some (RGit.oidArray o.sources) ∧
        lookupKey m 5 = some (RGit.oidArray o.results) ∧
        lookupKey m 6 = some (RGit.oidArray o.provenance) ∧
        lookupKey m 7 = some (RGit.oid o.creatingOperation)) ∧
      ∀ e ∈ m, e.1 ∈ [0, 1, 2, 3, 4, 5, 6, 7] ++ [] := by
  rw [canonicalValue, map_eq_norm_iff hm ([0, 1, 2, 3, 4, 5, 6, 7] ++ [])
    (by simp [fields, optionalHeader, optional]) (by simp [fields, optionalHeader, optional])]
  simp [fields, optionalHeader, optional, lookupKey_cons]

omit [Unicode] in
theorem changeRelation_validate_iff {o : ChangeRelation} :
    validate o = .ok () ↔
      (o.sources ≠ [] ∧ o.results ≠ []) ∧ SortedIds o.sources ∧ SortedIds o.results ∧
        SortedIds o.provenance := by
  simp only [validate, Except.bind_eq_ok, Except.exists_unit_iff, sortedUniqueIds_eq_ok,
    Except.ite_error_eq_ok, not_or, ne_eq]

theorem changeRelation_iff (hm : Admitted .metadata (.map m)) :
    ValidRecord .changeRelation 0 m ↔ Expresses ChangeRelation m := by
  constructor
  · rintro ⟨h₀, h₁, hvalid⟩
    obtain ⟨⟨-, hkeys⟩, hpolicy, hshape⟩ := (validateFields_eq_ok hm).mp hvalid
    obtain ⟨policy, h₂⟩ := hpolicy (.inl rfl)
    simp only [validateShapes, changeRelationShape, Except.bind_eq_ok, Except.exists_unit_iff,
      enumField_eq_ok ChangeRelationKind 2 rfl rfl (by decide), idSetField_eq_ok hm,
      oidField_eq_ok] at hshape
    obtain ⟨⟨kind, h₃⟩, ⟨sources, hsources, hsources', h₄⟩, ⟨results, hresults, hresults', h₅⟩,
      ⟨provenance, hprovenance, -, h₆⟩, ⟨operation, h₇⟩⟩ := hshape
    refine ⟨⟨policy, kind, sources, results, provenance, operation⟩, ?_,
      (changeRelation_fields_iff hm).mpr ⟨⟨h₀, h₁, h₂, h₃, h₄, h₅, h₆, h₇⟩, hkeys⟩⟩
    exact changeRelation_validate_iff.mpr
      ⟨⟨hsources' trivial, hresults' trivial⟩, hsources, hresults, hprovenance⟩
  · rintro ⟨o, hvalid, ho⟩
    obtain ⟨⟨h₀, h₁, h₂, h₃, h₄, h₅, h₆, h₇⟩, hkeys⟩ :=
      (changeRelation_fields_iff hm).mp ho
    obtain ⟨⟨hsources', hresults'⟩, hsources, hresults, hprovenance⟩ :=
      changeRelation_validate_iff.mp hvalid
    refine ⟨h₀, h₁, (validateFields_eq_ok hm).mpr
      ⟨⟨by simp [fieldSets, *], hkeys⟩, fun _ => ⟨_, h₂⟩, ?_⟩⟩
    simp only [validateShapes, changeRelationShape, Except.bind_eq_ok, Except.exists_unit_iff,
      enumField_eq_ok ChangeRelationKind 2 rfl rfl (by decide), idSetField_eq_ok hm,
      oidField_eq_ok]
    exact ⟨⟨_, h₃⟩, ⟨_, hsources, fun _ => hsources', h₄⟩, ⟨_, hresults, fun _ => hresults', h₅⟩,
      ⟨_, hprovenance, by simp, h₆⟩, ⟨_, h₇⟩⟩

theorem conflictResolution_fields_iff (hm : Admitted limits (.map m)) {o : ConflictResolution} :
    Value.map m = (canonicalValue o).norm ↔
      (lookupKey m 0 = some (.unsigned (code ObjectKind.conflictResolution)) ∧
        lookupKey m 1 = some (.unsigned 0) ∧ lookupKey m 2 = some o.policyRef.value ∧
        lookupKey m 3 = some (RGit.oid o.conflict) ∧ lookupKey m 4 = some o.resolved.value ∧
        lookupKey m 5 = some (stable o.resolver) ∧ lookupKey m 6 = some (stable o.device) ∧
        lookupKey m 7 = some (.unsigned (code o.resolutionKind)) ∧
        lookupKey m 8 = some (typedRefArray o.provenance) ∧
        lookupKey m 9 = some o.wallTime.value.norm ∧
        lookupKey m 10 = some (signatureArray o.signatures)) ∧
      ∀ e ∈ m, e.1 ∈ [0, 1, 2, 3, 4, 5, 6, 7, 8, 9, 10] ++ [] := by
  rw [canonicalValue, map_eq_norm_iff hm ([0, 1, 2, 3, 4, 5, 6, 7, 8, 9, 10] ++ [])
    (by simp [fields, ConflictResolution.unsignedMap, optionalHeader, optional])
    (by simp [fields, ConflictResolution.unsignedMap, optionalHeader, optional])]
  simp [fields, ConflictResolution.unsignedMap, optionalHeader, optional, lookupKey_cons]

theorem conflictResolution_validate_iff {o : ConflictResolution} :
    validate o = .ok () ↔
      SortedRefs o.provenance ∧
        checkSignatures o.signatures .conflictResolution = .ok () := by
  simp only [validate, Except.bind_eq_ok, Except.exists_unit_iff, sortedUniqueRefs_eq_ok]

theorem conflictResolution_iff (hm : Admitted .metadata (.map m)) :
    (ValidRecord .conflictResolution 0 m ∧ wallTimeFieldFits m 9 = true) ↔
      Expresses ConflictResolution m := by
  constructor
  · rintro ⟨⟨h₀, h₁, hvalid⟩, hfits⟩
    obtain ⟨⟨-, hkeys⟩, hpolicy, hshape⟩ := (validateFields_eq_ok hm).mp hvalid
    obtain ⟨policy, h₂⟩ := hpolicy (.inl rfl)
    simp only [validateShapes, conflictResolutionShape, Except.bind_eq_ok, Except.exists_unit_iff,
      oidField_eq_ok, typedField_eq_ok hm, stableField_eq_ok,
      enumField_eq_ok ResolutionKind 4 rfl rfl (by decide), typedRefSetField_eq_ok hm,
      signatureSetField_eq_ok hm] at hshape
    obtain ⟨⟨conflict, h₃⟩, ⟨resolved, h₄⟩, ⟨resolver, h₅⟩, ⟨device, h₆⟩, ⟨kind, h₇⟩,
      ⟨provenance, hprovenance, h₈⟩, hwall, ⟨signatures, hsignatures, h₁₀⟩⟩ := hshape
    obtain ⟨time, h₉⟩ := (wallTimeField_eq_ok hm).mp ⟨hwall, hfits⟩
    refine ⟨⟨policy, conflict, resolved, resolver, device, kind, provenance, time,
      signatures⟩, ?_,
      (conflictResolution_fields_iff hm).mpr ⟨⟨h₀, h₁, h₂, h₃, h₄, h₅, h₆, h₇, h₈, h₉,
        h₁₀⟩, hkeys⟩⟩
    exact conflictResolution_validate_iff.mpr ⟨hprovenance, hsignatures⟩
  · rintro ⟨o, hvalid, ho⟩
    obtain ⟨⟨h₀, h₁, h₂, h₃, h₄, h₅, h₆, h₇, h₈, h₉, h₁₀⟩, hkeys⟩ :=
      (conflictResolution_fields_iff hm).mp ho
    obtain ⟨hwall, hfits⟩ := (wallTimeField_eq_ok hm).mpr ⟨_, h₉⟩
    obtain ⟨hprovenance, hsignatures⟩ := conflictResolution_validate_iff.mp hvalid
    refine ⟨⟨h₀, h₁, (validateFields_eq_ok hm).mpr
      ⟨⟨by simp [fieldSets, *], hkeys⟩, fun _ => ⟨_, h₂⟩, ?_⟩⟩, hfits⟩
    simp only [validateShapes, conflictResolutionShape, Except.bind_eq_ok, Except.exists_unit_iff,
      oidField_eq_ok, typedField_eq_ok hm, stableField_eq_ok,
      enumField_eq_ok ResolutionKind 4 rfl rfl (by decide), typedRefSetField_eq_ok hm,
      signatureSetField_eq_ok hm]
    exact ⟨⟨_, h₃⟩, ⟨_, h₄⟩, ⟨_, h₅⟩, ⟨_, h₆⟩, ⟨_, h₇⟩, ⟨_, hprovenance, h₈⟩, hwall,
      ⟨_, hsignatures, h₁₀⟩⟩

/-! ### Projection proofs -/

theorem projectionProof_fields_iff (hm : Admitted limits (.map m)) {o : ProjectionProof} :
    Value.map m = (canonicalValue o).norm ↔
      (lookupKey m 0 = some (.unsigned (code ObjectKind.projectionProof)) ∧
        lookupKey m 1 = some (.unsigned 0) ∧ lookupKey m 2 = some o.policyRef.value ∧
        lookupKey m 3 = some (.unsigned (code o.algorithm)) ∧
        lookupKey m 4 = some (RGit.oid o.sourceSnapshot) ∧
        lookupKey m 5 = some (RGit.oid o.rules) ∧
        lookupKey m 6 = some (RGit.oid o.audiencePolicy) ∧
        lookupKey m 7 = some (RGit.oid o.projectedManifest) ∧
        lookupKey m 8 = some (.bytes o.proof)) ∧
      ∀ e ∈ m, e.1 ∈ [0, 1, 2, 3, 4, 5, 6, 7, 8] ++ [] := by
  rw [canonicalValue, map_eq_norm_iff hm ([0, 1, 2, 3, 4, 5, 6, 7, 8] ++ [])
    (by simp [fields, optionalHeader, optional]) (by simp [fields, optionalHeader, optional])]
  simp [fields, optionalHeader, optional, lookupKey_cons]

theorem projectionProof_iff (hm : Admitted limits (.map m)) :
    ValidRecord .projectionProof 0 m ↔ Expresses ProjectionProof m := by
  constructor
  · rintro ⟨h₀, h₁, hvalid⟩
    obtain ⟨⟨-, hkeys⟩, hpolicy, hshape⟩ := (validateFields_eq_ok hm).mp hvalid
    obtain ⟨policy, h₂⟩ := hpolicy (.inl rfl)
    simp only [validateShapes, projectionProofShape, Except.bind_eq_ok, Except.exists_unit_iff,
      field_eq_ok, unsigned_eq_ok, Except.ite_error_eq_ok, ne_eq, not_not, forM_eq_ok,
      List.forall_mem_cons, List.not_mem_nil, false_implies, implies_true, and_true,
      oidField_eq_ok, bytes_eq_ok] at hshape
    obtain ⟨_, h₃, _, rfl, rfl, ⟨⟨snapshot, h₄⟩, ⟨rules, h₅⟩, ⟨audience, h₆⟩, ⟨manifest, h₇⟩⟩,
      _, h₈, proof, rfl, hproof⟩ := hshape
    refine ⟨⟨policy, .merkleV0, snapshot, rules, audience, manifest, proof⟩, ?_,
      (projectionProof_fields_iff hm).mpr ⟨⟨h₀, h₁, h₂, h₃, h₄, h₅, h₆, h₇, h₈⟩, hkeys⟩⟩
    simpa [validate] using hproof
  · rintro ⟨o, hvalid, ho⟩
    obtain ⟨⟨h₀, h₁, h₂, h₃, h₄, h₅, h₆, h₇, h₈⟩, hkeys⟩ :=
      (projectionProof_fields_iff hm).mp ho
    have hproof : ¬o.proof = [] := by simpa [validate] using hvalid
    refine ⟨h₀, h₁, (validateFields_eq_ok hm).mpr
      ⟨⟨by simp [fieldSets, *], hkeys⟩, fun _ => ⟨_, h₂⟩, ?_⟩⟩
    simp only [validateShapes, projectionProofShape, Except.bind_eq_ok, Except.exists_unit_iff,
      field_eq_ok, unsigned_eq_ok, Except.ite_error_eq_ok, ne_eq, not_not, forM_eq_ok,
      List.forall_mem_cons, List.not_mem_nil, false_implies, implies_true, and_true,
      oidField_eq_ok, bytes_eq_ok]
    exact ⟨_, h₃, _, rfl, by cases o.algorithm; rfl, ⟨⟨_, h₄⟩, ⟨_, h₅⟩, ⟨_, h₆⟩, ⟨_, h₇⟩⟩,
      _, h₈, _, rfl, hproof⟩

/-! ### Builds and artifacts -/

theorem buildProvenance_fields_iff (hm : Admitted limits (.map m)) {o : BuildProvenance} :
    Value.map m = (canonicalValue o).norm ↔
      (lookupKey m 0 = some (.unsigned (code ObjectKind.buildProvenance)) ∧
        lookupKey m 1 = some (.unsigned 0) ∧ lookupKey m 2 = some o.policyRef.value ∧
        lookupKey m 3 = some (RGit.oid o.snapshot) ∧ lookupKey m 4 = some (RGit.oid o.ruleset) ∧
        lookupKey m 5 = some (RGit.oid o.builderIdentity) ∧
        lookupKey m 6 = some (typedRefArray o.inputs) ∧
        lookupKey m 7 = some (RGit.oidArray o.outputs) ∧
        lookupKey m 8 = some (.bytes o.reproducibility) ∧
        lookupKey m 9 = some o.wallTime.value.norm ∧
        lookupKey m 10 = some (signatureArray o.signatures)) ∧
      ∀ e ∈ m, e.1 ∈ [0, 1, 2, 3, 4, 5, 6, 7, 8, 9, 10] ++ [] := by
  rw [canonicalValue, map_eq_norm_iff hm ([0, 1, 2, 3, 4, 5, 6, 7, 8, 9, 10] ++ [])
    (by simp [fields, BuildProvenance.unsignedMap, optionalHeader, optional])
    (by simp [fields, BuildProvenance.unsignedMap, optionalHeader, optional])]
  simp [fields, BuildProvenance.unsignedMap, optionalHeader, optional, lookupKey_cons]

theorem buildProvenance_validate_iff {o : BuildProvenance} :
    validate o = .ok () ↔
      SortedRefs o.inputs ∧ SortedIds o.outputs ∧ isCanonicalMap o.reproducibility = true ∧
        checkSignatures o.signatures .buildProvenance = .ok () := by
  simp only [validate, Except.bind_eq_ok, Except.exists_unit_iff, sortedUniqueRefs_eq_ok,
    sortedUniqueIds_eq_ok, validateCanonicalMap_eq_ok]

theorem buildProvenance_iff (hm : Admitted .metadata (.map m)) :
    (ValidRecord .buildProvenance 0 m ∧ wallTimeFieldFits m 9 = true) ↔
      Expresses BuildProvenance m := by
  constructor
  · rintro ⟨⟨h₀, h₁, hvalid⟩, hfits⟩
    obtain ⟨⟨-, hkeys⟩, hpolicy, hshape⟩ := (validateFields_eq_ok hm).mp hvalid
    obtain ⟨policy, h₂⟩ := hpolicy (.inl rfl)
    simp only [validateShapes, buildProvenanceShape, Except.bind_eq_ok, Except.exists_unit_iff,
      forM_eq_ok, List.forall_mem_cons, List.not_mem_nil, false_implies, implies_true, and_true,
      oidField_eq_ok, typedRefSetField_eq_ok hm, idSetField_eq_ok hm, canonicalMapField_eq_ok hm,
      signatureSetField_eq_ok hm] at hshape
    obtain ⟨⟨⟨snapshot, h₃⟩, ⟨ruleset, h₄⟩, ⟨builder, h₅⟩⟩, ⟨inputs, hinputs, h₆⟩,
      ⟨outputs, houtputs, -, h₇⟩, ⟨metadata, hmetadata, h₈⟩, hwall,
      ⟨signatures, hsignatures, h₁₀⟩⟩ := hshape
    obtain ⟨time, h₉⟩ := (wallTimeField_eq_ok hm).mp ⟨hwall, hfits⟩
    refine ⟨⟨policy, snapshot, ruleset, builder, inputs, outputs, metadata, time, signatures⟩, ?_,
      (buildProvenance_fields_iff hm).mpr ⟨⟨h₀, h₁, h₂, h₃, h₄, h₅, h₆, h₇, h₈, h₉, h₁₀⟩, hkeys⟩⟩
    exact buildProvenance_validate_iff.mpr ⟨hinputs, houtputs, hmetadata, hsignatures⟩
  · rintro ⟨o, hvalid, ho⟩
    obtain ⟨⟨h₀, h₁, h₂, h₃, h₄, h₅, h₆, h₇, h₈, h₉, h₁₀⟩, hkeys⟩ :=
      (buildProvenance_fields_iff hm).mp ho
    obtain ⟨hwall, hfits⟩ := (wallTimeField_eq_ok hm).mpr ⟨_, h₉⟩
    obtain ⟨hinputs, houtputs, hmetadata, hsignatures⟩ := buildProvenance_validate_iff.mp hvalid
    refine ⟨⟨h₀, h₁, (validateFields_eq_ok hm).mpr
      ⟨⟨by simp [fieldSets, *], hkeys⟩, fun _ => ⟨_, h₂⟩, ?_⟩⟩, hfits⟩
    simp only [validateShapes, buildProvenanceShape, Except.bind_eq_ok, Except.exists_unit_iff,
      forM_eq_ok, List.forall_mem_cons, List.not_mem_nil, false_implies, implies_true, and_true,
      oidField_eq_ok, typedRefSetField_eq_ok hm, idSetField_eq_ok hm, canonicalMapField_eq_ok hm,
      signatureSetField_eq_ok hm]
    exact ⟨⟨⟨_, h₃⟩, ⟨_, h₄⟩, ⟨_, h₅⟩⟩, ⟨_, hinputs, h₆⟩, ⟨_, houtputs, by simp, h₇⟩,
      ⟨_, hmetadata, h₈⟩, hwall, ⟨_, hsignatures, h₁₀⟩⟩

theorem artifact_fields_iff (hm : Admitted limits (.map m)) {o : Artifact} :
    Value.map m = (canonicalValue o).norm ↔
      (lookupKey m 0 = some (.unsigned (code ObjectKind.artifact)) ∧
        lookupKey m 1 = some (.unsigned 0) ∧ lookupKey m 2 = some o.policyRef.value ∧
        lookupKey m 3 = some (.unsigned (code o.artifactKind)) ∧
        lookupKey m 4 = some (.unsigned (code o.digestAlgorithm)) ∧
        lookupKey m 5 = some (.bytes o.digest) ∧ lookupKey m 6 = some (.unsigned o.byteLength) ∧
        lookupKey m 7 = o.locator.map .text ∧ lookupKey m 8 = o.blob.map RGit.oid) ∧
      ∀ e ∈ m, e.1 ∈ [0, 1, 2, 3, 4, 5, 6] ++ [7, 8] := by
  rw [canonicalValue, map_eq_norm_iff hm ([0, 1, 2, 3, 4, 5, 6] ++ [7, 8])
    (by cases h1 : o.locator <;> cases h2 : o.blob <;>
      simp [fields, optionalHeader, optional, h1, h2])
    (by cases h1 : o.locator <;> cases h2 : o.blob <;>
      simp [fields, optionalHeader, optional, h1, h2])]
  simp [fields, optionalHeader, lookupKey_cons,
    lookupKey_optional, Function.comp_def, lookupKey_append]

theorem artifact_validate_iff {o : Artifact} :
    validate o = .ok () ↔
      o.digest.length = 32 ∧ ¬(o.locator.isNone ∧ o.blob.isNone) ∧
        ∀ v ∈ o.locator, isNfc v = true := by
  simp only [validate, Except.ite_error_eq_ok, not_or, ne_eq, not_not, Except.ifSome_eq_ok,
    nfc_eq_ok, and_assoc]

theorem artifact_iff (hm : Admitted limits (.map m)) :
    ValidRecord .artifact 0 m ↔ Expresses Artifact m := by
  constructor
  · rintro ⟨h₀, h₁, hvalid⟩
    obtain ⟨⟨-, hkeys⟩, hpolicy, hshape⟩ := (validateFields_eq_ok hm).mp hvalid
    obtain ⟨policy, h₂⟩ := hpolicy (.inl rfl)
    simp only [validateShapes, artifactShape, Except.bind_eq_ok, Except.exists_unit_iff,
      enumField_eq_ok ArtifactKind 3 rfl rfl (by decide),
      enumField_eq_ok ArtifactDigestAlgorithm 1 rfl rfl (by decide), field_eq_ok,
      fixedBytes_eq_ok, unsignedField_eq_ok, Except.ite_error_eq_ok, ifSome_text_eq_ok,
      optionalOidField_eq_ok] at hshape
    obtain ⟨⟨kind, h₃⟩, ⟨algorithm, h₄⟩, _, h₅, ⟨digest, rfl⟩, ⟨length, h₆⟩, hlocated,
      ⟨locator, h₇⟩, ⟨blob, h₈⟩⟩ := hshape
    refine ⟨⟨policy, kind, algorithm, digest.1, length, locator, blob⟩, ?_,
      (artifact_fields_iff hm).mpr ⟨⟨h₀, h₁, h₂, h₃, h₄, h₅, h₆, h₇, h₈⟩, hkeys⟩⟩
    exact artifact_validate_iff.mpr
      ⟨digest.2, by simpa [h₇, h₈] using hlocated, fun v hv => hm.isNfc_of_lookup_map h₇ hv⟩
  · rintro ⟨o, hvalid, ho⟩
    obtain ⟨⟨h₀, h₁, h₂, h₃, h₄, h₅, h₆, h₇, h₈⟩, hkeys⟩ :=
      (artifact_fields_iff hm).mp ho
    obtain ⟨hdigest, hlocated, -⟩ := artifact_validate_iff.mp hvalid
    refine ⟨h₀, h₁, (validateFields_eq_ok hm).mpr
      ⟨⟨by simp [fieldSets, *], hkeys⟩, fun _ => ⟨_, h₂⟩, ?_⟩⟩
    simp only [validateShapes, artifactShape, Except.bind_eq_ok, Except.exists_unit_iff,
      enumField_eq_ok ArtifactKind 3 rfl rfl (by decide),
      enumField_eq_ok ArtifactDigestAlgorithm 1 rfl rfl (by decide), field_eq_ok,
      fixedBytes_eq_ok, unsignedField_eq_ok, Except.ite_error_eq_ok, ifSome_text_eq_ok,
      optionalOidField_eq_ok]
    exact ⟨⟨_, h₃⟩, ⟨_, h₄⟩, _, h₅, ⟨⟨_, hdigest⟩, rfl⟩, ⟨_, h₆⟩,
      by simpa [h₇, h₈] using hlocated, ⟨_, h₇⟩, ⟨_, h₈⟩⟩

/-! ### Payloads -/

theorem operationPayload_fields_iff (hm : Admitted limits (.map m)) {o : OperationPayload} :
    Value.map m = (canonicalValue o).norm ↔
      (lookupKey m 0 = some (.unsigned (code ObjectKind.operationPayload)) ∧
        lookupKey m 1 = some (.unsigned 0) ∧ lookupKey m 2 = some o.policyRef.value ∧
        lookupKey m 3 = some (.unsigned (code o.payloadKind)) ∧
        lookupKey m 4 = some (typedRefArray o.references) ∧
        lookupKey m 5 = some (.unsigned (code o.payloadSchema)) ∧
        lookupKey m 6 = some (.bytes o.canonicalPayload)) ∧
      ∀ e ∈ m, e.1 ∈ [0, 1, 2, 3, 4, 5, 6] ++ [] := by
  rw [canonicalValue, map_eq_norm_iff hm ([0, 1, 2, 3, 4, 5, 6] ++ [])
    (by simp [fields, optionalHeader, optional]) (by simp [fields, optionalHeader, optional])]
  simp [fields, optionalHeader, optional, lookupKey_cons]

theorem operationPayload_validate_iff {o : OperationPayload} :
    validate o = .ok () ↔
      SortedRefs o.references ∧ isCanonicalMap o.canonicalPayload = true := by
  simp only [validate, Except.bind_eq_ok, Except.exists_unit_iff, sortedUniqueRefs_eq_ok,
    validateCanonicalMap_eq_ok]

theorem operationPayload_iff (hm : Admitted .metadata (.map m)) :
    ValidRecord .operationPayload 0 m ↔ Expresses OperationPayload m := by
  constructor
  · rintro ⟨h₀, h₁, hvalid⟩
    obtain ⟨⟨-, hkeys⟩, hpolicy, hshape⟩ := (validateFields_eq_ok hm).mp hvalid
    obtain ⟨policy, h₂⟩ := hpolicy (.inl rfl)
    simp only [validateShapes, operationPayloadShape, Except.bind_eq_ok, Except.exists_unit_iff,
      enumField_eq_ok OperationPayloadKind 3 rfl rfl (by decide), typedRefSetField_eq_ok hm,
      field_eq_ok, unsigned_eq_ok, Except.ite_error_eq_ok, ne_eq, not_not,
      canonicalMapField_eq_ok hm] at hshape
    obtain ⟨⟨kind, h₃⟩, ⟨refs, hrefs, h₄⟩, _, h₅, _, rfl, rfl, ⟨payload, hpayload, h₆⟩⟩ := hshape
    refine ⟨⟨policy, kind, refs, .canonicalCborMapV0, payload⟩, ?_,
      (operationPayload_fields_iff hm).mpr ⟨⟨h₀, h₁, h₂, h₃, h₄, h₅, h₆⟩, hkeys⟩⟩
    exact operationPayload_validate_iff.mpr ⟨hrefs, hpayload⟩
  · rintro ⟨o, hvalid, ho⟩
    obtain ⟨⟨h₀, h₁, h₂, h₃, h₄, h₅, h₆⟩, hkeys⟩ :=
      (operationPayload_fields_iff hm).mp ho
    obtain ⟨hrefs, hpayload⟩ := operationPayload_validate_iff.mp hvalid
    refine ⟨h₀, h₁, (validateFields_eq_ok hm).mpr
      ⟨⟨by simp [fieldSets, *], hkeys⟩, fun _ => ⟨_, h₂⟩, ?_⟩⟩
    simp only [validateShapes, operationPayloadShape, Except.bind_eq_ok, Except.exists_unit_iff,
      enumField_eq_ok OperationPayloadKind 3 rfl rfl (by decide), typedRefSetField_eq_ok hm,
      field_eq_ok, unsigned_eq_ok, Except.ite_error_eq_ok, ne_eq, not_not,
      canonicalMapField_eq_ok hm]
    exact ⟨⟨_, h₃⟩, ⟨_, hrefs, h₄⟩, _, h₅, _, rfl, by cases o.payloadSchema; rfl,
      ⟨_, hpayload, h₆⟩⟩

end Kinds

end RGit
