/-
RGit/Objects/EdgeSets.lean

Kind by kind: on a record the decoder accepts, every part of `references`
pushes exactly the edges the record carries in the schema fields it reads.
-/
import RGit.Objects.Conformance
import RGit.Objects.Edges

namespace RGit

open Discriminant (code)

open Decode

section Nested

variable [Unicode] {limits : CanonicalLimits} {m : Entries} {v : Value}

/-! ### Nested records -/

omit [Unicode] in
theorem chunkEdges_part (c : ChunkRef) :
    Part (chunkEdges c.value) c.value [⟨.blobChunk, [.key 0], .id (some .chunk)⟩] := by
  show Part (requiredEdge [(0, RGit.oid c.id), (1, .unsigned c.plaintextLength)] 0 5 .blobChunk
    (some .chunk)) _ [idAt 0 .blobChunk (some .chunk)]
  exact requiredEdge_part ⟨c.id, rfl⟩

omit [Unicode] in
theorem blobEdges_part {o : Blob} (h₅ : lookupKey m 5 = o.content.chunksField) :
    Part (blobEdges m) (.map m) (ownSchemaFields .blob) := by
  cases hcontent : o.content with
  | inlined b =>
      rw [hcontent] at h₅
      refine .absent (by simp [blobEdges, h₅, BlobContent.chunksField]) ?_
      simp [ownSchemaFields, reach, h₅, BlobContent.chunksField]
  | chunks cs =>
      rw [hcontent, BlobContent.chunksField] at h₅
      have heq : blobEdges m = nestedEdges m 5 chunkEdges := by
        simp only [blobEdges, nestedEdges, optionalField, h₅, field_eq_ok.mpr h₅, Except.ok_bind]
      rw [heq]
      refine nestedEdges_part [⟨.blobChunk, [.key 0], .id (some .chunk)⟩] h₅ fun w hw => ?_
      obtain ⟨c, -, rfl⟩ := List.mem_map.mp hw
      exact chunkEdges_part c

omit [Unicode] in
theorem entryTargetEdge_part {t : ManifestTarget}
    (h₁ : lookupKey m 1 = some (.unsigned t.parts.1))
    (h₂ : lookupKey m 2 = some (RGit.oid t.parts.2.1)) :
    Part (entryTargetEdge m) (.map m)
      [⟨.manifestEntryTarget, [.tagged 1 0, .key 2], .id (some .blob)⟩,
        ⟨.manifestEntryTarget, [.tagged 1 1, .key 2], .id (some .manifest)⟩,
        ⟨.manifestEntryTarget, [.tagged 1 2, .key 2], .id (some .blob)⟩,
        ⟨.manifestEntryTarget, [.tagged 1 3, .key 2], .id (some .subproject)⟩,
        ⟨.manifestEntryTarget, [.tagged 1 4, .key 2], .id (some .secretRef)⟩] := by
  have hreach : reach [.key 2] (.map m) = [RGit.oid t.parts.2.1] := by simp [reach_key, h₂]
  have hedge : ∀ kind expected, t.parts.1 = kind → entryTargetKind kind = .ok expected →
      entryTargetEdge m = .ok [⟨.manifestEntryTarget, some expected, t.parts.2.1⟩] := by
    intro kind expected hkind hexpected
    simp only [entryTargetEdge, field_eq_ok.mpr h₁, Except.ok_bind, unsigned, hkind, hexpected,
      requiredEdge, field_eq_ok.mpr h₂]
    exact idEdge_eq_ok _ _
  have hcarries : ∀ n expected e, Carries (.map m)
      ⟨.manifestEntryTarget, [.tagged 1 n, .key 2], .id (some expected)⟩ e ↔
        t.parts.1 = n ∧ e = ⟨.manifestEntryTarget, some expected, t.parts.2.1⟩ := by
    intro n expected e
    by_cases hn : t.parts.1 = n
    · rw [carries_oid_iff (by rw [reach_tagged h₁, if_pos hn, hreach])]
      simp [hn]
    · simp [Carries, reach_tagged h₁, hn]
  cases t with
  | file blob mode =>
      refine ⟨_, hedge 0 .blob rfl rfl, fun e => ?_⟩
      simp [hcarries, ManifestTarget.parts]
  | directory manifest =>
      refine ⟨_, hedge 1 .manifest rfl rfl, fun e => ?_⟩
      simp [hcarries, ManifestTarget.parts]
  | symlink targetBlob =>
      refine ⟨_, hedge 2 .blob rfl rfl, fun e => ?_⟩
      simp [hcarries, ManifestTarget.parts]
  | subproject id =>
      refine ⟨_, hedge 3 .subproject rfl rfl, fun e => ?_⟩
      simp [hcarries, ManifestTarget.parts]
  | secretRef id =>
      refine ⟨_, hedge 4 .secretRef rfl rfl, fun e => ?_⟩
      simp [hcarries, ManifestTarget.parts]

theorem manifestEntryEdges_part (hv : Admitted limits v) {e : ManifestEntry}
    (h : v = e.value.norm) : Part (manifestEntryEdges v) v manifestEntryFields := by
  obtain ⟨m, rfl, ⟨-, h₁, h₂, h₄, -⟩, -⟩ := (manifestEntry_eq_norm_iff hv).mp h
  show Part (concatEdges [entryTargetEdge m, requiredPolicyEdge m 4 3 .manifestEntryPolicy]) _ _
  exact (entryTargetEdge_part h₁ h₂).cons (requiredPolicyEdge_part ⟨_, h₄⟩).one

omit [Unicode] in
theorem keyRecordEdges_part (k : UInt64) (r : PublicKeyRecord) :
    Part (keyRecordEdges k r.value) r.value keyRecordFields := by
  obtain ⟨algorithm, keyId, key, before, after⟩ := r
  refine Part.cons (optionalEdge_part ⟨before, ?_⟩) (optionalEdge_part ⟨after, ?_⟩).one <;>
    simp [lookupKey_optional, lookupKey_cons]

omit [Unicode] in
theorem viewLineEdges_part (l : LineGeneration) :
    Part (viewLineEdges l.value) l.value
      [⟨.viewLineState, [.key 2], .id (some .lineState)⟩] := by
  show Part (requiredEdge [(0, stable l.lineId), (1, .unsigned l.generation),
    (2, RGit.oid l.state)] 2 6 .viewLineState (some .lineState)) _
    [idAt 2 .viewLineState (some .lineState)]
  exact requiredEdge_part ⟨l.state, rfl⟩

omit [Unicode] in
theorem mappingEdges_part (i : IdMapping) :
    Part (mappingEdges i.value) i.value
      [⟨.migrationOldObject, [.key 0], .id none⟩, ⟨.migrationNewObject, [.key 1], .id none⟩] := by
  show Part (concatEdges [requiredEdge [(0, RGit.oid i.old), (1, RGit.oid i.new)] 0 5
      .migrationOldObject none,
    requiredEdge [(0, RGit.oid i.old), (1, RGit.oid i.new)] 1 5 .migrationNewObject none]) _
    ([idAt 0 .migrationOldObject none] ++ [idAt 1 .migrationNewObject none])
  exact (requiredEdge_part ⟨i.old, rfl⟩).cons (requiredEdge_part ⟨i.new, rfl⟩).one

/-! ### Actions -/

theorem declarationEdges_part (hv : Admitted limits v) {d : LineAdvanceDeclaration}
    (h : v = d.value.norm) : Part (declarationEdges v) v declarationFields := by
  obtain ⟨m, rfl, ⟨h₀, -, -, h₃, -, h₆, h₇, h₈, h₉, h₅⟩, -⟩ := (lineAdvance_eq_norm_iff hv).mp h
  exact (requiredPolicyEdge_part ⟨_, h₀⟩).cons <| (requiredPolicyEdge_part ⟨_, h₆⟩).cons <|
    (requiredPolicyEdge_part ⟨_, h₇⟩).cons <| (requiredPolicyEdge_part ⟨_, h₈⟩).cons <|
    (requiredPolicyEdge_part ⟨_, h₉⟩).cons <| (requiredEdge_part ⟨_, h₃⟩).cons
    (optionalEdge_part ⟨_, h₅⟩).one

omit [Unicode] in
theorem Decode.Part.congr {x : Edges} {fs gs : List SchemaField} (h : Part x v fs)
    (hcarries : ∀ e, (∃ f ∈ fs, Carries v f e) ↔ ∃ f ∈ gs, Carries v f e) : Part x v gs := by
  obtain ⟨es, he, hes⟩ := h
  exact ⟨es, he, fun e => (hes e).trans (hcarries e)⟩

omit [Unicode] in
theorem carries_tagged_iff {k n n' : UInt64} {role : ReferenceRole} {path : List PathStep}
    {leaf : Leaf} {e : ReferenceEdge} (h : lookupKey m k = some (.unsigned n')) :
    Carries (.map m) ⟨role, .tagged k n :: path, leaf⟩ e ↔
      n' = n ∧ Carries (.map m) ⟨role, path, leaf⟩ e := by
  simp only [Carries, reach_tagged h]
  by_cases hn : n' = n <;> simp [hn]

omit [Unicode] in
theorem carries_key_iff {k : UInt64} {w : Value} {role : ReferenceRole} {path : List PathStep}
    {leaf : Leaf} {e : ReferenceEdge} (h : lookupKey m k = some w) :
    Carries (.map m) ⟨role, .key k :: path, leaf⟩ e ↔ Carries w ⟨role, path, leaf⟩ e := by
  simp [Carries, reach, h]

omit [Unicode] in
theorem transitionEdges_part {before after : Option TypedObjectRef}
    (h₀ : lookupKey m 0 = some (.unsigned 0))
    (h₁ : lookupKey m 1 = before.map TypedObjectRef.value)
    (h₂ : lookupKey m 2 = after.map TypedObjectRef.value) :
    Part (actionEdges (.map m)) (.map m) actionFields := by
  have hedges : actionEdges (.map m) = concatEdges [optionalTypedEdge m 1 .operationBefore,
      optionalTypedEdge m 2 .operationAfter] := by
    simp [actionEdges, asMap, field_eq_ok.mpr h₀, unsigned]
  rw [hedges]
  refine ((optionalTypedEdge_part ⟨_, h₁⟩).cons (optionalTypedEdge_part ⟨_, h₂⟩).one).congr ?_
  simp [actionFields, declarationFields, carries_tagged_iff h₀, typedAt]

omit [Unicode] in
theorem boundTransitionEdges_part {before : Option TypedObjectRef} {after : TypedObjectRef}
    (h₀ : lookupKey m 0 = some (.unsigned 2))
    (h₂ : lookupKey m 2 = before.map TypedObjectRef.value)
    (h₃ : lookupKey m 3 = some after.value) :
    Part (actionEdges (.map m)) (.map m) actionFields := by
  have hedges : actionEdges (.map m) = concatEdges [optionalTypedEdge m 2 .operationBefore,
      optionalTypedEdge m 3 .operationAfter] := by
    simp [actionEdges, asMap, field_eq_ok.mpr h₀, unsigned]
  rw [hedges]
  refine ((optionalTypedEdge_part ⟨_, h₂⟩).cons
    (optionalTypedEdge_part ⟨some after, h₃⟩).one).congr ?_
  simp [actionFields, declarationFields, carries_tagged_iff h₀, typedAt]

theorem lineAdvanceEdges_part (hm : Admitted limits (.map m)) {d : LineAdvanceDeclaration}
    (h₀ : lookupKey m 0 = some (.unsigned 1)) (h₃ : lookupKey m 3 = some d.value.norm) :
    Part (actionEdges (.map m)) (.map m) actionFields := by
  have hedges : actionEdges (.map m) = declarationEdges d.value.norm := by
    simp [actionEdges, asMap, field_eq_ok.mpr h₀, unsigned, field_eq_ok.mpr h₃]
  obtain ⟨es, he, hes⟩ := declarationEdges_part (hm.of_lookup h₃) rfl
  refine ⟨es, hedges.trans he, fun e => (hes e).trans ?_⟩
  simp [actionFields, declarationFields, carries_tagged_iff h₀, carries_key_iff h₃, policyAt,
    idAt]

theorem actionEdges_part_zero (hv : Admitted limits v) {a : OperationAction}
    (h : v = a.value.norm) : Part (actionEdges v) v actionFields := by
  cases a with
  | transition before after =>
      obtain ⟨m, rfl, ⟨h₀, h₁, h₂⟩, -⟩ := (transition_eq_norm_iff hv).mp h
      exact transitionEdges_part h₀ h₁ h₂
  | lineAdvance d =>
      obtain ⟨m, rfl, ⟨h₀, h₃⟩, -⟩ := (lineAdvanceAction_eq_norm_iff hv).mp h
      exact lineAdvanceEdges_part hv h₀ h₃

theorem actionEdges_part_one (hv : Admitted limits v) {a : OperationActionV1}
    (h : v = a.value.norm) : Part (actionEdges v) v actionFields := by
  cases a with
  | boundTransition key before after =>
      obtain ⟨m, rfl, ⟨h₀, -, h₃, h₂⟩, -⟩ := (boundTransition_eq_norm_iff hv).mp h
      exact boundTransitionEdges_part h₀ h₂ h₃
  | lineAdvance d =>
      obtain ⟨m, rfl, ⟨h₀, h₃⟩, -⟩ := (lineAdvanceAction_eq_norm_iff hv).mp h
      exact lineAdvanceEdges_part hv h₀ h₃

end Nested

section Kinds

variable [Unicode] {limits : CanonicalLimits} {m : Entries}

/-! ### Release notes -/

/-- The release notes of a release are absent, null or an identifier. -/
def notesReadable : ObjectKind → Entries → Bool
  | .release, m =>
      match lookupKey m 11 with
      | none | some .null => true
      | some v => (Decode.oid v 11).isOk
  | _, _ => true

omit [Unicode] in
/-- `add!` pushes what a readable field carries. -/
theorem notesEdge_part (h : notesReadable .release m = true) :
    Part (addEdge m 11 .releaseNotes (some .blob)) (.map m)
      [idAt 11 .releaseNotes (some .blob)] := by
  have hcases : (∃ id : Option ObjectId, lookupKey m 11 = id.map RGit.oid) ∨
      lookupKey m 11 = some .null := by
    simp only [notesReadable] at h
    split at h
    · next hnone => exact .inl ⟨none, hnone⟩
    · next hnull => exact .inr hnull
    · next v _ hv =>
        cases hoid : Decode.oid v 11 with
        | error e => rw [hoid] at h; cases h
        | ok id => exact .inl ⟨some id, by rw [hv, oid_eq_ok.mp hoid]; rfl⟩
  rcases hcases with hid | hnull
  · exact addEdge_part hid
  · refine ⟨[], by simp [addEdge, optionalField, hnull], fun e => ?_⟩
    simp [idAt, Carries, reach, hnull, Leaf.Holds, RGit.oid]

omit [Unicode] in
/-- Unreadable release notes make `add!` fail. -/
theorem notesEdge_error (h : notesReadable .release m = false) {es : List ReferenceEdge} :
    addEdge m 11 .releaseNotes (some .blob) ≠ .ok es := by
  intro hok
  simp only [notesReadable] at h
  simp only [addEdge, optionalField] at hok
  split at h
  · cases h
  · cases h
  · next v hnull hlookup =>
      simp only [hlookup, idEdge, Except.bind_eq_ok] at hok
      obtain ⟨id, hid, -⟩ := hok
      rw [hid] at h
      cases h

/-! ### Arms -/

theorem evidenceEdges_part (hm : Admitted .metadata (.map m)) {purpose : SignaturePurpose}
    (hshape : evidenceShape purpose false m = .ok ()) :
    Part (concatEdges (evidenceEdges m)) (.map m) evidenceFields := by
  simp only [evidenceShape, Except.bind_eq_ok, Except.exists_unit_iff, typedField_eq_ok hm,
    oidField_eq_ok, typedRefSetField_eq_ok hm] at hshape
  obtain ⟨⟨_, h₃⟩, ⟨_, h₄⟩, ⟨_, h₅⟩, -, -, -, -, ⟨_, -, h₁₀⟩, -⟩ := hshape
  exact (addTypedEdge_part ⟨_, h₃⟩).cons <| (addEdge_part ⟨some _, h₄⟩).cons <|
    (addEdge_part ⟨some _, h₅⟩).cons (addTypedEdges_part ⟨_, h₁₀⟩).one

theorem operationActions_part (hm : Admitted .metadata (.map m)) {schema : UInt64}
    (hsupported : ObjectKind.operation.supportsSchema schema = true)
    (hshape : operationShape schema m = .ok ()) :
    ∃ vs, lookupKey m 8 = some (.array vs) ∧
      ∀ w ∈ vs, Part (actionEdges w) w actionFields := by
  have hschema : schema = 0 ∨ schema = 1 := by
    simpa [ObjectKind.supportsSchema] using hsupported
  simp only [operationShape, Except.bind_eq_ok, Except.exists_unit_iff] at hshape
  obtain ⟨-, -, -, -, -, hloop, -⟩ := hshape
  rcases hschema with rfl | rfl
  · obtain ⟨as, -, h₈⟩ := (loopField_eq_ok hm actionStep_zero_eq_ok).mp hloop
    refine ⟨_, h₈, fun w hw => ?_⟩
    obtain ⟨a, -, rfl⟩ := List.mem_map.mp hw
    exact actionEdges_part_zero ((hm.of_lookup h₈).of_mem hw) rfl
  · obtain ⟨as, -, h₈⟩ := (loopField_eq_ok hm actionStep_one_eq_ok).mp hloop
    refine ⟨_, h₈, fun w hw => ?_⟩
    obtain ⟨a, -, rfl⟩ := List.mem_map.mp hw
    exact actionEdges_part_one ((hm.of_lookup h₈).of_mem hw) rfl

theorem own_part {kind : ObjectKind} {schema : UInt64}
    (hsupported : kind.supportsSchema schema = true) (hm : Admitted (kindLimits kind) (.map m))
    (hrecord : ValidRecord kind schema m) (hnotes : notesReadable kind m = true) :
    Part (concatEdges (kindEdges kind m)) (.map m) (ownSchemaFields kind) := by
  obtain ⟨-, -, hshape⟩ := (validateFields_eq_ok hm).mp hrecord.valid
  cases kind with
  | chunk => exact .nil
  | blob =>
      obtain rfl := schema_eq_zero (k := .blob) (by decide) hsupported
      obtain ⟨o, -, ho⟩ := (blob_iff hm).mp hrecord
      obtain ⟨⟨-, -, -, -, -, h₅, -⟩, -⟩ := (blob_fields_iff hm).mp ho
      exact (blobEdges_part h₅).one
  | secretRef =>
      obtain rfl := schema_eq_zero (k := .secretRef) (by decide) hsupported
      obtain ⟨o, -, ho⟩ := (secretRef_iff hm).mp hrecord
      obtain ⟨⟨-, -, -, -, -, -, -, -, -, h₉⟩, -⟩ := (secretRef_fields_iff hm).mp ho
      exact (addEdge_part ⟨_, h₉⟩).one
  | manifest =>
      obtain rfl := schema_eq_zero (k := .manifest) (by decide) hsupported
      obtain ⟨o, -, ho⟩ := (manifest_iff hm).mp hrecord
      obtain ⟨⟨-, -, -, h₃⟩, -⟩ := (manifest_fields_iff hm).mp ho
      refine (nestedEdges_part manifestEntryFields h₃ fun w hw => ?_).one
      obtain ⟨e, -, rfl⟩ := List.mem_map.mp hw
      exact manifestEntryEdges_part ((hm.of_lookup h₃).of_mem hw) rfl
  | subproject =>
      obtain rfl := schema_eq_zero (k := .subproject) (by decide) hsupported
      obtain ⟨o, -, ho⟩ := (subproject_iff hm).mp hrecord
      obtain ⟨⟨-, -, -, -, -, -, h₆⟩, -⟩ := (subproject_fields_iff hm).mp ho
      exact (addEdge_part ⟨_, h₆⟩).one
  | snapshot =>
      simp only [validateShapes, snapshotShape, Except.bind_eq_ok, Except.exists_unit_iff,
        oidField_eq_ok, uniqueIdsField_eq_ok, optionalOidField_eq_ok] at hshape
      obtain ⟨⟨_, h₃⟩, ⟨_, -, h₄⟩, -, -, -, -, -, _, h₁₀⟩ := hshape
      exact (addEdge_part ⟨some _, h₃⟩).cons <|
        (addEdge_part ⟨_, h₁₀⟩).cons (addEdges_part ⟨_, h₄⟩).one
  | changeRevision =>
      obtain rfl := schema_eq_zero (k := .changeRevision) (by decide) hsupported
      obtain ⟨o, -, ho⟩ := (changeRevision_iff hm).mp hrecord
      obtain ⟨⟨-, -, -, -, h₅, h₆, h₇, h₈, -, -, -, -, -, -, -, h₄⟩, -⟩ := (changeRevision_fields_iff hm).mp ho
      exact (addEdge_part ⟨_, h₄⟩).cons <|
        (addEdge_part ⟨some _, h₅⟩).cons <|
        (addEdge_part ⟨some _, h₆⟩).cons <|
        (addEdge_part ⟨some _, h₇⟩).cons (addEdge_part ⟨some _, h₈⟩).one
  | lineState =>
      obtain rfl := schema_eq_zero (k := .lineState) (by decide) hsupported
      obtain ⟨o, -, ho⟩ := (lineState_iff hm).mp hrecord
      obtain ⟨⟨-, -, -, -, -, h₅, -, -, -, -, -, h₁₂, -, h₇⟩, -⟩ := (lineState_fields_iff hm).mp ho
      exact (addEdge_part ⟨some _, h₅⟩).cons <|
        (addEdge_part ⟨_, h₇⟩).cons (addEdge_part ⟨some _, h₁₂⟩).one
  | conflict =>
      obtain rfl := schema_eq_zero (k := .conflict) (by decide) hsupported
      obtain ⟨o, -, ho⟩ := (conflict_iff hm).mp hrecord
      obtain ⟨⟨-, -, -, h₃, h₄, h₅, -⟩, -⟩ := (conflict_fields_iff hm).mp ho
      exact (addTypedEdge_part ⟨_, h₃⟩).cons <|
        (addTypedEdge_part ⟨_, h₄⟩).cons (addTypedEdge_part ⟨_, h₅⟩).one
  | operation =>
      have hactions : ∃ vs, lookupKey m 8 = some (.array vs) ∧
          ∀ w ∈ vs, Part (actionEdges w) w actionFields := operationActions_part hm hsupported hshape
      obtain ⟨vs, h₈, hactions⟩ := hactions
      simp only [validateShapes, operationShape, Except.bind_eq_ok, Except.exists_unit_iff,
        oidArrayField_eq_ok, uniqueIdsField_eq_ok, optionalOidField_eq_ok] at hshape
      obtain ⟨⟨_, -, h₃⟩, -, -, -, -, -, ⟨_, h₉⟩, ⟨_, h₁₀⟩, ⟨_, h₁₁⟩, -⟩ := hshape
      exact (addEdges_part ⟨_, h₃⟩).cons <|
        (addEdges_part ⟨_, h₉⟩).cons <|
        (nestedEdges_part actionFields h₈ hactions).cons <|
        (addEdge_part ⟨_, h₁₀⟩).cons (addEdge_part ⟨_, h₁₁⟩).one
  | marker =>
      simp only [validateShapes, markerShape, Except.bind_eq_ok, Except.exists_unit_iff,
        typedField_eq_ok hm] at hshape
      obtain ⟨-, ⟨_, h₄⟩, -⟩ := hshape
      exact (addTypedEdge_part ⟨_, h₄⟩).one
  | release =>
      simp only [validateShapes, releaseShape, Except.bind_eq_ok, Except.exists_unit_iff,
        forM_eq_ok, List.forall_mem_cons, List.not_mem_nil, false_implies, implies_true,
        and_true, oidField_eq_ok, oidArrayField_eq_ok] at hshape
      obtain ⟨-, -, ⟨⟨_, h₅⟩, ⟨_, h₇⟩, _, h₈⟩, -, -, ⟨_, h₉⟩, ⟨⟨_, h₁₂⟩, ⟨_, h₁₃⟩, _, h₁₄⟩, -⟩ :=
        hshape
      exact (addEdge_part ⟨some _, h₅⟩).cons <|
        (addEdge_part ⟨some _, h₇⟩).cons <|
        (addEdge_part ⟨some _, h₈⟩).cons <|
        (addEdge_part ⟨some _, h₉⟩).cons <|
        (notesEdge_part hnotes).cons <|
        (addEdges_part ⟨_, h₁₂⟩).cons <|
        (addEdges_part ⟨_, h₁₃⟩).cons (addEdges_part ⟨_, h₁₄⟩).one
  | policy =>
      obtain rfl := schema_eq_zero (k := .policy) (by decide) hsupported
      obtain ⟨o, -, ho⟩ := (policy_iff hm).mp hrecord
      obtain ⟨⟨-, -, -, -, -, -, -, -, h₁₀, -, h₁₂, -, -, -, -, h₅⟩, -⟩ := (policy_fields_iff hm).mp ho
      exact (addEdge_part ⟨_, h₅⟩).cons <|
        (addEdge_part ⟨some _, h₁₂⟩).cons (addEdges_part ⟨_, h₁₀⟩).one
  | repositoryRoot =>
      obtain rfl := schema_eq_zero (k := .repositoryRoot) (by decide) hsupported
      obtain ⟨o, -, ho⟩ := (repositoryRoot_iff hm).mp hrecord
      obtain ⟨⟨-, -, -, h₄, h₅, h₆, h₇, h₈, -⟩, -⟩ := (repositoryRoot_fields_iff hm).mp ho
      exact (addEdge_part ⟨some _, h₄⟩).cons <|
        (addEdges_part ⟨_, h₅⟩).cons <|
        (addEdge_part ⟨some _, h₆⟩).cons <|
        (addEdge_part ⟨some _, h₇⟩).cons (addEdges_part ⟨_, h₈⟩).one
  | identity =>
      obtain rfl := schema_eq_zero (k := .identity) (by decide) hsupported
      obtain ⟨o, -, ho⟩ := (identity_iff hm).mp hrecord
      obtain ⟨⟨-, -, -, -, -, h₇, h₈, -, -, -, -, h₆, h₁₁, h₁₂⟩, -⟩ := (identity_fields_iff hm).mp ho
      have hkeyRecords : ∀ {k : UInt64} {rs : List PublicKeyRecord},
          lookupKey m k = some (.array (rs.map PublicKeyRecord.value)) →
            Part (nestedEdges m k (keyRecordEdges k)) (.map m) (keyRecordFields.map (.within k)) := by
        intro k rs h
        refine nestedEdges_part keyRecordFields h fun w hw => ?_
        obtain ⟨r, -, rfl⟩ := List.mem_map.mp hw
        exact keyRecordEdges_part k r
      exact (addEdge_part ⟨_, h₆⟩).cons <|
        (hkeyRecords h₇).cons <|
        (hkeyRecords h₈).cons <|
        (addEdge_part ⟨_, h₁₁⟩).cons (addEdge_part ⟨_, h₁₂⟩).one
  | groupMembership =>
      obtain rfl := schema_eq_zero (k := .groupMembership) (by decide) hsupported
      obtain ⟨o, -, ho⟩ := (groupMembership_iff hm).mp hrecord
      obtain ⟨⟨-, -, -, -, -, -, -, -, -, h₁₀, -, h₆, h₁₁⟩, -⟩ := (groupMembership_fields_iff hm).mp ho
      exact (addEdge_part ⟨_, h₆⟩).cons <|
        (addEdge_part ⟨some _, h₁₀⟩).cons (addEdge_part ⟨_, h₁₁⟩).one
  | keyEnvelopeSet => exact .nil
  | changeRelation =>
      obtain rfl := schema_eq_zero (k := .changeRelation) (by decide) hsupported
      obtain ⟨o, -, ho⟩ := (changeRelation_iff hm).mp hrecord
      obtain ⟨⟨-, -, -, -, h₄, h₅, h₆, h₇⟩, -⟩ := (changeRelation_fields_iff hm).mp ho
      exact (addEdges_part ⟨_, h₄⟩).cons <|
        (addEdges_part ⟨_, h₅⟩).cons <|
        (addEdges_part ⟨_, h₆⟩).cons (addEdge_part ⟨some _, h₇⟩).one
  | conflictResolution =>
      simp only [validateShapes, conflictResolutionShape, Except.bind_eq_ok,
        Except.exists_unit_iff, oidField_eq_ok, typedField_eq_ok hm, typedRefSetField_eq_ok hm]
        at hshape
      obtain ⟨⟨_, h₃⟩, ⟨_, h₄⟩, -, -, -, ⟨_, -, h₈⟩, -⟩ := hshape
      exact (addEdge_part ⟨some _, h₃⟩).cons <|
        (addTypedEdge_part ⟨_, h₄⟩).cons (addTypedEdges_part ⟨_, h₈⟩).one
  | reviewEvidence => exact evidenceEdges_part hm hshape
  | approvalEvidence => exact evidenceEdges_part hm hshape
  | ciEvidence =>
      obtain ⟨hshape, -, ⟨_, h₁₄⟩, _, h₁₅⟩ := evidenceShape_ci.mp hshape
      exact (evidenceEdges_part hm hshape).append <|
        (addEdge_part ⟨some _, h₁₄⟩).cons (addEdge_part ⟨_, h₁₅⟩).one
  | policyDecisionEvidence => exact evidenceEdges_part hm hshape
  | projectionRules =>
      obtain rfl := schema_eq_zero (k := .projectionRules) (by decide) hsupported
      obtain ⟨o, -, ho⟩ := (projectionRules_iff hm).mp hrecord
      obtain ⟨⟨-, -, -, -, -, -, h₄⟩, -⟩ := (projectionRules_fields_iff hm).mp ho
      exact (addEdge_part ⟨_, h₄⟩).one
  | projectionProof =>
      obtain rfl := schema_eq_zero (k := .projectionProof) (by decide) hsupported
      obtain ⟨o, -, ho⟩ := (projectionProof_iff hm).mp hrecord
      obtain ⟨⟨-, -, -, -, h₄, h₅, h₆, h₇, -⟩, -⟩ := (projectionProof_fields_iff hm).mp ho
      exact (addEdge_part ⟨some _, h₄⟩).cons <|
        (addEdge_part ⟨some _, h₅⟩).cons <|
        (addEdge_part ⟨some _, h₆⟩).cons (addEdge_part ⟨some _, h₇⟩).one
  | buildProvenance =>
      simp only [validateShapes, buildProvenanceShape, Except.bind_eq_ok, Except.exists_unit_iff,
        forM_eq_ok, List.forall_mem_cons, List.not_mem_nil, false_implies, implies_true,
        and_true, oidField_eq_ok, typedRefSetField_eq_ok hm, idSetField_eq_ok hm] at hshape
      obtain ⟨⟨⟨_, h₃⟩, ⟨_, h₄⟩, _, h₅⟩, ⟨_, -, h₆⟩, ⟨_, -, -, h₇⟩, -⟩ := hshape
      exact (addEdge_part ⟨some _, h₃⟩).cons <|
        (addEdge_part ⟨some _, h₄⟩).cons <|
        (addEdge_part ⟨some _, h₅⟩).cons <|
        (addTypedEdges_part ⟨_, h₆⟩).cons (addEdges_part ⟨_, h₇⟩).one
  | artifact =>
      obtain rfl := schema_eq_zero (k := .artifact) (by decide) hsupported
      obtain ⟨o, -, ho⟩ := (artifact_iff hm).mp hrecord
      obtain ⟨⟨-, -, -, -, -, -, -, -, h₈⟩, -⟩ := (artifact_fields_iff hm).mp ho
      exact (addEdge_part ⟨_, h₈⟩).one
  | operationPayload =>
      obtain rfl := schema_eq_zero (k := .operationPayload) (by decide) hsupported
      obtain ⟨o, -, ho⟩ := (operationPayload_iff hm).mp hrecord
      obtain ⟨⟨-, -, -, -, h₄, -⟩, -⟩ := (operationPayload_fields_iff hm).mp ho
      exact (addTypedEdges_part ⟨_, h₄⟩).one
  | view =>
      obtain rfl := schema_eq_zero (k := .view) (by decide) hsupported
      obtain ⟨o, -, ho⟩ := (view_iff hm).mp hrecord
      obtain ⟨⟨-, -, -, -, -, h₅, h₆, h₇, -⟩, -⟩ := (view_fields_iff hm).mp ho
      refine (addEdges_part ⟨_, h₅⟩).cons <| Part.cons
        (nestedEdges_part [⟨.viewLineState, [.key 2], .id (some .lineState)⟩] h₆ fun w hw => ?_)
        (addEdge_part ⟨some _, h₇⟩).one
      obtain ⟨l, -, rfl⟩ := List.mem_map.mp hw
      exact viewLineEdges_part l
  | migration =>
      simp only [validateShapes, migrationShape, Except.bind_eq_ok, Except.exists_unit_iff,
        Except.ite_error_eq_ok, mappingsField_eq_ok hm, oidField_eq_ok] at hshape
      obtain ⟨_, -, _, -, _, -, _, -, -, ⟨mappings, -, h₅⟩, ⟨_, h₆⟩, -⟩ := hshape
      refine Part.cons (nestedEdges_part
        [⟨.migrationOldObject, [.key 0], .id none⟩, ⟨.migrationNewObject, [.key 1], .id none⟩]
        h₅ fun w hw => ?_) (addEdge_part ⟨some _, h₆⟩).one
      obtain ⟨i, -, rfl⟩ := List.mem_map.mp hw
      exact mappingEdges_part i
  | ruleset =>
      obtain rfl := schema_eq_zero (k := .ruleset) (by decide) hsupported
      obtain ⟨o, -, ho⟩ := (ruleset_iff hm).mp hrecord
      obtain ⟨⟨-, -, -, -, -, -, -, h₅⟩, -⟩ := (ruleset_fields_iff hm).mp ho
      exact (addEdge_part ⟨_, h₅⟩).one

end Kinds

end RGit
