/-
RGit/Objects/ExpressIdentity.lean

Key envelopes, identities, views and migrations: records with a list whose
loop remembers the keys it has met.
-/
import RGit.Objects.ExpressRegistry

namespace RGit

open Discriminant (code)

open Decode CanonicalObject

section Kinds

variable [Unicode] {limits : CanonicalLimits} {m : Entries} {v : Value}

/-! ### Key envelopes -/

omit [Unicode] in
@[simp] theorem norm_recipient (r : RecipientEnvelope) : r.value.norm = r.value :=
  norm_map_of_sorted (by simp [SortedKeys]) (by simp)

omit [Unicode] in
@[simp] theorem norm_recipients (rs : List RecipientEnvelope) :
    (Value.array (rs.map RecipientEnvelope.value)).norm =
      .array (rs.map RecipientEnvelope.value) :=
  norm_array_map norm_recipient rs

theorem recipientShape_eq_ok (hv : Admitted limits v) :
    recipientShape v = .ok () ↔
      ∃ r : RecipientEnvelope, r.validate = .ok () ∧ v = r.value := by
  simp only [recipientShape, Except.bind_eq_ok, Except.exists_unit_iff, exactMap_eq_ok,
    field_eq_ok, bytes_eq_ok, fixedNonzeroBytes_eq_ok, Except.ite_error_eq_ok, and_true,
    RecipientEnvelope.validate, not_or]
  constructor
  · rintro ⟨m, ⟨rfl, -, hkeys⟩, _, h₀, hprincipal, _, h₁, ⟨key, hkey, rfl⟩, _, h₂, envelope, rfl,
      henvelope⟩
    obtain ⟨p, hp, rfl⟩ := (principal_eq_ok (hv.of_lookup h₀)).mp hprincipal
    refine ⟨⟨p, key, envelope⟩, ⟨hp, hkey, henvelope⟩, ?_⟩
    rw [← norm_recipient, RecipientEnvelope.value,
      map_eq_norm_iff hv [0, 1, 2] (by simp) (by simp)]
    exact ⟨by simp [lookupKey_cons, h₀, h₁, h₂, RGit.stable], hkeys⟩
  · rintro ⟨r, ⟨hp, hkey, henvelope⟩, rfl⟩
    exact ⟨_, ⟨rfl, by simp [HasKeys, lookupKey_cons]⟩, _, rfl,
      (principal_eq_ok (hv.of_lookup (k := 0) rfl)).mpr ⟨r.recipient, hp, rfl⟩, _, rfl,
      ⟨r.keyId, hkey, rfl⟩, _, rfl, _, rfl, henvelope⟩

theorem keyEnvelopeSet_fields_iff (hm : Admitted limits (.map m)) {o : KeyEnvelopeSet} :
    Value.map m = (canonicalValue o).norm ↔
      (lookupKey m 0 = some (.unsigned (code ObjectKind.keyEnvelopeSet)) ∧
        lookupKey m 1 = some (.unsigned 0) ∧ lookupKey m 3 = some (.unsigned o.epoch) ∧
        lookupKey m 4 = some (.unsigned (code o.suite)) ∧
        lookupKey m 5 = some (.array (o.recipients.map RecipientEnvelope.value)) ∧
        lookupKey m 2 = o.policyRef.map PolicyRef.value) ∧
      ∀ e ∈ m, e.1 ∈ [0, 1, 3, 4, 5] ++ [2] := by
  rw [canonicalValue, map_eq_norm_iff hm ([0, 1, 3, 4, 5] ++ [2])
    (by cases h : o.policyRef <;>
      simp [fields, optionalHeader, optional, h])
    (by cases h : o.policyRef <;>
      simp [fields, optionalHeader, optional, h])]
  simp [fields, optionalHeader, lookupKey_cons,
    lookupKey_optional, Function.comp_def, lookupKey_append]

theorem keyEnvelopeSet_validate_iff {o : KeyEnvelopeSet} :
    validate o = .ok () ↔
      (o.epoch == 0) = o.policyRef.isNone ∧ o.recipients ≠ [] ∧
        (∀ r ∈ o.recipients, r.validate = .ok ()) ∧
        SortedValues (o.recipients.map RecipientEnvelope.value) := by
  simp only [validate, Except.ite_error_eq_ok, ne_eq, not_not, Except.bind_eq_ok,
    Except.exists_unit_iff, forM_eq_ok, sortedEncodings_iff]

theorem keyEnvelopeSet_iff (hm : Admitted limits (.map m)) :
    ValidRecord .keyEnvelopeSet 0 m ↔ Expresses KeyEnvelopeSet m := by
  constructor
  · rintro ⟨h₀, h₁, hvalid⟩
    obtain ⟨⟨-, hkeys⟩, hpolicy, hshape⟩ := (validateFields_eq_ok hm).mp hvalid
    obtain ⟨policy, h₂⟩ := policyHeader_optional hpolicy
    simp only [validateShapes, keyEnvelopeSetShape, Except.bind_eq_ok, Except.exists_unit_iff,
      field_eq_ok, unsigned_eq_ok, Except.ite_error_eq_ok, ne_eq, not_not, array_eq_ok,
      forM_eq_ok] at hshape
    obtain ⟨_, h₃, epoch, rfl, hepoch, _, h₄, _, rfl, rfl,
      _, h₅, _, rfl, hne, hall, hsorted⟩ := hshape
    obtain ⟨recipients, hrecipients, rfl⟩ := forall_exists_image_iff.mp fun v hv =>
      (recipientShape_eq_ok ((hm.of_lookup h₅).of_mem hv)).mp (hall v hv)
    refine ⟨⟨policy, epoch, .x25519HkdfSha256Aes256Gcm, recipients⟩, ?_,
      (keyEnvelopeSet_fields_iff hm).mpr ⟨⟨h₀, h₁, h₃, h₄, h₅, h₂⟩, hkeys⟩⟩
    exact keyEnvelopeSet_validate_iff.mpr ⟨by simpa [h₂] using hepoch, by simpa using hne,
      hrecipients, (ensureSortedUniqueValues_map norm_recipient).mp hsorted⟩
  · rintro ⟨o, hvalid, ho⟩
    obtain ⟨⟨h₀, h₁, h₃, h₄, h₅, h₂⟩, hkeys⟩ :=
      (keyEnvelopeSet_fields_iff hm).mp ho
    obtain ⟨hepoch, hne, hrecipients, hsorted⟩ := keyEnvelopeSet_validate_iff.mp hvalid
    refine ⟨h₀, h₁, (validateFields_eq_ok hm).mpr
      ⟨⟨by simp [fieldSets, *], hkeys⟩, policyHeader_of_optional rfl h₂, ?_⟩⟩
    simp only [validateShapes, keyEnvelopeSetShape, Except.bind_eq_ok, Except.exists_unit_iff,
      field_eq_ok, unsigned_eq_ok, Except.ite_error_eq_ok, ne_eq, not_not, array_eq_ok,
      forM_eq_ok]
    refine ⟨_, h₃, _, rfl, by simpa [h₂] using hepoch, _, h₄, _, rfl, by cases o.suite; rfl,
      _, h₅, _, rfl, by simpa using hne, ?_, (ensureSortedUniqueValues_map norm_recipient).mpr hsorted⟩
    intro v hv
    obtain ⟨r, hr, rfl⟩ := List.mem_map.mp hv
    exact (recipientShape_eq_ok ((hm.of_lookup h₅).of_mem hv)).mpr ⟨r, hrecipients r hr, rfl⟩

/-! ### Identities -/

omit [Unicode] in
@[simp] theorem norm_publicKeys (rs : List PublicKeyRecord) :
    (Value.array (rs.map PublicKeyRecord.value)).norm = .array (rs.map PublicKeyRecord.value) :=
  norm_array_map norm_publicKey rs

/-- One pass of a key loop, on the key record itself. -/
def keyRecordStep (k : UInt64) (algorithm : PublicKeyAlgorithm) (seen : List Bytes)
    (r : PublicKeyRecord) : DecodeResult (List Bytes) :=
  if r.validate = .ok () ∧ r.algorithm = algorithm ∧ r.keyId.1 ∉ seen then
    .ok (r.keyId.1 :: seen)
  else .error (.field k)

theorem keyStep_eq_ok (algorithm : PublicKeyAlgorithm) (hv : Admitted limits v) {k : UInt64}
    (s s' : List Bytes) :
    keyStep k (code algorithm) s v = .ok s' ↔
      ∃ r : PublicKeyRecord, v = r.value ∧ keyRecordStep k algorithm s r = .ok s' := by
  simp only [keyStep, Except.bind_eq_ok, Prod.exists, publicKey_eq_ok hv,
    Except.ite_error_eq_ok, not_or, ne_eq, not_not, keyRecordStep,
    Except.ite_else_error_eq_ok, Except.ok.injEq]
  constructor
  · rintro ⟨_, _, ⟨r, hvalid, rfl, rfl, rfl⟩, ⟨halg, hfresh⟩, rfl⟩
    exact ⟨r, rfl, ⟨hvalid, Discriminant.code_injective (by decide) halg, hfresh⟩, rfl⟩
  · rintro ⟨r, rfl, ⟨hvalid, rfl, hfresh⟩, rfl⟩
    exact ⟨_, _, ⟨r, hvalid, rfl, rfl, rfl⟩, ⟨rfl, hfresh⟩, rfl⟩

omit [Unicode] in
theorem foldlM_keyRecordStep_eq_ok {k : UInt64} {algorithm : PublicKeyAlgorithm}
    {rs : List PublicKeyRecord} {s s' : List Bytes} :
    rs.foldlM (keyRecordStep k algorithm) s = .ok s' ↔
      (∀ r ∈ rs, r.validate = .ok () ∧ r.algorithm = algorithm) ∧
        ((rs.map fun r => r.keyId.1).Nodup ∧ ∀ r ∈ rs, r.keyId.1 ∉ s) ∧
        (rs.map fun r => r.keyId.1).reverse ++ s = s' := by
  have hstep : ∀ (s : List Bytes) (r : PublicKeyRecord) (s' : List Bytes),
      keyRecordStep k algorithm s r = .ok s' ↔
        ((r.validate = .ok () ∧ r.algorithm = algorithm) ∧ r.keyId.1 ∉ s) ∧
          r.keyId.1 :: s = s' := by
    intro s r s'
    simp only [keyRecordStep, Except.ite_else_error_eq_ok, Except.ok.injEq, and_assoc]
  rw [foldlM_eq_ok hstep, walk_and_left, walk_seen fun r : PublicKeyRecord => r.keyId.1,
    foldl_seen, and_assoc]

omit [Unicode] in
/-- The two key loops together keep the key identifiers apart. -/
theorem keyLoops_iff {signing encryption : List PublicKeyRecord} :
    (∃ s, signing.foldlM (keyRecordStep 7 .ed25519) [] = .ok s ∧
        ∃ s', encryption.foldlM (keyRecordStep 8 .x25519) s = .ok s') ↔
      (∀ r ∈ signing, r.validate = .ok () ∧ r.algorithm = .ed25519) ∧
        (∀ r ∈ encryption, r.validate = .ok () ∧ r.algorithm = .x25519) ∧
        ((signing ++ encryption).map PublicKeyRecord.keyId).Nodup := by
  have hids : ∀ rs : List PublicKeyRecord,
      (rs.map PublicKeyRecord.keyId).Nodup ↔ (rs.map fun r => r.keyId.1).Nodup := by
    intro rs
    have hval : (rs.map fun r => r.keyId.1) = (rs.map PublicKeyRecord.keyId).map (·.1) := by
      rw [List.map_map]
      rfl
    rw [hval, List.nodup_map_iff Subtype.val_injective]
  rw [hids]
  simp only [foldlM_keyRecordStep_eq_ok, List.map_append, List.nodup_append]
  constructor
  · rintro ⟨_, ⟨hs, ⟨hsn, -⟩, rfl⟩, _, he, ⟨hen, hapart⟩, rfl⟩
    refine ⟨hs, he, hsn, hen, ?_⟩
    intro a ha b hb hab
    obtain ⟨r, hr, rfl⟩ := List.mem_map.mp hb
    exact hapart r hr (by simpa [hab] using ha)
  · rintro ⟨hs, he, hsn, hen, hapart⟩
    refine ⟨_, ⟨hs, ⟨hsn, by simp⟩, rfl⟩, _, he, ⟨hen, fun r hr hmem => ?_⟩, rfl⟩
    simp only [List.append_nil, List.mem_reverse] at hmem
    exact hapart _ hmem _ (List.mem_map_of_mem hr) rfl

/-- The presence rules of an identity, on the optional links themselves. -/
def IdentityLinks (version : UInt64) (policy : Option PolicyRef)
    (previous activation : Option ObjectId) : Prop :=
  (version == 0) = (previous.isNone && activation.isNone && policy.isNone) ∧
    (version ≠ 0 → policy.isSome ∧ previous.isSome ∧ activation.isSome)

omit [Unicode] in
theorem identityLinks_eq_ok {version : UInt64} {policy : Option PolicyRef}
    {previous activation : Option ObjectId}
    (h₂ : lookupKey m 2 = policy.map PolicyRef.value)
    (h₆ : lookupKey m 6 = previous.map RGit.oid)
    (h₁₁ : lookupKey m 11 = activation.map RGit.oid) :
    identityLinks m version = .ok () ↔ IdentityLinks version policy previous activation := by
  have hpos : version > 0 ↔ version ≠ 0 := by
    rw [gt_iff_lt, UInt64.pos_iff_ne_zero]
  simp only [identityLinks, optionalField, h₂, h₆, h₁₁, Except.ite_error_eq_ok, hpos,
    IdentityLinks]
  cases policy <;> cases previous <;> cases activation <;> simp

omit [Unicode] in
theorem optional_keys {ks : List UInt64} (h : (m.map (·.1)).Sublist ks) (k : UInt64)
    (o : Option Value) : ((optional m k o).map (·.1)).Sublist (ks ++ [k]) := by
  cases o with
  | none => exact h.trans (List.sublist_append_left _ _)
  | some v =>
      rw [optional, List.map_append]
      exact h.append (List.Sublist.refl _)

/-- The keys an identity can have, in the order they are pushed. -/
theorem identity_keys (o : Identity) :
    ((fields o).map (·.1)).Sublist
      ([0, 1] ++ [2] ++ [3, 4, 5, 7, 8, 9, 10] ++ [6] ++ [11] ++ [12] ++ [13]) := by
  simp only [fields, List.map_append]
  refine List.Sublist.append (optional_keys (optional_keys (optional_keys ?_ _ _) _ _) _ _)
    (List.Sublist.refl _)
  rw [List.map_append]
  exact (optional_keys (List.Sublist.refl _) _ _).append (List.Sublist.refl _)

theorem identity_fields_iff (hm : Admitted limits (.map m)) {o : Identity} :
    Value.map m = (canonicalValue o).norm ↔
      (lookupKey m 0 = some (.unsigned (code ObjectKind.identity)) ∧
        lookupKey m 1 = some (.unsigned 0) ∧
        lookupKey m 3 = some (.unsigned (code o.subjectKind)) ∧
        lookupKey m 4 = some (stable o.subject) ∧ lookupKey m 5 = some (.unsigned o.version) ∧
        lookupKey m 7 = some (.array (o.signingKeys.map PublicKeyRecord.value)) ∧
        lookupKey m 8 = some (.array (o.encryptionKeys.map PublicKeyRecord.value)) ∧
        lookupKey m 9 = some (stable o.issuer) ∧
        lookupKey m 10 = some (.unsigned (code o.status)) ∧
        lookupKey m 13 = some (signatureArray o.signatures) ∧
        lookupKey m 2 = o.policyRef.map PolicyRef.value ∧
        lookupKey m 6 = o.previous.map RGit.oid ∧
        lookupKey m 11 = o.activationOperation.map RGit.oid ∧
        lookupKey m 12 = o.notAfterOperation.map RGit.oid) ∧
      ∀ e ∈ m, e.1 ∈ [0, 1, 3, 4, 5, 7, 8, 9, 10, 13] ++ [2, 6, 11, 12] := by
  rw [canonicalValue, map_eq_norm_iff hm ([0, 1, 3, 4, 5, 7, 8, 9, 10, 13] ++ [2, 6, 11, 12])
    ((identity_keys o).nodup (by decide)) (List.Subset.trans (identity_keys o).subset (by decide))]
  simp [fields, Identity.unsignedMap, optionalHeader, lookupKey_cons,
    lookupKey_optional, Function.comp_def, lookupKey_append, RGit.stable]

theorem identity_validate_iff {o : Identity} :
    validate o = .ok () ↔
      IdentityLinks o.version o.policyRef o.previous o.activationOperation ∧
        o.signingKeys ≠ [] ∧
        ((∀ r ∈ o.signingKeys, r.validate = .ok () ∧ r.algorithm = .ed25519) ∧
          (∀ r ∈ o.encryptionKeys, r.validate = .ok () ∧ r.algorithm = .x25519) ∧
          ((o.signingKeys ++ o.encryptionKeys).map PublicKeyRecord.keyId).Nodup) ∧
        SortedValues (o.signingKeys.map PublicKeyRecord.value) ∧
        SortedValues (o.encryptionKeys.map PublicKeyRecord.value) ∧
        checkSignatures o.signatures .identity = .ok () := by
  have hlinks : IdentityLinks o.version o.policyRef o.previous o.activationOperation ↔
      (o.version == 0) = o.linksAbsent ∧
        ¬(!(o.version == 0) && (o.policyRef.isNone || o.previous.isNone ||
          o.activationOperation.isNone)) = true := by
    rw [IdentityLinks, Identity.linksAbsent]
    cases o.policyRef <;> cases o.previous <;> cases o.activationOperation <;> simp
  have hcount := countDistinct_eq_length_iff
    (l := (o.signingKeys ++ o.encryptionKeys).map PublicKeyRecord.keyId)
  rw [List.length_map] at hcount
  simp only [validate, Identity.validate, Except.ite_error_eq_ok, Except.bind_eq_ok,
    Except.exists_unit_iff, forM_eq_ok, sortedEncodings_iff, ne_eq, not_not, hcount, hlinks,
    Bool.not_eq_true, Bool.or_eq_false_iff, List.any_eq_false, bne_iff_ne, List.mem_append,
    List.forall_mem_cons, List.not_mem_nil, false_implies, implies_true, and_true, or_imp,
    forall_and]
  tauto

theorem identity_iff (hm : Admitted .metadata (.map m)) :
    ValidRecord .identity 0 m ↔ Expresses Identity m := by
  constructor
  · rintro ⟨h₀, h₁, hvalid⟩
    obtain ⟨⟨-, hkeys⟩, hpolicy, hshape⟩ := (validateFields_eq_ok hm).mp hvalid
    obtain ⟨policy, h₂⟩ := policyHeader_optional hpolicy
    simp only [validateShapes, identityShape, Except.bind_eq_ok, Except.exists_unit_iff,
      enumField_eq_ok IdentitySubjectKind 1 rfl rfl (by decide), stableField_eq_ok, field_eq_ok,
      unsigned_eq_ok, optionalOidField_eq_ok, array_eq_ok, Except.ite_error_eq_ok,
      enumField_eq_ok IdentityStatus 2 rfl rfl (by decide), signatureSetField_eq_ok hm] at hshape
    obtain ⟨⟨kind, h₃⟩, ⟨subject, h₄⟩, _, h₅, version, rfl, hlinks, ⟨previous, h₆⟩,
      _, h₇, _, rfl, hne, _, h₈, _, rfl, s, hs, s', hs', hsigning, hencryption, ⟨issuer, h₉⟩,
      ⟨status, h₁₀⟩, ⟨activation, h₁₁⟩, ⟨notAfter, h₁₂⟩, ⟨signatures, hsignatures, h₁₃⟩⟩ := hshape
    obtain ⟨signing, rfl, hsigned⟩ := (foldlM_image fun v hv =>
      keyStep_eq_ok .ed25519 ((hm.of_lookup h₇).of_mem hv)).mp hs
    obtain ⟨encryption, rfl, hencrypted⟩ := (foldlM_image fun v hv =>
      keyStep_eq_ok .x25519 ((hm.of_lookup h₈).of_mem hv)).mp hs'
    refine ⟨⟨policy, kind, subject, version, previous, signing, encryption, issuer, status,
      activation, notAfter, signatures⟩, ?_,
      (identity_fields_iff hm).mpr ⟨⟨h₀, h₁, h₃, h₄, h₅, h₇, h₈, h₉, h₁₀, h₁₃, h₂, h₆, h₁₁,
        h₁₂⟩, hkeys⟩⟩
    exact identity_validate_iff.mpr ⟨(identityLinks_eq_ok h₂ h₆ h₁₁).mp hlinks,
      by simpa using hne, keyLoops_iff.mp ⟨s, hsigned, s', hencrypted⟩,
      (ensureSortedUniqueValues_map norm_publicKey).mp hsigning,
      (ensureSortedUniqueValues_map norm_publicKey).mp hencryption, hsignatures⟩
  · rintro ⟨o, hvalid, ho⟩
    obtain ⟨⟨h₀, h₁, h₃, h₄, h₅, h₇, h₈, h₉, h₁₀, h₁₃, h₂, h₆, h₁₁, h₁₂⟩, hkeys⟩ :=
      (identity_fields_iff hm).mp ho
    obtain ⟨hlinks, hne, hkeyed, hsigning, hencryption, hsignatures⟩ :=
      identity_validate_iff.mp hvalid
    obtain ⟨s, hs, s', hs'⟩ := keyLoops_iff.mpr hkeyed
    have hsigned := (foldlM_image fun v hv =>
      keyStep_eq_ok .ed25519 ((hm.of_lookup h₇).of_mem hv)).mpr ⟨_, rfl, hs⟩
    have hencrypted := (foldlM_image fun v hv =>
      keyStep_eq_ok .x25519 ((hm.of_lookup h₈).of_mem hv)).mpr ⟨_, rfl, hs'⟩
    rw [← ensureSortedUniqueValues_map (k := 7) norm_publicKey] at hsigning
    rw [← ensureSortedUniqueValues_map (k := 8) norm_publicKey] at hencryption
    refine ⟨h₀, h₁, (validateFields_eq_ok hm).mpr
      ⟨⟨by simp [fieldSets, *], hkeys⟩, policyHeader_of_optional rfl h₂, ?_⟩⟩
    simp only [validateShapes, identityShape, Except.bind_eq_ok, Except.exists_unit_iff,
      enumField_eq_ok IdentitySubjectKind 1 rfl rfl (by decide), stableField_eq_ok, field_eq_ok,
      unsigned_eq_ok, optionalOidField_eq_ok, array_eq_ok, Except.ite_error_eq_ok,
      enumField_eq_ok IdentityStatus 2 rfl rfl (by decide), signatureSetField_eq_ok hm]
    exact ⟨⟨_, h₃⟩, ⟨_, h₄⟩, _, h₅, _, rfl, (identityLinks_eq_ok h₂ h₆ h₁₁).mpr hlinks, ⟨_, h₆⟩,
      _, h₇, _, rfl, by simpa using hne, _, h₈, _, rfl, s, hsigned, s', hencrypted, hsigning, hencryption,
      ⟨_, h₉⟩, ⟨_, h₁₀⟩, ⟨_, h₁₁⟩, ⟨_, h₁₂⟩, ⟨_, hsignatures, h₁₃⟩⟩

/-! ### Views -/

omit [Unicode] in
@[simp] theorem norm_lineGeneration (l : LineGeneration) : l.value.norm = l.value :=
  norm_map_of_sorted (by simp [SortedKeys]) (by simp)

omit [Unicode] in
@[simp] theorem norm_lineGenerations (ls : List LineGeneration) :
    (Value.array (ls.map LineGeneration.value)).norm = .array (ls.map LineGeneration.value) :=
  norm_array_map norm_lineGeneration ls

/-- One pass of the line loop, on the line generation itself. -/
def lineGenerationStep (seen : List Bytes) (l : LineGeneration) : DecodeResult (List Bytes) :=
  if l.lineId.1 ∈ seen then .error (.field 6) else .ok (l.lineId.1 :: seen)

theorem viewLineStep_eq_ok (hv : Admitted limits v) (s s' : List Bytes) :
    viewLineStep s v = .ok s' ↔
      ∃ l : LineGeneration, v = l.value ∧ lineGenerationStep s l = .ok s' := by
  simp only [viewLineStep, Except.bind_eq_ok, Except.exists_unit_iff, exactMap_eq_ok,
    field_eq_ok, fixedBytes_eq_ok, bytes_eq_ok, Except.ite_error_eq_ok, unsigned_eq_ok,
    oid_eq_ok, lineGenerationStep, Except.ok.injEq]
  constructor
  · rintro ⟨m, ⟨rfl, -, hkeys⟩, _, h₀, ⟨line, rfl⟩, _, h₀', _, rfl, hfresh, _, h₁, generation, rfl,
      _, h₂, state, rfl, rfl⟩
    rw [h₀] at h₀'
    cases h₀'
    refine ⟨⟨line, generation, state⟩, ?_, hfresh, rfl⟩
    rw [← norm_lineGeneration, LineGeneration.value,
      map_eq_norm_iff hv [0, 1, 2] (by simp) (by simp)]
    exact ⟨by simp [lookupKey_cons, h₀, h₁, h₂], hkeys⟩
  · rintro ⟨l, rfl, hfresh, rfl⟩
    exact ⟨_, ⟨rfl, by simp [HasKeys, lookupKey_cons]⟩, _, rfl, ⟨l.lineId, rfl⟩, _, rfl, _, rfl,
      hfresh, _, rfl, _, rfl, _, rfl, _, rfl, rfl⟩

omit [Unicode] in
theorem foldlM_lineGenerationStep_iff {ls : List LineGeneration} :
    (∃ s, ls.foldlM lineGenerationStep [] = .ok s) ↔
      (ls.map LineGeneration.lineId).Nodup := by
  have hstep : ∀ (s : List Bytes) (l : LineGeneration) (s' : List Bytes),
      lineGenerationStep s l = .ok s' ↔ l.lineId.1 ∉ s ∧ l.lineId.1 :: s = s' := by
    intro s l s'
    simp [lineGenerationStep]
  have hval : (ls.map fun l => l.lineId.1) = (ls.map LineGeneration.lineId).map (·.1) := by
    rw [List.map_map]
    rfl
  simp only [foldlM_eq_ok hstep, exists_and_left, exists_eq', and_true]
  rw [walk_seen fun l : LineGeneration => l.lineId.1, hval,
    List.nodup_map_iff Subtype.val_injective]
  simp

omit [Unicode] in
/-- Of two generations of different lines, the bytes are ordered as the lines. -/
theorem compare_raw_lineGeneration {l l' : LineGeneration} (h : l.lineId ≠ l'.lineId) :
    compare l.value.raw l'.value.raw = compare l l' := by
  have hraw : ∀ l : LineGeneration, l.value.raw =
      (headBytes 5 3 ++ headBytes 0 0 ++ headBytes 2 16) ++ (l.lineId.1 ++
        (rawEntry (1, .unsigned l.generation) ++ rawEntry (2, RGit.oid l.state))) := by
    intro l
    rw [LineGeneration.value, raw_map_sorted (by simp [SortedKeys])]
    simp [rawEntry, Value.raw, stable, l.lineId.2]
  have hne : compare l.lineId.1 l'.lineId.1 ≠ .eq := fun heq =>
    h (Subtype.ext (Std.LawfulEqCmp.eq_of_compare heq))
  rw [hraw, hraw, compare_append_left, compare_append (by rw [l.lineId.2, l'.lineId.2])]
  show _ = compareLex _ _ l l'
  rw [compareLex, compareOn]
  cases hcmp : compare l.lineId.1 l'.lineId.1 with
  | lt => rfl
  | eq => exact absurd hcmp hne
  | gt => rfl

omit [Unicode] in
theorem outOfOrder_lineGenerations {ls : List LineGeneration}
    (h : (ls.map LineGeneration.lineId).Nodup) :
    outOfOrder ((ls.map LineGeneration.value).map Value.raw) = outOfOrder ls := by
  unfold outOfOrder
  rw [List.map_map]
  refine anyWindow_map fun a ha b hb => ?_
  by_cases hab : a.lineId = b.lineId
  · obtain rfl : a = b := List.inj_on_of_nodup_map h ha hb hab
    have hself : compare a a = .eq := by
      show compareLex _ _ a a = .eq
      simp [compareLex, compareOn]
    rw [hself, Std.ReflOrd.compare_self]
  · rw [Function.comp_apply, Function.comp_apply, compare_raw_lineGeneration hab]

theorem viewLinesField_eq_ok (hm : Admitted .metadata (.map m)) :
    viewLinesField m = .ok () ↔
      ∃ ls : List LineGeneration,
        ((ls.map LineGeneration.lineId).Nodup ∧ outOfOrder ls = false) ∧
          lookupKey m 6 = some (.array (ls.map LineGeneration.value)) := by
  simp only [viewLinesField, Except.bind_eq_ok, field_eq_ok, array_eq_ok]
  constructor
  · rintro ⟨_, h₆, vs, rfl, s, hs, hsorted⟩
    obtain ⟨ls, rfl, hls⟩ := (foldlM_image fun v hv =>
      viewLineStep_eq_ok ((hm.of_lookup h₆).of_mem hv)).mp hs
    have hnodup := foldlM_lineGenerationStep_iff.mp ⟨s, hls⟩
    rw [ensureSortedUniqueValues_eq_ok (hm.of_lookup h₆), outOfOrder_lineGenerations hnodup]
      at hsorted
    exact ⟨ls, ⟨hnodup, hsorted⟩, h₆⟩
  · rintro ⟨ls, ⟨hnodup, hsorted⟩, h₆⟩
    obtain ⟨s, hs⟩ := foldlM_lineGenerationStep_iff.mpr hnodup
    refine ⟨_, h₆, _, rfl, s, (foldlM_image fun v hv =>
      viewLineStep_eq_ok ((hm.of_lookup h₆).of_mem hv)).mpr ⟨ls, rfl, hs⟩, ?_⟩
    rwa [ensureSortedUniqueValues_eq_ok (hm.of_lookup h₆), outOfOrder_lineGenerations hnodup]

theorem view_fields_iff (hm : Admitted limits (.map m)) {o : View} :
    Value.map m = (canonicalValue o).norm ↔
      (lookupKey m 0 = some (.unsigned (code ObjectKind.view)) ∧
        lookupKey m 1 = some (.unsigned 0) ∧ lookupKey m 2 = some o.policyRef.value ∧
        lookupKey m 3 = some (stable o.actor) ∧ lookupKey m 4 = some (stable o.device) ∧
        lookupKey m 5 = some (RGit.oidArray o.policies) ∧
        lookupKey m 6 = some (.array (o.lines.map LineGeneration.value)) ∧
        lookupKey m 7 = some (RGit.oid o.projectedManifest) ∧
        lookupKey m 8 = some (.bytes o.validityConstraints) ∧
        lookupKey m 9 = some (signatureArray o.signatures)) ∧
      ∀ e ∈ m, e.1 ∈ [0, 1, 2, 3, 4, 5, 6, 7, 8, 9] ++ [] := by
  rw [canonicalValue, map_eq_norm_iff hm ([0, 1, 2, 3, 4, 5, 6, 7, 8, 9] ++ [])
    (by simp [fields, View.unsignedMap, optionalHeader, optional])
    (by simp [fields, View.unsignedMap, optionalHeader, optional])]
  simp [fields, View.unsignedMap, optionalHeader, optional, lookupKey_cons]

theorem view_validate_iff {o : View} :
    validate o = .ok () ↔
      SortedIds o.policies ∧ outOfOrder o.lines = false ∧
        (o.lines.map LineGeneration.lineId).Nodup ∧
        isCanonicalMap o.validityConstraints = true ∧
        checkSignatures o.signatures .view = .ok () := by
  have hcount := countDistinct_eq_length_iff (l := o.lines.map LineGeneration.lineId)
  rw [List.length_map] at hcount
  simp only [validate, View.validate, Except.bind_eq_ok, Except.exists_unit_iff,
    sortedUniqueIds_eq_ok, Except.ite_error_eq_ok, Bool.not_eq_true, ne_eq, not_not, hcount,
    validateCanonicalMap_eq_ok]

theorem view_iff (hm : Admitted .metadata (.map m)) :
    ValidRecord .view 0 m ↔ Expresses View m := by
  constructor
  · rintro ⟨h₀, h₁, hvalid⟩
    obtain ⟨⟨-, hkeys⟩, hpolicy, hshape⟩ := (validateFields_eq_ok hm).mp hvalid
    obtain ⟨policy, h₂⟩ := hpolicy (.inl rfl)
    simp only [validateShapes, viewShape, Except.bind_eq_ok, Except.exists_unit_iff,
      stableField_eq_ok, idSetField_eq_ok hm, viewLinesField_eq_ok hm, oidField_eq_ok,
      canonicalMapField_eq_ok hm, signatureSetField_eq_ok hm] at hshape
    obtain ⟨⟨actor, h₃⟩, ⟨device, h₄⟩, ⟨policies, hpolicies, -, h₅⟩,
      ⟨lines, ⟨hnodup, hsorted⟩, h₆⟩, ⟨manifest, h₇⟩, ⟨constraints, hmap, h₈⟩,
      ⟨signatures, hsignatures, h₉⟩⟩ := hshape
    refine ⟨⟨policy, actor, device, policies, lines, manifest, constraints, signatures⟩, ?_,
      (view_fields_iff hm).mpr ⟨⟨h₀, h₁, h₂, h₃, h₄, h₅, h₆, h₇, h₈, h₉⟩, hkeys⟩⟩
    exact view_validate_iff.mpr ⟨hpolicies, hsorted, hnodup, hmap, hsignatures⟩
  · rintro ⟨o, hvalid, ho⟩
    obtain ⟨⟨h₀, h₁, h₂, h₃, h₄, h₅, h₆, h₇, h₈, h₉⟩, hkeys⟩ :=
      (view_fields_iff hm).mp ho
    obtain ⟨hpolicies, hsorted, hnodup, hmap, hsignatures⟩ := view_validate_iff.mp hvalid
    refine ⟨h₀, h₁, (validateFields_eq_ok hm).mpr
      ⟨⟨by simp [fieldSets, *], hkeys⟩, fun _ => ⟨_, h₂⟩, ?_⟩⟩
    simp only [validateShapes, viewShape, Except.bind_eq_ok, Except.exists_unit_iff,
      stableField_eq_ok, idSetField_eq_ok hm, viewLinesField_eq_ok hm, oidField_eq_ok,
      canonicalMapField_eq_ok hm, signatureSetField_eq_ok hm]
    exact ⟨⟨_, h₃⟩, ⟨_, h₄⟩, ⟨_, hpolicies, by simp, h₅⟩, ⟨_, ⟨hnodup, hsorted⟩, h₆⟩, ⟨_, h₇⟩,
      ⟨_, hmap, h₈⟩, ⟨_, hsignatures, h₉⟩⟩

/-! ### Migrations -/

omit [Unicode] in
@[simp] theorem norm_idMapping (i : IdMapping) : i.value.norm = i.value :=
  norm_map_of_sorted (by simp [SortedKeys]) (by simp)

omit [Unicode] in
@[simp] theorem norm_idMappings (is : List IdMapping) :
    (Value.array (is.map IdMapping.value)).norm = .array (is.map IdMapping.value) :=
  norm_array_map norm_idMapping is

/-- One pass of the mapping loop, on the mapping itself. -/
def idMappingStep (seen : List ObjectId × List ObjectId) (i : IdMapping) :
    DecodeResult (List ObjectId × List ObjectId) :=
  if i.old ∈ seen.1 ∨ i.new ∈ seen.2 then .error (.field 5)
  else .ok (i.old :: seen.1, i.new :: seen.2)

theorem mappingStep_eq_ok (hv : Admitted limits v) (s s' : List ObjectId × List ObjectId) :
    mappingStep s v = .ok s' ↔
      ∃ i : IdMapping, v = i.value ∧ idMappingStep s i = .ok s' := by
  simp only [mappingStep, Except.bind_eq_ok, exactMap_eq_ok, field_eq_ok, oid_eq_ok,
    idMappingStep]
  constructor
  · rintro ⟨m, ⟨rfl, -, hkeys⟩, _, h₀, old, rfl, _, h₁, new, rfl, h⟩
    refine ⟨⟨old, new⟩, ?_, h⟩
    rw [← norm_idMapping, IdMapping.value, map_eq_norm_iff hv [0, 1] (by simp) (by simp)]
    exact ⟨by simp [lookupKey_cons, h₀, h₁], hkeys⟩
  · rintro ⟨i, rfl, h⟩
    exact ⟨_, ⟨rfl, by simp [HasKeys, lookupKey_cons]⟩, _, rfl, _, rfl, _, rfl, _, rfl, h⟩

omit [Unicode] in
theorem foldlM_idMappingStep_iff {is : List IdMapping} :
    (∃ s, is.foldlM idMappingStep ([], []) = .ok s) ↔
      (is.map IdMapping.old).Nodup ∧ (is.map IdMapping.new).Nodup := by
  have hstep : ∀ (s : List ObjectId × List ObjectId) (i : IdMapping) (s' : _),
      idMappingStep s i = .ok s' ↔
        (i.old ∉ s.1 ∧ i.new ∉ s.2) ∧ (i.old :: s.1, i.new :: s.2) = s' := by
    intro s i s'
    simp [idMappingStep]
  simp only [foldlM_eq_ok hstep, exists_and_left, exists_eq', and_true]
  rw [walk_prod (fun seen (i : IdMapping) => i.old ∉ seen) (fun seen i => i.old :: seen)
    (fun seen i => i.new ∉ seen) (fun seen i => i.new :: seen), walk_seen, walk_seen]
  simp

theorem mappingsField_eq_ok (hm : Admitted limits (.map m)) :
    mappingsField m = .ok () ↔
      ∃ is : List IdMapping,
        (is ≠ [] ∧ ((is.map IdMapping.old).Nodup ∧ (is.map IdMapping.new).Nodup) ∧
          SortedValues (is.map IdMapping.value)) ∧
          lookupKey m 5 = some (.array (is.map IdMapping.value)) := by
  simp only [mappingsField, Except.bind_eq_ok, field_eq_ok, array_eq_ok, Except.ite_error_eq_ok]
  constructor
  · rintro ⟨_, h₅, vs, rfl, hne, s, hs, hsorted⟩
    obtain ⟨is, rfl, his⟩ := (foldlM_image fun v hv =>
      mappingStep_eq_ok ((hm.of_lookup h₅).of_mem hv)).mp hs
    exact ⟨is, ⟨by simpa using hne, foldlM_idMappingStep_iff.mp ⟨s, his⟩,
      (ensureSortedUniqueValues_map norm_idMapping).mp hsorted⟩, h₅⟩
  · rintro ⟨is, ⟨hne, hnodup, hsorted⟩, h₅⟩
    obtain ⟨s, hs⟩ := foldlM_idMappingStep_iff.mpr hnodup
    exact ⟨_, h₅, _, rfl, by simpa using hne, s, (foldlM_image fun v hv =>
      mappingStep_eq_ok ((hm.of_lookup h₅).of_mem hv)).mpr ⟨is, rfl, hs⟩,
      (ensureSortedUniqueValues_map norm_idMapping).mpr hsorted⟩

theorem migration_fields_iff (hm : Admitted limits (.map m)) {o : Migration} :
    Value.map m = (canonicalValue o).norm ↔
      (lookupKey m 0 = some (.unsigned (code ObjectKind.migration)) ∧
        lookupKey m 1 = some (.unsigned 0) ∧ lookupKey m 2 = some o.policyRef.value ∧
        lookupKey m 3 = some (.unsigned (code o.sourceFormat)) ∧
        lookupKey m 4 = some (.unsigned (code o.targetFormat)) ∧
        lookupKey m 5 = some (.array (o.mappings.map IdMapping.value)) ∧
        lookupKey m 6 = some (RGit.oid o.toolIdentity) ∧
        lookupKey m 7 = some o.wallTime.value.norm ∧
        lookupKey m 8 = some (signatureArray o.signatures)) ∧
      ∀ e ∈ m, e.1 ∈ [0, 1, 2, 3, 4, 5, 6, 7, 8] ++ [] := by
  rw [canonicalValue, map_eq_norm_iff hm ([0, 1, 2, 3, 4, 5, 6, 7, 8] ++ [])
    (by simp [fields, Migration.unsignedMap, optionalHeader, optional])
    (by simp [fields, Migration.unsignedMap, optionalHeader, optional])]
  simp [fields, Migration.unsignedMap, optionalHeader, optional, lookupKey_cons]

theorem migration_validate_iff {o : Migration} :
    validate o = .ok () ↔
      o.sourceFormat ≠ o.targetFormat ∧
        (o.mappings ≠ [] ∧
          ((o.mappings.map IdMapping.old).Nodup ∧ (o.mappings.map IdMapping.new).Nodup) ∧
          SortedValues (o.mappings.map IdMapping.value)) ∧
        checkSignatures o.signatures .migration = .ok () := by
  have hold := countDistinct_eq_length_iff (l := o.mappings.map IdMapping.old)
  have hnew := countDistinct_eq_length_iff (l := o.mappings.map IdMapping.new)
  rw [List.length_map] at hold hnew
  simp only [validate, Migration.validate, Except.bind_eq_ok, Except.exists_unit_iff,
    sortedEncodings_iff, Except.ite_error_eq_ok, not_or, ne_eq, not_not, hold, hnew]
  tauto

theorem migration_iff (hm : Admitted .metadata (.map m)) :
    (ValidRecord .migration 0 m ∧ wallTimeFieldFits m 7 = true) ↔ Expresses Migration m := by
  constructor
  · rintro ⟨⟨h₀, h₁, hvalid⟩, hfits⟩
    obtain ⟨⟨-, hkeys⟩, hpolicy, hshape⟩ := (validateFields_eq_ok hm).mp hvalid
    obtain ⟨policy, h₂⟩ := hpolicy (.inl rfl)
    simp only [validateShapes, migrationShape, Except.bind_eq_ok, Except.exists_unit_iff,
      field_eq_ok, unsigned_eq_ok, Except.ite_error_eq_ok, not_or, gt_iff_lt, not_lt,
      exists_code_of_le ObjectIdFormat 1 rfl rfl (by decide), mappingsField_eq_ok hm,
      oidField_eq_ok, signatureSetField_eq_ok hm] at hshape
    obtain ⟨_, h₃, _, rfl, _, h₄, _, rfl, ⟨⟨source, rfl⟩, ⟨target, rfl⟩, hchange⟩,
      ⟨mappings, hmappings, h₅⟩, ⟨tool, h₆⟩, hwall, ⟨signatures, hsignatures, h₈⟩⟩ := hshape
    obtain ⟨wall, h₇⟩ := (wallTimeField_eq_ok hm).mp ⟨hwall, hfits⟩
    refine ⟨⟨policy, source, target, mappings, tool, wall, signatures⟩, ?_,
      (migration_fields_iff hm).mpr ⟨⟨h₀, h₁, h₂, h₃, h₄, h₅, h₆, h₇, h₈⟩, hkeys⟩⟩
    exact migration_validate_iff.mpr ⟨fun h => hchange (congrArg code h), hmappings, hsignatures⟩
  · rintro ⟨o, hvalid, ho⟩
    obtain ⟨⟨h₀, h₁, h₂, h₃, h₄, h₅, h₆, h₇, h₈⟩, hkeys⟩ :=
      (migration_fields_iff hm).mp ho
    obtain ⟨hwall, hfits⟩ := (wallTimeField_eq_ok hm).mpr ⟨_, h₇⟩
    obtain ⟨hchange, hmappings, hsignatures⟩ := migration_validate_iff.mp hvalid
    refine ⟨⟨h₀, h₁, (validateFields_eq_ok hm).mpr
      ⟨⟨by simp [fieldSets, *], hkeys⟩, fun _ => ⟨_, h₂⟩, ?_⟩⟩, hfits⟩
    simp only [validateShapes, migrationShape, Except.bind_eq_ok, Except.exists_unit_iff,
      field_eq_ok, unsigned_eq_ok, Except.ite_error_eq_ok, not_or, gt_iff_lt, not_lt,
      exists_code_of_le ObjectIdFormat 1 rfl rfl (by decide), mappingsField_eq_ok hm,
      oidField_eq_ok, signatureSetField_eq_ok hm]
    exact ⟨
      _, h₃, _, rfl, _, h₄, _, rfl, ⟨⟨_, rfl⟩, ⟨_, rfl⟩, fun h => hchange (Discriminant.code_injective (by decide) h)⟩,
      ⟨_, hmappings, h₅⟩, ⟨_, h₆⟩, hwall, ⟨_, hsignatures, h₈⟩⟩

end Kinds

end RGit
