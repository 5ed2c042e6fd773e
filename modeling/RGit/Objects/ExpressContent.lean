/-
RGit/Objects/ExpressContent.lean

Blobs, manifests and conflicts, whose records hold lists that are read by a
loop with state.
-/
import RGit.Objects.Express

namespace RGit

open Discriminant (code)

open Decode CanonicalObject

section Kinds

variable [Unicode] {limits : CanonicalLimits} {m : Entries} {v : Value}

/-! ### Conflicts -/

omit [Unicode] in
@[simp] theorem norm_conflictRegion (r : ConflictRegion) : r.value.norm = r.value :=
  norm_map_of_sorted (by simp [SortedKeys]) (by simp)

omit [Unicode] in
@[simp] theorem norm_conflictRegions (rs : List ConflictRegion) :
    (Value.array (rs.map ConflictRegion.value)).norm = .array (rs.map ConflictRegion.value) :=
  norm_array_map norm_conflictRegion rs

@[simp] theorem norm_portablePath (p : PortablePath) : p.value.norm = p.value :=
  norm_array_map norm_pathSegment p.segments

theorem regionStep_eq_ok (hv : Admitted limits v) (s s' : Option UInt64) :
    regionStep s v = .ok s' ↔
      ∃ r : ConflictRegion, v = r.value ∧ validateRegion s r = .ok s' := by
  simp only [regionStep, Except.bind_eq_ok, exactMap_eq_ok, field_eq_ok, unsigned_eq_ok,
    Except.ite_error_eq_ok, Except.ok.injEq, validateRegion]
  constructor
  · rintro ⟨m, ⟨rfl, -, hkeys⟩, _, h₀, start, rfl, _, h₁, stop, rfl, hgood, hs⟩
    refine ⟨⟨start, stop⟩, ?_, hgood, hs⟩
    rw [← norm_conflictRegion, ConflictRegion.value,
      map_eq_norm_iff hv [0, 1] (by simp) (by simp)]
    exact ⟨by simp [lookupKey_cons, h₀, h₁], hkeys⟩
  · rintro ⟨r, rfl, hgood, hs⟩
    exact ⟨_, ⟨rfl, by simp [HasKeys, lookupKey_cons]⟩, _, rfl, _, rfl, _, rfl, _, rfl, hgood,
      hs⟩

theorem conflict_fields_iff (hm : Admitted limits (.map m)) {o : Conflict} :
    Value.map m = (canonicalValue o).norm ↔
      (lookupKey m 0 = some (.unsigned (code ObjectKind.conflict)) ∧
        lookupKey m 1 = some (.unsigned 0) ∧ lookupKey m 2 = some o.policyRef.value ∧
        lookupKey m 3 = some o.base.value ∧ lookupKey m 4 = some o.left.value ∧
        lookupKey m 5 = some o.right.value ∧ lookupKey m 6 = some o.path.value ∧
        lookupKey m 7 = some (.unsigned (code o.conflictKind)) ∧
        lookupKey m 8 = some (.text o.mergeDriver) ∧
        lookupKey m 9 = some (.text o.mergeDriverVersion) ∧
        lookupKey m 10 = some (.array (o.regions.map ConflictRegion.value))) ∧
      ∀ e ∈ m, e.1 ∈ [0, 1, 2, 3, 4, 5, 6, 7, 8, 9, 10] ++ [] := by
  rw [canonicalValue, map_eq_norm_iff hm ([0, 1, 2, 3, 4, 5, 6, 7, 8, 9, 10] ++ [])
    (by simp [fields, header, headerVersion]) (by simp [fields, header, headerVersion])]
  simp [fields, header, headerVersion, lookupKey_cons]

theorem conflict_validate_iff {o : Conflict} :
    validate o = .ok () ↔
      isNfc o.mergeDriver = true ∧ isNfc o.mergeDriverVersion = true ∧
        ∃ s, o.regions.foldlM validateRegion none = .ok s := by
  simp only [validate, Except.bind_eq_ok, Except.exists_unit_iff, ensureNfc_eq_ok, and_true,
    List.forall_mem_cons, List.not_mem_nil, false_implies, implies_true, and_assoc]

theorem conflict_iff (hm : Admitted limits (.map m)) :
    ValidRecord .conflict 0 m ↔ Expresses Conflict m := by
  constructor
  · rintro ⟨h₀, h₁, hvalid⟩
    obtain ⟨⟨-, hkeys⟩, hpolicy, hshape⟩ := (validateFields_eq_ok hm).mp hvalid
    obtain ⟨policy, h₂⟩ := hpolicy (.inl rfl)
    simp only [validateShapes, conflictShape, Except.bind_eq_ok, Except.exists_unit_iff,
      typedField_eq_ok hm, pathField_eq_ok, enumField_eq_ok ConflictKind 3 rfl rfl (by decide),
      textField_eq_ok, loopField_eq_ok hm regionStep_eq_ok] at hshape
    obtain ⟨⟨base, h₃⟩, ⟨left, h₄⟩, ⟨right, h₅⟩, ⟨path, h₆⟩, ⟨kind, h₇⟩, ⟨driver, h₈⟩,
      ⟨version, h₉⟩, ⟨regions, hregions, h₁₀⟩⟩ := hshape
    refine ⟨⟨policy, base, left, right, path, kind, driver, version, regions⟩, ?_,
      (conflict_fields_iff hm).mpr ⟨⟨h₀, h₁, h₂, h₃, h₄, h₅, h₆, h₇, h₈, h₉, h₁₀⟩, hkeys⟩⟩
    exact conflict_validate_iff.mpr ⟨hm.isNfc_of_lookup h₈, hm.isNfc_of_lookup h₉, hregions⟩
  · rintro ⟨o, hvalid, ho⟩
    obtain ⟨⟨h₀, h₁, h₂, h₃, h₄, h₅, h₆, h₇, h₈, h₉, h₁₀⟩, hkeys⟩ :=
      (conflict_fields_iff hm).mp ho
    obtain ⟨-, -, hregions⟩ := conflict_validate_iff.mp hvalid
    refine ⟨h₀, h₁, (validateFields_eq_ok hm).mpr
      ⟨⟨by simp [fieldSets, *], hkeys⟩, fun _ => ⟨_, h₂⟩, ?_⟩⟩
    simp only [validateShapes, conflictShape, Except.bind_eq_ok, Except.exists_unit_iff,
      typedField_eq_ok hm, pathField_eq_ok, enumField_eq_ok ConflictKind 3 rfl rfl (by decide),
      textField_eq_ok, loopField_eq_ok hm regionStep_eq_ok]
    exact ⟨⟨_, h₃⟩, ⟨_, h₄⟩, ⟨_, h₅⟩, ⟨_, h₆⟩, ⟨_, h₇⟩, ⟨_, h₈⟩, ⟨_, h₉⟩, ⟨_, hregions, h₁₀⟩⟩

/-! ### Blobs -/

omit [Unicode] in
@[simp] theorem norm_chunkRef (c : ChunkRef) : c.value.norm = c.value :=
  norm_map_of_sorted (by simp [SortedKeys]) (by simp)

omit [Unicode] in
@[simp] theorem norm_chunkRefs (cs : List ChunkRef) :
    (Value.array (cs.map ChunkRef.value)).norm = .array (cs.map ChunkRef.value) :=
  norm_array_map norm_chunkRef cs

omit [Unicode] in
@[simp] theorem norm_chunkProfile (p : ChunkProfile) : p.value.norm = p.value :=
  norm_map_of_sorted (by simp [SortedKeys]) (by simp)

/-- The inline content of a blob, if that is how it is stored. -/
def BlobContent.inlineField : BlobContent → Option Value
  | .inlined b => some (.bytes b)
  | .chunks _ => none

/-- The chunk references of a blob, if that is how it is stored. -/
def BlobContent.chunksField : BlobContent → Option Value
  | .inlined _ => none
  | .chunks cs => some (.array (cs.map ChunkRef.value))

theorem blob_fields_iff (hm : Admitted limits (.map m)) {o : Blob} :
    Value.map m = (canonicalValue o).norm ↔
      (lookupKey m 0 = some (.unsigned (code ObjectKind.blob)) ∧
        lookupKey m 1 = some (.unsigned 0) ∧ lookupKey m 2 = some o.policyRef.value ∧
        lookupKey m 3 = some (.unsigned o.byteLength) ∧
        lookupKey m 4 = o.content.inlineField ∧ lookupKey m 5 = o.content.chunksField ∧
        lookupKey m 6 = o.contentHint.map .text ∧
        lookupKey m 7 = o.chunkProfile.map ChunkProfile.value) ∧
      ∀ e ∈ m, e.1 ∈ [0, 1, 2, 3] ++ [4, 5, 6, 7] := by
  obtain ⟨policy, length, content, profile, hint⟩ := o
  rw [canonicalValue, map_eq_norm_iff hm ([0, 1, 2, 3] ++ [4, 5, 6, 7])
    (by cases content <;> cases hint <;> cases profile <;>
      simp [fields, Blob.fields, header, headerVersion, optional])
    (by cases content <;> cases hint <;> cases profile <;>
      simp [fields, Blob.fields, header, headerVersion, optional])]
  cases content <;>
    simp [fields, Blob.fields, header, headerVersion, lookupKey_cons, lookupKey_optional,
      Function.comp_def, BlobContent.inlineField, BlobContent.chunksField]

omit [Unicode] in
theorem chunkProfileShape_eq_ok [Unicode] (hm : Admitted limits (.map m)) :
    chunkProfileShape m = .ok () ↔ lookupKey m 7 = some ChunkProfile.fastcdcV0.value := by
  simp only [chunkProfileShape, Except.bind_eq_ok, exactMap_eq_ok, field_eq_ok, unsigned_eq_ok,
    Except.ite_error_eq_ok, ne_eq, not_not, not_or, and_true]
  constructor
  · rintro ⟨_, h₇, p, ⟨rfl, -, hkeys⟩, _, h₀, _, rfl, rfl, _, h₁, _, rfl, rfl, _, h₂, _, rfl,
      _, h₃, _, rfl, _, h₄, _, rfl, rfl, rfl, rfl⟩
    rw [h₇, ← norm_chunkProfile, Option.some_inj, ChunkProfile.value,
      map_eq_norm_iff (hm.of_lookup h₇) [0, 1, 2, 3, 4] (by simp) (by simp)]
    refine ⟨?_, hkeys⟩
    simp [lookupKey_cons, h₀, h₁, h₂, h₃, h₄, ChunkProfile.fastcdcV0]
    rfl
  · intro h₇
    exact ⟨_, h₇, _, ⟨rfl, by simp [HasKeys, lookupKey_cons]⟩, _, rfl, _, rfl, rfl, _, rfl, _,
      rfl, rfl, _, rfl, _, rfl, _, rfl, _, rfl, _, rfl, _, rfl, rfl, rfl, rfl⟩

/-- One pass of the chunk loop, on the chunk reference itself. -/
def chunkRefStep (total : UInt64) (c : ChunkRef) : DecodeResult UInt64 :=
  if c.plaintextLength = 0 ∨ c.plaintextLength > fastcdcV0MaxSize then .error (.field 5)
  else Except.ofOption (checkedAdd total c.plaintextLength) (.field 5)

theorem chunkStep_eq_ok (hv : Admitted limits v) (s s' : UInt64) :
    chunkStep s v = .ok s' ↔ ∃ c : ChunkRef, v = c.value ∧ chunkRefStep s c = .ok s' := by
  simp only [chunkStep, Except.bind_eq_ok, exactMap_eq_ok, field_eq_ok, unsigned_eq_ok,
    oid_eq_ok, chunkRefStep]
  constructor
  · rintro ⟨m, ⟨rfl, -, hkeys⟩, _, h₀, id, rfl, _, h₁, n, rfl, h⟩
    refine ⟨⟨id, n⟩, ?_, h⟩
    rw [← norm_chunkRef, ChunkRef.value, map_eq_norm_iff hv [0, 1] (by simp) (by simp)]
    exact ⟨by simp [lookupKey_cons, h₀, h₁], hkeys⟩
  · rintro ⟨c, rfl, h⟩
    exact ⟨_, ⟨rfl, by simp [HasKeys, lookupKey_cons]⟩, _, rfl, _, rfl, _, rfl, _, rfl, h⟩

omit [Unicode] in
theorem foldlM_chunkRefStep_eq_ok {cs : List ChunkRef} {s s' : UInt64} :
    cs.foldlM chunkRefStep s = .ok s' ↔
      (∀ c ∈ cs, c.plaintextLength ≠ 0 ∧ ¬c.plaintextLength > fastcdcV0MaxSize) ∧
        cs.foldlM (fun sum c => checkedAdd sum c.plaintextLength) s = some s' := by
  induction cs generalizing s with
  | nil => simp
  | cons c cs ih =>
      simp only [List.foldlM_cons, Except.bind_eq_ok, ih, chunkRefStep, Except.ite_error_eq_ok,
        Except.ofOption_eq_ok, not_or, List.forall_mem_cons, Option.bind_eq_bind,
        Option.bind_eq_some_iff]
      tauto

/-- What a valid blob stores, by the form of its content. -/
def BlobContent.Valid (byteLength : UInt64) (profile : Option ChunkProfile) :
    BlobContent → Prop
  | .inlined b =>
      profile = none ∧ b.length ≤ maxInlineBlobBytes ∧ b.length = byteLength.toNat
  | .chunks cs =>
      profile = some .fastcdcV0 ∧ maxInlineBlobBytes < byteLength.toNat ∧ cs ≠ [] ∧
        cs.foldlM chunkRefStep 0 = .ok byteLength

theorem blob_validate_iff {o : Blob} :
    validate o = .ok () ↔
      (∀ hint ∈ o.contentHint, isNfc hint = true) ∧
        o.content.Valid o.byteLength o.chunkProfile := by
  obtain ⟨policy, length, content, profile, hint⟩ := o
  have hhint : Except.ifSome hint (fun hint => ensureNfc [hint]) = .ok () ↔
      ∀ h ∈ hint, isNfc h = true := by
    simp [Except.ifSome_eq_ok, ensureNfc_eq_ok]
  simp only [validate, Blob.validate, Except.bind_eq_ok, Except.exists_unit_iff, hhint]
  refine and_congr_right fun _ => ?_
  cases content with
  | inlined b =>
      cases profile <;> simp [BlobContent.Valid, Except.ifSome]
  | chunks cs =>
      cases profile with
      | none => simp [BlobContent.Valid]
      | some p =>
          have hbad : (Blob.mk policy length (.chunks cs) (some p) hint).badChunks cs = false ↔
              cs ≠ [] ∧ (∀ c ∈ cs, c.plaintextLength ≠ 0 ∧ ¬c.plaintextLength > p.maxSize) ∧
                Blob.chunkTotal cs = some length := by
            have htotal : ((Blob.chunkTotal cs).filter (· == length)).isNone = false ↔
                Blob.chunkTotal cs = some length := by
              cases Blob.chunkTotal cs <;> simp [Option.filter]
            simp only [Blob.badChunks, Bool.or_eq_false_iff, htotal, List.any_eq_false]
            simp [and_assoc]
          simp only [BlobContent.Valid, Except.ite_error_eq_ok, Option.isNone_some,
            Except.ifSome, ChunkProfile.validate, Option.some_inj, Bool.not_eq_true, hbad,
            foldlM_chunkRefStep_eq_ok, Blob.chunkTotal, not_le]
          constructor
          · rintro ⟨-, hlen, ⟨hne, hall, hsum⟩, hp⟩
            obtain rfl : p = .fastcdcV0 := by simpa using hp
            exact ⟨rfl, hlen, hne, hall, hsum⟩
          · rintro ⟨rfl, hlen, hne, hall, hsum⟩
            exact ⟨by simp, hlen, ⟨hne, hall, hsum⟩, by simp⟩

omit [Unicode] in
/-- Among distinct keys, one of two is there exactly once. -/
theorem length_filter_two_keys {k k' : UInt64} (hm : (m.map (·.1)).Nodup) (hk : k ≠ k') :
    (m.filter fun e => e.1 == k || e.1 == k').length =
      (lookupKey m k).toList.length + (lookupKey m k').toList.length := by
  induction m with
  | nil => rfl
  | cons e m ih =>
      obtain ⟨a, v⟩ := e
      simp only [List.map_cons, List.nodup_cons] at hm
      have habsent : lookupKey m a = none := lookupKey_eq_none_iff.mpr hm.1
      have ih := ih hm.2
      rw [lookupKey_cons, lookupKey_cons, List.filter_cons]
      by_cases h : a = k
      · subst h
        rw [habsent] at ih
        simp [hk, ih, Nat.add_comm]
      · by_cases h' : a = k'
        · subst h'
          rw [habsent] at ih
          simp [h, ih]
        · simp [h, h', ih]

theorem blobContentShape_eq_ok (hm : Admitted limits (.map m)) {length : UInt64}
    (hone : (lookupKey m 4).toList.length + (lookupKey m 5).toList.length = 1) :
    blobContentShape m length = .ok () ↔
      ∃ (content : BlobContent) (profile : Option ChunkProfile),
        content.Valid length profile ∧ lookupKey m 4 = content.inlineField ∧
          lookupKey m 5 = content.chunksField ∧
          lookupKey m 7 = profile.map ChunkProfile.value := by
  cases h₄ : lookupKey m 4 with
  | some inline =>
      have h₅ : lookupKey m 5 = none := by
        cases h : lookupKey m 5 <;> simp [h₄, h] at hone ⊢
      have h₇ : ¬hasField m 7 = true ↔ lookupKey m 7 = none := by
        rw [hasField_iff, Option.not_isSome_iff_eq_none]
      simp only [blobContentShape, optionalField, h₄, Except.bind_eq_ok, bytes_eq_ok,
        Except.ite_error_eq_ok, not_or, and_true, h₇]
      constructor
      · rintro ⟨b, rfl, hmax, hlen, h₇⟩
        exact ⟨.inlined b, none, ⟨rfl, by simpa using hmax, by simpa using hlen⟩, rfl, h₅, h₇⟩
      · rintro ⟨content | content, profile, hvalid, hin, -, h₇⟩
        · obtain ⟨rfl, hmax, hlen⟩ := hvalid
          exact ⟨content, Option.some.inj hin, by simpa using hmax, by simpa using hlen, h₇⟩
        · cases hin
  | none =>
      simp only [blobContentShape, optionalField, h₄, Except.bind_eq_ok, array_eq_ok,
        Except.ite_error_eq_ok, field_eq_ok, ne_eq, not_not, chunkProfileShape_eq_ok hm, not_le]
      constructor
      · rintro ⟨hmin, _, h₅, vs, rfl, hne, total, hfold, rfl, h₇⟩
        obtain ⟨cs, rfl, hcs⟩ := (foldlM_image fun v hv =>
          chunkStep_eq_ok ((hm.of_lookup h₅).of_mem hv)).mp hfold
        exact ⟨.chunks cs, some .fastcdcV0, ⟨rfl, hmin, by simpa using hne, hcs⟩, rfl, h₅, h₇⟩
      · rintro ⟨content | cs, profile, hvalid, hin, h₅, h₇⟩
        · cases hin
        · obtain ⟨rfl, hmin, hne, hcs⟩ := hvalid
          exact ⟨hmin, _, h₅, _, rfl, by simpa using hne, length, (foldlM_image fun v hv =>
            chunkStep_eq_ok ((hm.of_lookup h₅).of_mem hv)).mpr ⟨cs, rfl, hcs⟩, rfl, h₇⟩

theorem blob_iff (hm : Admitted limits (.map m)) :
    ValidRecord .blob 0 m ↔ Expresses Blob m := by
  have hcount := length_filter_two_keys hm.nodup (show (4 : UInt64) ≠ 5 by decide)
  constructor
  · rintro ⟨h₀, h₁, hvalid⟩
    obtain ⟨⟨-, hkeys⟩, hpolicy, hshape⟩ := (validateFields_eq_ok hm).mp hvalid
    obtain ⟨policy, h₂⟩ := hpolicy (.inl rfl)
    simp only [validateShapes, blobShape, Except.bind_eq_ok, Except.exists_unit_iff,
      field_eq_ok, unsigned_eq_ok, Except.ite_error_eq_ok, ne_eq, not_not, hcount,
      ifSome_text_eq_ok] at hshape
    obtain ⟨_, h₃, length, rfl, hone, hcontent, hint, h₆⟩ := hshape
    obtain ⟨content, profile, hvalid, h₄, h₅, h₇⟩ := (blobContentShape_eq_ok hm hone).mp hcontent
    refine ⟨⟨policy, length, content, profile, hint⟩, ?_,
      (blob_fields_iff hm).mpr ⟨⟨h₀, h₁, h₂, h₃, h₄, h₅, h₆, h₇⟩, hkeys⟩⟩
    exact blob_validate_iff.mpr ⟨fun _ h => hm.isNfc_of_lookup_map h₆ h, hvalid⟩
  · rintro ⟨o, hvalid, ho⟩
    obtain ⟨⟨h₀, h₁, h₂, h₃, h₄, h₅, h₆, h₇⟩, hkeys⟩ := (blob_fields_iff hm).mp ho
    obtain ⟨-, hvalid⟩ := blob_validate_iff.mp hvalid
    have hone : (lookupKey m 4).toList.length + (lookupKey m 5).toList.length = 1 := by
      rw [h₄, h₅]
      cases o.content <;> rfl
    refine ⟨h₀, h₁, (validateFields_eq_ok hm).mpr
      ⟨⟨by simp [fieldSets, *], hkeys⟩, fun _ => ⟨_, h₂⟩, ?_⟩⟩
    simp only [validateShapes, blobShape, Except.bind_eq_ok, Except.exists_unit_iff,
      field_eq_ok, unsigned_eq_ok, Except.ite_error_eq_ok, ne_eq, not_not, hcount,
      ifSome_text_eq_ok]
    exact ⟨_, h₃, _, rfl, hone, (blobContentShape_eq_ok hm hone).mpr
      ⟨_, _, hvalid, h₄, h₅, h₇⟩, _, h₆⟩

/-! ### Manifests -/

/-- Every path segment has an encoding. -/
theorem PathSegment.encode_toValue (s : PathSegment) :
    s.toValue.encode = .ok s.toValue.raw := by
  have hvalid := s.valid
  simp only [validateSegment, Except.ite_error_eq_ok, Bool.not_eq_true, Bool.not_eq_false'] at hvalid
  obtain ⟨-, hlen, hnfc, -⟩ := hvalid
  have hle : (utf8Bytes s.value).length ≤ 255 := by
    simpa [portableComponentMaxBytes] using hlen
  refine encodeWithLimits_eq_ok.mpr ⟨⟨by simpa using hnfc, ?_⟩, rfl, ?_⟩
  · have hmax : CanonicalLimits.metadata.maxStringBytes.toNat = 65536 := by decide
    omega
  · have hmax : CanonicalLimits.metadata.maxBytes.toNat = 1048576 := by decide
    have hhead : (headArgument (utf8Bytes s.value).length).length ≤ 1 := by
      unfold headArgument
      split
      · simp
      · simp
    simp only [PathSegment.toValue, Value.raw, List.length_append, length_headBytes]
    omega

theorem PathSegment.canonicalBytes_eq (s : PathSegment) :
    s.canonicalBytes = s.toValue.raw := by
  rw [canonicalBytes, s.encode_toValue]
  rfl

theorem PathSegment.eq_of_canonicalBytes_eq {s t : PathSegment}
    (h : s.canonicalBytes = t.canonicalBytes) : s = t := by
  have hs := decodeCanonical_encode s.encode_toValue
  have ht := decodeCanonical_encode t.encode_toValue
  rw [canonicalBytes_eq, canonicalBytes_eq] at h
  rw [h, ht] at hs
  simp only [PathSegment.toValue, norm_text, Except.ok.injEq, Value.text.injEq] at hs
  exact ext_value hs.symm

theorem manifestEntry_eq_norm_iff (hv : Admitted limits v) {e : ManifestEntry} :
    v = e.value.norm ↔ ∃ m, v = .map m ∧
      (lookupKey m 0 = some (.text e.name.value) ∧
        lookupKey m 1 = some (.unsigned e.target.parts.1) ∧
        lookupKey m 2 = some (RGit.oid e.target.parts.2.1) ∧
        lookupKey m 4 = some e.policyRef.value ∧
        lookupKey m 3 = e.target.parts.2.2.map .unsigned) ∧
      ∀ e ∈ m, e.1 ∈ [0, 1, 2, 4] ++ [3] := by
  rw [ManifestEntry.value, eq_norm_map_iff hv ([0, 1, 2, 4] ++ [3])
    (by cases e.target.parts.2.2 <;> simp [optional])
    (by cases e.target.parts.2.2 <;> simp [optional])]
  simp [lookupKey_optional, lookupKey_cons, Function.comp_def, PathSegment.toValue]

omit [Unicode] in
theorem fileModeShape_eq_ok {kind : UInt64} :
    fileModeShape kind m = .ok () ↔
      (kind = 0 → ∃ mode : FileMode, lookupKey m 3 = some (.unsigned (code mode))) := by
  by_cases h : kind = 0
  · simp only [fileModeShape, h, if_true, Except.bind_eq_ok, field_eq_ok, unsigned_eq_ok,
      gt_iff_lt, Except.ite_error_eq_ok, not_lt, and_true, true_implies,
      exists_code_of_le FileMode 1 rfl rfl (by decide)]
    constructor
    · rintro ⟨_, hv, _, rfl, mode, rfl⟩; exact ⟨mode, hv⟩
    · rintro ⟨mode, hv⟩; exact ⟨_, hv, _, rfl, mode, rfl⟩
  · simp [fileModeShape, h]

theorem manifestTargetShape_eq_ok (hm : Admitted limits (.map m)) :
    manifestTargetShape m = .ok () ↔
      ∃ (t : ManifestTarget) (p : PolicyRef),
        lookupKey m 1 = some (.unsigned t.parts.1) ∧
          lookupKey m 2 = some (RGit.oid t.parts.2.1) ∧ lookupKey m 4 = some p.value ∧
          lookupKey m 3 = t.parts.2.2.map .unsigned := by
  simp only [manifestTargetShape, Except.bind_eq_ok, Except.exists_unit_iff, field_eq_ok,
    unsigned_eq_ok, oid_eq_ok, Except.ite_error_eq_ok, not_or, ne_eq, not_not,
    fileModeShape_eq_ok, gt_iff_lt, not_lt]
  constructor
  · rintro ⟨_, h₁, kind, rfl, ⟨hle, hmode⟩, hfile, _, h₂, id, rfl, _, h₄, hp⟩
    obtain ⟨p, rfl⟩ := (policyRef_eq_ok (hm.of_lookup h₄)).mp hp
    have hkind : kind = 0 ∨ kind = 1 ∨ kind = 2 ∨ kind = 3 ∨ kind = 4 := by
      have hle : kind.toNat ≤ 4 := UInt64.le_iff_toNat_le.mp hle
      simp only [← UInt64.toNat_inj]
      simp
      omega
    have habsent : kind ≠ 0 → lookupKey m 3 = none := by
      intro h
      rw [← Option.not_isSome_iff_eq_none, ← hasField_iff]
      have hzero : (kind == 0) = false := by simpa using h
      simp [← hmode, hzero]
    rcases hkind with rfl | rfl | rfl | rfl | rfl
    · obtain ⟨mode, h₃⟩ := hfile rfl
      exact ⟨.file id mode, p, h₁, h₂, h₄, h₃⟩
    · exact ⟨.directory id, p, h₁, h₂, h₄, habsent (by decide)⟩
    · exact ⟨.symlink id, p, h₁, h₂, h₄, habsent (by decide)⟩
    · exact ⟨.subproject id, p, h₁, h₂, h₄, habsent (by decide)⟩
    · exact ⟨.secretRef id, p, h₁, h₂, h₄, habsent (by decide)⟩
  · rintro ⟨t, p, h₁, h₂, h₄, h₃⟩
    refine ⟨_, h₁, _, rfl, ⟨?_, ?_⟩, ?_, _, h₂, _, rfl, _, h₄,
      (policyRef_eq_ok (hm.of_lookup h₄)).mpr ⟨p, rfl⟩⟩
    · cases t <;> simp [ManifestTarget.parts]
    · rw [Bool.eq_iff_iff, hasField_iff, h₃]
      cases t <;> simp [ManifestTarget.parts]
    · intro hkind
      cases t with
      | file _ mode => exact ⟨mode, h₃⟩
      | _ => cases hkind

/-- One pass of the entry loop, on the entry itself. -/
def manifestEntryStep (state : List String × Option Bytes) (e : ManifestEntry) :
    DecodeResult (List String × Option Bytes) :=
  if e.name.ensurePortable = .ok () ∧ e.name.caseFold ∉ state.1 ∧
      ∀ old ∈ state.2, compare old e.name.canonicalBytes = .lt then
    .ok (e.name.caseFold :: state.1, some e.name.canonicalBytes)
  else .error (.field 3)

theorem manifestStep_eq_ok (hv : Admitted .metadata v) (s s' : List String × Option Bytes) :
    manifestStep s v = .ok s' ↔
      ∃ e : ManifestEntry, v = e.value.norm ∧ manifestEntryStep s e = .ok s' := by
  have hlt : ∀ a b : Bytes, (compare a b).isGE = false ↔ compare a b = .lt := by
    intro a b
    cases compare a b <;> simp
  simp only [manifestStep, Except.bind_eq_ok, Except.exists_unit_iff, exactMap_eq_ok,
    field_eq_ok, text_eq_ok, Except.mapError_eq_ok, PathSegment.newPortable_eq_ok,
    Except.ite_error_eq_ok, Except.ok.injEq, manifestEntryStep, Except.ite_else_error_eq_ok,
    Bool.not_eq_true, Option.any_eq_false]
  constructor
  · rintro ⟨m, ⟨rfl, -, hkeys⟩, _, h₀, _, rfl, name, ⟨rfl, hportable⟩, hfold, bytes, hbytes, hprev,
      htarget, rfl⟩
    obtain ⟨t, p, h₁, h₂, h₄, h₃⟩ := (manifestTargetShape_eq_ok hv).mp htarget
    obtain rfl : bytes = name.canonicalBytes := by
      rw [name.canonicalBytes_eq]
      exact (Except.ok.inj (hbytes.symm.trans name.encode_toValue))
    refine ⟨⟨name, t, p⟩, ?_, ⟨hportable, hfold, ?_⟩, rfl⟩
    · rw [manifestEntry_eq_norm_iff hv]
      exact ⟨m, rfl, ⟨h₀, h₁, h₂, h₄, h₃⟩, hkeys⟩
    · exact fun old hold => (hlt _ _).mp (by simpa using hprev old hold)
  · rintro ⟨e, he, ⟨hportable, hfold, hprev⟩, rfl⟩
    rw [manifestEntry_eq_norm_iff hv] at he
    obtain ⟨m, rfl, ⟨h₀, h₁, h₂, h₄, h₃⟩, hkeys⟩ := he
    refine ⟨m, ⟨rfl, by simp [h₀, h₁, h₂, h₄], hkeys⟩, _, h₀, _, rfl, e.name,
      ⟨rfl, hportable⟩, hfold, e.name.canonicalBytes, ?_, ?_,
      (manifestTargetShape_eq_ok hv).mpr ⟨_, _, h₁, h₂, h₄, h₃⟩, rfl⟩
    · rw [e.name.canonicalBytes_eq]
      exact e.name.encode_toValue
    · exact fun old hold => by simpa using (hlt _ _).mpr (hprev old hold)

/-- The entries of a valid manifest in canonical order. -/
def ManifestOrder (es : List ManifestEntry) : Prop :=
  (es.map fun e => e.name.canonicalBytes).Pairwise (compare · · = .lt)

theorem foldlM_manifestEntryStep_iff {es : List ManifestEntry} :
    (∃ s, es.foldlM manifestEntryStep ([], none) = .ok s) ↔
      (∀ e ∈ es, e.name.ensurePortable = .ok ()) ∧
        (es.map fun e => e.name.caseFold).Nodup ∧ ManifestOrder es := by
  have hstep : ∀ (s : List String × Option Bytes) (e : ManifestEntry) (s' : _),
      manifestEntryStep s e = .ok s' ↔
        (e.name.ensurePortable = .ok () ∧ e.name.caseFold ∉ s.1 ∧
          ∀ old ∈ s.2, compare old e.name.canonicalBytes = .lt) ∧
        (e.name.caseFold :: s.1, some e.name.canonicalBytes) = s' := by
    intro s e s'
    simp only [manifestEntryStep, Except.ite_else_error_eq_ok, Except.ok.injEq]
  have htrans : IsTrans Bytes (compare · · = .lt) := ⟨fun _ _ _ => Std.TransCmp.lt_trans⟩
  have hchain : (es.map fun e => e.name.canonicalBytes).IsChain (compare · · = .lt) ↔
      ManifestOrder es := List.isChain_iff_pairwise
  simp only [foldlM_eq_ok hstep, exists_and_left, exists_eq', and_true]
  rw [walk_and_left,
    walk_prod (fun seen (e : ManifestEntry) => e.name.caseFold ∉ seen)
      (fun seen e => e.name.caseFold :: seen)
      (fun prev e => ∀ old ∈ prev, compare old e.name.canonicalBytes = .lt)
      (fun _ e => some e.name.canonicalBytes),
    walk_seen, walk_previous (fun e : ManifestEntry => e.name.canonicalBytes)
      (compare · · = .lt), hchain]
  simp

/-- Distinct folded names are distinct names. -/
theorem nodup_names_of_folds {es : List ManifestEntry}
    (h : (es.map fun e => e.name.caseFold).Nodup) : (es.map fun e => e.name.value).Nodup := by
  have hfold : (es.map fun e => e.name.caseFold) =
      (es.map fun e => e.name.value).map portableCaseFold := by
    rw [List.map_map]
    rfl
  exact (hfold ▸ h).of_map _

theorem manifest_validate_iff {o : Manifest} :
    validate o = .ok () ↔
      (∀ e ∈ o.entries, e.name.ensurePortable = .ok ()) ∧
        (o.entries.map fun e => e.name.caseFold).Nodup := by
  have hstep : ∀ (s : List String × List String) (e : ManifestEntry) (s' : _),
      Manifest.validateEntry s e = .ok s' ↔
        (e.name.ensurePortable = .ok () ∧ e.name.value ∉ s.1 ∧ e.name.caseFold ∉ s.2) ∧
        (e.name.value :: s.1, e.name.caseFold :: s.2) = s' := by
    intro s e s'
    simp only [Manifest.validateEntry, Except.bind_unit_eq_ok, Except.mapError_eq_ok,
      Except.ite_error_eq_ok, Except.ok.injEq, not_or, and_assoc]
  simp only [validate, Manifest.validate, Except.bind_eq_ok, foldlM_eq_ok hstep,
    exists_and_left, exists_eq', and_true]
  rw [walk_and_left,
    walk_prod (fun seen (e : ManifestEntry) => e.name.value ∉ seen)
      (fun seen e => e.name.value :: seen) (fun seen e => e.name.caseFold ∉ seen)
      (fun seen e => e.name.caseFold :: seen), walk_seen, walk_seen]
  refine and_congr_right fun _ => ?_
  simp only [List.not_mem_nil, not_false_eq_true, implies_true, and_true]
  exact ⟨fun h => h.2, fun h => ⟨nodup_names_of_folds h, h⟩⟩

theorem manifestOrder_sortedEntries {o : Manifest}
    (h : (o.entries.map fun e => e.name.caseFold).Nodup) : ManifestOrder o.sortedEntries := by
  let r : ManifestEntry → ManifestEntry → Prop := fun a b =>
    (compare a.name.canonicalBytes b.name.canonicalBytes).isLE = true
  have htotal : Std.Total r := ⟨fun a b => by
    simp only [r]
    rw [Std.OrientedOrd.eq_swap (a := b.name.canonicalBytes)]
    cases compare a.name.canonicalBytes b.name.canonicalBytes <;> simp⟩
  have htrans : IsTrans ManifestEntry r := ⟨fun a b c hab hbc => Std.TransCmp.isLE_trans hab hbc⟩
  have hsorted : o.sortedEntries.Pairwise r := List.pairwise_insertionSort r o.entries
  have hperm : o.sortedEntries.Perm o.entries := List.perm_insertionSort _ _
  have hnodup : o.sortedEntries.Pairwise fun a b => a.name.caseFold ≠ b.name.caseFold :=
    List.pairwise_map.mp ((hperm.map _).nodup_iff.mpr h)
  rw [ManifestOrder, List.pairwise_map]
  refine (hsorted.and hnodup).imp ?_
  rintro a b ⟨hle, hne⟩
  have hneq : compare a.name.canonicalBytes b.name.canonicalBytes ≠ .eq := fun heq =>
    hne (by rw [PathSegment.eq_of_canonicalBytes_eq (Std.LawfulEqCmp.eq_of_compare heq)])
  have hle : (compare a.name.canonicalBytes b.name.canonicalBytes).isLE = true := hle
  cases h : compare a.name.canonicalBytes b.name.canonicalBytes <;> simp_all

theorem sortedEntries_of_order {o : Manifest} (h : ManifestOrder o.entries) :
    o.sortedEntries = o.entries := by
  refine List.Pairwise.insertionSort_eq ((List.pairwise_map.mp h).imp ?_)
  intro a b hlt
  rw [hlt]
  rfl

theorem manifest_fields_iff (hm : Admitted limits (.map m)) {o : Manifest} :
    Value.map m = (canonicalValue o).norm ↔
      (lookupKey m 0 = some (.unsigned (code ObjectKind.manifest)) ∧
        lookupKey m 1 = some (.unsigned 0) ∧ lookupKey m 2 = some o.policyRef.value ∧
        lookupKey m 3 = some (.array (o.sortedEntries.map fun e => e.value.norm))) ∧
      ∀ e ∈ m, e.1 ∈ [0, 1, 2, 3] ++ [] := by
  rw [canonicalValue, map_eq_norm_iff hm ([0, 1, 2, 3] ++ [])
    (by simp [fields, Manifest.fields, header, headerVersion])
    (by simp [fields, Manifest.fields, header, headerVersion])]
  simp [fields, Manifest.fields, header, headerVersion, lookupKey_cons, Value.norm_array,
    Function.comp_def]

theorem manifest_iff (hm : Admitted .metadata (.map m)) :
    ValidRecord .manifest 0 m ↔ Expresses Manifest m := by
  constructor
  · rintro ⟨h₀, h₁, hvalid⟩
    obtain ⟨⟨-, hkeys⟩, hpolicy, hshape⟩ := (validateFields_eq_ok hm).mp hvalid
    obtain ⟨policy, h₂⟩ := hpolicy (.inl rfl)
    simp only [validateShapes, manifestShape, loopField_eq_ok hm manifestStep_eq_ok,
      foldlM_manifestEntryStep_iff] at hshape
    obtain ⟨es, ⟨hportable, hfolds, horder⟩, h₃⟩ := hshape
    have hsorted := sortedEntries_of_order (o := ⟨policy, es⟩) horder
    refine ⟨⟨policy, es⟩, manifest_validate_iff.mpr ⟨hportable, hfolds⟩,
      (manifest_fields_iff hm).mpr ⟨⟨h₀, h₁, h₂, ?_⟩, hkeys⟩⟩
    rw [hsorted, h₃]
  · rintro ⟨o, hvalid, ho⟩
    obtain ⟨⟨h₀, h₁, h₂, h₃⟩, hkeys⟩ := (manifest_fields_iff hm).mp ho
    obtain ⟨hportable, hfolds⟩ := manifest_validate_iff.mp hvalid
    have hperm : o.sortedEntries.Perm o.entries := List.perm_insertionSort _ _
    refine ⟨h₀, h₁, (validateFields_eq_ok hm).mpr
      ⟨⟨by simp [fieldSets, *], hkeys⟩, fun _ => ⟨_, h₂⟩, ?_⟩⟩
    simp only [validateShapes, manifestShape, loopField_eq_ok hm manifestStep_eq_ok,
      foldlM_manifestEntryStep_iff]
    exact ⟨_, ⟨fun e he => hportable e (hperm.mem_iff.mp he),
      (hperm.map _).nodup_iff.mpr hfolds, manifestOrder_sortedEntries hfolds⟩, h₃⟩

end Kinds

end RGit
