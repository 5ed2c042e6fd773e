/-
RGit/Objects/Shapes.lean

What each shape check of the decoder accepts, said in terms of the typed
components.

The values met here were read by the canonical decoder or written by the
canonical encoder: they are in normal form and encodable (`Admitted`).  A
record of that kind is determined by its lookups, so a check that walks over
its fields accepts exactly the records of one typed component
(`eq_norm_map_iff`).  Each check gets one `iff`; the kinds are then compared
field by field without unfolding a check again.
-/
import RGit.Canonical.Raw
import RGit.Objects.Decode

namespace RGit

open Discriminant (code)

/-! ### Admitted values -/

section Admitted

variable [Unicode] {limits : CanonicalLimits}

/-- In normal form and encodable under `limits`. -/
def Admitted (limits : CanonicalLimits) (v : Value) : Prop :=
  v.norm = v ∧ v.encodeWithLimits limits = .ok v.raw

theorem Admitted.of_decodeCanonical {b : Bytes} {v : Value}
    (h : decodeCanonical b limits = .ok v) : Admitted limits v ∧ v.raw = b := by
  obtain ⟨hnorm, henc⟩ := decodeCanonical_ok h
  obtain ⟨-, hraw, -⟩ := encodeWithLimits_eq_ok.mp henc
  exact ⟨⟨hnorm, hraw ▸ henc⟩, hraw.symm⟩

theorem Value.norm_norm_of_encode {v : Value} {b : Bytes}
    (h : v.encodeWithLimits limits = .ok b) : v.norm.norm = v.norm :=
  (decodeCanonical_ok (decodeCanonical_encode h)).1

/-- The normal form of an encodable value is admitted, with its bytes. -/
theorem Admitted.of_encode {v : Value} {b : Bytes} (h : v.encodeWithLimits limits = .ok b) :
    Admitted limits v.norm ∧ v.norm.raw = b := by
  have hnorm : v.norm.encodeWithLimits limits = .ok b := by rw [encodeWithLimits_norm, h]
  obtain ⟨-, hraw, -⟩ := encodeWithLimits_eq_ok.mp hnorm
  exact ⟨⟨Value.norm_norm_of_encode h, hraw ▸ hnorm⟩, hraw.symm⟩

theorem Admitted.fits {v : Value} (h : Admitted limits v) :
    Fits limits (limits.maxDepth.toNat + 1) v := (encodeWithLimits_eq_ok.mp h.2).1

theorem Admitted.length_le {v : Value} (h : Admitted limits v) :
    v.raw.length ≤ limits.maxBytes.toNat := (encodeWithLimits_eq_ok.mp h.2).2.2

theorem Admitted.mono {limits' : CanonicalLimits} (hle : limits.AtMost limits') {v : Value}
    (h : Admitted limits v) : Admitted limits' v := ⟨h.1, encodeWithLimits_mono hle h.2⟩

theorem Admitted.of_part {v part : Value} (h : Admitted limits v)
    (hfits : Fits limits limits.maxDepth.toNat part) (hnorm : part.norm = part)
    (hlen : part.raw.length ≤ v.raw.length) : Admitted limits part := by
  have hle : limits.AtMost limits := ⟨le_rfl, le_rfl, le_rfl, le_rfl, le_rfl⟩
  exact ⟨hnorm, encodeWithLimits_eq_ok.mpr
    ⟨hfits.mono hle (by omega), rfl, hlen.trans h.length_le⟩⟩

theorem Admitted.nodup {m : Entries} (h : Admitted limits (.map m)) : (m.map (·.1)).Nodup :=
  h.fits.2.1

theorem Admitted.sorted {m : Entries} (h : Admitted limits (.map m)) : SortedKeys m := by
  have hnorm := h.1
  rw [Value.norm_map, Value.map.injEq] at hnorm
  have hle : m.Pairwise (fun a b => a.1 ≤ b.1) := by
    rw [← hnorm]
    exact List.pairwise_insertionSort _ _
  have hsort : sortEntries m = m := List.Pairwise.insertionSort_eq hle
  have hdup := (nodup_iff_adjacentDuplicate m).mp h.nodup
  exact hsort ▸ sortedKeys_sortEntries hdup

omit [Unicode] in
/-- Lookups in the normal form of a record. -/
theorem lookupKey_norm {es : Entries} (hes : (es.map (·.1)).Nodup) (k : UInt64) :
    lookupKey (sortEntries (es.map fun e => (e.1, e.2.norm))) k
      = (lookupKey es k).map Value.norm := by
  have hperm := sortEntries_perm (es.map fun e => (e.1, e.2.norm))
  have hnodup : ((es.map fun e => (e.1, e.2.norm)).map (·.1)).Nodup := by
    simpa [List.map_map, Function.comp_def] using hes
  rw [← lookupKey_perm hperm.symm hnodup, lookupKey_map_snd]

theorem Admitted.norm_of_lookup {m : Entries} (h : Admitted limits (.map m)) {k : UInt64}
    {v : Value} (hv : lookupKey m k = some v) : v.norm = v := by
  have hnorm := h.1
  rw [Value.norm_map, Value.map.injEq] at hnorm
  have hlook := lookupKey_norm h.nodup k
  rw [hnorm, hv] at hlook
  simpa using hlook.symm

/-- A field of an admitted record is admitted. -/
theorem Admitted.of_lookup {m : Entries} (h : Admitted limits (.map m)) {k : UInt64}
    {v : Value} (hv : lookupKey m k = some v) : Admitted limits v := by
  have hmem := mem_of_lookupKey hv
  exact h.of_part (h.fits.of_mem_map hmem) (h.norm_of_lookup hv) (length_raw_le_map hmem)

/-- An element of an admitted array is admitted. -/
theorem Admitted.of_mem {vs : List Value} (h : Admitted limits (.array vs)) {v : Value}
    (hv : v ∈ vs) : Admitted limits v := by
  have hnorm := h.1
  rw [Value.norm_array, Value.array.injEq] at hnorm
  have hvnorm : v.norm = v := by
    have hall : ∀ v ∈ vs, v.norm = id v :=
      List.map_inj_left.mp (by rw [hnorm, List.map_id])
    exact hall v hv
  exact h.of_part (h.fits.of_mem_array hv) hvnorm (length_raw_le_array hv)

theorem Admitted.isNfc {s : String} (h : Admitted limits (.text s)) : isNfc s = true :=
  h.fits.1

/-- **A record is determined by its lookups**: an admitted map is the normal
form of `es` when it agrees with `es` on the keys of the schema and has no
other key. -/
theorem map_eq_norm_iff {m es : Entries} (hm : Admitted limits (.map m)) (keys : List UInt64)
    (hes : (es.map (·.1)).Nodup) (hkeys : es.map (·.1) ⊆ keys) :
    Value.map m = (Value.map es).norm ↔
      (∀ k ∈ keys, lookupKey m k = (lookupKey es k).map Value.norm) ∧
        ∀ e ∈ m, e.1 ∈ keys := by
  rw [Value.norm_map, Value.map.injEq]
  constructor
  · intro heq
    refine ⟨fun k _ => by rw [heq, lookupKey_norm hes], fun e he => ?_⟩
    rw [heq, (sortEntries_perm _).mem_iff, List.mem_map] at he
    obtain ⟨e', he', rfl⟩ := he
    exact hkeys (List.mem_map_of_mem (f := (·.1)) he')
  · rintro ⟨hlook, hm_keys⟩
    have hsorted : SortedKeys (sortEntries (es.map fun e => (e.1, e.2.norm))) := by
      refine sortedKeys_sortEntries ((nodup_iff_adjacentDuplicate _).mp ?_)
      simpa [List.map_map, Function.comp_def] using hes
    refine ext_of_sortedKeys hm.sorted hsorted fun k => ?_
    rw [lookupKey_norm hes]
    by_cases hk : k ∈ keys
    · exact hlook k hk
    · have hnone : lookupKey m k = none := by
        rw [lookupKey_eq_none_iff, List.mem_map]
        rintro ⟨e, he, rfl⟩
        exact hk (hm_keys e he)
      have hnone' : lookupKey es k = none := by
        rw [lookupKey_eq_none_iff, List.mem_map]
        rintro ⟨e, he, rfl⟩
        exact hk (hkeys (List.mem_map_of_mem he))
      rw [hnone, hnone', Option.map_none]

end Admitted

/-! ### Records under construction -/

theorem lookupKey_optional (m : Entries) (k : UInt64) (o : Option Value) (k' : UInt64) :
    lookupKey (optional m k o) k' = (lookupKey m k').or (if k = k' then o else none) := by
  cases o with
  | none => simp [optional]
  | some v => rw [optional, lookupKey_append, lookupKey_cons, lookupKey_nil]

/-! ### Normal forms of the typed components -/

theorem norm_map_of_sorted {es : Entries} (h : SortedKeys es)
    (hes : ∀ e ∈ es, e.2.norm = e.2) : (Value.map es).norm = .map es := by
  have hmap : (es.map fun e => (e.1, e.2.norm)) = es := by
    conv_rhs => rw [← List.map_id es]
    exact List.map_congr_left fun e he => Prod.ext rfl (hes e he)
  rw [Value.norm_map, hmap, sortEntries_of_sortedKeys h]

theorem norm_array_map {α : Type} {f : α → Value} (hf : ∀ a, (f a).norm = f a)
    (as : List α) : (Value.array (as.map f)).norm = .array (as.map f) := by
  rw [Value.norm_array, List.map_map]
  exact congrArg _ (List.map_congr_left fun a _ => hf a)

@[simp] theorem norm_unsigned (n : UInt64) : (Value.unsigned n).norm = .unsigned n := by
  rw [Value.norm]

@[simp] theorem norm_bytes (b : Bytes) : (Value.bytes b).norm = .bytes b := by rw [Value.norm]

@[simp] theorem norm_text (s : String) : (Value.text s).norm = .text s := by rw [Value.norm]

@[simp] theorem norm_bool (b : Bool) : (Value.bool b).norm = .bool b := by rw [Value.norm]

@[simp] theorem norm_oid (id : ObjectId) : (oid id).norm = oid id := norm_bytes _

@[simp] theorem norm_stable {n : Nat} (id : FixedBytes n) : (stable id).norm = stable id :=
  norm_bytes _

@[simp] theorem norm_oidArray (ids : List ObjectId) : (oidArray ids).norm = oidArray ids :=
  norm_array_map norm_oid ids

@[simp] theorem norm_policyRef (p : PolicyRef) : p.value.norm = p.value :=
  norm_map_of_sorted (by simp [SortedKeys]) (by simp)

@[simp] theorem norm_typedRef (r : TypedObjectRef) : r.value.norm = r.value :=
  norm_map_of_sorted (by simp [SortedKeys]) (by simp)

@[simp] theorem norm_signature (s : Signature) : s.value.norm = s.value :=
  norm_map_of_sorted (by simp [SortedKeys]) (by simp)

@[simp] theorem norm_signatureArray (ss : List Signature) :
    (signatureArray ss).norm = signatureArray ss := norm_array_map norm_signature ss

@[simp] theorem norm_typedRefArray (rs : List TypedObjectRef) :
    (typedRefArray rs).norm = typedRefArray rs := norm_array_map norm_typedRef rs

@[simp] theorem norm_principal (p : Principal) : p.value.norm = p.value :=
  norm_map_of_sorted (by simp [SortedKeys]) (by simp)

@[simp] theorem norm_pathSegment [Unicode] (s : PathSegment) : s.toValue.norm = s.toValue :=
  norm_text _

@[simp] theorem norm_referenceKey (k : ReferenceKey) : k.value.norm = k.value := by
  cases k <;> exact norm_map_of_sorted (by simp [SortedKeys, optional, ReferenceKey.stableId])
    (by simp [optional, ReferenceKey.stableId])

/-! ### What the field readers accept -/

namespace Decode

variable {m : Entries} {v : Value} {k : UInt64}

theorem field_eq_ok : field m k = .ok v ↔ lookupKey m k = some v := Except.ofOption_eq_ok

theorem hasField_iff : hasField m k = true ↔ (lookupKey m k).isSome := by
  simp [hasField, lookupKey_isSome_iff]

theorem asMap_eq_ok : asMap v = .ok m ↔ v = .map m := by cases v <;> simp [asMap]

theorem unsigned_eq_ok {n : UInt64} : unsigned v k = .ok n ↔ v = .unsigned n := by
  cases v <;> simp [unsigned]

theorem bytes_eq_ok {b : Bytes} : bytes v k = .ok b ↔ v = .bytes b := by
  cases v <;> simp [bytes]

theorem text_eq_ok {s : String} : text v k = .ok s ↔ v = .text s := by
  cases v <;> simp [text]

theorem array_eq_ok {vs : List Value} : array v k = .ok vs ↔ v = .array vs := by
  cases v <;> simp [array]

theorem boolean_eq_ok {b : Bool} : boolean v k = .ok b ↔ v = .bool b := by
  cases v <;> simp [boolean]

theorem oid_eq_ok {id : ObjectId} : oid v k = .ok id ↔ v = RGit.oid id := by
  simp only [oid, Except.bind_eq_ok, bytes_eq_ok, Except.mapError_eq_ok,
    ObjectId.fromBytes_eq_ok]
  constructor
  · rintro ⟨b, hv, hb⟩
    rw [hv, hb, RGit.oid]
  · intro h
    exact ⟨_, h, rfl⟩

theorem fixedBytes_eq_ok {n : Nat} :
    fixedBytes v k n = .ok () ↔ ∃ b : FixedBytes n, v = stable b := by
  simp only [fixedBytes, Except.bind_eq_ok, bytes_eq_ok, Except.ite_else_error_eq_ok, and_true]
  constructor
  · rintro ⟨b, hv, hb⟩
    exact ⟨⟨b, hb⟩, hv⟩
  · rintro ⟨b, hv⟩
    exact ⟨b.1, hv, b.2⟩

theorem all_zero_iff {b : Bytes} : b.all (· == 0) = true ↔ b = List.replicate b.length 0 := by
  rw [List.all_eq_true, List.eq_replicate_iff]
  simp

theorem fixedNonzeroBytes_eq_ok {n : Nat} :
    fixedNonzeroBytes v k n = .ok () ↔
      ∃ b : FixedBytes n, b.1 ≠ List.replicate n 0 ∧ v = stable b := by
  simp only [fixedNonzeroBytes, Except.bind_eq_ok, Except.exists_unit_iff, fixedBytes_eq_ok,
    bytes_eq_ok, Except.ite_error_eq_ok, and_true, all_zero_iff]
  constructor
  · rintro ⟨⟨b, rfl⟩, c, hc, hzero⟩
    cases hc
    rw [b.2] at hzero
    exact ⟨b, hzero, rfl⟩
  · rintro ⟨b, hzero, rfl⟩
    refine ⟨⟨b, rfl⟩, b.1, rfl, ?_⟩
    rwa [b.2]

theorem kindOf_eq_ok {n : UInt64} {kind : ObjectKind} :
    kindOf n = .ok kind ↔ n = code kind := by
  rw [kindOf, Except.ofOption_eq_ok, ObjectKind.ofCode_eq_some, eq_comm]

theorem mapM_oid_eq_ok {vs : List Value} {ids : List ObjectId} :
    vs.mapM (fun x => oid x k) = .ok ids ↔ vs = ids.map RGit.oid := by
  simp only [mapM_eq_ok, oid_eq_ok]
  rw [← List.forall₂_map_right_iff (f := RGit.oid) (R := fun a b => a = b), List.forall₂_eq_eq_eq]

theorem oidValues_eq_ok {ids : List ObjectId} :
    oidValues v k = .ok ids ↔ v = RGit.oidArray ids := by
  simp only [oidValues, Except.bind_eq_ok, array_eq_ok, mapM_oid_eq_ok]
  exact ⟨fun ⟨vs, hv, hvs⟩ => by rw [hv, hvs, RGit.oidArray], fun h => ⟨_, h, rfl⟩⟩

theorem ensureUniqueIds_eq_ok {ids : List ObjectId} :
    ensureUniqueIds ids k = .ok () ↔ ids.Nodup := by
  have hstep : ∀ (seen : List ObjectId) (id : ObjectId) (seen' : List ObjectId),
      ensureUniqueId k seen id = .ok seen' ↔ id ∉ seen ∧ id :: seen = seen' := by
    intro seen id seen'
    simp [ensureUniqueId]
  simp only [ensureUniqueIds, Except.bind_eq_ok, foldlM_eq_ok hstep, and_true,
    exists_and_left]
  rw [walk_seen fun id : ObjectId => id]
  simp

/-! ### What the record readers accept -/

/-- The required keys are there and there are no others but the optional ones. -/
def HasKeys (m : Entries) (required optional : List UInt64) : Prop :=
  (∀ k ∈ required, ∃ v, lookupKey m k = some v) ∧ ∀ e ∈ m, e.1 ∈ required ++ optional

theorem hasKeys_of_subset {required optional : List UInt64}
    (h : ∀ k ∈ required, ∃ v, lookupKey m k = some v)
    (hkeys : m.map (·.1) ⊆ required ++ optional) : HasKeys m required optional :=
  ⟨h, fun _ he => hkeys (List.mem_map_of_mem he)⟩

theorem keysMatch_iff {required optional : List UInt64} :
    keysMatch m required optional = true ↔ HasKeys m required optional := by
  simp only [keysMatch, Bool.and_eq_true, List.all_eq_true, hasField_iff, HasKeys,
    List.mem_append, Bool.or_eq_true, List.contains_iff_mem, Option.isSome_iff_exists]

theorem exactMap_eq_ok {required optional : List UInt64} :
    exactMap v required optional k = .ok m ↔ v = .map m ∧ HasKeys m required optional := by
  simp only [exactMap, Except.bind_eq_ok, asMap_eq_ok, Except.ite_else_error_eq_ok,
    keysMatch_iff, Except.ok.injEq]
  constructor
  · rintro ⟨m', hv, hkeys, rfl⟩; exact ⟨hv, hkeys⟩
  · rintro ⟨hv, hkeys⟩; exact ⟨m, hv, hkeys, rfl⟩

section Records

variable [Unicode] {limits : CanonicalLimits}

/-- The records that pass as the component with entries `es`. -/
theorem eq_norm_map_iff {es : Entries} (hv : Admitted limits v) (keys : List UInt64)
    (hes : (es.map (·.1)).Nodup) (hkeys : es.map (·.1) ⊆ keys) :
    v = (Value.map es).norm ↔
      ∃ m, v = .map m ∧ (∀ k ∈ keys, lookupKey m k = (lookupKey es k).map Value.norm) ∧
        ∀ e ∈ m, e.1 ∈ keys := by
  constructor
  · intro h
    have hm : v = .map (sortEntries (es.map fun e => (e.1, e.2.norm))) := by
      rw [h, Value.norm_map]
    refine ⟨_, hm, (map_eq_norm_iff (hm ▸ hv) keys hes hkeys).mp ?_⟩
    rw [← hm, h]
  · rintro ⟨m, rfl, h⟩
    exact (map_eq_norm_iff hv keys hes hkeys).mpr h

theorem policyRef_eq_ok (hv : Admitted limits v) :
    policyRef v k = .ok () ↔ ∃ p : PolicyRef, v = p.value := by
  simp only [policyRef, Except.bind_eq_ok, Except.exists_unit_iff, exactMap_eq_ok,
    field_eq_ok, fixedBytes_eq_ok, oid_eq_ok, and_true]
  constructor
  · rintro ⟨m, ⟨rfl, -, hkeys⟩, a, ha, ⟨i, rfl⟩, b, hb, id, rfl⟩
    refine ⟨⟨i, id⟩, ?_⟩
    rw [← norm_policyRef, PolicyRef.value, map_eq_norm_iff hv [0, 1] (by simp) (by simp)]
    exact ⟨by simp [lookupKey_cons, ha, hb], hkeys⟩
  · rintro ⟨p, rfl⟩
    exact ⟨_, ⟨rfl, by simp [HasKeys, lookupKey_cons]⟩, _, rfl, ⟨p.policyId, rfl⟩, _,
      rfl, p.version, rfl⟩

theorem typedRefValue_eq_ok (hv : Admitted limits v) {r : TypedObjectRef} :
    typedRefValue v k = .ok r ↔ v = r.value := by
  simp only [typedRefValue, Except.bind_eq_ok, exactMap_eq_ok, field_eq_ok, unsigned_eq_ok,
    kindOf_eq_ok, oid_eq_ok, Except.ok.injEq]
  constructor
  · rintro ⟨m, ⟨rfl, -, hkeys⟩, a, ha, n, rfl, kind, rfl, b, hb, id, rfl, rfl⟩
    rw [← norm_typedRef, TypedObjectRef.value, map_eq_norm_iff hv [0, 1] (by simp) (by simp)]
    exact ⟨by simp [lookupKey_cons, ha, hb], hkeys⟩
  · rintro rfl
    exact ⟨_, ⟨rfl, by simp [HasKeys, lookupKey_cons]⟩, _, rfl, _, rfl, _, rfl, _, rfl, _,
      rfl, rfl⟩

omit [Unicode] in
theorem typedRefKind_eq (v : Value) (k : UInt64) :
    typedRefKind v k = (do
      let r ← typedRefValue v k
      .ok r.kind) := by
  simp only [typedRefKind, typedRefValue, bind_assoc, Except.ok_bind]

theorem typedRefKind_eq_ok (hv : Admitted limits v) {kind : ObjectKind} :
    typedRefKind v k = .ok kind ↔ ∃ r : TypedObjectRef, r.kind = kind ∧ v = r.value := by
  simp only [typedRefKind_eq, Except.bind_eq_ok, typedRefValue_eq_ok hv, Except.ok.injEq]
  exact ⟨fun ⟨r, hr, hk⟩ => ⟨r, hk, hr⟩, fun ⟨r, hk, hr⟩ => ⟨r, hr, hk⟩⟩

theorem typedRef_eq_ok (hv : Admitted limits v) :
    typedRef v k = .ok () ↔ ∃ r : TypedObjectRef, v = r.value := by
  simp only [typedRef, Except.bind_eq_ok, typedRefKind_eq_ok hv, and_true]
  exact ⟨fun ⟨_, r, _, hr⟩ => ⟨r, hr⟩, fun ⟨r, hr⟩ => ⟨_, r, rfl, hr⟩⟩

theorem referenceKey_eq_ok (hv : Admitted limits v) {key : ReferenceKey} :
    referenceKey v k = .ok key ↔ v = key.value := by
  constructor
  · intro h
    simp only [referenceKey, Except.bind_eq_ok, asMap_eq_ok, field_eq_ok, unsigned_eq_ok] at h
    obtain ⟨m, rfl, a, ha, kind, rfl, h⟩ := h
    split at h
    · next hkind =>
        simp only [Except.bind_eq_ok, exactMap_eq_ok, Except.ok.injEq] at h
        obtain ⟨m', ⟨hm, -, hkeys⟩, rfl⟩ := h
        cases hm
        rw [← norm_referenceKey, ReferenceKey.value,
          map_eq_norm_iff hv [0] (by simp [optional, ReferenceKey.stableId])
            (by simp [optional, ReferenceKey.stableId])]
        refine ⟨?_, hkeys⟩
        simp [lookupKey_cons, optional, ReferenceKey.stableId, ha, hkind,
          ReferenceKey.kindCode]
    · simp only [Except.bind_eq_ok, exactMap_eq_ok, field_eq_ok, bytes_eq_ok,
        Except.ofOption_eq_ok, FixedBytes.ofSlice_eq_some] at h
      obtain ⟨m', ⟨hm, -, hkeys⟩, b, hb, c, rfl, stable, rfl, h⟩ := h
      cases hm
      have hkey : kind = key.kindCode ∧ key.stableId = some stable := by
        split_ifs at h with h₁ h₂ h₃ h₄ <;> cases h <;>
          exact ⟨by assumption, rfl⟩
      rw [← norm_referenceKey, ReferenceKey.value,
        map_eq_norm_iff hv [0, 1] (by simp [hkey.2, optional]) (by simp [hkey.2, optional])]
      refine ⟨?_, hkeys⟩
      simp [lookupKey_cons, optional, hkey.2, ha, hb, hkey.1, RGit.stable]
  · rintro rfl
    cases key <;>
      simp [referenceKey, ReferenceKey.value, asMap, field, optionalField, optional,
        ReferenceKey.stableId, ReferenceKey.kindCode, lookupKey_cons, unsigned, bytes,
        Except.ofOption, exactMap, keysMatch, hasField, RGit.stable]

omit [Unicode] in
theorem exists_code_of_le (α : Type) [DecidableEq α] [Discriminant α] (last : UInt64)
    {n : UInt64}
    (hfirst : Discriminant.first α = 0)
    (hlast : (Discriminant.values : List α).length = last.toNat + 1)
    (hsmall : last.toNat + 1 < 2 ^ 64) : n ≤ last ↔ ∃ a : α, n = code a := by
  rw [Discriminant.exists_code_of_le hfirst hlast hsmall]
  exact ⟨fun ⟨a, ha⟩ => ⟨a, ha.symm⟩, fun ⟨a, ha⟩ => ⟨a, ha.symm⟩⟩

theorem principal_eq_ok (hv : Admitted limits v) :
    principal v k = .ok () ↔ ∃ p : Principal, p.identifier ≠ [] ∧ v = p.value := by
  simp only [principal, Except.bind_eq_ok, exactMap_eq_ok, field_eq_ok, unsigned_eq_ok,
    bytes_eq_ok, gt_iff_lt, Except.ite_error_eq_ok, not_lt, and_true,
    exists_code_of_le PrincipalKind 3 rfl rfl (by decide)]
  constructor
  · rintro ⟨m, ⟨rfl, -, hkeys⟩, a, ha, n, rfl, ⟨kind, rfl⟩, b, hb, id, rfl, hid⟩
    refine ⟨⟨kind, id⟩, hid, ?_⟩
    rw [← norm_principal, Principal.value, map_eq_norm_iff hv [0, 1] (by simp) (by simp)]
    exact ⟨by simp [lookupKey_cons, ha, hb], hkeys⟩
  · rintro ⟨p, hid, rfl⟩
    exact ⟨_, ⟨rfl, by simp [HasKeys, lookupKey_cons]⟩, _, rfl, _, rfl, ⟨p.kind, rfl⟩, _,
      rfl, _, rfl, hid⟩

theorem signature_eq_ok (hv : Admitted limits v) {purpose : SignaturePurpose} :
    signature v k purpose = .ok () ↔ ∃ s : Signature, s.purpose = purpose ∧ v = s.value := by
  simp only [signature, Except.bind_eq_ok, Except.exists_unit_iff, exactMap_eq_ok,
    field_eq_ok, unsigned_eq_ok, bytes_eq_ok, fixedBytes_eq_ok, Except.ofOption_eq_ok,
    Except.ite_error_eq_ok, and_true, Bool.or_eq_true, all_zero_iff, not_or, ne_eq, not_not,
    SignatureAlgorithm.ofCode_eq_some, SignaturePurpose.ofCode_eq_some]
  constructor
  · rintro ⟨m, ⟨rfl, -, hkeys⟩, v₀, h₀, n, rfl, alg, halg, v₁, h₁, ⟨signer, rfl⟩, v₂, h₂,
      ⟨keyId, rfl⟩, v₃, h₃, ⟨signed, rfl⟩, v₂', h₂', b₂, hb₂, v₃', h₃', b₃, hb₃, ⟨hz₂, hz₃⟩, v₄,
      h₄, n', rfl, purpose', hpurpose, rfl⟩
    rw [h₂] at h₂'
    rw [h₃] at h₃'
    cases h₂'; cases h₃'; cases hb₂; cases hb₃
    rw [keyId.2] at hz₂
    rw [signed.2] at hz₃
    refine ⟨⟨alg, signer, keyId, signed, purpose', hz₂, hz₃⟩, rfl, ?_⟩
    rw [← norm_signature, Signature.value,
      map_eq_norm_iff hv [0, 1, 2, 3, 4] (by simp) (by simp)]
    refine ⟨?_, hkeys⟩
    simp [lookupKey_cons, h₀, h₁, h₂, h₃, h₄, ← halg, ← hpurpose, RGit.stable]
  · rintro ⟨s, rfl, rfl⟩
    have hkey : ¬ s.signingKeyId.1 = List.replicate s.signingKeyId.1.length 0 := by
      rw [s.signingKeyId.2]; exact s.keyId_ne
    have hbytes : ¬ s.bytes.1 = List.replicate s.bytes.1.length 0 := by
      rw [s.bytes.2]; exact s.bytes_ne
    exact ⟨_, ⟨rfl, by simp [HasKeys, lookupKey_cons]⟩, _, rfl, _, rfl, s.algorithm, rfl, _,
      rfl, ⟨s.signer, rfl⟩, _, rfl, ⟨s.signingKeyId, rfl⟩, _, rfl, ⟨s.bytes, rfl⟩, _, rfl, _,
      rfl, _, rfl, _, rfl, ⟨hkey, hbytes⟩, _, rfl, _, rfl, s.purpose, rfl, rfl⟩

/-! ### Wall times -/

/-- The component is a number that an `i64` can hold. -/
def fitsI64 : Option Value → Bool
  | some (.unsigned n) => decide (n.toNat < 2 ^ 63)
  | _ => true

/-- Both components of a wall time are numbers that an `i64` can hold. -/
def wallTimeFits : Value → Bool
  | .map m => fitsI64 (lookupKey m 0) && fitsI64 (lookupKey m 1)
  | _ => true

omit [Unicode] in
theorem wallTimeComponent_iff {c : Value} (hc : c.norm = c) :
    (wallTimeComponent c k = .ok () ∧ fitsI64 (some c) = true) ↔
      ∃ a : Int64, c = (Value.signed a).norm := by
  constructor
  · rintro ⟨hok, hfits⟩
    cases c with
    | signed n => exact ⟨n, hc.symm⟩
    | unsigned n =>
        have hlt : n.toNat < 2 ^ 63 := by simpa [fitsI64] using hfits
        have hint : (Int64.ofNat n.toNat).toInt = n.toNat :=
          Int64.toInt_ofNat_of_lt hlt
        refine ⟨Int64.ofNat n.toNat, ?_⟩
        rw [Value.norm, hint, if_pos (by omega)]
        simp
    | bytes b => cases hok
    | text s => cases hok
    | array vs => cases hok
    | map es => cases hok
    | bool b => cases hok
    | null => cases hok
  · rintro ⟨a, rfl⟩
    rw [Value.norm]
    split
    · next ha =>
        have := a.toInt_lt
        refine ⟨rfl, ?_⟩
        simp only [fitsI64, decide_eq_true_eq, UInt64.toNat_ofNat']
        omega
    · exact ⟨rfl, rfl⟩

theorem wallTime_eq_ok (hv : Admitted limits v) :
    (wallTime v k = .ok () ∧ wallTimeFits v = true) ↔ ∃ t : WallTime, v = t.value.norm := by
  simp only [wallTime, Except.bind_eq_ok, exactMap_eq_ok, forM_eq_ok, List.forall_mem_cons,
    List.not_mem_nil, false_implies, implies_true, and_true, field_eq_ok]
  constructor
  · rintro ⟨⟨m, ⟨rfl, -, hkeys⟩, ⟨a, ha, hacomp⟩, b, hb, hbcomp⟩, hfits⟩
    simp only [wallTimeFits, ha, hb, Bool.and_eq_true] at hfits
    obtain ⟨x, rfl⟩ := (wallTimeComponent_iff (hv.norm_of_lookup ha)).mp ⟨hacomp, hfits.1⟩
    obtain ⟨y, rfl⟩ := (wallTimeComponent_iff (hv.norm_of_lookup hb)).mp ⟨hbcomp, hfits.2⟩
    refine ⟨⟨x, y⟩, ?_⟩
    rw [WallTime.value, map_eq_norm_iff hv [0, 1] (by simp) (by simp)]
    exact ⟨by simp [lookupKey_cons, ha, hb], hkeys⟩
  · rintro ⟨t, ht⟩
    rw [WallTime.value, eq_norm_map_iff hv [0, 1] (by simp) (by simp)] at ht
    obtain ⟨m, rfl, hlook, hkeys⟩ := ht
    simp only [List.forall_mem_cons, lookupKey_cons] at hlook
    obtain ⟨h₀, h₁, -⟩ := hlook
    simp only [if_true, Option.map_some, show ¬((0 : UInt64) = 1) by decide, if_false] at h₀ h₁
    have hx := (wallTimeComponent_iff (k := k) (hv.norm_of_lookup h₀)).mpr ⟨_, rfl⟩
    have hy := (wallTimeComponent_iff (k := k) (hv.norm_of_lookup h₁)).mpr ⟨_, rfl⟩
    refine ⟨⟨m, ⟨rfl, by simp [h₀, h₁], hkeys⟩, ⟨_, h₀, hx.1⟩, _, h₁, hy.1⟩, ?_⟩
    rw [wallTimeFits, h₀, h₁, hx.2, hy.2]
    rfl

/-! ### Records with optional identifiers -/

omit [Unicode] in
/-- `if let Some(value) = .. { oid(value)?; }`. -/
theorem ifSome_oid_eq_ok {o : Option Value} :
    Except.ifSome o (fun v => do
        let _ ← oid v k
        .ok ()) = .ok () ↔ ∃ id : Option ObjectId, o = id.map RGit.oid := by
  simp only [Except.ifSome_eq_ok, Except.bind_eq_ok, oid_eq_ok, and_true]
  constructor
  · intro h
    cases o with
    | none => exact ⟨none, rfl⟩
    | some v =>
        obtain ⟨id, rfl⟩ := h v rfl
        exact ⟨some id, rfl⟩
  · rintro ⟨id, rfl⟩ v hv
    cases id with
    | none => cases hv
    | some id => exact ⟨id, (Option.some.inj hv).symm⟩

omit [Unicode] in
@[simp] theorem norm_publicKey (r : PublicKeyRecord) : r.value.norm = r.value := by
  obtain ⟨alg, keyId, key, before, after⟩ := r
  cases before <;> cases after <;>
    exact norm_map_of_sorted (by simp [SortedKeys, optional]) (by simp [optional])

theorem publicKey_eq_norm_iff (hv : Admitted limits v) {r : PublicKeyRecord} :
    v = r.value.norm ↔ ∃ m, v = .map m ∧
      (lookupKey m 0 = some (.unsigned (code r.algorithm)) ∧
        lookupKey m 1 = some (stable r.keyId) ∧ lookupKey m 2 = some (.bytes r.publicKey) ∧
        lookupKey m 3 = r.notBefore.map RGit.oid ∧
        lookupKey m 4 = r.notAfter.map RGit.oid) ∧
      ∀ e ∈ m, e.1 ∈ [0, 1, 2] ++ [3, 4] := by
  rw [PublicKeyRecord.value, eq_norm_map_iff hv ([0, 1, 2] ++ [3, 4])
    (by cases r.notBefore <;> cases r.notAfter <;> simp [optional])
    (by cases r.notBefore <;> cases r.notAfter <;> simp [optional])]
  simp [lookupKey_optional, lookupKey_cons, Function.comp_def, RGit.stable]

theorem publicKey_eq_ok (hv : Admitted limits v) {alg : UInt64} {keyId : Bytes} :
    publicKey v k = .ok (alg, keyId) ↔
      ∃ r : PublicKeyRecord, r.validate = .ok () ∧ code r.algorithm = alg ∧
        r.keyId.1 = keyId ∧ v = r.value := by
  simp only [publicKey, Except.bind_eq_ok, Except.exists_unit_iff, exactMap_eq_ok,
    field_eq_ok, unsigned_eq_ok, bytes_eq_ok, fixedNonzeroBytes_eq_ok, gt_iff_lt,
    Except.ite_error_eq_ok, not_lt, ne_eq, not_not, forM_eq_ok, ifSome_oid_eq_ok,
    List.forall_mem_cons, List.not_mem_nil, false_implies, implies_true, and_true,
    Except.ok.injEq, Prod.mk.injEq, exists_code_of_le PublicKeyAlgorithm 1 rfl rfl (by decide),
    optionalField, PublicKeyRecord.validate, not_or]
  constructor
  · rintro ⟨m, ⟨rfl, -, hkeys⟩, v₀, h₀, n, rfl, ⟨alg', rfl⟩, v₁, h₁, ⟨id, hid, rfl⟩, v₂, h₂,
      key, rfl, hkey, ⟨⟨before, hbefore⟩, after, hafter⟩, v₁', h₁', b, hb, rfl, rfl⟩
    rw [h₁] at h₁'
    cases h₁'; cases hb
    refine ⟨⟨alg', id, key, before, after⟩, ⟨hid, hkey⟩, rfl, rfl, ?_⟩
    rw [← norm_publicKey, publicKey_eq_norm_iff hv]
    refine ⟨m, rfl, ?_, hkeys⟩
    exact ⟨h₀, h₁, h₂, hbefore, hafter⟩
  · rintro ⟨r, ⟨hid, hkey⟩, rfl, rfl, hr⟩
    rw [← norm_publicKey, publicKey_eq_norm_iff hv] at hr
    obtain ⟨m, rfl, ⟨h₀, h₁, h₂, h₃, h₄⟩, hkeys⟩ := hr
    exact ⟨m, ⟨rfl, by simp [h₀, h₁, h₂], hkeys⟩, _, h₀, _, rfl, ⟨r.algorithm, rfl⟩, _, h₁,
      ⟨r.keyId, hid, rfl⟩, _, h₂, _, rfl, hkey, ⟨⟨r.notBefore, h₃⟩, r.notAfter, h₄⟩, _, h₁, _,
      rfl, rfl, rfl⟩

theorem lineAdvance_eq_norm_iff (hv : Admitted limits v) {d : LineAdvanceDeclaration} :
    v = d.value.norm ↔ ∃ m, v = .map m ∧
      (lookupKey m 0 = some d.policyRef.value ∧ lookupKey m 1 = some (stable d.lineId) ∧
        lookupKey m 2 = some (.text d.displayName) ∧
        lookupKey m 3 = some (RGit.oid d.headSnapshot) ∧
        lookupKey m 4 = some (.unsigned d.generation) ∧
        lookupKey m 6 = some d.integrationPolicy.value ∧
        lookupKey m 7 = some d.approvalPolicy.value ∧
        lookupKey m 8 = some d.releasePolicy.value ∧
        lookupKey m 9 = some d.visibilityPolicy.value ∧
        lookupKey m 5 = d.previousState.map RGit.oid) ∧
      ∀ e ∈ m, e.1 ∈ [0, 1, 2, 3, 4, 6, 7, 8, 9] ++ [5] := by
  rw [LineAdvanceDeclaration.value, eq_norm_map_iff hv ([0, 1, 2, 3, 4, 6, 7, 8, 9] ++ [5])
    (by cases d.previousState <;> simp [optional])
    (by cases d.previousState <;> simp [optional])]
  simp [lookupKey_optional, lookupKey_cons, Function.comp_def]

theorem lineAdvance_eq_ok (hv : Admitted limits v) {lineId : LineId} :
    lineAdvance v k = .ok lineId ↔
      ∃ d : LineAdvanceDeclaration, d.validate = .ok () ∧ d.lineId = lineId ∧
        v = d.value.norm := by
  simp only [lineAdvance, Except.bind_eq_ok, Except.exists_unit_iff, exactMap_eq_ok,
    field_eq_ok, unsigned_eq_ok, bytes_eq_ok, text_eq_ok, oid_eq_ok, Except.ite_error_eq_ok,
    forM_eq_ok, ifSome_oid_eq_ok, List.forall_mem_cons, List.not_mem_nil, false_implies,
    implies_true, and_true, Except.ok.injEq, optionalField, Except.ofOption_eq_ok,
    FixedBytes.ofSlice_eq_some, LineAdvanceDeclaration.validate, ensureNfc,
    Except.ite_else_error_eq_ok]
  constructor
  · rintro ⟨m, ⟨rfl, -, hkeys⟩, v₀, h₀, hp₀, v₁, h₁, b, rfl, line, rfl, v₂, h₂, name, rfl, v₃,
      h₃, head, rfl, v₄, h₄, gen, rfl, hgen, ⟨prev, hprev⟩, ⟨⟨v₆, h₆, hp₆⟩, ⟨v₇, h₇, hp₇⟩,
      ⟨v₈, h₈, hp₈⟩, v₉, h₉, hp₉⟩, rfl⟩
    obtain ⟨p₀, rfl⟩ := (policyRef_eq_ok (hv.of_lookup h₀)).mp hp₀
    obtain ⟨p₆, rfl⟩ := (policyRef_eq_ok (hv.of_lookup h₆)).mp hp₆
    obtain ⟨p₇, rfl⟩ := (policyRef_eq_ok (hv.of_lookup h₇)).mp hp₇
    obtain ⟨p₈, rfl⟩ := (policyRef_eq_ok (hv.of_lookup h₈)).mp hp₈
    obtain ⟨p₉, rfl⟩ := (policyRef_eq_ok (hv.of_lookup h₉)).mp hp₉
    refine ⟨⟨p₀, line, name, head, gen, prev, p₆, p₇, p₈, p₉⟩, ⟨?_, ?_⟩, rfl, ?_⟩
    · simpa using (hv.of_lookup h₂).isNfc
    · simpa [hprev] using hgen
    · rw [lineAdvance_eq_norm_iff hv]
      exact ⟨m, rfl, ⟨h₀, h₁, h₂, h₃, h₄, h₆, h₇, h₈, h₉, hprev⟩, hkeys⟩
  · rintro ⟨d, ⟨hnfc, hgen⟩, rfl, hd⟩
    rw [lineAdvance_eq_norm_iff hv] at hd
    obtain ⟨m, rfl, ⟨h₀, h₁, h₂, h₃, h₄, h₆, h₇, h₈, h₉, h₅⟩, hkeys⟩ := hd
    have hpolicy : ∀ {k' : UInt64} {p : PolicyRef}, lookupKey m k' = some p.value →
        ∃ v, lookupKey m k' = some v ∧ policyRef v k = .ok () := fun h =>
      ⟨_, h, (policyRef_eq_ok (hv.of_lookup h)).mpr ⟨_, rfl⟩⟩
    obtain ⟨_, hl₀, hp₀⟩ := hpolicy h₀
    refine ⟨m, ⟨rfl, ?_, hkeys⟩, _, hl₀, hp₀, _, h₁, _, rfl, _, rfl, _, h₂, _, rfl, _, h₃, _,
      rfl, _, h₄, _, rfl, ?_, ⟨d.previousState, h₅⟩, ⟨hpolicy h₆, hpolicy h₇, hpolicy h₈,
      hpolicy h₉⟩, rfl⟩
    · simp [h₀, h₁, h₂, h₃, h₄, h₆, h₇, h₈, h₉]
    · simpa [h₅] using hgen

end Records

end Decode

end RGit
