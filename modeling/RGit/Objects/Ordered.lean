/-
RGit/Objects/Ordered.lean

Sorted sets in records: signatures, typed references, identifiers, lines.

The typed objects sort some of these sets by the order their type derives
and some by their encoded bytes; the decoder only knows the bytes.  The two
orders agree because the parts that are compared have fixed lengths
(`compare_raw_signature`), or because the first part already decides
(`compare_raw_lineGeneration`).
-/
import RGit.Objects.Shapes

namespace RGit

open Discriminant (code)

/-! ### Encoded lists -/

section Encoded

variable [Unicode] {limits : CanonicalLimits}

theorem encodeAll_norm (vs : List Value) : encodeAll (vs.map Value.norm) = encodeAll vs := by
  unfold encodeAll
  induction vs with
  | nil => rfl
  | cons v vs ih =>
      rw [List.map_cons, List.mapM_cons, List.mapM_cons, ih, Value.encode, Value.encode,
        encodeWithLimits_norm]

theorem sortedEncodings_eq_ok {vs : List Value} {what : String} {k : UInt64} :
    sortedEncodings vs what = .ok () ↔
      Decode.ensureSortedUniqueValues (vs.map Value.norm) k = .ok () := by
  simp only [sortedEncodings, Decode.ensureSortedUniqueValues, Except.bind_eq_ok,
    Except.mapError_eq_ok, Except.ite_error_eq_ok, encodeAll_norm]

theorem encodeAll_of_admitted {vs : List Value} (h : Admitted .metadata (.array vs)) :
    encodeAll vs = .ok (vs.map Value.raw) := by
  have hall : ∀ v ∈ vs, v.encode = .ok v.raw := fun v hv => (h.of_mem hv).2
  unfold encodeAll
  rw [mapM_eq_ok]
  clear h
  induction vs with
  | nil => exact .nil
  | cons v vs ih =>
      exact .cons (hall v (by simp)) (ih fun w hw => hall w (List.mem_cons_of_mem _ hw))

theorem ensureSortedUniqueValues_eq_ok {vs : List Value} {k : UInt64}
    (h : Admitted .metadata (.array vs)) :
    Decode.ensureSortedUniqueValues vs k = .ok () ↔ outOfOrder (vs.map Value.raw) = false := by
  simp [Decode.ensureSortedUniqueValues, encodeAll_of_admitted h, Except.mapError]

/-- The encodings are strictly increasing, whatever the message would be. -/
def SortedValues (vs : List Value) : Prop := ∀ what, sortedEncodings vs what = .ok ()

theorem sortedEncodings_iff {vs : List Value} (what : String) :
    sortedEncodings vs what = .ok () ↔ SortedValues vs := by
  refine ⟨fun h what' => ?_, fun h => h what⟩
  rw [sortedEncodings_eq_ok (k := 0)] at h ⊢
  exact h

theorem ensureSortedUniqueValues_map {α : Type} {value : α → Value}
    (hnorm : ∀ a, (value a).norm = value a) {as : List α} {k : UInt64} :
    Decode.ensureSortedUniqueValues (as.map value) k = .ok () ↔ SortedValues (as.map value) := by
  have hmap : (as.map value).map Value.norm = as.map value := by
    rw [List.map_map]
    exact List.map_congr_left fun a _ => hnorm a
  rw [← sortedEncodings_iff "", sortedEncodings_eq_ok (k := k), hmap]

end Encoded

/-! ### Signatures -/

theorem sortedKeys_signature (s : Signature) :
    SortedKeys [((0 : UInt64), Value.unsigned (code s.algorithm)), (1, stable s.signer),
      (2, .bytes s.signingKeyId.1), (3, .bytes s.bytes.1), (4, .unsigned (code s.purpose))] := by
  simp [SortedKeys]

/-- Of two signatures for one purpose, the bytes are ordered as the fields. -/
theorem compare_raw_signature {s s' : Signature} (h : s.purpose = s'.purpose) :
    compare s.value.raw s'.value.raw = compare s s' := by
  have hraw : ∀ s : Signature, s.value.raw =
      headBytes 5 5 ++ (headBytes 0 0 ++ headBytes 0 0 ++ (headBytes 0 1 ++ headBytes 2 16)) ++
        (s.signer.1 ++ (headBytes 0 2 ++ headBytes 2 32 ++ (s.signingKeyId.1 ++
          (headBytes 0 3 ++ headBytes 2 64 ++ (s.bytes.1 ++
            (headBytes 0 4 ++ headBytes 0 (code s.purpose).toNat)))))) := by
    intro s
    have halg : code s.algorithm = 0 := by cases s.algorithm; rfl
    rw [Signature.value, raw_map_sorted (sortedKeys_signature s)]
    simp [rawEntry, Value.raw, stable, halg, s.signer.2, s.signingKeyId.2, s.bytes.2]
  have halg : code s.algorithm = code s'.algorithm := by
    cases s.algorithm; cases s'.algorithm; rfl
  rw [hraw, hraw, compare_append_left, compare_append (by rw [s.signer.2, s'.signer.2]),
    compare_append_left, compare_append (by rw [s.signingKeyId.2, s'.signingKeyId.2]),
    compare_append_left, compare_append (by rw [s.bytes.2, s'.bytes.2]), h,
    Std.ReflOrd.compare_self]
  show _ = compareLex _ _ s s'
  simp only [compareLex, compareOn, halg, h, Std.ReflOrd.compare_self, Ordering.eq_then]

theorem outOfOrder_signatures {ss : List Signature} {purpose : SignaturePurpose}
    (h : ∀ s ∈ ss, s.purpose = purpose) :
    outOfOrder ((ss.map Signature.value).map Value.raw) = outOfOrder ss := by
  unfold outOfOrder
  rw [List.map_map]
  refine anyWindow_map fun s hs s' hs' => ?_
  rw [Function.comp_apply, Function.comp_apply,
    compare_raw_signature ((h s hs).trans (h s' hs').symm)]

theorem checkSignatures_eq_ok {ss : List Signature} {purpose : SignaturePurpose} :
    checkSignatures ss purpose = .ok () ↔
      ss ≠ [] ∧ (∀ s ∈ ss, s.purpose = purpose) ∧ outOfOrder ss = false := by
  simp [checkSignatures]

theorem ensureSignatureSet_eq_ok {ss : List Signature} {purpose : SignaturePurpose} :
    ensureSignatureSet ss purpose = .ok () ↔ checkSignatures ss purpose = .ok () := by
  simp [ensureSignatureSet, checkSignatures_eq_ok, Except.bind_eq_ok, Except.exists_unit_iff,
    forM_eq_ok, ensureSignaturePurpose]

namespace Decode

variable [Unicode] {v : Value} {k : UInt64} {m : Entries}

theorem signatureSet_eq_ok (hv : Admitted .metadata v) {purpose : SignaturePurpose} :
    signatureSet v k purpose = .ok () ↔
      ∃ ss : List Signature, checkSignatures ss purpose = .ok () ∧ v = signatureArray ss := by
  simp only [signatureSet, Except.bind_eq_ok, Except.exists_unit_iff, array_eq_ok,
    Except.ite_error_eq_ok, forM_eq_ok, checkSignatures_eq_ok]
  constructor
  · rintro ⟨vs, rfl, hne, hall, hsorted⟩
    have hex : ∀ v ∈ vs, ∃ s : Signature, s.purpose = purpose ∧ v = s.value := fun v hmem =>
      (signature_eq_ok (hv.of_mem hmem)).mp (hall v hmem)
    obtain ⟨ss, hss, rfl⟩ := forall_exists_image_iff.mp hex
    rw [ensureSortedUniqueValues_eq_ok hv, outOfOrder_signatures hss] at hsorted
    exact ⟨ss, ⟨by simpa using hne, hss, hsorted⟩, rfl⟩
  · rintro ⟨ss, ⟨hne, hss, hsorted⟩, rfl⟩
    refine ⟨_, rfl, by simpa using hne, ?_, ?_⟩
    · intro v hmem
      obtain ⟨s, hs, rfl⟩ := List.mem_map.mp hmem
      exact (signature_eq_ok (hv.of_mem hmem)).mpr ⟨s, hss s hs, rfl⟩
    · rwa [ensureSortedUniqueValues_eq_ok hv, outOfOrder_signatures hss]

/-! ### Increasing numbers -/

/-- One pass of a loop that wants every number above the previous one. -/
def increasingStep {α : Type} (k : UInt64) (number : α → UInt64) (previous : Option UInt64)
    (a : α) : DecodeResult (Option UInt64) :=
  if previous.any (fun p => decide (p ≥ number a)) then .error (.field k)
  else .ok (some (number a))

omit [Unicode] in
theorem foldlM_increasingStep_iff {α : Type} {number : α → UInt64} {as : List α} :
    (∃ s, as.foldlM (increasingStep k number) none = .ok s) ↔
      (as.map number).Pairwise (· < ·) := by
  have hstep : ∀ (s : Option UInt64) (a : α) (s' : Option UInt64),
      increasingStep k number s a = .ok s' ↔
        (∀ old ∈ s, old < number a) ∧ some (number a) = s' := by
    intro s a s'
    simp [increasingStep, Option.any_eq_false]
  simp only [foldlM_eq_ok hstep, exists_and_left, exists_eq', and_true]
  rw [walk_previous number (· < ·), List.isChain_iff_pairwise]
  simp

/-! ### References and identifiers -/

theorem length_le_of_admitted_array {vs : List Value} (h : Admitted .metadata (.array vs)) :
    vs.length ≤ maxRegistryItems := h.fits.1

/-- The references are sorted and unique, whatever the message would be. -/
def SortedRefs (rs : List TypedObjectRef) : Prop := ∀ what, sortedUniqueRefs rs what = .ok ()

theorem sortedUniqueRefs_eq_ok {rs : List TypedObjectRef} (what : String) :
    sortedUniqueRefs rs what = .ok () ↔ SortedRefs rs := by
  refine ⟨fun h what' => ?_, fun h => h what⟩
  simp only [sortedUniqueRefs, gt_iff_lt, Except.ite_error_eq_ok, sortedEncodings_iff] at h ⊢
  exact h

theorem typedRefSet_eq_ok (hv : Admitted .metadata v) :
    typedRefSet v k = .ok () ↔
      ∃ rs : List TypedObjectRef, SortedRefs rs ∧ v = typedRefArray rs := by
  simp only [← sortedUniqueRefs_eq_ok "", typedRefSet, Except.bind_eq_ok,
    Except.exists_unit_iff, array_eq_ok, forM_eq_ok, sortedUniqueRefs, gt_iff_lt,
    Except.ite_error_eq_ok, not_lt, sortedEncodings_iff]
  constructor
  · rintro ⟨vs, rfl, hall, hsorted⟩
    have hex : ∀ v ∈ vs, ∃ r : TypedObjectRef, True ∧ v = r.value := fun v hmem => by
      simpa using (typedRef_eq_ok (hv.of_mem hmem)).mp (hall v hmem)
    obtain ⟨rs, -, rfl⟩ := forall_exists_image_iff.mp hex
    exact ⟨rs, ⟨by simpa using length_le_of_admitted_array hv,
      (ensureSortedUniqueValues_map norm_typedRef).mp hsorted⟩, rfl⟩
  · rintro ⟨rs, ⟨-, hsorted⟩, rfl⟩
    refine ⟨_, rfl, ?_, (ensureSortedUniqueValues_map norm_typedRef).mpr hsorted⟩
    intro v hmem
    obtain ⟨r, -, rfl⟩ := List.mem_map.mp hmem
    exact (typedRef_eq_ok (hv.of_mem hmem)).mpr ⟨r, rfl⟩

/-- The identifiers are sorted and unique, whatever the message would be. -/
def SortedIds (ids : List ObjectId) : Prop := ∀ what, sortedUniqueIds ids what = .ok ()

omit [Unicode] in
theorem sortedUniqueIds_eq_ok {ids : List ObjectId} {what : String} :
    sortedUniqueIds ids what = .ok () ↔ SortedIds ids := by
  simp [SortedIds, sortedUniqueIds]

theorem ensureSortedUniqueIds_eq_ok {ids : List ObjectId}
    (hv : Admitted .metadata (RGit.oidArray ids)) :
    ensureSortedUniqueIds ids k = .ok () ↔ SortedIds ids := by
  have hlen : ids.length ≤ maxRegistryItems := by
    simpa using length_le_of_admitted_array hv
  simp [SortedIds, sortedUniqueIds, ensureSortedUniqueIds, hlen]

theorem canonicalMapBytes_eq_ok :
    canonicalMapBytes v k = .ok () ↔ ∃ b, isCanonicalMap b = true ∧ v = .bytes b := by
  simp only [canonicalMapBytes, Except.bind_eq_ok, bytes_eq_ok, Except.ite_else_error_eq_ok,
    and_true]
  constructor
  · rintro ⟨b, hv, hb⟩
    exact ⟨b, hb, hv⟩
  · rintro ⟨b, hb, hv⟩
    exact ⟨b, hv, hb⟩

end Decode

end RGit
