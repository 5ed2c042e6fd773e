/-
RGit/Objects/Fields.lean

What the checks on single fields of a record accept: `.. = .ok ()` exactly
when the field holds the value of some typed component.
-/
import RGit.Objects.Ordered

namespace RGit

open Discriminant (code)

namespace Decode

variable {m : Entries} {k : UInt64}

/-! ### Plain fields -/

theorem oidField_eq_ok :
    oidField m k = .ok () ↔ ∃ id : ObjectId, lookupKey m k = some (RGit.oid id) := by
  simp only [oidField, Except.bind_eq_ok, field_eq_ok, oid_eq_ok, and_true]
  exact ⟨fun ⟨_, hv, id, hid⟩ => ⟨id, hid ▸ hv⟩, fun ⟨id, h⟩ => ⟨_, h, id, rfl⟩⟩

theorem stableField_eq_ok :
    stableField m k = .ok () ↔ ∃ id : FixedBytes 16, lookupKey m k = some (stable id) := by
  simp only [stableField, Except.bind_eq_ok, field_eq_ok, fixedBytes_eq_ok]
  exact ⟨fun ⟨_, hv, id, hid⟩ => ⟨id, hid ▸ hv⟩, fun ⟨id, h⟩ => ⟨_, h, id, rfl⟩⟩

theorem unsignedField_eq_ok :
    unsignedField m k = .ok () ↔ ∃ n, lookupKey m k = some (.unsigned n) := by
  simp only [unsignedField, Except.bind_eq_ok, field_eq_ok, unsigned_eq_ok, and_true]
  exact ⟨fun ⟨_, hv, n, hn⟩ => ⟨n, hn ▸ hv⟩, fun ⟨n, h⟩ => ⟨_, h, n, rfl⟩⟩

theorem textField_eq_ok :
    textField m k = .ok () ↔ ∃ s, lookupKey m k = some (.text s) := by
  simp only [textField, Except.bind_eq_ok, field_eq_ok, text_eq_ok, and_true]
  exact ⟨fun ⟨_, hv, s, hs⟩ => ⟨s, hs ▸ hv⟩, fun ⟨s, h⟩ => ⟨_, h, s, rfl⟩⟩

theorem bytesField_eq_ok :
    bytesField m k = .ok () ↔ ∃ b, lookupKey m k = some (.bytes b) := by
  simp only [bytesField, Except.bind_eq_ok, field_eq_ok, bytes_eq_ok, and_true]
  exact ⟨fun ⟨_, hv, b, hb⟩ => ⟨b, hb ▸ hv⟩, fun ⟨b, h⟩ => ⟨_, h, b, rfl⟩⟩

theorem optionalOidField_eq_ok :
    optionalOidField m k = .ok () ↔
      ∃ id : Option ObjectId, lookupKey m k = id.map RGit.oid := ifSome_oid_eq_ok

theorem ifSome_text_eq_ok {o : Option Value} :
    Except.ifSome o (fun v => do
        let _ ← text v k
        .ok ()) = .ok () ↔ ∃ s : Option String, o = s.map .text := by
  simp only [Except.ifSome_eq_ok, Except.bind_eq_ok, text_eq_ok, and_true]
  constructor
  · intro h
    cases o with
    | none => exact ⟨none, rfl⟩
    | some v =>
        obtain ⟨s, rfl⟩ := h v rfl
        exact ⟨some s, rfl⟩
  · rintro ⟨s, rfl⟩ v hv
    cases s with
    | none => cases hv
    | some s => exact ⟨s, (Option.some.inj hv).symm⟩

/-- An enumerated field holds the number of a variant. -/
theorem enumField_eq_ok (α : Type) [DecidableEq α] [Discriminant α] (last : UInt64)
    (hfirst : Discriminant.first α = 0)
    (hlast : (Discriminant.values : List α).length = last.toNat + 1)
    (hsmall : last.toNat + 1 < 2 ^ 64) :
    enumField m k last = .ok () ↔ ∃ a : α, lookupKey m k = some (.unsigned (code a)) := by
  simp only [enumField, Except.bind_eq_ok, field_eq_ok, unsigned_eq_ok, gt_iff_lt,
    Except.ite_error_eq_ok, not_lt, and_true, exists_code_of_le α last hfirst hlast hsmall]
  constructor
  · rintro ⟨v, hv, n, rfl, a, rfl⟩; exact ⟨a, hv⟩
  · rintro ⟨a, h⟩; exact ⟨_, h, _, rfl, a, rfl⟩

theorem predecessorField_eq_ok {version : UInt64} :
    predecessorField m version k = .ok () ↔
      ∃ id : Option ObjectId, ¬(version == 0) = id.isSome ∧
        lookupKey m k = id.map RGit.oid := by
  simp only [predecessorField, Except.ite_error_eq_ok, optionalOidField_eq_ok]
  constructor
  · rintro ⟨hversion, id, hid⟩
    exact ⟨id, by simpa [hid] using hversion, hid⟩
  · rintro ⟨id, hversion, hid⟩
    exact ⟨by simpa [hid] using hversion, id, hid⟩

theorem oidArray_eq_ok {v : Value} :
    oidArray v k = .ok () ↔ ∃ ids : List ObjectId, v = RGit.oidArray ids := by
  simp only [oidArray, Except.bind_eq_ok, array_eq_ok, forM_eq_ok, oid_eq_ok, and_true]
  constructor
  · rintro ⟨vs, rfl, hall⟩
    have hex : ∀ v ∈ vs, ∃ id : ObjectId, True ∧ v = RGit.oid id := by simpa using hall
    obtain ⟨ids, -, rfl⟩ := forall_exists_image_iff.mp hex
    exact ⟨ids, rfl⟩
  · rintro ⟨ids, rfl⟩
    exact ⟨_, rfl, by simp⟩

theorem oidArrayField_eq_ok :
    oidArrayField m k = .ok () ↔
      ∃ ids : List ObjectId, lookupKey m k = some (RGit.oidArray ids) := by
  simp only [oidArrayField, Except.bind_eq_ok, field_eq_ok, oidArray_eq_ok]
  exact ⟨fun ⟨_, hv, ids, hids⟩ => ⟨ids, hids ▸ hv⟩, fun ⟨ids, h⟩ => ⟨_, h, ids, rfl⟩⟩

theorem uniqueIdsField_eq_ok :
    uniqueIdsField m k = .ok () ↔
      ∃ ids : List ObjectId, ids.Nodup ∧ lookupKey m k = some (RGit.oidArray ids) := by
  simp only [uniqueIdsField, Except.bind_eq_ok, field_eq_ok, oidValues_eq_ok,
    ensureUniqueIds_eq_ok]
  constructor
  · rintro ⟨_, hv, ids, rfl, hnodup⟩; exact ⟨ids, hnodup, hv⟩
  · rintro ⟨ids, hnodup, h⟩; exact ⟨_, h, ids, rfl, hnodup⟩

/-! ### Fields of an admitted record -/

section Admitted

variable [Unicode] {limits : CanonicalLimits}

theorem policyField_eq_ok (hm : Admitted limits (.map m)) :
    policyField m k = .ok () ↔ ∃ p : PolicyRef, lookupKey m k = some p.value := by
  simp only [policyField, Except.bind_eq_ok, field_eq_ok]
  constructor
  · rintro ⟨v, hv, hok⟩
    obtain ⟨p, rfl⟩ := (policyRef_eq_ok (hm.of_lookup hv)).mp hok
    exact ⟨p, hv⟩
  · rintro ⟨p, hp⟩
    exact ⟨_, hp, (policyRef_eq_ok (hm.of_lookup hp)).mpr ⟨p, rfl⟩⟩

theorem typedField_eq_ok (hm : Admitted limits (.map m)) :
    typedField m k = .ok () ↔ ∃ r : TypedObjectRef, lookupKey m k = some r.value := by
  simp only [typedField, Except.bind_eq_ok, field_eq_ok]
  constructor
  · rintro ⟨v, hv, hok⟩
    obtain ⟨r, rfl⟩ := (typedRef_eq_ok (hm.of_lookup hv)).mp hok
    exact ⟨r, hv⟩
  · rintro ⟨r, hr⟩
    exact ⟨_, hr, (typedRef_eq_ok (hm.of_lookup hr)).mpr ⟨r, rfl⟩⟩

/-- The wall time in field `k`, if there is one, fits the typed object. -/
def wallTimeFieldFits (m : Entries) (k : UInt64) : Bool :=
  (lookupKey m k).all wallTimeFits

theorem wallTimeField_eq_ok (hm : Admitted limits (.map m)) :
    (wallTimeField m k = .ok () ∧ wallTimeFieldFits m k = true) ↔
      ∃ t : WallTime, lookupKey m k = some t.value.norm := by
  simp only [wallTimeField, Except.bind_eq_ok, field_eq_ok, wallTimeFieldFits]
  constructor
  · rintro ⟨⟨v, hv, hok⟩, hfits⟩
    obtain ⟨t, rfl⟩ := (wallTime_eq_ok (hm.of_lookup hv)).mp ⟨hok, by simpa [hv] using hfits⟩
    exact ⟨t, hv⟩
  · rintro ⟨t, ht⟩
    obtain ⟨hok, hfits⟩ := (wallTime_eq_ok (k := k) (hm.of_lookup ht)).mpr ⟨t, rfl⟩
    exact ⟨⟨_, ht, hok⟩, by simpa [ht] using hfits⟩

/-- The field as read by a check that accepts the values of a component. -/
theorem field_bind_eq_ok {α : Type} {check : Value → DecodeResult Unit} {p : α → Prop}
    {value : α → Value} (hm : Admitted limits (.map m))
    (h : ∀ {v}, Admitted limits v → (check v = .ok () ↔ ∃ a, p a ∧ v = value a)) :
    (do check (← field m k)) = Except.ok () ↔
      ∃ a, p a ∧ lookupKey m k = some (value a) := by
  simp only [Except.bind_eq_ok, field_eq_ok]
  constructor
  · rintro ⟨v, hv, hok⟩
    obtain ⟨a, ha, rfl⟩ := (h (hm.of_lookup hv)).mp hok
    exact ⟨a, ha, hv⟩
  · rintro ⟨a, ha, hl⟩
    exact ⟨_, hl, (h (hm.of_lookup hl)).mpr ⟨a, ha, rfl⟩⟩

theorem signatureField_eq_ok (hm : Admitted limits (.map m)) {purpose : SignaturePurpose} :
    signatureField m k purpose = .ok () ↔
      ∃ s : Signature, s.purpose = purpose ∧ lookupKey m k = some s.value :=
  field_bind_eq_ok hm fun hv => signature_eq_ok hv

theorem signatureSetField_eq_ok (hm : Admitted .metadata (.map m))
    {purpose : SignaturePurpose} :
    signatureSetField m k purpose = .ok () ↔
      ∃ ss : List Signature, checkSignatures ss purpose = .ok () ∧
        lookupKey m k = some (signatureArray ss) :=
  field_bind_eq_ok hm fun hv => signatureSet_eq_ok hv

theorem principalField_eq_ok (hm : Admitted limits (.map m)) :
    principalField m k = .ok () ↔
      ∃ p : Principal, p.identifier ≠ [] ∧ lookupKey m k = some p.value :=
  field_bind_eq_ok hm principal_eq_ok

theorem typedRefSetField_eq_ok (hm : Admitted .metadata (.map m)) :
    typedRefSetField m k = .ok () ↔
      ∃ rs : List TypedObjectRef, SortedRefs rs ∧ lookupKey m k = some (typedRefArray rs) :=
  field_bind_eq_ok hm fun hv => typedRefSet_eq_ok hv

theorem canonicalMapField_eq_ok (hm : Admitted limits (.map m)) :
    canonicalMapField m k = .ok () ↔
      ∃ b, isCanonicalMap b = true ∧ lookupKey m k = some (.bytes b) :=
  field_bind_eq_ok hm fun _ => canonicalMapBytes_eq_ok

theorem idSetField_eq_ok (hm : Admitted .metadata (.map m)) {nonempty : Bool} :
    idSetField m k nonempty = .ok () ↔
      ∃ ids : List ObjectId, SortedIds ids ∧
        (nonempty = true → ids ≠ []) ∧ lookupKey m k = some (RGit.oidArray ids) := by
  simp only [idSetField, Except.bind_eq_ok, Except.exists_unit_iff, field_eq_ok,
    oidValues_eq_ok, Except.ite_error_eq_ok, and_true, not_and]
  constructor
  · rintro ⟨v, hv, ids, rfl, hsorted, hne⟩
    exact ⟨ids, (ensureSortedUniqueIds_eq_ok (hm.of_lookup hv)).mp hsorted, hne, hv⟩
  · rintro ⟨ids, hsorted, hne, hids⟩
    exact ⟨_, hids, ids, rfl, (ensureSortedUniqueIds_eq_ok (hm.of_lookup hids)).mpr hsorted, hne⟩

/-! ### Fields read by a loop -/

theorem eachField_eq_ok {α : Type} {check : Value → DecodeResult Unit} {p : α → Prop}
    {value : α → Value} (hm : Admitted limits (.map m))
    (h : ∀ {v}, Admitted limits v → (check v = .ok () ↔ ∃ a, p a ∧ v = value a)) :
    eachField m k check = .ok () ↔
      ∃ as : List α, (∀ a ∈ as, p a) ∧ lookupKey m k = some (.array (as.map value)) := by
  simp only [eachField, Except.bind_eq_ok, field_eq_ok, array_eq_ok, forM_eq_ok]
  constructor
  · rintro ⟨_, hvs, vs, rfl, hall⟩
    have hex : ∀ v ∈ vs, ∃ a, p a ∧ v = value a := fun v hv =>
      (h ((hm.of_lookup hvs).of_mem hv)).mp (hall v hv)
    obtain ⟨as, has, rfl⟩ := forall_exists_image_iff.mp hex
    exact ⟨as, has, hvs⟩
  · rintro ⟨as, has, hvs⟩
    refine ⟨_, hvs, _, rfl, fun v hv => (h ((hm.of_lookup hvs).of_mem hv)).mpr ?_⟩
    obtain ⟨a, ha, rfl⟩ := List.mem_map.mp hv
    exact ⟨a, has a ha, rfl⟩

theorem loopField_eq_ok {α σ ε : Type} {step : σ → Value → DecodeResult σ}
    {stepTyped : σ → α → Except ε σ} {value : α → Value} (hm : Admitted limits (.map m))
    (h : ∀ {v}, Admitted limits v →
      ∀ s s', step s v = .ok s' ↔ ∃ a, v = value a ∧ stepTyped s a = .ok s') {init : σ} :
    loopField m k step init = .ok () ↔
      ∃ as : List α, (∃ s, as.foldlM stepTyped init = .ok s) ∧
        lookupKey m k = some (.array (as.map value)) := by
  simp only [loopField, Except.bind_eq_ok, field_eq_ok, array_eq_ok, and_true]
  constructor
  · rintro ⟨_, hvs, vs, rfl, s, hs⟩
    obtain ⟨as, rfl, has⟩ := (foldlM_image fun v hv => h ((hm.of_lookup hvs).of_mem hv)).mp hs
    exact ⟨as, ⟨s, has⟩, hvs⟩
  · rintro ⟨as, ⟨s, has⟩, hvs⟩
    exact ⟨_, hvs, _, rfl, s,
      (foldlM_image fun v hv => h ((hm.of_lookup hvs).of_mem hv)).mpr ⟨as, rfl, has⟩⟩

theorem pathField_eq_ok :
    pathField m k = .ok () ↔ ∃ p : PortablePath, lookupKey m k = some p.value := by
  simp only [pathField, Except.bind_eq_ok, field_eq_ok, array_eq_ok, mapM_eq_ok, text_eq_ok,
    Except.mapError_eq_ok, PathSegment.newPortable_eq_ok, PortablePath.new_eq_ok, and_true]
  constructor
  · rintro ⟨_, hvs, vs, rfl, segments, hall, p, rfl⟩
    have hmap : vs = p.segments.map PathSegment.toValue := by
      rw [← List.forall₂_eq_eq_eq, List.forall₂_map_right_iff]
      refine hall.imp ?_
      rintro v s ⟨_, rfl, rfl, -⟩
      rfl
    exact ⟨p, by rw [hvs, hmap, PortablePath.value]⟩
  · rintro ⟨p, hp⟩
    refine ⟨_, hp, _, rfl, p.segments, ?_, p, rfl⟩
    rw [List.forall₂_map_left_iff, List.forall₂_same]
    exact fun s hs => ⟨_, rfl, rfl, PortablePath.ensurePortable_of_mem hs⟩

/-! ### The frame of every kind -/

/-- The presence and shape of the policy reference. -/
def PolicyHeader (kind : ObjectKind) (m : Entries) : Prop :=
  (policyOptional kind = false ∨ (lookupKey m 2).isSome) →
    ∃ p : PolicyRef, lookupKey m 2 = some p.value

omit [Unicode] in
/-- An optional policy reference, read both ways. -/
theorem policyHeader_optional {kind : ObjectKind} (h : PolicyHeader kind m) :
    ∃ p : Option PolicyRef, lookupKey m 2 = p.map PolicyRef.value := by
  cases h₂ : lookupKey m 2 with
  | none => exact ⟨none, rfl⟩
  | some v =>
      obtain ⟨p, hp⟩ := h (.inr (by rw [h₂]; rfl))
      exact ⟨some p, by rw [← h₂, hp, Option.map_some]⟩

omit [Unicode] in
theorem policyHeader_of_optional {kind : ObjectKind} {p : Option PolicyRef}
    (hkind : policyOptional kind = true) (h : lookupKey m 2 = p.map PolicyRef.value) :
    PolicyHeader kind m := by
  rintro (hreq | hsome)
  · rw [hkind] at hreq; cases hreq
  · cases p with
    | none => rw [h] at hsome; cases hsome
    | some p => exact ⟨p, h⟩

theorem validateFields_eq_ok (hm : Admitted limits (.map m)) {kind : ObjectKind}
    {schema : UInt64} :
    validateFields kind schema m = .ok () ↔
      HasKeys m (fieldSets kind).1 (fieldSets kind).2 ∧ PolicyHeader kind m ∧
        validateShapes kind schema m = .ok () := by
  have hpolicy : policyHeader kind m = .ok () ↔ PolicyHeader kind m := by
    rw [PolicyHeader, ← policyField_eq_ok hm, policyHeader]
    by_cases h : policyOptional kind = false ∨ (lookupKey m 2).isSome
    · rw [if_pos (by simpa [hasField_iff] using h)]
      simp [h]
    · rw [if_neg (by simpa [hasField_iff] using h)]
      simp [h]
  simp only [validateFields, Except.bind_eq_ok, Except.exists_unit_iff, forM_eq_ok, hpolicy,
    field_eq_ok, and_true, Except.ite_else_error_eq_ok, Bool.or_eq_true,
    List.contains_iff_mem, HasKeys, List.mem_append, and_assoc]

end Admitted

end Decode

end RGit
