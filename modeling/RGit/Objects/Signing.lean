/-
RGit/Objects/Signing.lean

What a signature is about.

`signing_preimage` frames the unsigned fields of an object with everything
that could tell one signature from another.  The frame is read back from the
left, varint by varint (`signingPreimage_inj`), and the canonical encoding of
the unsigned fields determines them, so a signature cannot be moved to
another object (`domain_separation`).
-/
import RGit.Objects.Admission
import RGit.Objects.Varint

namespace RGit

open Discriminant (code)

open CanonicalObject

/-- `b"RGIT-SIGNATURE\0"`. -/
def signatureDomain : Bytes :=
  [0x52, 0x47, 0x49, 0x54, 0x2d, 0x53, 0x49, 0x47, 0x4e, 0x41, 0x54, 0x55, 0x52, 0x45, 0x00]

/-- `signing_preimage`, the frozen preimage of signature profile 0. -/
def signingPreimage (algorithm : SignatureAlgorithm) (purpose : SignaturePurpose)
    (signer : ActorId) (signingKeyId : FixedBytes 32) (kind : ObjectKind)
    (schemaVersion : UInt64) (unsignedCbor : Bytes) : Bytes :=
  signatureDomain ++ pushVarint 0 ++ pushVarint (code algorithm) ++ pushVarint (code purpose) ++
    signer.1 ++ pushVarint signingKeyId.1.length.toUInt64 ++ signingKeyId.1 ++
    pushVarint (code kind) ++ pushVarint schemaVersion ++
    pushVarint unsignedCbor.length.toUInt64 ++ unsignedCbor

/-- The canonical projection of an object that carries signatures. -/
class SignedObject (α : Type) [CanonicalObject α] where
  unsignedMap : α → Entries
  signatures : α → List Signature

namespace SignedObject

variable {α : Type} [CanonicalObject α] [SignedObject α]

/-- `SignedObject::unsigned_encode`. -/
def unsignedEncode [Unicode] (o : α) : Except ObjectError Bytes := do
  validate o
  ((Value.map (unsignedMap o)).encodeWithLimits (kindLimits (kind α))).mapError .canonical

/-- `SignedObject::signing_preimage`. -/
def signingPreimage [Unicode] (o : α) (s : Signature) : Except ObjectError Bytes :=
  if s ∉ signatures o then
    .error (.invalid "signature metadata is not carried by this object")
  else do
    let unsigned ← unsignedEncode o
    .ok (RGit.signingPreimage s.algorithm s.purpose s.signer s.signingKeyId (kind α)
      (schemaVersion α) unsigned)

end SignedObject

section Instances

variable [Unicode]

instance : SignedObject LineState := ⟨LineState.unsignedMap, fun o => [o.signature]⟩
instance : SignedObject Operation := ⟨Operation.unsignedMap, fun o => [o.signature]⟩
instance : SignedObject OperationV1 := ⟨OperationV1.unsignedMap, fun o => [o.signature]⟩
instance : SignedObject Marker := ⟨Marker.unsignedMap, fun o => [o.signature]⟩
instance : SignedObject Release := ⟨Release.unsignedMap, Release.signatures⟩
instance : SignedObject Policy := ⟨Policy.unsignedMap, Policy.signatures⟩
instance : SignedObject RepositoryRoot := ⟨RepositoryRoot.unsignedMap, RepositoryRoot.signatures⟩
instance : SignedObject Identity := ⟨Identity.unsignedMap, Identity.signatures⟩
instance : SignedObject GroupMembership :=
  ⟨GroupMembership.unsignedMap, GroupMembership.signatures⟩
instance : SignedObject ConflictResolution :=
  ⟨ConflictResolution.unsignedMap, ConflictResolution.signatures⟩
instance : SignedObject ReviewEvidence :=
  ⟨fun o => evidenceMap .reviewEvidence o.fields, fun o => o.fields.signatures⟩
instance : SignedObject ApprovalEvidence :=
  ⟨fun o => evidenceMap .approvalEvidence o.fields, fun o => o.fields.signatures⟩
instance : SignedObject PolicyDecisionEvidence :=
  ⟨fun o => evidenceMap .policyDecisionEvidence o.fields, fun o => o.fields.signatures⟩
instance : SignedObject CiEvidence := ⟨CiEvidence.unsignedMap, fun o => o.fields.signatures⟩
instance : SignedObject BuildProvenance :=
  ⟨BuildProvenance.unsignedMap, BuildProvenance.signatures⟩
instance : SignedObject View := ⟨View.unsignedMap, View.signatures⟩
instance : SignedObject Migration := ⟨Migration.unsignedMap, Migration.signatures⟩

end Instances

/-- A value of one of the types that implement `SignedObject`. -/
inductive SignedTyped where
  | lineState (o : LineState)
  | operation (o : Operation)
  | operationV1 (o : OperationV1)
  | marker (o : Marker)
  | release (o : Release)
  | policy (o : Policy)
  | repositoryRoot (o : RepositoryRoot)
  | identity (o : Identity)
  | groupMembership (o : GroupMembership)
  | conflictResolution (o : ConflictResolution)
  | reviewEvidence (o : ReviewEvidence)
  | approvalEvidence (o : ApprovalEvidence)
  | policyDecisionEvidence (o : PolicyDecisionEvidence)
  | ciEvidence (o : CiEvidence)
  | buildProvenance (o : BuildProvenance)
  | view (o : View)
  | migration (o : Migration)
  deriving DecidableEq

namespace SignedTyped

variable [Unicode]

/-- A family member is used through the two traits alone. -/
def elim {β : Type} (f : ∀ {α : Type} [CanonicalObject α] [SignedObject α], α → β) :
    SignedTyped → β
  | .lineState o => f o
  | .operation o => f o
  | .operationV1 o => f o
  | .marker o => f o
  | .release o => f o
  | .policy o => f o
  | .repositoryRoot o => f o
  | .identity o => f o
  | .groupMembership o => f o
  | .conflictResolution o => f o
  | .reviewEvidence o => f o
  | .approvalEvidence o => f o
  | .policyDecisionEvidence o => f o
  | .ciEvidence o => f o
  | .buildProvenance o => f o
  | .view o => f o
  | .migration o => f o

def kind : SignedTyped → ObjectKind := elim fun {α} _ _ _ => CanonicalObject.kind α

def schemaVersion : SignedTyped → UInt64 := elim fun {α} _ _ _ => CanonicalObject.schemaVersion α

def unsignedMap : SignedTyped → Entries := elim fun o => SignedObject.unsignedMap o

def signingPreimage (o : SignedTyped) (s : Signature) : Except ObjectError Bytes :=
  o.elim fun o => SignedObject.signingPreimage o s

omit [Unicode] in
/-- `x` with the signatures of `y`, where the two are of one type. -/
def resign : SignedTyped → SignedTyped → SignedTyped
  | .lineState x, .lineState y => .lineState { x with signature := y.signature }
  | .operation x, .operation y => .operation { x with signature := y.signature }
  | .operationV1 x, .operationV1 y => .operationV1 { x with signature := y.signature }
  | .marker x, .marker y => .marker { x with signature := y.signature }
  | .release x, .release y => .release { x with signatures := y.signatures }
  | .policy x, .policy y => .policy { x with signatures := y.signatures }
  | .repositoryRoot x, .repositoryRoot y => .repositoryRoot { x with signatures := y.signatures }
  | .identity x, .identity y => .identity { x with signatures := y.signatures }
  | .groupMembership x, .groupMembership y =>
      .groupMembership { x with signatures := y.signatures }
  | .conflictResolution x, .conflictResolution y =>
      .conflictResolution { x with signatures := y.signatures }
  | .reviewEvidence x, .reviewEvidence y =>
      .reviewEvidence ⟨{ x.fields with signatures := y.fields.signatures }⟩
  | .approvalEvidence x, .approvalEvidence y =>
      .approvalEvidence ⟨{ x.fields with signatures := y.fields.signatures }⟩
  | .policyDecisionEvidence x, .policyDecisionEvidence y =>
      .policyDecisionEvidence ⟨{ x.fields with signatures := y.fields.signatures }⟩
  | .ciEvidence x, .ciEvidence y =>
      .ciEvidence { x with fields := { x.fields with signatures := y.fields.signatures } }
  | .buildProvenance x, .buildProvenance y =>
      .buildProvenance { x with signatures := y.signatures }
  | .view x, .view y => .view { x with signatures := y.signatures }
  | .migration x, .migration y => .migration { x with signatures := y.signatures }
  | x, _ => x

end SignedTyped

/-! ### The frames -/

theorem code_signatureAlgorithm_inj {a b : SignatureAlgorithm} : code a = code b ↔ a = b :=
  ⟨Discriminant.code_injective (by decide), fun h => h ▸ rfl⟩

theorem code_signaturePurpose_inj {a b : SignaturePurpose} : code a = code b ↔ a = b :=
  ⟨Discriminant.code_injective (by decide), fun h => h ▸ rfl⟩

/-- **The signing preimage determines everything that went into it.** -/
theorem signingPreimage_inj {a a' : SignatureAlgorithm} {p p' : SignaturePurpose}
    {s s' : ActorId} {k k' : FixedBytes 32} {kind kind' : ObjectKind} {schema schema' : UInt64}
    {u u' : Bytes}
    (h : signingPreimage a p s k kind schema u = signingPreimage a' p' s' k' kind' schema' u') :
    a = a' ∧ p = p' ∧ s = s' ∧ k = k' ∧ kind = kind' ∧ schema = schema' ∧ u = u' := by
  simp only [signingPreimage, List.append_assoc] at h
  have h := List.append_cancel_left h
  obtain ⟨-, h⟩ := pushVarint_append_inj h
  obtain ⟨ha, h⟩ := pushVarint_append_inj h
  obtain ⟨hp, h⟩ := pushVarint_append_inj h
  obtain ⟨hs, h⟩ := FixedBytes.append_inj h
  obtain ⟨-, h⟩ := pushVarint_append_inj h
  obtain ⟨hk, h⟩ := FixedBytes.append_inj h
  obtain ⟨hkind, h⟩ := pushVarint_append_inj h
  obtain ⟨hschema, h⟩ := pushVarint_append_inj h
  obtain ⟨-, hu⟩ := pushVarint_append_inj h
  exact ⟨code_signatureAlgorithm_inj.mp ha, code_signaturePurpose_inj.mp hp, hs, hk,
    ObjectKind.code_inj.mp hkind, hschema, hu⟩

/-- The object preimage determines kind, schema and payload. -/
theorem ObjectId.preimage_inj {kind kind' schema schema' : UInt64} {payload payload' : Bytes}
    (h : preimage kind schema payload = preimage kind' schema' payload') :
    kind = kind' ∧ schema = schema' ∧ payload = payload' := by
  simp only [preimage, List.append_assoc] at h
  have h := List.append_cancel_left h
  obtain ⟨hkind, h⟩ := pushVarint_append_inj h
  obtain ⟨hschema, h⟩ := pushVarint_append_inj h
  exact ⟨hkind, hschema, h⟩

/-! ### Components

Each typed component is determined by its value, in the form `simp` leaves
the value in: without `norm` where the value is its own normal form. -/

theorem array_map_inj {α : Type} {f : α → Value} (hf : ∀ a b, f a = f b → a = b)
    {as bs : List α} : Value.array (as.map f) = .array (bs.map f) ↔ as = bs := by
  rw [Value.array.injEq]
  exact List.map_inj_right hf

theorem code_inj (α : Type) [DecidableEq α] [Discriminant α]
    (hsmall : Discriminant.first α + (Discriminant.values : List α).length < 2 ^ 64) {a b : α} :
    code a = code b ↔ a = b :=
  ⟨Discriminant.code_injective hsmall, fun h => h ▸ rfl⟩

@[simp] theorem oid_inj {a b : ObjectId} : oid a = oid b ↔ a = b := by
  rw [oid, oid, Value.bytes.injEq]
  exact ⟨ObjectId.toBytes_injective, fun h => h ▸ rfl⟩

@[simp] theorem map_oid_inj {a b : Option ObjectId} : a.map oid = b.map oid ↔ a = b :=
  Option.map_inj_right fun _ _ => oid_inj.mp

@[simp] theorem stable_inj {n : Nat} {a b : FixedBytes n} : stable a = stable b ↔ a = b := by
  rw [stable, stable, Value.bytes.injEq]
  exact ⟨Subtype.ext, fun h => h ▸ rfl⟩

@[simp] theorem oidArray_inj {as bs : List ObjectId} : oidArray as = oidArray bs ↔ as = bs :=
  array_map_inj fun _ _ => oid_inj.mp

@[simp] theorem PolicyRef.value_inj {a b : PolicyRef} : a.value = b.value ↔ a = b := by
  cases a
  cases b
  simp [PolicyRef.value]

@[simp] theorem map_policyRef_inj {a b : Option PolicyRef} :
    a.map PolicyRef.value = b.map PolicyRef.value ↔ a = b :=
  Option.map_inj_right fun _ _ => PolicyRef.value_inj.mp

@[simp] theorem TypedObjectRef.value_inj {a b : TypedObjectRef} : a.value = b.value ↔ a = b := by
  cases a
  cases b
  simp [TypedObjectRef.value, ObjectKind.code_inj]

@[simp] theorem map_typedRef_inj {a b : Option TypedObjectRef} :
    a.map TypedObjectRef.value = b.map TypedObjectRef.value ↔ a = b :=
  Option.map_inj_right fun _ _ => TypedObjectRef.value_inj.mp

@[simp] theorem typedRefArray_inj {as bs : List TypedObjectRef} :
    typedRefArray as = typedRefArray bs ↔ as = bs :=
  array_map_inj fun _ _ => TypedObjectRef.value_inj.mp

@[simp] theorem Principal.value_inj {a b : Principal} : a.value = b.value ↔ a = b := by
  cases a
  cases b
  simp [Principal.value, code_inj PrincipalKind (by decide)]

@[simp] theorem principals_inj {as bs : List Principal} :
    as.map Principal.value = bs.map Principal.value ↔ as = bs :=
  List.map_inj_right fun _ _ => Principal.value_inj.mp

@[simp] theorem stables_inj {n : Nat} {as bs : List (FixedBytes n)} :
    as.map stable = bs.map stable ↔ as = bs :=
  List.map_inj_right fun _ _ => stable_inj.mp

@[simp] theorem LineGeneration.value_inj {a b : LineGeneration} : a.value = b.value ↔ a = b := by
  cases a
  cases b
  simp [LineGeneration.value]

@[simp] theorem lineGenerations_inj {as bs : List LineGeneration} :
    as.map LineGeneration.value = bs.map LineGeneration.value ↔ as = bs :=
  List.map_inj_right fun _ _ => LineGeneration.value_inj.mp

@[simp] theorem IdMapping.value_inj {a b : IdMapping} : a.value = b.value ↔ a = b := by
  cases a
  cases b
  simp [IdMapping.value]

@[simp] theorem idMappings_inj {as bs : List IdMapping} :
    as.map IdMapping.value = bs.map IdMapping.value ↔ as = bs :=
  List.map_inj_right fun _ _ => IdMapping.value_inj.mp

/-! ### Records -/

/-- Two records have the same fields, in any order. -/
def SameFields (A B : Entries) : Prop :=
  ∀ k, (lookupKey A k).map Value.norm = (lookupKey B k).map Value.norm

theorem SameFields.of_norm {A B : Entries} (hA : (A.map (·.1)).Nodup) (hB : (B.map (·.1)).Nodup)
    (h : (Value.map A).norm = (Value.map B).norm) : SameFields A B := by
  intro k
  rw [Value.norm_map, Value.norm_map, Value.map.injEq] at h
  rw [← lookupKey_norm hA, ← lookupKey_norm hB, h]

/-- One encoding, one record. -/
theorem SameFields.of_encode [Unicode] {limits : CanonicalLimits} {A B : Entries} {b : Bytes}
    (hA : (Value.map A).encodeWithLimits limits = .ok b)
    (hB : (Value.map B).encodeWithLimits limits = .ok b) : SameFields A B := by
  have hnorm : (Value.map A).norm = (Value.map B).norm :=
    Except.ok.inj ((decodeCanonical_encode hA).symm.trans (decodeCanonical_encode hB))
  exact .of_norm (encodeWithLimits_eq_ok.mp hA).1.2.1 (encodeWithLimits_eq_ok.mp hB).1.2.1 hnorm

/-- The fields with the numbers of a list. -/
theorem SameFields.on {A B : Entries} (h : SameFields A B) (keys : List UInt64) :
    ∀ k ∈ keys, (lookupKey A k).map Value.norm = (lookupKey B k).map Value.norm := fun k _ => h k

theorem norm_signed_inj {a b : Int64} (h : (Value.signed a).norm = (Value.signed b).norm) :
    a = b := by
  have ha := a.toInt_lt
  have hb := b.toInt_lt
  rw [Value.norm, Value.norm] at h
  split at h <;> split at h
  · rename_i hapos hbpos
    rw [Value.unsigned.injEq, ← UInt64.toNat_inj, UInt64.toNat_ofNat', UInt64.toNat_ofNat'] at h
    exact Int64.toInt_inj.mp (by omega)
  · cases h
  · cases h
  · exact Value.signed.inj h

@[simp] theorem wallTime_norm_inj {a b : WallTime} : a.value.norm = b.value.norm ↔ a = b := by
  refine ⟨fun h => ?_, fun h => h ▸ rfl⟩
  have hfields := (SameFields.of_norm (by simp) (by simp) h).on [0, 1]
  simp [lookupKey_cons] at hfields
  obtain ⟨utc, offset⟩ := a
  obtain ⟨utc', offset'⟩ := b
  rw [WallTime.mk.injEq]
  exact ⟨norm_signed_inj hfields.1, norm_signed_inj hfields.2⟩

@[simp] theorem PublicKeyRecord.value_inj {a b : PublicKeyRecord} :
    a.value = b.value ↔ a = b := by
  refine ⟨fun h => ?_, fun h => h ▸ rfl⟩
  have hnorm : a.value.norm = b.value.norm := by rw [h]
  have hfields := (SameFields.of_norm
    (by cases a.notBefore <;> cases a.notAfter <;> simp [optional])
    (by cases b.notBefore <;> cases b.notAfter <;> simp [optional]) hnorm).on [0, 1, 2, 3, 4]
  simp [lookupKey_optional, lookupKey_cons, Function.comp_def,
    code_inj PublicKeyAlgorithm (by decide)] at hfields
  cases a
  cases b
  simp_all [Subtype.ext_iff]

@[simp] theorem publicKeys_inj {as bs : List PublicKeyRecord} :
    as.map PublicKeyRecord.value = bs.map PublicKeyRecord.value ↔ as = bs :=
  List.map_inj_right fun _ _ => PublicKeyRecord.value_inj.mp

theorem lineAdvance_norm_inj {a b : LineAdvanceDeclaration} (h : a.value.norm = b.value.norm) :
    a = b := by
  have hfields := (SameFields.of_norm (by cases a.previousState <;> simp [optional])
    (by cases b.previousState <;> simp [optional]) h).on [0, 1, 2, 3, 4, 5, 6, 7, 8, 9]
  simp [lookupKey_optional, lookupKey_cons, Function.comp_def] at hfields
  cases a
  cases b
  simp_all

/-- An array is determined by its normal form where its elements are. -/
theorem norm_array_map_inj {α : Type} {f : α → Value} (hf : ∀ a b, (f a).norm = (f b).norm → a = b)
    {as bs : List α} :
    (Value.array (as.map f)).norm = (Value.array (bs.map f)).norm ↔ as = bs := by
  rw [Value.norm_array, Value.norm_array, List.map_map, List.map_map]
  exact array_map_inj hf

theorem OperationAction.norm_inj {a b : OperationAction} (h : a.value.norm = b.value.norm) :
    a = b := by
  cases a with
  | transition before after =>
      cases b with
      | transition before' after' =>
          have hfields := (SameFields.of_norm (by cases before <;> cases after <;> simp [optional])
            (by cases before' <;> cases after' <;> simp [optional]) h).on [1, 2]
          simp [lookupKey_optional, lookupKey_cons, Function.comp_def] at hfields
          rw [hfields.1, hfields.2]
      | lineAdvance d =>
          have hfields := SameFields.of_norm (by cases before <;> cases after <;> simp [optional])
            (by simp) h 0
          simp [lookupKey_optional] at hfields
  | lineAdvance d =>
      cases b with
      | transition before after =>
          have hfields := SameFields.of_norm (by simp)
            (by cases before <;> cases after <;> simp [optional]) h 0
          simp [lookupKey_optional] at hfields
      | lineAdvance d' =>
          have hfields := SameFields.of_norm (by simp) (by simp) h 3
          simp [lookupKey_cons] at hfields
          rw [lineAdvance_norm_inj hfields]

@[simp] theorem referenceKey_value_inj {a b : ReferenceKey} : a.value = b.value ↔ a = b := by
  refine ⟨fun h => ?_, fun h => h ▸ rfl⟩
  cases a <;> cases b <;>
    simp_all [ReferenceKey.value, ReferenceKey.kindCode, ReferenceKey.stableId, optional]

theorem OperationActionV1.norm_inj {a b : OperationActionV1} (h : a.value.norm = b.value.norm) :
    a = b := by
  cases a with
  | boundTransition key before after =>
      cases b with
      | boundTransition key' before' after' =>
          have hfields := (SameFields.of_norm (by cases before <;> simp [optional])
            (by cases before' <;> simp [optional]) h).on [1, 2, 3]
          simp [lookupKey_optional, lookupKey_cons, Function.comp_def] at hfields
          rw [hfields.1, hfields.2.1, hfields.2.2]
      | lineAdvance d =>
          have hfields := SameFields.of_norm (by cases before <;> simp [optional]) (by simp) h 0
          simp [lookupKey_optional] at hfields
  | lineAdvance d =>
      cases b with
      | boundTransition key before after =>
          have hfields := SameFields.of_norm (by simp) (by cases before <;> simp [optional]) h 0
          simp [lookupKey_optional] at hfields
      | lineAdvance d' =>
          have hfields := SameFields.of_norm (by simp) (by simp) h 3
          simp [lookupKey_cons] at hfields
          rw [lineAdvance_norm_inj hfields]

@[simp] theorem actions_norm_inj {as bs : List OperationAction} :
    (Value.array (as.map OperationAction.value)).norm =
      (Value.array (bs.map OperationAction.value)).norm ↔ as = bs :=
  norm_array_map_inj fun _ _ => OperationAction.norm_inj

@[simp] theorem actionsV1_norm_inj {as bs : List OperationActionV1} :
    (Value.array (as.map OperationActionV1.value)).norm =
      (Value.array (bs.map OperationActionV1.value)).norm ↔ as = bs :=
  norm_array_map_inj fun _ _ => OperationActionV1.norm_inj

/-! ### The kinds -/

theorem LineState.resign_of_fields {a b : LineState}
    (h : SameFields a.unsignedMap b.unsignedMap) : { a with signature := b.signature } = b := by
  have hfields := h.on [2, 3, 4, 5, 6, 7, 8, 9, 10, 11, 12]
  simp [LineState.unsignedMap, header, headerVersion, lookupKey_optional, lookupKey_cons,
    Function.comp_def] at hfields
  cases a
  cases b
  simp_all

theorem Operation.resign_of_fields {a b : Operation}
    (h : SameFields a.unsignedMap b.unsignedMap) : { a with signature := b.signature } = b := by
  have hfields := h.on [2, 3, 4, 5, 6, 7, 8, 9, 10, 11, 13]
  simp [Operation.unsignedMap, operationEntries, headerVersion, lookupKey_optional,
    lookupKey_cons, Function.comp_def] at hfields
  cases a
  cases b
  simp_all

theorem OperationV1.resign_of_fields {a b : OperationV1}
    (h : SameFields a.unsignedMap b.unsignedMap) : { a with signature := b.signature } = b := by
  have hfields := h.on [2, 3, 4, 5, 6, 7, 8, 9, 10, 11, 13]
  simp [OperationV1.unsignedMap, operationEntries, headerVersion, lookupKey_optional,
    lookupKey_cons, Function.comp_def] at hfields
  cases a
  cases b
  simp_all

theorem Marker.resign_of_fields {a b : Marker}
    (h : SameFields a.unsignedMap b.unsignedMap) : { a with signature := b.signature } = b := by
  have hfields := h.on [2, 3, 4, 5, 6, 7]
  simp [Marker.unsignedMap, header, headerVersion, lookupKey_cons, code_inj MarkerKind (by decide)] at hfields
  cases a
  cases b
  simp_all

theorem Release.resign_of_fields {a b : Release}
    (h : SameFields a.unsignedMap b.unsignedMap) : { a with signatures := b.signatures } = b := by
  have hfields := h.on [2, 3, 4, 5, 6, 7, 8, 9, 10, 11, 12, 13, 14, 15]
  simp [Release.unsignedMap, header, headerVersion, lookupKey_optional, lookupKey_cons,
    Function.comp_def] at hfields
  cases a
  cases b
  simp_all

theorem RepositoryRoot.resign_of_fields {a b : RepositoryRoot}
    (h : SameFields a.unsignedMap b.unsignedMap) : { a with signatures := b.signatures } = b := by
  have hfields := h.on [3, 4, 5, 6, 7, 8, 9]
  simp [RepositoryRoot.unsignedMap, optionalHeader, optional, lookupKey_cons,
    code_inj FilesystemProfile (by decide)] at hfields
  cases a
  cases b
  simp_all

theorem Identity.resign_of_fields {a b : Identity}
    (h : SameFields a.unsignedMap b.unsignedMap) : { a with signatures := b.signatures } = b := by
  have hfields := h.on [2, 3, 4, 5, 6, 7, 8, 9, 10, 11, 12]
  simp [Identity.unsignedMap, optionalHeader, lookupKey_append, lookupKey_optional,
    lookupKey_cons,
    Function.comp_def, code_inj IdentitySubjectKind (by decide),
    code_inj IdentityStatus (by decide)] at hfields
  cases a
  cases b
  simp_all [Subtype.ext_iff]

theorem GroupMembership.resign_of_fields {a b : GroupMembership}
    (h : SameFields a.unsignedMap b.unsignedMap) : { a with signatures := b.signatures } = b := by
  have hfields := h.on [2, 3, 4, 5, 6, 7, 8, 9, 10, 11]
  simp [GroupMembership.unsignedMap, optionalHeader, lookupKey_append, lookupKey_optional,
    lookupKey_cons,
    Function.comp_def, code_inj MembershipState (by decide)] at hfields
  cases a
  cases b
  simp_all

theorem ConflictResolution.resign_of_fields {a b : ConflictResolution}
    (h : SameFields a.unsignedMap b.unsignedMap) : { a with signatures := b.signatures } = b := by
  have hfields := h.on [2, 3, 4, 5, 6, 7, 8, 9]
  simp [ConflictResolution.unsignedMap, optionalHeader, optional, lookupKey_cons,
    code_inj ResolutionKind (by decide)] at hfields
  cases a
  cases b
  simp_all

theorem EvidenceFields.resign_of_fields {kind : ObjectKind} {a b : EvidenceFields}
    (h : SameFields (evidenceMap kind a) (evidenceMap kind b)) :
    { a with signatures := b.signatures } = b := by
  have hfields := h.on [2, 3, 4, 5, 6, 7, 8, 9, 10, 11]
  simp [evidenceMap, optionalHeader, optional, lookupKey_cons,
    code_inj EvidenceOutcome (by decide)] at hfields
  cases a
  cases b
  simp_all

theorem CiEvidence.resign_of_fields {a b : CiEvidence}
    (h : SameFields a.unsignedMap b.unsignedMap) :
    { a with fields := { a.fields with signatures := b.fields.signatures } } = b := by
  have hfields := h.on [2, 3, 4, 5, 6, 7, 8, 9, 10, 11, 13, 14, 15]
  simp [CiEvidence.unsignedMap, evidenceMap, optionalHeader, lookupKey_append,
    lookupKey_optional, lookupKey_cons, Function.comp_def, code_inj EvidenceOutcome (by decide)] at hfields
  obtain ⟨a, _, _, _⟩ := a
  obtain ⟨b, _, _, _⟩ := b
  cases a
  cases b
  simp_all

theorem BuildProvenance.resign_of_fields {a b : BuildProvenance}
    (h : SameFields a.unsignedMap b.unsignedMap) : { a with signatures := b.signatures } = b := by
  have hfields := h.on [2, 3, 4, 5, 6, 7, 8, 9]
  simp [BuildProvenance.unsignedMap, optionalHeader, optional, lookupKey_cons] at hfields
  cases a
  cases b
  simp_all

theorem View.resign_of_fields {a b : View}
    (h : SameFields a.unsignedMap b.unsignedMap) : { a with signatures := b.signatures } = b := by
  have hfields := h.on [2, 3, 4, 5, 6, 7, 8]
  simp [View.unsignedMap, optionalHeader, optional, lookupKey_cons] at hfields
  cases a
  cases b
  simp_all

theorem Migration.resign_of_fields {a b : Migration}
    (h : SameFields a.unsignedMap b.unsignedMap) : { a with signatures := b.signatures } = b := by
  have hfields := h.on [2, 3, 4, 5, 6, 7]
  simp [Migration.unsignedMap, optionalHeader, optional, lookupKey_cons, code_inj ObjectIdFormat (by decide)] at hfields
  cases a
  cases b
  simp_all

/-- The encoding lists the capabilities of a grant in order. -/
def Grant.sorted (g : Grant) : Grant :=
  { g with capabilities := g.capabilities.insertionSort fun a b => code a ≤ code b }

/-- A policy as its encoding shows it. -/
def Policy.sorted (o : Policy) : Policy := { o with grants := o.grants.map Grant.sorted }

theorem Grant.sorted_of_value {a b : Grant} (h : a.value = b.value) : a.sorted = b.sorted := by
  have hsorted : ∀ g : Grant, g.sorted.capabilities.map code = g.sortedCapabilities := by
    intro g
    exact List.map_insertionSort (fun a b : Capability => code a ≤ code b) (· ≤ ·) code
      g.capabilities fun _ _ _ _ => Iff.rfl
  simp only [Grant.value, Value.map.injEq, List.cons.injEq, Prod.mk.injEq, true_and, and_true,
    Value.unsigned.injEq, Value.array.injEq] at h
  obtain ⟨hindex, hcapabilities⟩ := h
  have hcapabilities := List.map_inj_right (fun _ _ => Value.unsigned.inj) |>.mp hcapabilities
  rw [← hsorted, ← hsorted] at hcapabilities
  have hsame := List.map_inj_right (fun _ _ => (code_inj Capability (by decide)).mp)
    |>.mp hcapabilities
  exact congrArg₂ Grant.mk hindex hsame

theorem Grant.map_sorted_of_value {as bs : List Grant}
    (h : as.map Grant.value = bs.map Grant.value) : as.map Grant.sorted = bs.map Grant.sorted := by
  induction as generalizing bs with
  | nil =>
      rw [List.map_nil, eq_comm, List.map_eq_nil_iff] at h
      rw [h]
  | cons a as ih =>
      cases bs with
      | nil => simp at h
      | cons b bs =>
          rw [List.map_cons, List.map_cons, List.cons.injEq] at h
          rw [List.map_cons, List.map_cons, Grant.sorted_of_value h.1, ih h.2]

theorem Policy.resign_of_fields {a b : Policy} (h : SameFields a.unsignedMap b.unsignedMap) :
    { a with signatures := b.signatures }.sorted = b.sorted := by
  have hfields := h.on [2, 3, 4, 5, 6, 7, 8, 9, 10, 11, 12, 13, 14]
  have hgrants := h 7
  simp [Policy.unsignedMap, optionalHeader, lookupKey_append, lookupKey_optional, lookupKey_cons,
    Function.comp_def, code_inj RedactionMode (by decide),
    code_inj DerivationRule (by decide)] at hfields hgrants
  have hgrants := Grant.map_sorted_of_value hgrants
  cases a
  cases b
  simp_all [Policy.sorted]

/-! ### Signatures stay with their object -/

theorem SignedObject.signingPreimage_eq_ok [Unicode] {α : Type} [CanonicalObject α]
    [SignedObject α] {o : α} {s : Signature} {b : Bytes} (h : signingPreimage o s = .ok b) :
    ∃ u, (Value.map (unsignedMap o)).encodeWithLimits (kindLimits (kind α)) = .ok u ∧
      RGit.signingPreimage s.algorithm s.purpose s.signer s.signingKeyId (kind α)
        (schemaVersion α) u = b := by
  rw [signingPreimage] at h
  split at h
  · cases h
  · obtain ⟨u, hu, hb⟩ := Except.bind_eq_ok.mp h
    obtain ⟨-, -, hencode⟩ := Except.bind_eq_ok.mp hu
    exact ⟨u, Except.mapError_eq_ok.mp hencode, Except.ok.inj hb⟩

namespace SignedTyped

/-- The order in which a grant lists its capabilities is not signed. -/
def sortGrants : SignedTyped → SignedTyped
  | .policy o => .policy o.sorted
  | o => o

variable [Unicode]

theorem signingPreimage_eq_ok {o : SignedTyped} {s : Signature} {b : Bytes}
    (h : o.signingPreimage s = .ok b) :
    ∃ u, (Value.map o.unsignedMap).encodeWithLimits (kindLimits o.kind) = .ok u ∧
      RGit.signingPreimage s.algorithm s.purpose s.signer s.signingKeyId o.kind
        o.schemaVersion u = b := by
  cases o <;> exact SignedObject.signingPreimage_eq_ok h

/-- Kind and schema tell the types apart, and the unsigned fields are all
fields but the signatures. -/
theorem resign_of_fields {x y : SignedTyped} (hkind : x.kind = y.kind)
    (hschema : x.schemaVersion = y.schemaVersion)
    (hfields : SameFields x.unsignedMap y.unsignedMap) :
    (x.resign y).sortGrants = y.sortGrants := by
  have hversions : (0 : UInt64) ≠ 1 := by decide
  cases x <;> cases y <;> cases hkind
  case lineState x y => exact congrArg lineState (LineState.resign_of_fields hfields)
  case operation.operation.refl x y =>
    exact congrArg operation (Operation.resign_of_fields hfields)
  case operation.operationV1.refl x y => exact absurd hschema hversions
  case operationV1.operation.refl x y => exact absurd hschema hversions.symm
  case operationV1.operationV1.refl x y =>
    exact congrArg operationV1 (OperationV1.resign_of_fields hfields)
  case marker x y => exact congrArg marker (Marker.resign_of_fields hfields)
  case release x y => exact congrArg release (Release.resign_of_fields hfields)
  case policy x y => exact congrArg policy (Policy.resign_of_fields hfields)
  case repositoryRoot x y =>
    exact congrArg repositoryRoot (RepositoryRoot.resign_of_fields hfields)
  case identity x y => exact congrArg identity (Identity.resign_of_fields hfields)
  case groupMembership x y =>
    exact congrArg groupMembership (GroupMembership.resign_of_fields hfields)
  case conflictResolution x y =>
    exact congrArg conflictResolution (ConflictResolution.resign_of_fields hfields)
  case reviewEvidence x y =>
    exact congrArg (fun f => reviewEvidence ⟨f⟩) (EvidenceFields.resign_of_fields hfields)
  case approvalEvidence x y =>
    exact congrArg (fun f => approvalEvidence ⟨f⟩) (EvidenceFields.resign_of_fields hfields)
  case policyDecisionEvidence x y =>
    exact congrArg (fun f => policyDecisionEvidence ⟨f⟩) (EvidenceFields.resign_of_fields hfields)
  case ciEvidence x y => exact congrArg ciEvidence (CiEvidence.resign_of_fields hfields)
  case buildProvenance x y =>
    exact congrArg buildProvenance (BuildProvenance.resign_of_fields hfields)
  case view x y => exact congrArg view (View.resign_of_fields hfields)
  case migration x y => exact congrArg migration (Migration.resign_of_fields hfields)

theorem of_signingPreimage_eq {x y : SignedTyped} {s t : Signature} {b : Bytes}
    (hx : x.signingPreimage s = .ok b) (hy : y.signingPreimage t = .ok b) :
    x.kind = y.kind ∧ x.schemaVersion = y.schemaVersion ∧ s.signer = t.signer ∧
      s.signingKeyId = t.signingKeyId ∧ s.purpose = t.purpose ∧ s.algorithm = t.algorithm ∧
      (x.resign y).sortGrants = y.sortGrants := by
  obtain ⟨u, hu, hux⟩ := signingPreimage_eq_ok hx
  obtain ⟨v, hv, hvy⟩ := signingPreimage_eq_ok hy
  obtain ⟨halgorithm, hpurpose, hsigner, hkey, hkind, hschema, huv⟩ :=
    signingPreimage_inj (hux.trans hvy.symm)
  rw [← hkind, ← huv] at hv
  exact ⟨hkind, hschema, hsigner, hkey, hpurpose, halgorithm,
    resign_of_fields hkind hschema (.of_encode hu hv)⟩

end SignedTyped

/-- **Domain separation.** Both preimages are injective, and a signature
cannot be moved: one signing preimage means one kind, schema, signer, key and
purpose, and one object apart from its signatures and the order in which a
policy's grants list their capabilities, which the encoding sorts. -/
theorem domain_separation :
    (∀ (a a' : SignatureAlgorithm) (p p' : SignaturePurpose) (s s' : ActorId)
        (k k' : FixedBytes 32) (kind kind' : ObjectKind) (schema schema' : UInt64) (u u' : Bytes),
      signingPreimage a p s k kind schema u = signingPreimage a' p' s' k' kind' schema' u' →
        a = a' ∧ p = p' ∧ s = s' ∧ k = k' ∧ kind = kind' ∧ schema = schema' ∧ u = u') ∧
    (∀ (kind kind' schema schema' : UInt64) (payload payload' : Bytes),
      ObjectId.preimage kind schema payload = ObjectId.preimage kind' schema' payload' →
        kind = kind' ∧ schema = schema' ∧ payload = payload') ∧
    ∀ (_ : Unicode) (x y : SignedTyped) (s t : Signature) (b : Bytes),
      x.signingPreimage s = .ok b → y.signingPreimage t = .ok b →
        x.kind = y.kind ∧ x.schemaVersion = y.schemaVersion ∧ s.signer = t.signer ∧
          s.signingKeyId = t.signingKeyId ∧ s.purpose = t.purpose ∧ s.algorithm = t.algorithm ∧
          (x.resign y).sortGrants = y.sortGrants := by
  refine ⟨?_, ?_, ?_⟩
  · intro a a' p p' s s' k k' kind kind' schema schema' u u' h
    exact signingPreimage_inj h
  · intro kind kind' schema schema' payload payload' h
    exact ObjectId.preimage_inj h
  · intro _ x y s t b hx hy
    exact SignedTyped.of_signingPreimage_eq hx hy

section Order

local instance orderUnicode : Unicode := asciiUnicode

def grantSignature : Signature where
  algorithm := .ed25519
  signer := sampleStable
  signingKeyId := sampleDigest 1
  bytes := ⟨toBeBytes 64 1, length_sampleBytes⟩
  purpose := .policy
  keyId_ne := sampleDigest_ne
  bytes_ne := sampleBytes_ne

/-- One principal, with the capabilities in the order given. -/
def grantPolicy (capabilities : List Capability) : SignedTyped :=
  .policy {
    policyRef := none
    policyId := sampleStable
    versionSequence := 0
    previousVersion := none
    principals := [⟨.actor, sampleStable.1⟩]
    grants := [⟨0, capabilities⟩]
    redactionMode := .omitted
    derivationRule := .noDerivation
    declassificationRequirements := []
    keyEpoch := 0
    keyEnvelopeSet := sampleId
    administrators := []
    activationConstraints := []
    signatures := [grantSignature] }

/-- The order of two capabilities is lost: the preimage does not give back
every field of a policy. -/
theorem grant_order_unsigned :
    ¬ ∀ (x y : SignedTyped) (s t : Signature) (b : Bytes),
      x.signingPreimage s = .ok b → y.signingPreimage t = .ok b → x.resign y = y := by
  intro h
  have hsame : (grantPolicy [.discover, .read]).signingPreimage grantSignature =
      (grantPolicy [.read, .discover]).signingPreimage grantSignature := by decide +kernel
  have hok : ((grantPolicy [.discover, .read]).signingPreimage grantSignature).isOk = true := by
    decide +kernel
  obtain ⟨b, hb⟩ := Except.isOk_iff.mp hok
  exact absurd (h _ _ _ _ b hb (hsame ▸ hb)) (by decide +kernel)

end Order

end RGit
