/-
RGit/Objects/Types.lean

The vocabulary of the object schemas: numbered enumerations, stable
identifiers, typed references, wall times, signatures, and the canonical
value of each.

Every `#[repr(u64)]` enumeration is an instance of `Discriminant`, so its
numbering is stated once; the two facts the schemas rely on, that a number
names at most one variant and which numbers name one, are proved for all of
them together.
-/
import RGit.Objects.Id

namespace RGit

/-! ### Numbered enumerations -/

/-- An enumeration `#[repr(u64)]` whose variants are numbered in order. -/
class Discriminant (α : Type) [DecidableEq α] where
  first : Nat := 0
  values : List α
  /-- `variant as u64` -/
  code : α → UInt64
  mem_values : ∀ a, a ∈ values
  codes : values.map code = (List.range' first values.length).map UInt64.ofNat

namespace Discriminant

variable {α : Type} [DecidableEq α] [Discriminant α]

/-- `TryFrom<u64>`. -/
def ofCode (n : UInt64) : Option α := (values : List α).find? fun a => code a == n

/-- The numbers in use are an interval, as long as they fit a `u64`. -/
theorem exists_code_iff (hsmall : first α + (values : List α).length < 2 ^ 64) {n : UInt64} :
    (∃ a : α, code a = n) ↔
      first α ≤ n.toNat ∧ n.toNat < first α + (values : List α).length := by
  have hmem : (∃ a : α, code a = n) ↔ n ∈ (values : List α).map code := by
    rw [List.mem_map]
    exact ⟨fun ⟨a, ha⟩ => ⟨a, mem_values a, ha⟩, fun ⟨a, _, ha⟩ => ⟨a, ha⟩⟩
  rw [hmem, codes, List.mem_map]
  simp only [List.mem_range'_1]
  constructor
  · rintro ⟨i, hi, rfl⟩
    rwa [UInt64.toNat_ofNat', Nat.mod_eq_of_lt (by omega)]
  · intro hn
    exact ⟨n.toNat, hn, UInt64.ofNat_toNat⟩

theorem code_injective (hsmall : first α + (values : List α).length < 2 ^ 64) {a b : α}
    (h : code a = code b) : a = b := by
  have hnodup : ((values : List α).map code).Nodup := by
    rw [codes]
    refine List.Nodup.map_on ?_ List.nodup_range'
    intro i hi j hj hij
    simp only [List.mem_range'_1] at hi hj
    have := congrArg UInt64.toNat hij
    rwa [UInt64.toNat_ofNat', UInt64.toNat_ofNat', Nat.mod_eq_of_lt (by omega),
      Nat.mod_eq_of_lt (by omega)] at this
  exact List.inj_on_of_nodup_map hnodup (mem_values a) (mem_values b) h

theorem ofCode_eq_some (hsmall : first α + (values : List α).length < 2 ^ 64) {n : UInt64}
    {a : α} : ofCode n = some a ↔ code a = n := by
  constructor
  · intro h
    simpa using List.find?_some h
  · rintro rfl
    cases h : (ofCode (code a) : Option α) with
    | none => exact absurd (List.find?_eq_none.mp h a (mem_values a)) (by simp)
    | some b =>
        have hb : code b = code a := by simpa using List.find?_some h
        rw [code_injective hsmall hb]

/-- The check `n > last` refuses exactly the numbers without a variant. -/
theorem exists_code_of_le {last n : UInt64} (hfirst : first α = 0)
    (hlast : (values : List α).length = last.toNat + 1) (hsmall : last.toNat + 1 < 2 ^ 64) :
    n ≤ last ↔ ∃ a : α, code a = n := by
  rw [exists_code_iff (by omega), UInt64.le_iff_toNat_le]
  omega

end Discriminant

open Discriminant (code)

/-! ### Object kinds -/

inductive ObjectKind where
  | chunk
  | blob
  | secretRef
  | manifest
  | subproject
  | snapshot
  | changeRevision
  | lineState
  | conflict
  | operation
  | marker
  | release
  | policy
  | repositoryRoot
  | identity
  | groupMembership
  | keyEnvelopeSet
  | changeRelation
  | conflictResolution
  | reviewEvidence
  | approvalEvidence
  | ciEvidence
  | policyDecisionEvidence
  | projectionRules
  | projectionProof
  | buildProvenance
  | artifact
  | operationPayload
  | view
  | migration
  | ruleset
  deriving DecidableEq

instance : Discriminant ObjectKind where
  first := 1
  values :=
    [.chunk, .blob, .secretRef, .manifest, .subproject, .snapshot, .changeRevision,
      .lineState, .conflict, .operation, .marker, .release, .policy, .repositoryRoot,
      .identity, .groupMembership, .keyEnvelopeSet, .changeRelation, .conflictResolution,
      .reviewEvidence, .approvalEvidence, .ciEvidence, .policyDecisionEvidence,
      .projectionRules, .projectionProof, .buildProvenance, .artifact, .operationPayload,
      .view, .migration, .ruleset]
  code
    | .chunk => 1
    | .blob => 2
    | .secretRef => 3
    | .manifest => 4
    | .subproject => 5
    | .snapshot => 6
    | .changeRevision => 7
    | .lineState => 8
    | .conflict => 9
    | .operation => 10
    | .marker => 11
    | .release => 12
    | .policy => 13
    | .repositoryRoot => 14
    | .identity => 15
    | .groupMembership => 16
    | .keyEnvelopeSet => 17
    | .changeRelation => 18
    | .conflictResolution => 19
    | .reviewEvidence => 20
    | .approvalEvidence => 21
    | .ciEvidence => 22
    | .policyDecisionEvidence => 23
    | .projectionRules => 24
    | .projectionProof => 25
    | .buildProvenance => 26
    | .artifact => 27
    | .operationPayload => 28
    | .view => 29
    | .migration => 30
    | .ruleset => 31
  mem_values a := by cases a <;> decide
  codes := by decide

namespace ObjectKind

/-- `ObjectKind::supports_schema`. -/
def supportsSchema (kind : ObjectKind) (schema : UInt64) : Bool :=
  schema == 0 || (kind == .operation && schema == 1)

theorem code_inj {a b : ObjectKind} : code a = code b ↔ a = b :=
  ⟨Discriminant.code_injective (by decide), fun h => h ▸ rfl⟩

theorem ofCode_eq_some {n : UInt64} {k : ObjectKind} :
    Discriminant.ofCode n = some k ↔ code k = n :=
  Discriminant.ofCode_eq_some (by decide)

end ObjectKind

/-! ### Stable identifiers and reference keys -/

abbrev ChangeId := FixedBytes 16
abbrev LineId := FixedBytes 16
abbrev PolicyId := FixedBytes 16
abbrev ActorId := FixedBytes 16
abbrev DeviceId := FixedBytes 16

/-- The entries of a record under construction. -/
abbrev Entries := List (UInt64 × Value)

/-- A stable identifier as a value. -/
def stable {n : Nat} (id : FixedBytes n) : Value := .bytes id.1

def oid (id : ObjectId) : Value := .bytes id.toBytes

def oidArray (ids : List ObjectId) : Value := .array (ids.map oid)

/-- `optional(&mut map, key, value)`. -/
def optional (m : Entries) (key : UInt64) : Option Value → Entries
  | some v => m ++ [(key, v)]
  | none => m

/-- The canonical identity of one mutable repository reference. -/
inductive ReferenceKey where
  | line (id : LineId)
  | change (id : ChangeId)
  | operationHead
  | release (id : LineId)
  | marker (id : FixedBytes 16)
  deriving DecidableEq

namespace ReferenceKey

def kindCode : ReferenceKey → UInt64
  | .line _ => 1
  | .change _ => 2
  | .operationHead => 3
  | .release _ => 4
  | .marker _ => 5

def expectedKind : ReferenceKey → ObjectKind
  | .line _ => .lineState
  | .change _ => .changeRevision
  | .operationHead => .operation
  | .release _ => .release
  | .marker _ => .marker

def stableId : ReferenceKey → Option (FixedBytes 16)
  | .line id => some id
  | .change id => some id
  | .operationHead => none
  | .release id => some id
  | .marker id => some id

def value (key : ReferenceKey) : Value :=
  .map (optional [(0, .unsigned key.kindCode)] 1 (key.stableId.map stable))

/-- The stable identifier's bytes, none for the operation head. -/
def stableBytes (key : ReferenceKey) : Bytes := (key.stableId.map (·.1)).getD []

/-- The derived order: variants in the order of their codes, then the bytes. -/
instance : Ord ReferenceKey where
  compare := compareLex (compareOn kindCode) (compareOn stableBytes)

instance : Std.TransOrd ReferenceKey :=
  inferInstanceAs (Std.TransCmp (compareLex (compareOn kindCode) (compareOn stableBytes)))

instance : Std.LawfulEqOrd ReferenceKey where
  eq_of_compare {a b} h := by
    have hcmp : compareLex (compareOn kindCode) (compareOn stableBytes) a b = .eq := h
    obtain ⟨hcode, hbytes⟩ := compareLex_eq_eq.mp hcmp
    have hcode : a.kindCode = b.kindCode := Std.LawfulEqOrd.eq_of_compare hcode
    have hbytes : a.stableBytes = b.stableBytes := Std.LawfulEqOrd.eq_of_compare hbytes
    cases a <;> cases b <;> first
      | rfl
      | exact congrArg _ (Subtype.ext hbytes)
      | exact absurd hcode (by simp [kindCode])

end ReferenceKey

/-! ### References, times -/

structure PolicyRef where
  policyId : PolicyId
  version : ObjectId
  deriving DecidableEq

def PolicyRef.value (p : PolicyRef) : Value :=
  .map [(0, stable p.policyId), (1, oid p.version)]

structure TypedObjectRef where
  kind : ObjectKind
  id : ObjectId
  deriving DecidableEq

def TypedObjectRef.value (r : TypedObjectRef) : Value :=
  .map [(0, .unsigned (code r.kind)), (1, oid r.id)]

structure WallTime where
  utcSeconds : Int64
  offsetSeconds : Int64
  deriving DecidableEq

def WallTime.value (t : WallTime) : Value :=
  .map [(0, .signed t.utcSeconds), (1, .signed t.offsetSeconds)]

/-! ### Signatures -/

inductive SignatureAlgorithm where
  | ed25519
  deriving DecidableEq

instance : Discriminant SignatureAlgorithm where
  values := [.ed25519]
  code
    | .ed25519 => 0
  mem_values a := by cases a; decide
  codes := by decide

inductive SignaturePurpose where
  | lineState
  | operation
  | marker
  | release
  | policy
  | repositoryRoot
  | identity
  | groupMembership
  | conflictResolution
  | reviewEvidence
  | approvalEvidence
  | ciEvidence
  | policyDecisionEvidence
  | buildProvenance
  | view
  | migration
  deriving DecidableEq

instance : Discriminant SignaturePurpose where
  values :=
    [.lineState, .operation, .marker, .release, .policy, .repositoryRoot, .identity,
      .groupMembership, .conflictResolution, .reviewEvidence, .approvalEvidence, .ciEvidence,
      .policyDecisionEvidence, .buildProvenance, .view, .migration]
  code
    | .lineState => 0
    | .operation => 1
    | .marker => 2
    | .release => 3
    | .policy => 4
    | .repositoryRoot => 5
    | .identity => 6
    | .groupMembership => 7
    | .conflictResolution => 8
    | .reviewEvidence => 9
    | .approvalEvidence => 10
    | .ciEvidence => 11
    | .policyDecisionEvidence => 12
    | .buildProvenance => 13
    | .view => 14
    | .migration => 15
  mem_values a := by cases a <;> decide
  codes := by decide

theorem SignatureAlgorithm.ofCode_eq_some {n : UInt64} {a : SignatureAlgorithm} :
    Discriminant.ofCode n = some a ↔ code a = n :=
  Discriminant.ofCode_eq_some (by decide)

theorem SignaturePurpose.ofCode_eq_some {n : UInt64} {p : SignaturePurpose} :
    Discriminant.ofCode n = some p ↔ code p = n :=
  Discriminant.ofCode_eq_some (by decide)

inductive SignatureError where
  | placeholderKeyId
  | placeholderSignature
  deriving DecidableEq

/-- A signature record; its fields are private, so the reserved all-zero
placeholders that `new` refuses cannot occur. -/
structure Signature where
  algorithm : SignatureAlgorithm
  signer : ActorId
  signingKeyId : FixedBytes 32
  bytes : FixedBytes 64
  purpose : SignaturePurpose
  keyId_ne : signingKeyId.1 ≠ List.replicate 32 0
  bytes_ne : bytes.1 ≠ List.replicate 64 0
  deriving DecidableEq

namespace Signature

/-- `Signature::new`. -/
def new (algorithm : SignatureAlgorithm) (signer : ActorId) (signingKeyId : FixedBytes 32)
    (bytes : FixedBytes 64) (purpose : SignaturePurpose) : Except SignatureError Signature :=
  if hkey : signingKeyId.1 = List.replicate 32 0 then .error .placeholderKeyId
  else if hbytes : bytes.1 = List.replicate 64 0 then .error .placeholderSignature
  else .ok ⟨algorithm, signer, signingKeyId, bytes, purpose, hkey, hbytes⟩

def value (s : Signature) : Value :=
  .map [(0, .unsigned (code s.algorithm)), (1, stable s.signer),
    (2, .bytes s.signingKeyId.1), (3, .bytes s.bytes.1), (4, .unsigned (code s.purpose))]

/-- The derived order on the fields in turn. -/
instance : Ord Signature where
  compare := compareLex (compareOn fun s => code s.algorithm)
    (compareLex (compareOn fun s => s.signer.1)
      (compareLex (compareOn fun s => s.signingKeyId.1)
        (compareLex (compareOn fun s => s.bytes.1) (compareOn fun s => code s.purpose))))

end Signature

end RGit
