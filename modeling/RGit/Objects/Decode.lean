/-
RGit/Objects/Decode.lean

The untyped decoder: canonical bytes to an `AnyObject`, with the field sets
and the field shapes of every kind and schema checked by number.

`validateShapes` is one match over the kinds in the source; here every arm
is a definition of its own, named after its kind.  The checks of an arm run
in the order of the source and report the field the source reports.
-/
import RGit.Objects.Registry

namespace RGit

open Discriminant (code)

inductive DecodeObjectError where
  | canonical (e : CanonicalError)
  | notMap
  | field (key : UInt64)
  | kind (n : UInt64)
  | schema (n : UInt64)
  | unknownField (key : UInt64)
  | objectId (key : UInt64)
  | digest
  deriving DecidableEq

abbrev DecodeResult (α : Type) := Except DecodeObjectError α

namespace Decode

/-! ### Reading single fields -/

def asMap : Value → DecodeResult Entries
  | .map m => .ok m
  | _ => .error .notMap

abbrev optionalField (m : Entries) (k : UInt64) : Option Value := lookupKey m k

def field (m : Entries) (k : UInt64) : DecodeResult Value :=
  Except.ofOption (optionalField m k) (.field k)

/-- `map.iter().any(|(k, _)| *k == key)`. -/
def hasField (m : Entries) (k : UInt64) : Bool := m.any fun e => e.1 == k

def unsigned (v : Value) (k : UInt64) : DecodeResult UInt64 :=
  match v with
  | .unsigned n => .ok n
  | _ => .error (.field k)

def bytes (v : Value) (k : UInt64) : DecodeResult Bytes :=
  match v with
  | .bytes b => .ok b
  | _ => .error (.field k)

def text (v : Value) (k : UInt64) : DecodeResult String :=
  match v with
  | .text s => .ok s
  | _ => .error (.field k)

def array (v : Value) (k : UInt64) : DecodeResult (List Value) :=
  match v with
  | .array vs => .ok vs
  | _ => .error (.field k)

def boolean (v : Value) (k : UInt64) : DecodeResult Bool :=
  match v with
  | .bool b => .ok b
  | _ => .error (.field k)

def fixedBytes (v : Value) (k : UInt64) (n : Nat) : DecodeResult Unit := do
  let b ← bytes v k
  if b.length = n then .ok () else .error (.field k)

def fixedNonzeroBytes (v : Value) (k : UInt64) (n : Nat) : DecodeResult Unit := do
  fixedBytes v k n
  let b ← bytes v k
  if b.all (· == 0) then .error (.field k) else .ok ()

def oid (v : Value) (k : UInt64) : DecodeResult ObjectId := do
  let b ← bytes v k
  (ObjectId.fromBytes b).mapError fun _ => .objectId k

def oidArray (v : Value) (k : UInt64) : DecodeResult Unit := do
  let vs ← array v k
  forM vs fun x => do
    let _ ← oid x k
    .ok ()

def oidValues (v : Value) (k : UInt64) : DecodeResult (List ObjectId) := do
  let vs ← array v k
  vs.mapM fun x => oid x k

/-- One pass of `ensure_unique_ids`: `earlier` is `ids[..index]`. -/
def ensureUniqueId (k : UInt64) (earlier : List ObjectId) (id : ObjectId) :
    DecodeResult (List ObjectId) :=
  if id ∈ earlier then .error (.field k) else .ok (id :: earlier)

def ensureUniqueIds (ids : List ObjectId) (k : UInt64) : DecodeResult Unit := do
  let _ ← ids.foldlM (ensureUniqueId k) []
  .ok ()

def ensureSortedUniqueIds (ids : List ObjectId) (k : UInt64) : DecodeResult Unit :=
  if outOfOrder ids then .error (.field k) else .ok ()

/-- An object kind by its number. -/
def kindOf (n : UInt64) : DecodeResult ObjectKind :=
  Except.ofOption (Discriminant.ofCode n) (.kind n)

/-! ### Reading records -/

/-- All required keys are there and no key is unknown. -/
def keysMatch (m : Entries) (required optional : List UInt64) : Bool :=
  required.all (hasField m) && m.all fun e => required.contains e.1 || optional.contains e.1

def exactMap (v : Value) (required optional : List UInt64) (k : UInt64) :
    DecodeResult Entries := do
  let m ← asMap v
  if keysMatch m required optional then .ok m else .error (.field k)

def policyRef (v : Value) (k : UInt64) : DecodeResult Unit := do
  let m ← exactMap v [0, 1] [] k
  fixedBytes (← field m 0) k 16
  let _ ← oid (← field m 1) k
  .ok ()

def typedRefValue (v : Value) (k : UInt64) : DecodeResult TypedObjectRef := do
  let m ← exactMap v [0, 1] [] k
  let kind ← kindOf (← unsigned (← field m 0) k)
  let id ← oid (← field m 1) k
  .ok ⟨kind, id⟩

def typedRefKind (v : Value) (k : UInt64) : DecodeResult ObjectKind := do
  let m ← exactMap v [0, 1] [] k
  let kind ← kindOf (← unsigned (← field m 0) k)
  let _ ← oid (← field m 1) k
  .ok kind

def typedRef (v : Value) (k : UInt64) : DecodeResult Unit := do
  let _ ← typedRefKind v k
  .ok ()

def referenceKey (v : Value) (k : UInt64) : DecodeResult ReferenceKey := do
  let m ← asMap v
  let kind ← unsigned (← field m 0) k
  if kind = 3 then
    let _ ← exactMap v [0] [] k
    .ok .operationHead
  else
    let m ← exactMap v [0, 1] [] k
    let stable ← Except.ofOption (FixedBytes.ofSlice 16 (← bytes (← field m 1) k)) (.field k)
    if kind = 1 then .ok (.line stable)
    else if kind = 2 then .ok (.change stable)
    else if kind = 4 then .ok (.release stable)
    else if kind = 5 then .ok (.marker stable)
    else .error (.field k)

def principal (v : Value) (k : UInt64) : DecodeResult Unit := do
  let m ← exactMap v [0, 1] [] k
  let kind ← unsigned (← field m 0) k
  if kind > 3 then .error (.field k)
  else
    let identifier ← bytes (← field m 1) k
    if identifier = [] then .error (.field k) else .ok ()

def publicKey (v : Value) (k : UInt64) : DecodeResult (UInt64 × Bytes) := do
  let m ← exactMap v [0, 1, 2] [3, 4] k
  let algorithm ← unsigned (← field m 0) k
  if algorithm > 1 then .error (.field k)
  else
    fixedNonzeroBytes (← field m 1) k 32
    let publicKey ← bytes (← field m 2) k
    if publicKey.length ≠ 32 then .error (.field k)
    else
      forM [3, 4] fun o => Except.ifSome (optionalField m o) fun v => do
        let _ ← oid v k
        .ok ()
      let keyId ← bytes (← field m 1) k
      .ok (algorithm, keyId)

def wallTimeComponent (v : Value) (k : UInt64) : DecodeResult Unit :=
  match v with
  | .signed _ | .unsigned _ => .ok ()
  | _ => .error (.field k)

def wallTime (v : Value) (k : UInt64) : DecodeResult Unit := do
  let m ← exactMap v [0, 1] [] k
  forM [0, 1] fun f => do wallTimeComponent (← field m f) k

def signature (v : Value) (k : UInt64) (expectedPurpose : SignaturePurpose) :
    DecodeResult Unit := do
  let m ← exactMap v [0, 1, 2, 3, 4] [] k
  let algorithm ← unsigned (← field m 0) k
  let _ ← Except.ofOption (Discriminant.ofCode algorithm : Option SignatureAlgorithm) (.field k)
  fixedBytes (← field m 1) k 16
  fixedBytes (← field m 2) k 32
  fixedBytes (← field m 3) k 64
  let keyId ← bytes (← field m 2) k
  let signed ← bytes (← field m 3) k
  if keyId.all (· == 0) || signed.all (· == 0) then .error (.field k)
  else
    let purpose ← Except.ofOption
      (Discriminant.ofCode (← unsigned (← field m 4) k) : Option SignaturePurpose) (.field k)
    if purpose ≠ expectedPurpose then .error (.field k) else .ok ()

section Encoded

variable [Unicode]

def ensureSortedUniqueValues (values : List Value) (k : UInt64) : DecodeResult Unit := do
  let encoded ← (encodeAll values).mapError .canonical
  if outOfOrder encoded then .error (.field k) else .ok ()

def signatureSet (v : Value) (k : UInt64) (purpose : SignaturePurpose) : DecodeResult Unit := do
  let values ← array v k
  if values = [] then .error (.field k)
  else
    forM values fun v => signature v k purpose
    ensureSortedUniqueValues values k

def canonicalMapBytes (v : Value) (k : UInt64) : DecodeResult Unit := do
  let encoded ← bytes v k
  if isCanonicalMap encoded then .ok () else .error (.field k)

/-- `for value in array { typed_ref(value)? }`, then their order. -/
def typedRefSet (v : Value) (k : UInt64) : DecodeResult Unit := do
  let refs ← array v k
  forM refs fun v => typedRef v k
  ensureSortedUniqueValues refs k

end Encoded

/-- `line_advance`: the declaration's line. -/
def lineAdvance (v : Value) (k : UInt64) : DecodeResult LineId := do
  let m ← exactMap v [0, 1, 2, 3, 4, 6, 7, 8, 9] [5] k
  policyRef (← field m 0) k
  let lineId ← Except.ofOption (FixedBytes.ofSlice 16 (← bytes (← field m 1) k)) (.field k)
  let _ ← text (← field m 2) k
  let _ ← oid (← field m 3) k
  let generation ← unsigned (← field m 4) k
  let previous := optionalField m 5
  if (generation == 0) = previous.isSome then .error (.field k)
  else
    Except.ifSome previous fun v => do
      let _ ← oid v k
      .ok ()
    forM [6, 7, 8, 9] fun policyKey => do policyRef (← field m policyKey) k
    .ok lineId

/-! ### Field sets -/

/-- The required and the optional field numbers of a kind. -/
def fieldSets : ObjectKind → List UInt64 × List UInt64
  | .chunk => ([0, 1, 2, 3], [])
  | .blob => ([0, 1, 2, 3], [4, 5, 6, 7])
  | .secretRef => ([0, 1, 2, 3, 4, 6, 7, 8], [5, 9])
  | .manifest => ([0, 1, 2, 3], [])
  | .subproject => ([0, 1, 2, 3, 4, 5], [6])
  | .snapshot => ([0, 1, 2, 3, 4, 5, 6, 7, 8, 9], [10])
  | .changeRevision => ([0, 1, 2, 3, 5, 6, 7, 8, 9, 10, 11, 12, 13, 14, 15], [4])
  | .lineState => ([0, 1, 2, 3, 4, 5, 6, 8, 9, 10, 11, 12, 13], [7])
  | .conflict => ([0, 1, 2, 3, 4, 5, 6, 7, 8, 9, 10], [])
  | .operation => ([0, 1, 2, 3, 4, 5, 6, 7, 8, 9, 12, 13], [10, 11])
  | .marker => ([0, 1, 2, 3, 4, 5, 6, 7, 8], [])
  | .release => ([0, 1, 2, 3, 4, 5, 6, 7, 8, 9, 10, 12, 13, 14, 15, 16], [11])
  | .policy => ([0, 1, 3, 4, 6, 7, 8, 9, 10, 11, 12, 13, 14, 15], [2, 5])
  | .repositoryRoot => ([0, 1, 3, 4, 5, 6, 7, 8, 9, 10], [])
  | .identity => ([0, 1, 3, 4, 5, 7, 8, 9, 10, 13], [2, 6, 11, 12])
  | .groupMembership => ([0, 1, 2, 3, 4, 5, 7, 8, 9, 10, 12], [6, 11])
  | .keyEnvelopeSet => ([0, 1, 3, 4, 5], [2])
  | .changeRelation => ([0, 1, 2, 3, 4, 5, 6, 7], [])
  | .conflictResolution => ([0, 1, 2, 3, 4, 5, 6, 7, 8, 9, 10], [])
  | .reviewEvidence | .approvalEvidence | .policyDecisionEvidence =>
      ([0, 1, 2, 3, 4, 5, 6, 7, 8, 9, 10, 11, 12], [])
  | .ciEvidence => ([0, 1, 2, 3, 4, 5, 6, 7, 8, 9, 10, 11, 12, 13, 14], [15])
  | .projectionRules => ([0, 1, 2, 3, 5, 6], [4])
  | .projectionProof => ([0, 1, 2, 3, 4, 5, 6, 7, 8], [])
  | .buildProvenance => ([0, 1, 2, 3, 4, 5, 6, 7, 8, 9, 10], [])
  | .artifact => ([0, 1, 2, 3, 4, 5, 6], [7, 8])
  | .operationPayload => ([0, 1, 2, 3, 4, 5, 6], [])
  | .view => ([0, 1, 2, 3, 4, 5, 6, 7, 8, 9], [])
  | .migration => ([0, 1, 2, 3, 4, 5, 6, 7, 8], [])
  | .ruleset => ([0, 1, 2, 3, 4, 6, 7], [5])

/-- The kinds that may omit their policy reference. -/
def policyOptional : ObjectKind → Bool
  | .policy | .repositoryRoot | .identity | .keyEnvelopeSet => true
  | _ => false

/-! ### Field shapes, kinds 1 to 13 -/

/-- An enumerated field: a number up to `last`. -/
def enumField (m : Entries) (k last : UInt64) : DecodeResult Unit := do
  let n ← unsigned (← field m k) k
  if n > last then .error (.field k) else .ok ()

/-- `oid(field(map, k)?, k)?`. -/
def oidField (m : Entries) (k : UInt64) : DecodeResult Unit := do
  let _ ← oid (← field m k) k
  .ok ()

/-- `if let Some(value) = optional_field(map, k) { oid(value, k)?; }`. -/
def optionalOidField (m : Entries) (k : UInt64) : DecodeResult Unit :=
  Except.ifSome (optionalField m k) fun v => do
    let _ ← oid v k
    .ok ()

/-- A version or generation is zero exactly when it has no predecessor. -/
def predecessorField (m : Entries) (version : UInt64) (k : UInt64) : DecodeResult Unit := do
  if (version == 0) = (optionalField m k).isSome then .error (.field k)
  else optionalOidField m k

def stableField (m : Entries) (k : UInt64) : DecodeResult Unit := do
  fixedBytes (← field m k) k 16

def unsignedField (m : Entries) (k : UInt64) : DecodeResult Unit := do
  let _ ← unsigned (← field m k) k
  .ok ()

def textField (m : Entries) (k : UInt64) : DecodeResult Unit := do
  let _ ← text (← field m k) k
  .ok ()

def bytesField (m : Entries) (k : UInt64) : DecodeResult Unit := do
  let _ ← bytes (← field m k) k
  .ok ()

def policyField (m : Entries) (k : UInt64) : DecodeResult Unit := do
  policyRef (← field m k) k

def typedField (m : Entries) (k : UInt64) : DecodeResult Unit := do
  typedRef (← field m k) k

def wallTimeField (m : Entries) (k : UInt64) : DecodeResult Unit := do
  wallTime (← field m k) k

def signatureField (m : Entries) (k : UInt64) (purpose : SignaturePurpose) :
    DecodeResult Unit := do
  signature (← field m k) k purpose

def principalField (m : Entries) (k : UInt64) : DecodeResult Unit := do
  principal (← field m k) k

def oidArrayField (m : Entries) (k : UInt64) : DecodeResult Unit := do
  oidArray (← field m k) k

/-- Identifiers without duplicates, in any order. -/
def uniqueIdsField (m : Entries) (k : UInt64) : DecodeResult Unit := do
  let ids ← oidValues (← field m k) k
  ensureUniqueIds ids k

/-- `for value in array(field(map, k)?, k)? { check(value)?; }`. -/
def eachField (m : Entries) (k : UInt64) (check : Value → DecodeResult Unit) :
    DecodeResult Unit := do
  forM (← array (← field m k) k) check

/-- The same loop with state that starts as `init`. -/
def loopField {σ : Type} (m : Entries) (k : UInt64) (step : σ → Value → DecodeResult σ)
    (init : σ) : DecodeResult Unit := do
  let _ ← (← array (← field m k) k).foldlM step init
  .ok ()

section EncodedFields

variable [Unicode]

/-- The segments of a path, each portable and together short enough. -/
def pathField (m : Entries) (k : UInt64) : DecodeResult Unit := do
  let segments ← (← array (← field m k) k).mapM fun segment => do
    (PathSegment.newPortable (← text segment k)).mapError fun _ => .field k
  let _ ← (PortablePath.new segments).mapError fun _ => .field k
  .ok ()

def signatureSetField (m : Entries) (k : UInt64) (purpose : SignaturePurpose) :
    DecodeResult Unit := do
  signatureSet (← field m k) k purpose

def typedRefSetField (m : Entries) (k : UInt64) : DecodeResult Unit := do
  typedRefSet (← field m k) k

def canonicalMapField (m : Entries) (k : UInt64) : DecodeResult Unit := do
  canonicalMapBytes (← field m k) k

end EncodedFields

def chunkShape (m : Entries) : DecodeResult Unit := do
  let b ← bytes (← field m 3) 3
  if b.length > maxChunkBytes then .error (.field 3) else .ok ()

/-- One pass of the chunk loop: the total so far. -/
def chunkStep (total : UInt64) (v : Value) : DecodeResult UInt64 := do
  let chunk ← exactMap v [0, 1] [] 5
  let _ ← oid (← field chunk 0) 5
  let length ← unsigned (← field chunk 1) 5
  if length = 0 ∨ length > fastcdcV0MaxSize then .error (.field 5)
  else Except.ofOption (checkedAdd total length) (.field 5)

def chunkProfileShape (m : Entries) : DecodeResult Unit := do
  let profile ← exactMap (← field m 7) [0, 1, 2, 3, 4] [] 7
  let algorithm ← unsigned (← field profile 0) 7
  if algorithm ≠ 0 then .error (.field 7)
  else
    let version ← unsigned (← field profile 1) 7
    if version ≠ 0 then .error (.field 7)
    else
      let min ← unsigned (← field profile 2) 7
      let target ← unsigned (← field profile 3) 7
      let max ← unsigned (← field profile 4) 7
      if min ≠ fastcdcV0MinSize ∨ target ≠ fastcdcV0TargetSize ∨ max ≠ fastcdcV0MaxSize then
        .error (.field 7)
      else .ok ()

/-- The content arm of a blob: exactly one of fields 4 and 5 is there. -/
def blobContentShape (m : Entries) (byteLength : UInt64) : DecodeResult Unit := do
  match optionalField m 4 with
  | some inline =>
      let b ← bytes inline 4
      if b.length > maxInlineBlobBytes ∨ b.length ≠ byteLength.toNat ∨ hasField m 7 then
        .error (.field 4)
      else .ok ()
  | none =>
      if byteLength.toNat ≤ maxInlineBlobBytes then .error (.field 5)
      else
        let chunks ← array (← field m 5) 5
        if chunks = [] then .error (.field 5)
        else
          let total ← chunks.foldlM chunkStep 0
          if total ≠ byteLength then .error (.field 5)
          else chunkProfileShape m

def blobShape (m : Entries) : DecodeResult Unit := do
  let byteLength ← unsigned (← field m 3) 3
  if (m.filter fun e => e.1 == 4 || e.1 == 5).length ≠ 1 then .error (.field 4)
  else
    blobContentShape m byteLength
    Except.ifSome (optionalField m 6) fun hint => do
      let _ ← text hint 6
      .ok ()

/-- The mode of a file entry. -/
def fileModeShape (kind : UInt64) (entry : Entries) : DecodeResult Unit := do
  if kind = 0 then
    let mode ← unsigned (← field entry 3) 3
    if mode > 1 then .error (.field 3) else .ok ()
  else .ok ()

/-- The checks of a manifest entry after its name. -/
def manifestTargetShape (entry : Entries) : DecodeResult Unit := do
  let kind ← unsigned (← field entry 1) 3
  if kind > 4 ∨ (kind == 0) ≠ hasField entry 3 then .error (.field 3)
  else
    fileModeShape kind entry
    let _ ← oid (← field entry 2) 3
    policyRef (← field entry 4) 3

/-- One pass of the entry loop: folded names seen, previous encoded name. -/
def manifestStep [Unicode] (state : List String × Option Bytes) (v : Value) :
    DecodeResult (List String × Option Bytes) := do
  let entry ← exactMap v [0, 1, 2, 4] [3] 3
  let name ← text (← field entry 0) 3
  let segment ← (PathSegment.newPortable name).mapError fun _ => .field 3
  if segment.caseFold ∈ state.1 then .error (.field 3)
  else
    let encoded ← (Value.text name).encode.mapError .canonical
    if state.2.any (fun old => (compare old encoded).isGE) then .error (.field 3)
    else
      manifestTargetShape entry
      .ok (segment.caseFold :: state.1, some encoded)

def manifestShape [Unicode] (m : Entries) : DecodeResult Unit :=
  loopField m 3 manifestStep ([], none)

def snapshotShape (m : Entries) : DecodeResult Unit := do
  oidField m 3
  uniqueIdsField m 4
  stableField m 5
  stableField m 6
  stableField m 7
  unsignedField m 8
  wallTimeField m 9
  optionalOidField m 10

def changeRevisionShape (m : Entries) : DecodeResult Unit := do
  stableField m 3
  optionalOidField m 4
  forM [5, 6, 7, 8] fun k => oidField m k
  stableField m 9
  unsignedField m 10
  stableField m 11
  stableField m 12
  enumField m 13 3
  policyField m 14
  policyField m 15

def lineStateShape (m : Entries) : DecodeResult Unit := do
  stableField m 3
  textField m 4
  oidField m 5
  let generation ← unsigned (← field m 6) 6
  predecessorField m generation 7
  oidField m 12
  forM [8, 9, 10, 11] fun k => policyField m k
  signatureField m 13 .lineState

/-- One pass of the region loop: the end of the previous region. -/
def regionStep (previousEnd : Option UInt64) (v : Value) : DecodeResult (Option UInt64) := do
  let region ← exactMap v [0, 1] [] 10
  let start ← unsigned (← field region 0) 10
  let stop ← unsigned (← field region 1) 10
  if start ≥ stop ∨ previousEnd.any (fun previous => decide (start < previous)) then
    .error (.field 10)
  else .ok (some stop)

def conflictShape [Unicode] (m : Entries) : DecodeResult Unit := do
  typedField m 3
  typedField m 4
  typedField m 5
  pathField m 6
  enumField m 7 3
  textField m 8
  textField m 9
  loopField m 10 regionStep none

/-- A schema-0 action with discriminator 0. -/
def transitionShape (v : Value) : DecodeResult Unit := do
  let action ← exactMap v [0] [1, 2] 8
  let before := optionalField action 1
  let after := optionalField action 2
  if before.isNone ∧ after.isNone then .error (.field 8)
  else
    Except.ifSome before fun v => typedRef v 8
    Except.ifSome after fun v => do
      let kind ← typedRefKind v 8
      if kind = .lineState then .error (.field 8) else .ok ()

/-- A schema-1 action with discriminator 2: the key it claims. -/
def boundTransitionShape (keys : List ReferenceKey) (v : Value) : DecodeResult ReferenceKey := do
  let action ← exactMap v [0, 1, 3] [2] 8
  let key ← referenceKey (← field action 1) 8
  if (key matches .line _ | .operationHead) ∨ key ∈ keys then .error (.field 8)
  else
    Except.ifSome (optionalField action 2) fun before => do
      let kind ← typedRefKind before 8
      if kind ≠ key.expectedKind then .error (.field 8) else .ok ()
    let kind ← typedRefKind (← field action 3) 8
    if kind ≠ key.expectedKind then .error (.field 8) else .ok key

/-- One pass of the action loop: the keys claimed so far. -/
def actionStep (schema : UInt64) (keys : List ReferenceKey) (v : Value) :
    DecodeResult (List ReferenceKey) := do
  let action ← asMap v
  let discriminator ← unsigned (← field action 0) 8
  if schema = 0 ∧ discriminator = 0 then
    transitionShape v
    .ok keys
  else if (schema = 0 ∨ schema = 1) ∧ discriminator = 1 then
    let action ← exactMap v [0, 3] [] 8
    let lineId ← lineAdvance (← field action 3) 8
    if schema = 1 then
      if .line lineId ∈ keys then .error (.field 8) else .ok (.line lineId :: keys)
    else .ok keys
  else if schema = 1 ∧ discriminator = 2 then
    let key ← boundTransitionShape keys v
    .ok (key :: keys)
  else .error (.field 8)

def operationShape (schema : UInt64) (m : Entries) : DecodeResult Unit := do
  uniqueIdsField m 3
  stableField m 4
  stableField m 5
  unsignedField m 6
  wallTimeField m 7
  loopField m 8 (actionStep schema) []
  oidArrayField m 9
  optionalOidField m 10
  optionalOidField m 11
  signatureField m 12 .operation
  textField m 13

def markerShape (m : Entries) : DecodeResult Unit := do
  enumField m 3 4
  typedField m 4
  stableField m 5
  wallTimeField m 6
  bytesField m 7
  signatureField m 8 .marker

def releaseShape [Unicode] (m : Entries) : DecodeResult Unit := do
  stableField m 3
  unsignedField m 4
  forM [5, 7, 8] fun k => oidField m k
  textField m 10
  policyField m 6
  oidField m 9
  forM [12, 13, 14] fun k => oidArrayField m k
  wallTimeField m 15
  signatureSetField m 16 .release

/-- One pass of the capability loop: the previous capability. -/
def capabilityStep (previous : Option UInt64) (v : Value) : DecodeResult (Option UInt64) := do
  let capability ← unsigned v 7
  if capability > 8 ∨ previous.any (fun p => decide (p ≥ capability)) then .error (.field 7)
  else .ok (some capability)

def grantShape (principals : Nat) (v : Value) : DecodeResult Unit := do
  let grant ← exactMap v [0, 1] [] 7
  let index ← unsigned (← field grant 0) 7
  if index.toNat ≥ principals then .error (.field 7)
  else
    let _ ← (← array (← field grant 1) 7).foldlM capabilityStep none
    .ok ()

/-- The principals of a policy: how many there are. -/
def principalsShape (m : Entries) : DecodeResult Nat := do
  let principals ← array (← field m 6) 6
  forM principals fun v => principal v 6
  .ok principals.length

def policyShape [Unicode] (m : Entries) : DecodeResult Unit := do
  stableField m 3
  let version ← unsigned (← field m 4) 4
  predecessorField m version 5
  let principals ← principalsShape m
  eachField m 7 (grantShape principals)
  oidField m 12
  enumField m 8 2
  enumField m 9 2
  uniqueIdsField m 10
  unsignedField m 11
  eachField m 13 fun administrator => fixedBytes administrator 13 16
  bytesField m 14
  signatureSetField m 15 .policy

def secretRefShape (m : Entries) : DecodeResult Unit := do
  forM [3, 4, 7, 8] fun k => textField m k
  bytesField m 6
  Except.ifSome (optionalField m 5) fun v => do
    let _ ← text v 5
    .ok ()
  optionalOidField m 9

def subprojectShape (m : Entries) : DecodeResult Unit := do
  textField m 3
  bytesField m 4
  bytesField m 5
  optionalOidField m 6

/-! ### Field shapes, kinds 14 to 31 -/

/-- A sorted, duplicate-free set of identifiers that may be required nonempty. -/
def idSetField (m : Entries) (k : UInt64) (nonempty : Bool) : DecodeResult Unit := do
  let ids ← oidValues (← field m k) k
  ensureSortedUniqueIds ids k
  if nonempty ∧ ids = [] then .error (.field k) else .ok ()

def repositoryRootShape [Unicode] (m : Entries) : DecodeResult Unit := do
  stableField m 3
  oidField m 4
  idSetField m 5 true
  oidField m 6
  oidField m 7
  idSetField m 8 true
  enumField m 9 1
  signatureSetField m 10 .repositoryRoot

/-- One pass of a key loop: the key identifiers seen so far. -/
def keyStep (k algorithm : UInt64) (seen : List Bytes) (v : Value) :
    DecodeResult (List Bytes) := do
  let (actual, keyId) ← publicKey v k
  if actual ≠ algorithm ∨ keyId ∈ seen then .error (.field k) else .ok (keyId :: seen)

/-- The presence rules that tie an identity's version to its links. -/
def identityLinks (m : Entries) (version : UInt64) : DecodeResult Unit :=
  let previous := optionalField m 6
  let activation := optionalField m 11
  let hasPolicy := (optionalField m 2).isSome
  if (version == 0) ≠ (previous.isNone && activation.isNone && !hasPolicy) then
    .error (.field 5)
  else if version > 0 ∧ (previous.isNone || activation.isNone || !hasPolicy) then
    .error (.field 5)
  else .ok ()

def identityShape [Unicode] (m : Entries) : DecodeResult Unit := do
  enumField m 3 1
  stableField m 4
  let version ← unsigned (← field m 5) 5
  identityLinks m version
  optionalOidField m 6
  let signing ← array (← field m 7) 7
  if signing = [] then .error (.field 7)
  else
    let encryption ← array (← field m 8) 8
    let keyIds ← signing.foldlM (keyStep 7 0) []
    let _ ← encryption.foldlM (keyStep 8 1) keyIds
    ensureSortedUniqueValues signing 7
    ensureSortedUniqueValues encryption 8
    stableField m 9
    enumField m 10 2
    optionalOidField m 11
    optionalOidField m 12
    signatureSetField m 13 .identity

def groupMembershipShape [Unicode] (m : Entries) : DecodeResult Unit := do
  stableField m 3
  stableField m 4
  let version ← unsigned (← field m 5) 5
  predecessorField m version 6
  principalField m 7
  enumField m 8 1
  stableField m 9
  oidField m 10
  optionalOidField m 11
  signatureSetField m 12 .groupMembership

def recipientShape (v : Value) : DecodeResult Unit := do
  let r ← exactMap v [0, 1, 2] [] 5
  principal (← field r 0) 5
  fixedNonzeroBytes (← field r 1) 5 32
  let envelope ← bytes (← field r 2) 5
  if envelope = [] then .error (.field 5) else .ok ()

def keyEnvelopeSetShape [Unicode] (m : Entries) : DecodeResult Unit := do
  let epoch ← unsigned (← field m 3) 3
  if (epoch == 0) ≠ (optionalField m 2).isNone then .error (.field 3)
  else
    let suite ← unsigned (← field m 4) 4
    if suite ≠ 0 then .error (.field 4)
    else
      let recipients ← array (← field m 5) 5
      if recipients = [] then .error (.field 5)
      else
        forM recipients recipientShape
        ensureSortedUniqueValues recipients 5

def changeRelationShape (m : Entries) : DecodeResult Unit := do
  enumField m 3 2
  idSetField m 4 true
  idSetField m 5 true
  idSetField m 6 false
  oidField m 7

def conflictResolutionShape [Unicode] (m : Entries) : DecodeResult Unit := do
  oidField m 3
  typedField m 4
  stableField m 5
  stableField m 6
  enumField m 7 4
  typedRefSetField m 8
  wallTimeField m 9
  signatureSetField m 10 .conflictResolution

/-- The arm that the four evidence kinds share; CI evidence has three more fields. -/
def evidenceShape [Unicode] (purpose : SignaturePurpose) (ci : Bool) (m : Entries) :
    DecodeResult Unit := do
  typedField m 3
  oidField m 4
  oidField m 5
  stableField m 6
  stableField m 7
  enumField m 8 3
  canonicalMapField m 9
  typedRefSetField m 10
  wallTimeField m 11
  signatureSetField m 12 purpose
  if ci then
    let checkName ← text (← field m 13) 13
    if checkName = "" then .error (.field 13)
    else
      oidField m 14
      optionalOidField m 15
  else .ok ()

def projectionRuleShape [Unicode] (v : Value) : DecodeResult Unit := do
  let r ← exactMap v [0, 1] [] 5
  let kind ← unsigned (← field r 0) 5
  if kind > 2 then .error (.field 5)
  else canonicalMapBytes (← field r 1) 5

def projectionRulesShape [Unicode] (m : Entries) : DecodeResult Unit := do
  let version ← unsigned (← field m 3) 3
  predecessorField m version 4
  eachField m 5 projectionRuleShape
  let defaultFail ← boolean (← field m 6) 6
  if !defaultFail then .error (.field 6) else .ok ()

def projectionProofShape (m : Entries) : DecodeResult Unit := do
  let algorithm ← unsigned (← field m 3) 3
  if algorithm ≠ 0 then .error (.field 3)
  else
    forM [4, 5, 6, 7] fun k => oidField m k
    let proof ← bytes (← field m 8) 8
    if proof = [] then .error (.field 8) else .ok ()

def buildProvenanceShape [Unicode] (m : Entries) : DecodeResult Unit := do
  forM [3, 4, 5] fun k => oidField m k
  typedRefSetField m 6
  idSetField m 7 false
  canonicalMapField m 8
  wallTimeField m 9
  signatureSetField m 10 .buildProvenance

def artifactShape (m : Entries) : DecodeResult Unit := do
  enumField m 3 3
  enumField m 4 1
  fixedBytes (← field m 5) 5 32
  unsignedField m 6
  if (optionalField m 7).isNone ∧ (optionalField m 8).isNone then .error (.field 7)
  else
    Except.ifSome (optionalField m 7) fun v => do
      let _ ← text v 7
      .ok ()
    optionalOidField m 8

def operationPayloadShape [Unicode] (m : Entries) : DecodeResult Unit := do
  enumField m 3 3
  typedRefSetField m 4
  let schema ← unsigned (← field m 5) 5
  if schema ≠ 0 then .error (.field 5)
  else canonicalMapField m 6

/-- One pass of the line loop: the line identifiers seen so far. -/
def viewLineStep (seen : List Bytes) (v : Value) : DecodeResult (List Bytes) := do
  let line ← exactMap v [0, 1, 2] [] 6
  fixedBytes (← field line 0) 6 16
  let lineId ← bytes (← field line 0) 6
  if lineId ∈ seen then .error (.field 6)
  else
    let _ ← unsigned (← field line 1) 6
    let _ ← oid (← field line 2) 6
    .ok (lineId :: seen)

/-- The lines of a view. -/
def viewLinesField [Unicode] (m : Entries) : DecodeResult Unit := do
  let lines ← array (← field m 6) 6
  let _ ← lines.foldlM viewLineStep []
  ensureSortedUniqueValues lines 6

def viewShape [Unicode] (m : Entries) : DecodeResult Unit := do
  stableField m 3
  stableField m 4
  idSetField m 5 false
  viewLinesField m
  oidField m 7
  canonicalMapField m 8
  signatureSetField m 9 .view

/-- One pass of the mapping loop: old and new identifiers seen so far. -/
def mappingStep (seen : List ObjectId × List ObjectId) (v : Value) :
    DecodeResult (List ObjectId × List ObjectId) := do
  let m ← exactMap v [0, 1] [] 5
  let old ← oid (← field m 0) 5
  let new ← oid (← field m 1) 5
  if old ∈ seen.1 ∨ new ∈ seen.2 then .error (.field 5)
  else .ok (old :: seen.1, new :: seen.2)

/-- The mappings of a migration. -/
def mappingsField [Unicode] (m : Entries) : DecodeResult Unit := do
  let mappings ← array (← field m 5) 5
  if mappings = [] then .error (.field 5)
  else
    let _ ← mappings.foldlM mappingStep ([], [])
    ensureSortedUniqueValues mappings 5

def migrationShape [Unicode] (m : Entries) : DecodeResult Unit := do
  let source ← unsigned (← field m 3) 3
  let target ← unsigned (← field m 4) 4
  if source > 1 ∨ target > 1 ∨ source = target then .error (.field 4)
  else
    mappingsField m
    oidField m 6
    wallTimeField m 7
    signatureSetField m 8 .migration

/-- One pass of the evidence kind loop: the previous number. -/
def evidenceKindStep (prior : Option UInt64) (v : Value) : DecodeResult (Option UInt64) := do
  let n ← unsigned v 7
  if ¬(20 ≤ n ∧ n ≤ 23) ∨ prior.any (fun p => decide (p ≥ n)) then .error (.field 7)
  else .ok (some n)

def rulesetShape [Unicode] (m : Entries) : DecodeResult Unit := do
  enumField m 3 4
  let version ← unsigned (← field m 4) 4
  predecessorField m version 5
  canonicalMapField m 6
  loopField m 7 evidenceKindStep none

/-! ### Whole objects -/

section Objects

variable [Unicode]

/-- `validate_shapes`. -/
def validateShapes (kind : ObjectKind) (schema : UInt64) (m : Entries) : DecodeResult Unit :=
  match kind with
  | .chunk => chunkShape m
  | .blob => blobShape m
  | .manifest => manifestShape m
  | .snapshot => snapshotShape m
  | .changeRevision => changeRevisionShape m
  | .lineState => lineStateShape m
  | .conflict => conflictShape m
  | .operation => operationShape schema m
  | .marker => markerShape m
  | .release => releaseShape m
  | .policy => policyShape m
  | .secretRef => secretRefShape m
  | .subproject => subprojectShape m
  | .repositoryRoot => repositoryRootShape m
  | .identity => identityShape m
  | .groupMembership => groupMembershipShape m
  | .keyEnvelopeSet => keyEnvelopeSetShape m
  | .changeRelation => changeRelationShape m
  | .conflictResolution => conflictResolutionShape m
  | .reviewEvidence => evidenceShape .reviewEvidence false m
  | .approvalEvidence => evidenceShape .approvalEvidence false m
  | .ciEvidence => evidenceShape .ciEvidence true m
  | .policyDecisionEvidence => evidenceShape .policyDecisionEvidence false m
  | .projectionRules => projectionRulesShape m
  | .projectionProof => projectionProofShape m
  | .buildProvenance => buildProvenanceShape m
  | .artifact => artifactShape m
  | .operationPayload => operationPayloadShape m
  | .view => viewShape m
  | .migration => migrationShape m
  | .ruleset => rulesetShape m

/-- The policy reference is checked where it is required or there. -/
def policyHeader (kind : ObjectKind) (m : Entries) : DecodeResult Unit :=
  if !policyOptional kind || hasField m 2 then policyField m 2 else .ok ()

/-- `validate_fields`. -/
def validateFields (kind : ObjectKind) (schema : UInt64) (m : Entries) : DecodeResult Unit := do
  let (required, optional) := fieldSets kind
  forM required fun k => do
    let _ ← field m k
    .ok ()
  forM m fun e =>
    if required.contains e.1 || optional.contains e.1 then .ok ()
    else .error (.unknownField e.1)
  policyHeader kind m
  validateShapes kind schema m

end Objects

end Decode

/-- A decoded object; `AnyObject` wraps it in a variant that repeats the kind. -/
structure AnyObject where
  kind : ObjectKind
  schemaVersion : UInt64
  value : Value

namespace AnyObject

variable [Unicode]

/-- `AnyObject::decode`. -/
def decode (b : Bytes) (limits : CanonicalLimits) : DecodeResult AnyObject := do
  let value ← (decodeCanonical b (limits.restrictedBy .bulk)).mapError .canonical
  let m ← Decode.asMap value
  let kind ← Decode.kindOf (← Decode.unsigned (← Decode.field m 0) 0)
  let schema ← Decode.unsigned (← Decode.field m 1) 1
  if !kind.supportsSchema schema then .error (.schema schema)
  else
    let _ ← (value.encodeWithLimits (limits.restrictedBy (kindLimits kind))).mapError .canonical
    Decode.validateFields kind schema m
    .ok ⟨kind, schema, value⟩

/-- `AnyObject::id`. -/
def id [Hashes] (o : AnyObject) (algorithm : HashAlgorithm) : DecodeResult ObjectId := do
  let bytes ← (o.value.encodeWithLimits (kindLimits o.kind)).mapError .canonical
  .ok (ObjectId.fromPayload (code o.kind) o.schemaVersion bytes algorithm)

/-- `AnyObject::decode_verified`. -/
def decodeVerified [Hashes] (b : Bytes) (expected : ObjectId) (limits : CanonicalLimits) :
    DecodeResult AnyObject := do
  let o ← decode b limits
  let actual ← o.id expected.algorithm
  if actual ≠ expected then .error .digest else .ok o

end AnyObject

end RGit
