/-
RGit/Store/Loose.lean

The loose-object store: immutable records, one for each identifier.

A record is kept as the fields of its frame; the bytes of the frame and its
checksum, which only matter when a disk returns something else than was
written, are in `RGit.Store.Frame`.  Records are published without replacement: the store
only grows, and other bytes under an identifier it has make an incident that
refuses every later `put`.
-/
import RGit.Store.Staging
import RGit.Objects.Limits

namespace RGit

structure LooseRecord where
  kind : ObjectKind
  schema : UInt64
  payload : Bytes
  deriving DecidableEq

structure LooseStore where
  records : BTreeMap ObjectId LooseRecord := ∅
  incident : Bool := false

inductive LooseStoreError where
  | invalidObject (e : DecodeObjectError)
  | invalidFrame
  | invalidVarint
  | checksum
  | pathMismatch
  | unsupportedFormat
  | allocationLimit
  | metadataMismatch
  | unavailable
  | readOnlyIncident
  | collisionIncident
  deriving DecidableEq

inductive PutLooseOutcome where
  | new
  | alreadyPresent
  deriving DecidableEq

namespace LooseStore

/-- `payload_limit`. -/
def payloadLimit : ObjectKind → Nat
  | .chunk | .blob => 16 * 1024 * 1024
  | _ => 1024 * 1024

/-- `limits_for`. -/
def limitsFor : ObjectKind → CanonicalLimits
  | .chunk | .blob => .bulk
  | _ => .metadata

/-- `encode_frame`, up to the bytes of the frame. -/
def encodeFrame (object : AnyObject) (payload : Bytes) : Except LooseStoreError LooseRecord :=
  if payload.length > payloadLimit object.kind then .error .allocationLimit
  else .ok ⟨object.kind, object.schemaVersion, payload⟩

section Records

variable [Unicode] [Hashes]

/-- `validate_logical_record`. -/
def validateLogicalRecord (id : ObjectId) (record : LooseRecord) :
    Except LooseStoreError AnyObject := do
  let object ← (AnyObject.decodeVerified record.payload id (limitsFor record.kind)).mapError
    .invalidObject
  if object.kind ≠ record.kind ∨ object.schemaVersion ≠ record.schema then
    .error .metadataMismatch
  else .ok object

/-- `verify_open_file`: the checks of `parse_record_stream` on the fields. -/
def verifyOpenFile (id : ObjectId) (record : LooseRecord) : Except LooseStoreError AnyObject :=
  if !record.kind.supportsSchema record.schema then .error .unsupportedFormat
  else if record.payload.length > payloadLimit record.kind then .error .allocationLimit
  else validateLogicalRecord id record

/-- `rename_no_replace_at`, and `resolve_existing` where the name is taken. -/
def publishRecord (id : ObjectId) (record : LooseRecord) (loose : LooseStore) :
    Except LooseStoreError PutLooseOutcome × LooseStore :=
  match loose.records[id]? with
  | none => (.ok .new, { loose with records := loose.records.insert id record })
  | some existing =>
      if (verifyOpenFile id existing).isOk ∧ existing = record then (.ok .alreadyPresent, loose)
      else (.error .collisionIncident, { loose with incident := true })

/-- What `put` writes to its temporary file and reads back. -/
def prepareRecord (id : ObjectId) (payload : Bytes) : Except LooseStoreError LooseRecord := do
  let object ← (AnyObject.decodeVerified payload id .bulk).mapError .invalidObject
  let record ← encodeFrame object payload
  let _ ← verifyOpenFile id record
  .ok record

/-- `LooseObjectStore::put`. -/
def put (id : ObjectId) (payload : Bytes) (loose : LooseStore) :
    Except LooseStoreError PutLooseOutcome × LooseStore :=
  if loose.incident then (.error .readOnlyIncident, loose)
  else
    match prepareRecord id payload with
    | .error e => (.error e, loose)
    | .ok record => publishRecord id record loose

/-- `LooseObjectStore::read_object_audited`. -/
def readObjectAudited (loose : LooseStore) (id : ObjectId) :
    Except LooseStoreError StoredObject := do
  let record ← Except.ofOption loose.records[id]? .unavailable
  let object ← verifyOpenFile id record
  (StoredObject.new id record.payload object).mapError .invalidObject

end Records

/-! ### Admitted objects are readable -/

/-- The record of an object. -/
def recordOf (o : StoredObject) : LooseRecord := ⟨o.kind, o.object.schemaVersion, o.bytes⟩

theorem limitsFor_eq (kind : ObjectKind) : limitsFor kind = kindLimits kind := by
  cases kind <;> rfl

theorem payloadLimit_eq (kind : ObjectKind) :
    payloadLimit kind = (kindLimits kind).maxBytes.toNat := by
  cases kind <;> rfl

section Readable

variable [Unicode] [Hashes] {id : ObjectId} {b : Bytes} {o : StoredObject} {loose : LooseStore}

omit [Hashes] in
theorem length_le_payloadLimit {limits : CanonicalLimits} {object : AnyObject}
    (h : AnyObject.decode b limits = .ok object) : b.length ≤ payloadLimit object.kind := by
  rw [payloadLimit_eq]
  exact (decode_kindLimits h).2

theorem verifyOpenFile_recordOf (h : MemoryStore.decode id b = .ok o) :
    verifyOpenFile id (recordOf o) = .ok o.object := by
  obtain ⟨hobject, hid, -, -, rfl⟩ := MemoryStore.decode_eq_ok.mp h
  obtain ⟨-, -, -, hsupported, -, -⟩ := RGit.decode_eq_ok.mp hobject
  obtain ⟨hdecode, -⟩ := decode_kindLimits hobject
  have hlength := length_le_payloadLimit hobject
  have hvalid : validateLogicalRecord id (recordOf o) = .ok o.object := by
    simp [validateLogicalRecord, recordOf, limitsFor_eq, AnyObject.decodeVerified,
      StoredObject.kind, hdecode, hid, Except.mapError]
  rw [verifyOpenFile, if_neg (by simpa [recordOf, StoredObject.kind] using hsupported),
    if_neg (by simpa [recordOf, StoredObject.kind] using hlength), hvalid]

theorem prepareRecord_eq_ok (h : MemoryStore.decode id b = .ok o) :
    prepareRecord id b = .ok (recordOf o) := by
  have hverify := verifyOpenFile_recordOf h
  obtain ⟨hobject, hid, -, -, rfl⟩ := MemoryStore.decode_eq_ok.mp h
  have hverified : AnyObject.decodeVerified o.bytes id .bulk = .ok o.object := by
    simp [AnyObject.decodeVerified, hobject, hid]
  have hframe : encodeFrame o.object o.bytes = .ok (recordOf o) := by
    rw [encodeFrame, if_neg (by simpa using length_le_payloadLimit hobject)]
    rfl
  simp [prepareRecord, hverified, hframe, hverify, Except.mapError]

/-- An object whose record is in the store is read back. -/
theorem readObjectAudited_eq_ok (h : MemoryStore.decode id b = .ok o)
    (hrecord : loose.records[id]? = some (recordOf o)) :
    readObjectAudited loose id = .ok o := by
  obtain ⟨-, -, hreferences, hid, -⟩ := MemoryStore.decode_eq_ok.mp h
  have hnew : StoredObject.new id o.bytes o.object = .ok o :=
    StoredObject.new_eq_ok.mpr ⟨o.references, hreferences, by rw [← hid]⟩
  simp only [readObjectAudited, hrecord, Except.ofOption, Except.ok_bind,
    verifyOpenFile_recordOf h]
  exact Except.mapError_eq_ok.mpr hnew

end Readable

/-! ### The store only grows -/

/-- Every record is kept. -/
def Grows (loose loose' : LooseStore) : Prop :=
  ∀ (id : ObjectId) (record : LooseRecord),
    loose.records[id]? = some record → loose'.records[id]? = some record

theorem Grows.refl (loose : LooseStore) : Grows loose loose := fun _ _ h => h

theorem Grows.trans {loose loose' loose'' : LooseStore} (h : Grows loose loose')
    (h' : Grows loose' loose'') : Grows loose loose'' :=
  fun id record hget => h' id record (h id record hget)

theorem Grows.insert {loose : LooseStore} {id : ObjectId} (hget : loose.records[id]? = none)
    (record : LooseRecord) :
    Grows loose { loose with records := loose.records.insert id record } := by
  intro id' record' hrecord
  have hne : id ≠ id' := by
    rintro rfl
    rw [hget] at hrecord
    cases hrecord
  exact (BTreeMap.get_insert_of_ne _ _ hne).trans hrecord

section Put

variable [Unicode] [Hashes] {id : ObjectId} {b : Bytes} {o : StoredObject} {loose : LooseStore}

theorem publishRecord_grows (id : ObjectId) (record : LooseRecord) (loose : LooseStore) :
    Grows loose (publishRecord id record loose).2 := by
  rw [publishRecord]
  cases hget : loose.records[id]? with
  | none => exact .insert hget record
  | some existing =>
      dsimp only
      split <;> exact .refl _

theorem put_grows (id : ObjectId) (b : Bytes) (loose : LooseStore) :
    Grows loose (put id b loose).2 := by
  rw [put]
  split
  · exact .refl _
  · split
    · exact .refl _
    · exact publishRecord_grows id _ loose

/-- The store takes the object: it has had no incident, and no other bytes
have the identifier. -/
def Accepts (loose : LooseStore) (o : StoredObject) : Prop :=
  loose.incident = false ∧ ∀ record ∈ loose.records[o.id]?, record = recordOf o

/-- **What `put` does with an admitted object**: one that the store accepts is
in it from then on, any other is refused. -/
theorem put_isOk_iff (h : MemoryStore.decode id b = .ok o) :
    (∃ outcome, (put id b loose).1 = .ok outcome) ↔ Accepts loose o := by
  obtain ⟨-, -, -, rfl, -⟩ := MemoryStore.decode_eq_ok.mp h
  cases hincident : loose.incident with
  | true => simp [put, hincident, Accepts]
  | false =>
      simp only [put, hincident, Bool.false_eq_true, if_false, prepareRecord_eq_ok h, Accepts,
        publishRecord, true_and]
      cases hget : loose.records[o.id]? with
      | none => simp
      | some record =>
          by_cases heq : record = recordOf o
          · subst heq
            simp [verifyOpenFile_recordOf h, Except.isOk, Except.toBool]
          · simp [heq]

theorem put_records (h : MemoryStore.decode id b = .ok o) {outcome : PutLooseOutcome}
    {loose' : LooseStore} (hput : put id b loose = (.ok outcome, loose')) :
    loose'.incident = false ∧ loose'.records[id]? = some (recordOf o) := by
  have haccepts : Accepts loose o := (put_isOk_iff h).mp ⟨outcome, by rw [hput]⟩
  obtain ⟨-, -, -, rfl, -⟩ := MemoryStore.decode_eq_ok.mp h
  simp only [put, haccepts.1, Bool.false_eq_true, if_false, prepareRecord_eq_ok h,
    publishRecord] at hput
  cases hget : loose.records[o.id]? with
  | none =>
      rw [hget] at hput
      cases hput
      exact ⟨rfl, BTreeMap.get_insert_self _ _ _⟩
  | some record =>
      obtain rfl : record = recordOf o := haccepts.2 record hget
      simp only [hget, verifyOpenFile_recordOf h, Except.isOk, Except.toBool, and_self,
        if_true] at hput
      cases hput
      exact ⟨haccepts.1, hget⟩

end Put

end LooseStore

end RGit
