/-
RGit/Store/Model.lean

The data of the storage boundary: stored objects, references, publications,
and the errors of the store.
-/
import RGit.Lib.Maps
import RGit.Objects.References

namespace RGit

deriving instance DecidableEq for AnyObject

inductive PutOutcome where
  | new
  | alreadyPresent
  deriving DecidableEq

inductive ObjectPresence where
  | present
  | promised
  | quarantined
  deriving DecidableEq

inductive ClosureError where
  | missing
  | promised
  | quarantined
  | wrongKind (expected actual : ObjectKind)
  deriving DecidableEq

/-- Failures at the verified storage boundary. -/
inductive StoreError where
  | invalidObject (e : DecodeObjectError)
  | notPresent
  | quarantined
  | promised
  | invalidReferenceKey
  | referenceConflict
  | duplicateReferenceUpdate
  | referenceKind
  | operationMismatch
  | generationOverflow
  | revisionOverflow
  | publicationDenied
  | closure (e : ClosureError)
  | invalidGraph
  | database
  | unsupportedDatabase
  | upgradeRequired
  | migrationRequired
  | retryableConflict
  | incidentReadOnly
  | injectedTransactionFailure
  | objectStorage
  deriving DecidableEq

structure StoredObject where
  id : ObjectId
  bytes : Bytes
  object : AnyObject
  references : List ReferenceEdge
  deriving DecidableEq

namespace StoredObject

/-- `StoredObject::new`. -/
def new (id : ObjectId) (bytes : Bytes) (object : AnyObject) : DecodeResult StoredObject := do
  let references ← object.references
  .ok ⟨id, bytes, object, references⟩

def kind (o : StoredObject) : ObjectKind := o.object.kind

theorem new_eq_ok {id : ObjectId} {bytes : Bytes} {object : AnyObject} {o : StoredObject} :
    new id bytes object = .ok o ↔
      ∃ references, object.references = .ok references ∧ o = ⟨id, bytes, object, references⟩ := by
  simp only [new, Except.bind_eq_ok, Except.ok.injEq, eq_comm (a := o)]

end StoredObject

structure ReferenceState where
  target : ObjectId
  generation : UInt64
  operation : ObjectId
  deriving DecidableEq

inductive ExpectedRef where
  | absent
  | exact (state : ReferenceState)
  deriving DecidableEq

structure PublicationObject where
  id : ObjectId
  bytes : Bytes
  deriving DecidableEq

structure RefUpdate where
  key : ReferenceKey
  expected : ExpectedRef
  target : ObjectId
  deriving DecidableEq

structure Publication where
  objects : List PublicationObject
  updates : List RefUpdate
  operation : ObjectId
  deriving DecidableEq

/-- Immutable view passed to publication validators before state is committed. -/
structure PublicationCandidate where
  publication : Publication
  objects : BTreeMap ObjectId StoredObject
  references : BTreeMap ReferenceKey ReferenceState

/-- `PublicationValidator::validate`. -/
abbrev PublicationValidator := PublicationCandidate → Except StoreError Unit

end RGit
