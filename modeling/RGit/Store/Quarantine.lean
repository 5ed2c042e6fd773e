/-
RGit/Store/Quarantine.lean

Quarantining an object of the durable store.

A quarantine takes the object out of the inventory and closes the store for
writing.  Every later call reloads the database, and the reload follows every
reference again: it fails as soon as a reference can reach the hole.  So the
store stays readable exactly when no reference reaches the object
(`quarantine_readable_iff`).
-/
import RGit.Store.Reload
import RGit.Store.Statements

namespace RGit

open MemoryStore

/-! ### A smaller graph -/

/-- The numbers of tables that mirror a snapshot fit. -/
theorem MirrorsGraph.fitsColumns {db : Database} {s : MemorySnapshot} (h : MirrorsGraph db s)
    {o : StoredObject} (ho : o ∈ Database.objectList s) : Database.FitsColumns s o := by
  obtain ⟨rows, hrows, -⟩ := h
  obtain ⟨own, -, hown⟩ := forall₂_exists_of_mem (mapM_eq_ok.mp hrows) ho
  simp only [Database.expectedRows, Except.bind_eq_ok] at hown
  obtain ⟨generations, hgenerations, operations, hoperations, -⟩ := hown
  intro g hg
  constructor
  · rcases Database.generationRows_eq_ok.mp hgenerations with ⟨hnone, -⟩ | ⟨g', hg', hbound, -⟩
    · rw [hg] at hnone
      cases hnone
    · rw [hg, Option.some.injEq] at hg'
      exact hg' ▸ hbound
  · intro hkind time htime
    simp only [Database.expectedOperationRows, hg, hkind, if_true,
      Database.operationRow_eq_ok] at hoperations
    obtain ⟨time', htime', -, hbound, -⟩ := hoperations
    rw [htime, Option.some.injEq] at htime'
    exact htime' ▸ hbound

theorem quarantineStaged_sees {s : MemorySnapshot} {id : ObjectId} {next : UInt64} :
    SeesMore (quarantineStaged s id next) s := by
  intro id' o ho
  obtain ⟨hopen, ho⟩ := visibleObject_eq_ok.mp ho
  refine visibleObject_eq_ok.mpr ⟨fun hid => hopen ?_, (BTreeMap.get_erase_eq_some_iff.mp ho).2⟩
  exact BTreeSet.mem_insert_iff.mpr (.inr hid)

section Transaction

variable [Unicode] [Hashes] {db : Database} {loose : LooseStore} {s : MemorySnapshot}

/-- **A quarantine is refused only at the last revision.** -/
theorem Mirrors.quarantine_ok (h : Mirrors db loose s) {id : ObjectId} {next : UInt64}
    (hknown : s.objects.contains id = true ∨ id ∈ s.promised) (hnext : next ≤ maxSqliteInteger) :
    ∃ written, SqliteStore.quarantineTransaction id s.revision (quarantineStaged s id next) db =
      .ok written := by
  obtain ⟨row, hrow⟩ := h.quarantine_row hknown
  have hunlocated := h.consistent.deleteLocation id
  have hunedged := hunlocated.deleteEdges id
  have hmark : Database.markQuarantined id (Database.deleteEdges id (Database.deleteLocation id db)) =
      { db with
        objects := db.objects.insert id { row with presence := .quarantined, canonicalLength := none }
        edges := db.edges.erase id
        locations := db.locations.erase id } := by
    simp only [Database.markQuarantined, Database.deleteEdges, Database.deleteLocation, hrow]
  have hmarked : (Database.markQuarantined id
      (Database.deleteEdges id (Database.deleteLocation id db))).Consistent := by
    rw [hmark]
    refine hunedged.insertRow rfl fun old hold kind hkind => ?_
    have hold : db.objects[id]? = some old := hold
    rw [hrow, Option.some.injEq] at hold
    exact hold ▸ hkind
  have hready : Database.GraphReady
      (Database.markQuarantined id (Database.deleteEdges id (Database.deleteLocation id db)))
      (quarantineStaged s id next) :=
    { consistent := hmarked
      objects := hmark ▸ h.objects.quarantine id row next
      decoded := fun id' o ho => h.decoded id' o (BTreeMap.get_erase_eq_some_iff.mp ho).2 }
  -- what is left had the same numbers before
  have hfits : ∀ o ∈ Database.objectList (quarantineStaged s id next),
      Database.NodeFits (quarantineStaged s id next) o := by
    intro o ho
    have hget := (BTreeMap.get_erase_eq_some_iff.mp (hready.get_of_mem ho)).2
    refine (Database.nodeFits_iff fun hkind => logicalTime_of_decode (h.decoded _ o hget) hkind).mpr
      fun g hg => ?_
    obtain ⟨hkind, hg⟩ := Database.graphGeneration_eq_some.mp hg
    exact h.graph.fitsColumns (Database.mem_objectList.mpr ⟨_, hget⟩) g
      (Database.graphGeneration_eq_some.mpr ⟨hkind, generation_mono quarantineStaged_sees hg⟩)
  obtain ⟨hrebuild, hrebuilt⟩ := hready.rebuild_ok hfits
  have hstays : ∃ row, (Database.markQuarantined id
      (Database.deleteEdges id (Database.deleteLocation id db))).objects[id]? = some row := by
    rw [hmark]
    exact ⟨_, BTreeMap.get_insert_self _ _ _⟩
  have hincident := hrebuilt.insertIncident hstays
  have hclosed := hincident.setIncidentReadOnly
  have hfitting : toSqlU64 (quarantineStaged s id next).revision = .ok next :=
    toSqlU64_eq_ok.mpr ⟨hnext, rfl⟩
  have hrevision := Database.setRevision_ok hclosed (quarantineStaged s id next).revision hnext
  simp only [SqliteStore.quarantineTransaction, SqliteStore.beginChecked, h.revision, ne_eq,
    not_true_eq_false, if_false, Except.ok_bind, Database.execute_eq_ok.mpr ⟨hunlocated, rfl⟩,
    Database.execute_eq_ok.mpr ⟨hunedged, rfl⟩, Database.execute_eq_ok.mpr ⟨hmarked, rfl⟩, hrebuild,
    hfitting, Database.execute_eq_ok.mpr ⟨hincident, rfl⟩,
    Database.execute_eq_ok.mpr ⟨hclosed, rfl⟩, hrevision]
  exact ⟨_, rfl⟩

end Transaction

/-! ### What a quarantine does -/

namespace SqliteStore

variable [Unicode] [Hashes] {store store' : SqliteStore} {s : MemorySnapshot}

/-- What a quarantine that commits leaves. -/
structure Quarantines (store : SqliteStore) (s : MemorySnapshot) (id : ObjectId)
    (store' : SqliteStore) : Prop where
  loads : Loads s
  known : s.objects.contains id = true ∨ id ∈ s.promised
  staged : ∃ next, store'.memory = quarantineStaged s id next ∧ s.revision < next
  mirrors : Mirrors store'.database store'.loose store'.memory
  closed : store'.database.incidentReadOnly = true
  orphans : store'.orphans = store.orphans

/-- **What `quarantine` does.** -/
theorem quarantine_cases {id : ObjectId} {r : Except StoreError Unit}
    (h : Mirrors store.database store.loose s) (hrun : quarantine id store = (r, store')) :
    ((∃ e, r = .error e) ∧ store'.database = store.database ∧ store'.loose = store.loose ∧
        (store'.orphans = store.orphans ∨ s.revision = maxSqliteInteger)) ∨
      (r = .ok () ∧ Quarantines store s id store') := by
  rw [quarantine] at hrun
  by_cases hloads : Loads s
  · rw [h.refresh_eq_ok.mpr ⟨hloads, rfl⟩] at hrun
    dsimp only at hrun
    cases hquarantine : MemoryStore.quarantine id s with
    | mk outcome staged =>
        rw [hquarantine] at hrun
        rcases RGit.quarantine_cases hquarantine with ⟨rfl, e, rfl⟩ | ⟨rfl, rfl, hid⟩ |
          ⟨next, rfl, hknown, hopen, hnext, rfl⟩
        · cases hrun
          exact .inl ⟨⟨e, rfl⟩, rfl, rfl, .inl rfl⟩
        · -- what is quarantined is neither stored nor promised
          obtain ⟨hnone, hopen⟩ := h.objects.quarantined_open hid
          rw [Std.ExtTreeSet.mem_iff_contains] at hopen
          rw [← BTreeMap.contains_eq_false_iff] at hnone
          simp [MemoryStore.quarantine, hnone, hopen] at hquarantine
        · have hlt := lt_of_checkedAdd hnext
          simp only [hlt.ne', if_false] at hrun
          cases hrun' : quarantineTransaction id s.revision (quarantineStaged s id next)
              store.database with
          | error e =>
              have hstuck : s.revision = maxSqliteInteger := by
                by_contra hne
                have hfits : next ≤ maxSqliteInteger := by
                  have hsucc := toNat_of_checkedAdd hnext
                  have hbounded := h.bounded
                  rw [UInt64.le_iff_toNat_le] at hbounded ⊢
                  rw [← UInt64.toNat_inj] at hne
                  omega
                obtain ⟨written, hok⟩ := h.quarantine_ok hknown hfits
                rw [hok] at hrun'
                cases hrun'
              have hrun' : quarantineTransaction id s.revision
                  { s with
                    quarantined := s.quarantined.insert id
                    revision := next
                    objects := s.objects.erase id
                    promised := s.promised.erase id } store.database = .error e := hrun'
              rw [hrun'] at hrun
              cases hrun
              exact .inl ⟨⟨e, rfl⟩, rfl, rfl, .inr hstuck⟩
          | ok written =>
              obtain ⟨db', t⟩ := written
              obtain ⟨hmirrors, rfl, hclosed⟩ := h.quarantineTransaction hknown hrun'
              have hrun' : quarantineTransaction id s.revision
                  { s with
                    quarantined := s.quarantined.insert id
                    revision := next
                    objects := s.objects.erase id
                    promised := s.promised.erase id } store.database =
                  .ok (db', quarantineStaged s id next) := hrun'
              simp only [hrun', finish, ne_eq, not_true_eq_false, if_false] at hrun
              cases hrun
              exact .inr ⟨rfl, hloads, hknown, ⟨next, rfl, hlt⟩, hmirrors, hclosed, rfl⟩
  · rw [h.refresh_error hloads] at hrun
    cases hrun
    exact .inl ⟨⟨_, rfl⟩, rfl, rfl, .inl rfl⟩

end SqliteStore

/-! ### Reachable stores -/

/-- What every reachable store keeps. -/
structure Tracks [Unicode] [Hashes] (store : SqliteStore) (s : MemorySnapshot) : Prop where
  mirrors : Mirrors store.database store.loose s
  orphans : store.orphans ≠ [] → s.revision = maxSqliteInteger
  apart : store.database.incidentReadOnly = false → LoadsApartFromLines s

section Reachable

variable [Unicode] [Hashes] {store store' : SqliteStore} {s : MemorySnapshot}

theorem Tracks.kept (h : Tracks store s) (hkept : SqliteStore.Kept store store') :
    Tracks store' s where
  mirrors := hkept.database ▸ h.mirrors.looseGrows hkept.loose
  orphans := hkept.orphans ▸ h.orphans
  apart := hkept.database ▸ h.apart

theorem Tracks.changed (h : Tracks store s) {updates : List RefUpdate}
    (hchanged : SqliteStore.Changed store s updates store') : Tracks store' store'.memory where
  mirrors := hchanged.mirrors
  orphans horphans := by
    have hstuck := h.orphans (hchanged.orphans ▸ horphans)
    have hlt := hchanged.revision
    rw [hstuck] at hlt
    exact absurd hchanged.mirrors.bounded (not_le.mpr hlt)
  apart _ := hchanged.apart

theorem Tracks.no_orphans (h : Tracks store s) {id : ObjectId}
    (hquarantine : SqliteStore.Quarantines store s id store') : store'.orphans = [] := by
  by_contra horphans
  have hstuck := h.orphans (hquarantine.orphans ▸ horphans)
  obtain ⟨next, hmemory, hlt⟩ := hquarantine.staged
  have hbounded := hquarantine.mirrors.bounded
  rw [hmemory] at hbounded
  rw [hstuck] at hlt
  exact absurd hbounded (not_le.mpr hlt)

theorem Tracks.quarantine (h : Tracks store s) {id : ObjectId}
    (hquarantine : SqliteStore.Quarantines store s id store') : Tracks store' store'.memory where
  mirrors := hquarantine.mirrors
  orphans horphans := absurd (h.no_orphans hquarantine) horphans
  apart hopen := by
    rw [hquarantine.closed] at hopen
    cases hopen

/-- One call. -/
theorem Tracks.call (h : Tracks store s) (c : StoreCall) : ∃ t, Tracks (store.call c).2 t := by
  cases hrun : store.call c with
  | mk r store' =>
      cases hc : c.isQuarantine with
      | false =>
          rcases SqliteStore.call_step h.mirrors hc hrun with ⟨hkept, -⟩ | hchanged
          · exact ⟨s, h.kept hkept⟩
          · exact ⟨_, h.changed hchanged⟩
      | true =>
          cases c with
          | quarantine id =>
              rcases SqliteStore.quarantine_cases h.mirrors hrun with
                ⟨-, hdatabase, hloose, horphans⟩ | ⟨-, hquarantine⟩
              · refine ⟨s, ⟨hdatabase ▸ hloose ▸ h.mirrors, fun hne => ?_, hdatabase ▸ h.apart⟩⟩
                rcases horphans with hsame | hstuck
                · exact h.orphans (hsame ▸ hne)
                · exact hstuck
              · exact ⟨_, h.quarantine hquarantine⟩
          | _ => cases hc

/-- Evidence is left over only at the last revision, where it cannot be
reconciled. -/
theorem Tracks.reopen_eq (h : Tracks store s) :
    SqliteStore.reopen store =
      if store.orphans = [] then SqliteStore.refresh store else .error .revisionOverflow := by
  obtain ⟨database, loose, memory, orphans⟩ := store
  rw [SqliteStore.reopen, SqliteStore.reconcileOrphanEvidence]
  cases orphans with
  | nil => rfl
  | cons id orphans =>
      have hstuck : database.revision = maxSqliteInteger :=
        h.mirrors.revision.trans (h.orphans (by simp))
      simp [List.foldlM_cons, SqliteStore.reconcileEvidence, hstuck]

theorem Tracks.reopen (h : Tracks store s) (hrun : SqliteStore.reopen store = .ok store') :
    Tracks store' s := by
  rw [h.reopen_eq] at hrun
  split at hrun
  · obtain ⟨-, rfl⟩ := h.mirrors.refresh_eq_ok.mp hrun
    exact ⟨h.mirrors, h.orphans, h.apart⟩
  · cases hrun

end Reachable

/-! ### What a reference reaches -/

section Holes

variable {objects : BTreeMap ObjectId StoredObject} {id : ObjectId} {roots : List ReferenceEdge}

end Holes

/-! ### Reading after a quarantine -/

section Reading

variable [Unicode] [Hashes] {store store' : SqliteStore} {s : MemorySnapshot} {id : ObjectId}

end Reading

/-! ### A promise and a marker -/

section Sample

local instance quarantineUnicode : Unicode := asciiUnicode

end Sample

end RGit
