/-
RGit/Store/Transactions.lean

The transactions keep the mirror.

Each writing call that succeeds leaves tables that mirror the snapshot it
installs: `Mirrors.putTransaction`, `Mirrors.markTransaction`,
`Mirrors.quarantineTransaction` and `Mirrors.publishTransaction`.
-/
import RGit.Store.GraphTables

namespace RGit

open MemoryStore

/-! ### Changing the snapshot -/

section Congruence

variable {db : Database} {s t : MemorySnapshot}

theorem MirrorsObjects.congr (h : MirrorsObjects db s) (hobjects : s.objects = t.objects)
    (hpromised : ∀ id, id ∈ s.promised ↔ id ∈ t.promised)
    (hquarantined : s.quarantined = t.quarantined) : MirrorsObjects db t where
  present := hobjects ▸ h.present
  promised id hid := h.promised id ((hpromised id).mpr hid)
  quarantined := hquarantined ▸ h.quarantined
  known id row hrow := by
    rw [← hobjects, ← hquarantined, ← hpromised]
    exact h.known id row hrow
  edges := hobjects ▸ h.edges
  locations := hobjects ▸ h.locations

theorem GuessedKinds.congr (h : GuessedKinds db s) (hobjects : s.objects = t.objects)
    (hpromised : ∀ id, id ∈ s.promised ↔ id ∈ t.promised) : GuessedKinds db t := by
  intro id row kind hid hrow hkind
  rw [← hobjects]
  exact h id row kind ((hpromised id).mpr hid) hrow hkind

end Congruence

/-! ### Indexing several objects -/

/-- The tables on the way to those of a staged snapshot. -/
structure PartlyIndexed (staged : MemorySnapshot) (db : Database) (s : MemorySnapshot) : Prop where
  objects : MirrorsObjects db s
  guessed : GuessedKinds db s
  free : ∀ id, id ∉ s.quarantined
  below : ∀ (id : ObjectId) (o : StoredObject), s.objects[id]? = some o →
    staged.objects[id]? = some o

section Indexing

variable {staged s : MemorySnapshot} {db : Database}

theorem PartlyIndexed.index (h : PartlyIndexed staged db s) {o : StoredObject}
    (ho : staged.objects[o.id]? = some o) (revision : UInt64) :
    PartlyIndexed staged (Database.indexed o revision db) (indexSnapshot s o) where
  objects := h.objects.index h.free o revision
  guessed := by
    intro id row kind hid hrow hkind
    rw [indexSnapshot_objects]
    -- an edge of the object itself, or one that was stored before
    have hown : Database.guessedKind o.references id = some kind →
        ∃ (source : ObjectId) (o' : StoredObject),
          (s.objects.insert o.id o)[source]? = some o' ∧
          ∃ edge ∈ o'.references, edge.id = id ∧ edge.expectedKind = some kind := fun hguess =>
      ⟨o.id, o, BTreeMap.get_insert_self _ _ _, Database.exists_of_guessedKind hguess⟩
    obtain ⟨hne, hnone⟩ : o.id ≠ id ∧ s.objects[id]? = none := by
      rcases mem_indexSnapshot_promised.mp hid with ⟨hne, hid⟩ | ⟨-, hne, hnone, -⟩
      · exact ⟨hne, h.objects.promised_open hid⟩
      · exact ⟨hne, hnone⟩
    cases hold : db.objects[id]? with
    | some row' =>
        rw [Database.get_indexed_some hne hold, Option.some.injEq] at hrow
        rw [← hrow] at hkind
        rcases Option.or_eq_some_iff.mp hkind with hkind | ⟨-, hkind⟩
        · rcases h.objects.known id row' hold with ⟨o', ho'⟩ | hpromised | hquarantined
          · rw [hnone] at ho'
            cases ho'
          · obtain ⟨source, o', ho', hedge⟩ := h.guessed id row' kind hpromised hold hkind
            refine ⟨source, o', BTreeMap.get_insert_eq_some_iff.mpr ?_, hedge⟩
            by_cases hsource : o.id = source
            · subst hsource
              have hsame := h.below _ _ ho'
              rw [ho, Option.some.injEq] at hsame
              exact .inl ⟨rfl, hsame⟩
            · exact .inr ⟨hsource, ho'⟩
          · exact absurd hquarantined (h.free id)
        · exact hown hkind
    | none =>
        rcases mem_indexSnapshot_promised.mp hid with ⟨-, hid⟩ | ⟨⟨edge, hedge, rfl⟩, -⟩
        · obtain ⟨row', hrow', -⟩ := h.objects.promised id hid
          rw [hold] at hrow'
          cases hrow'
        · rw [Database.get_indexed_target hedge hne hold, Option.some.injEq] at hrow
          rw [← hrow] at hkind
          exact hown hkind
  free id := by
    rw [indexSnapshot_quarantined]
    exact h.free id
  below id o' ho' := by
    rw [indexSnapshot_objects] at ho'
    rcases BTreeMap.get_insert_eq_some_iff.mp ho' with ⟨rfl, rfl⟩ | ⟨-, ho'⟩
    · exact ho
    · exact h.below id o' ho'

theorem PartlyIndexed.indexAll {objects : List StoredObject} (revision : UInt64) :
    ∀ {db : Database} {s : MemorySnapshot}, PartlyIndexed staged db s →
      (∀ o ∈ objects, staged.objects[o.id]? = some o) →
      PartlyIndexed staged (objects.foldl (fun db o => Database.indexed o revision db) db)
        (objects.foldl indexSnapshot s) := by
  induction objects with
  | nil => exact fun h _ => h
  | cons o objects ih =>
      intro db s h hobjects
      exact ih (h.index (hobjects o List.mem_cons_self) revision)
        fun o' ho' => hobjects o' (List.mem_cons_of_mem _ ho')

/-- Indexing leaves the other tables. -/
theorem foldl_indexed_others (objects : List StoredObject) (revision : UInt64) (db : Database) :
    let db' := objects.foldl (fun db o => Database.indexed o revision db) db
    db'.references = db.references ∧ db'.incidentReadOnly = db.incidentReadOnly ∧
      db'.incidents = db.incidents := by
  induction objects generalizing db with
  | nil => exact ⟨rfl, rfl, rfl⟩
  | cons o objects ih => exact ih (Database.indexed o revision db)

/-- The snapshot once several objects of a staged one are indexed. -/
theorem indexSnapshots {objects : List StoredObject} :
    ∀ {s : MemorySnapshot}, (∀ id, id ∉ s.quarantined) →
      (∀ id, id ∈ s.promised → s.objects[id]? = none) →
      (∀ (id : ObjectId) (o : StoredObject), s.objects[id]? = some o →
        staged.objects[id]? = some o) →
      (∀ o ∈ objects, staged.objects[o.id]? = some o) →
      let t := objects.foldl indexSnapshot s
      t.quarantined = s.quarantined ∧
      (∀ (id : ObjectId) (o : StoredObject), t.objects[id]? = some o ↔
        s.objects[id]? = some o ∨ o ∈ objects ∧ o.id = id) ∧
      ∀ id, id ∈ t.promised ↔
        (id ∈ s.promised ∨ ∃ o ∈ objects, ∃ edge ∈ o.references, edge.id = id) ∧
          t.objects[id]? = none := by
  induction objects with
  | nil =>
      intro s _ hopen _ _
      refine ⟨rfl, by simp, fun id => ?_⟩
      simpa using hopen id
  | cons o objects ih =>
      intro s hfree hopen hbelow hobjects
      have hown := hobjects o List.mem_cons_self
      have hget : ∀ (id : ObjectId) (o' : StoredObject),
          (indexSnapshot s o).objects[id]? = some o' ↔
            s.objects[id]? = some o' ∨ o' = o ∧ o.id = id := by
        intro id o'
        rw [indexSnapshot_objects, BTreeMap.get_insert_eq_some_iff]
        constructor
        · rintro (⟨rfl, rfl⟩ | ⟨-, ho'⟩)
          · exact .inr ⟨rfl, rfl⟩
          · exact .inl ho'
        · rintro (ho' | ⟨rfl, rfl⟩)
          · by_cases hid : o.id = id
            · subst hid
              have hsame := hbelow _ _ ho'
              rw [hown, Option.some.injEq] at hsame
              exact .inl ⟨rfl, hsame⟩
            · exact .inr ⟨hid, ho'⟩
          · exact .inl ⟨rfl, rfl⟩
      have hquarantined := indexSnapshot_quarantined s o
      obtain ⟨hquarantined', hget', hpromised'⟩ := ih (s := indexSnapshot s o)
        (fun id => hquarantined ▸ hfree id)
        (fun id hid => by
          rw [indexSnapshot_objects]
          rcases mem_indexSnapshot_promised.mp hid with ⟨hne, hid⟩ | ⟨-, hne, hnone, -⟩
          · exact (BTreeMap.get_insert_of_ne _ _ hne).trans (hopen id hid)
          · exact (BTreeMap.get_insert_of_ne _ _ hne).trans hnone)
        (fun id o' ho' => by
          rcases (hget id o').mp ho' with ho' | ⟨rfl, rfl⟩
          · exact hbelow id o' ho'
          · exact hown)
        fun o' ho' => hobjects o' (List.mem_cons_of_mem _ ho')
      refine ⟨hquarantined'.trans hquarantined, fun id o' => ?_, fun id => ?_⟩
      · rw [List.foldl_cons, hget', hget, List.mem_cons, or_assoc]
        constructor
        · rintro (ho' | ⟨rfl, rfl⟩ | ⟨ho', hid⟩)
          · exact .inl ho'
          · exact .inr ⟨.inl rfl, rfl⟩
          · exact .inr ⟨.inr ho', hid⟩
        · rintro (ho' | ⟨rfl | ho', hid⟩)
          · exact .inl ho'
          · exact .inr (.inl ⟨rfl, hid⟩)
          · exact .inr (.inr ⟨ho', hid⟩)
      · rw [List.foldl_cons, hpromised', mem_indexSnapshot_promised]
        refine and_congr_left fun hnone => ?_
        -- what the loop left without an object had none before
        have hnone' : o.id ≠ id ∧ s.objects[id]? = none := by
          constructor
          · rintro rfl
            have hstored := (hget' o.id o).mpr (.inl ((hget o.id o).mpr (.inr ⟨rfl, rfl⟩)))
            rw [hnone] at hstored
            cases hstored
          · cases hold : s.objects[id]? with
            | none => rfl
            | some o' =>
                have hstored := (hget' id o').mpr (.inl ((hget id o').mpr (.inl hold)))
                rw [hnone] at hstored
                cases hstored
        simp only [List.mem_cons, exists_eq_or_imp, hnone', hfree id, ne_eq, not_false_eq_true,
          true_and, and_true]
        exact or_assoc

end Indexing

/-! ### Incidents -/

theorem verifyIncidents_eq_ok {db : Database} :
    SqliteStore.verifyIncidents db = .ok () ↔
      (∀ id ∈ db.incidents, ∃ row, db.objects[id]? = some row ∧ row.presence = .quarantined) ∧
        db.incidentReadOnly = !db.incidents.isEmpty := by
  simp only [SqliteStore.verifyIncidents, Except.ite_error_eq_ok, Bool.not_eq_true, ne_eq,
    not_not, and_true, List.any_eq_false, decide_not, Bool.not_eq_false', decide_eq_true_eq,
    Option.map_eq_some_iff]

theorem verifyIncidents_open {db : Database} (h : SqliteStore.verifyIncidents db = .ok ())
    (hopen : db.incidentReadOnly = false) : db.incidents = [] := by
  obtain ⟨-, hflag⟩ := verifyIncidents_eq_ok.mp h
  rw [hopen] at hflag
  simpa using hflag

/-! ### Putting an object -/

section Transactions

variable [Unicode] [Hashes] {db db' : Database} {loose loose' : LooseStore}
  {s staged t : MemorySnapshot}

theorem Mirrors.looseGrows (h : Mirrors db loose s) (hgrows : loose.Grows loose') :
    Mirrors db loose' s :=
  { h with records := fun id o ho => hgrows id _ (h.records id o ho) }

/-- What a `put` or a publication has staged, before its transaction. -/
structure Stages (s staged : MemorySnapshot) (loose : LooseStore) : Prop where
  below : ∀ (id : ObjectId) (o : StoredObject), s.objects[id]? = some o →
    staged.objects[id]? = some o
  quarantined : staged.quarantined = s.quarantined
  promised : ∀ id, id ∈ staged.promised ↔ id ∈ s.promised ∧ staged.objects[id]? = none
  records : ∀ (id : ObjectId) (o : StoredObject), staged.objects[id]? = some o →
    loose.records[id]? = some (LooseStore.recordOf o)
  decoded : ∀ (id : ObjectId) (o : StoredObject), staged.objects[id]? = some o →
    decode id o.bytes = .ok o

theorem Stages.id_eq (h : Stages s staged loose) {id : ObjectId} {o : StoredObject}
    (ho : staged.objects[id]? = some o) : o.id = id :=
  (MemoryStore.decode_eq_ok.mp (h.decoded id o ho)).2.2.2.1

/-- The tables after the objects of a staged snapshot are indexed, the graph
rebuilt, the references written and the revision set. -/
theorem Mirrors.indexStaged (h : Mirrors db loose s) (hopen : db.incidentReadOnly = false)
    (hstages : Stages s staged loose') (objects : List StoredObject) (revision : UInt64)
    (rows : List GraphRow) (references : BTreeMap ReferenceKey ReferenceRow)
    (hobjects : ∀ o ∈ objects, staged.objects[o.id]? = some o)
    (horigin : ∀ (id : ObjectId) (o : StoredObject), staged.objects[id]? = some o →
      s.objects[id]? = some o ∨ o ∈ objects)
    (ht : t.objects = staged.objects) (htq : t.quarantined = staged.quarantined)
    (hpromised : ∀ id, id ∈ t.promised ↔ id ∈ staged.promised ∨
      (∃ o ∈ objects, ∃ edge ∈ o.references, edge.id = id) ∧ staged.objects[id]? = none)
    (hdb : db' = { (objects.foldl (fun db o => Database.indexed o revision db) db) with
      graph := rows, references := references, revision := t.revision })
    (hgraph : MirrorsGraph db' t) (hbounded : t.revision ≤ maxSqliteInteger)
    (hreferences : ∀ key : ReferenceKey,
      references[key]? = (t.references[key]?).map (ReferenceRow.ofState key))
    (hconsistent : db'.Consistent) : Mirrors db' loose' t := by
  obtain ⟨hfree, hguessed⟩ := h.writable hopen
  have hstart : PartlyIndexed staged db s := ⟨h.objects, hguessed, hfree, hstages.below⟩
  have hindexed := hstart.indexAll revision hobjects
  obtain ⟨hquarantined', hget, hpromised'⟩ :=
    indexSnapshots hfree (fun id => h.objects.promised_open) hstages.below hobjects
  -- the snapshot that the loop stands for is the staged one
  have hsame : (objects.foldl indexSnapshot s).objects = t.objects := by
    rw [ht]
    refine Std.ExtTreeMap.ext_getElem? fun id => Option.ext fun o => ?_
    rw [hget]
    constructor
    · rintro (ho | ⟨ho, rfl⟩)
      · exact hstages.below id o ho
      · exact hobjects o ho
    · intro ho
      rcases horigin id o ho with hold | hmem
      · exact .inl hold
      · exact .inr ⟨hmem, hstages.id_eq ho⟩
  have hsamePromised : ∀ id, id ∈ (objects.foldl indexSnapshot s).promised ↔ id ∈ t.promised := by
    intro id
    rw [hpromised', hpromised, hsame, ht, hstages.promised]
    tauto
  have hsameQuarantined : (objects.foldl indexSnapshot s).quarantined = t.quarantined := by
    rw [hquarantined', htq, hstages.quarantined]
  obtain ⟨-, hflag, hincidents⟩ := foldl_indexed_others objects revision db
  subst hdb
  have hobjects' := hindexed.objects.congr hsame hsamePromised hsameQuarantined
  refine ⟨rfl, hbounded, ⟨hobjects'.present, hobjects'.promised, hobjects'.quarantined,
    hobjects'.known, hobjects'.edges, hobjects'.locations⟩, hgraph, hreferences,
    ht ▸ hstages.records, ht ▸ hstages.decoded, ?_, fun _ => ⟨?_, ?_⟩, hconsistent⟩
  · rw [verifyIncidents_eq_ok]
    simp only [hincidents, hflag, verifyIncidents_open h.incidents hopen, hopen]
    simp
  · exact hsameQuarantined ▸ hindexed.free
  · exact hindexed.guessed.congr hsame hsamePromised

/-- The snapshot that `MemoryStore::put` stages. -/
def putStaged (s : MemorySnapshot) (id : ObjectId) (o : StoredObject) (next : UInt64) :
    MemorySnapshot :=
  { s with
    objects := s.objects.insert id o
    promised := s.promised.erase id
    revision := next }

theorem Mirrors.stages_put (h : Mirrors db loose s) {id : ObjectId} {b : Bytes} {o : StoredObject}
    (hdecode : decode id b = .ok o) (hnone : s.objects[id]? = none) (next : UInt64)
    (hgrows : loose.Grows loose') (hrecord : loose'.records[id]? = some (LooseStore.recordOf o)) :
    Stages s (putStaged s id o next) loose' where
  below id' o' ho' := by
    have hne : id ≠ id' := by
      rintro rfl
      rw [hnone] at ho'
      cases ho'
    exact (BTreeMap.get_insert_of_ne _ _ hne).trans ho'
  quarantined := rfl
  promised id' := by
    simp only [putStaged, BTreeSet.mem_erase_iff]
    constructor
    · rintro ⟨hne, hid'⟩
      exact ⟨hid', (BTreeMap.get_insert_of_ne _ _ hne).trans (h.objects.promised_open hid')⟩
    · rintro ⟨hid', hget⟩
      refine ⟨?_, hid'⟩
      rintro rfl
      rw [BTreeMap.get_insert_self] at hget
      cases hget
  records id' o' ho' := by
    rcases BTreeMap.get_insert_eq_some_iff.mp ho' with ⟨rfl, rfl⟩ | ⟨-, ho'⟩
    · exact hrecord
    · exact hgrows _ _ (h.records id' o' ho')
  decoded id' o' ho' := by
    rcases BTreeMap.get_insert_eq_some_iff.mp ho' with ⟨rfl, rfl⟩ | ⟨-, ho'⟩
    · exact decode_bytes hdecode
    · exact h.decoded id' o' ho'

/-- The transaction of `put`, in one statement. -/
theorem putTransaction_eq_ok {id : ObjectId} {base : UInt64}
    (h : SqliteStore.putTransaction id base staged loose db = .ok (db', t)) :
    ∃ o, visibleObject staged id = .ok o ∧ t = SqliteStore.addEdgePromises staged o ∧
      base + 1 ≤ maxSqliteInteger ∧ t.revision ≤ maxSqliteInteger ∧
      db' = { (Database.indexed o (base + 1) db) with
        graph := Database.graphRows t, revision := t.revision } ∧
      MirrorsGraph db' t ∧ db'.Consistent := by
  simp only [SqliteStore.putTransaction, Except.bind_eq_ok, Except.ok.injEq, Prod.mk.injEq] at h
  obtain ⟨o, ho, -, -, -, -, db₁, hindex, db₂, hrebuild, db₃, hrevision, rfl, rfl⟩ := h
  obtain ⟨hbase, rfl, -⟩ := Database.indexObject_eq_ok hindex
  have hgraph := mirrorsGraph_rebuild hrebuild
  obtain ⟨-, -, rfl⟩ := Database.rebuildGraphIndexes_eq_ok.mp hrebuild
  obtain ⟨hbounded, rfl, hconsistent⟩ := Database.setRevision_eq_ok hrevision
  exact ⟨o, ho, rfl, hbase, hbounded, rfl, hgraph, hconsistent⟩

/-- **A `put` that commits leaves the mirror of what it installs.** -/
theorem Mirrors.putTransaction (h : Mirrors db loose s) (hopen : db.incidentReadOnly = false)
    {id : ObjectId} {b : Bytes} {o : StoredObject} {base next : UInt64}
    (hdecode : decode id b = .ok o) (hnone : s.objects[id]? = none)
    (hgrows : loose.Grows loose') (hrecord : loose'.records[id]? = some (LooseStore.recordOf o))
    (hrun : SqliteStore.putTransaction id base (putStaged s id o next) loose' db = .ok (db', t)) :
    Mirrors db' loose' t ∧ db'.incidentReadOnly = db.incidentReadOnly ∧
      t.objects = s.objects.insert id o ∧ t.references = s.references ∧ t.revision = next := by
  obtain ⟨o', ho', rfl, -, hbounded, rfl, hgraph, hconsistent⟩ := putTransaction_eq_ok hrun
  have hid : o.id = id := (MemoryStore.decode_eq_ok.mp hdecode).2.2.2.1
  obtain rfl : o = o' := by
    have hget := (visibleObject_eq_ok.mp ho').2
    simp only [putStaged, BTreeMap.get_insert_self, Option.some.injEq] at hget
    exact hget
  obtain ⟨promised, hpromises, hmem⟩ := addEdgePromises_eq (putStaged s id o next) o
  have hstages := h.stages_put hdecode hnone next hgrows hrecord
  rw [hpromises] at hgraph hbounded hconsistent ⊢
  refine ⟨?_, rfl, rfl, rfl, rfl⟩
  refine h.indexStaged hopen hstages [o] (base + 1) (Database.graphRows _) db.references ?_ ?_
    rfl rfl ?_ rfl hgraph hbounded h.references hconsistent
  · simp only [List.mem_singleton, forall_eq, hid]
    exact BTreeMap.get_insert_self _ _ _
  · intro id' o' ho'
    rcases BTreeMap.get_insert_eq_some_iff.mp ho' with ⟨rfl, rfl⟩ | ⟨-, ho'⟩
    · exact .inr List.mem_cons_self
    · exact .inl ho'
  · intro id'
    rw [hmem]
    simp [putStaged, (h.writable hopen).1 id']

/-! ### Promising an object -/

/-- The snapshot that `MemoryStore::mark_promised` stages. -/
def markStaged (s : MemorySnapshot) (id : ObjectId) (next : UInt64) : MemorySnapshot :=
  { s with promised := s.promised.insert id, revision := next }

omit [Unicode] [Hashes] in
theorem MirrorsGraph.congr (h : MirrorsGraph db s) (hobjects : s.objects = t.objects)
    (hquarantined : s.quarantined = t.quarantined) : MirrorsGraph db t := by
  have hrows : Database.expectedRows s = Database.expectedRows t :=
    funext fun o => expectedRows_congr (.of_eq hobjects hquarantined)
      (.of_eq hobjects.symm hquarantined.symm) o
  rwa [MirrorsGraph, ← hobjects, ← hrows]

theorem Mirrors.row_none (h : Mirrors db loose s) (hopen : db.incidentReadOnly = false)
    {id : ObjectId} (hnone : s.objects[id]? = none) (hnew : id ∉ s.promised) :
    db.objects[id]? = none := by
  cases hrow : db.objects[id]? with
  | none => rfl
  | some row =>
      rcases h.objects.known id row hrow with ⟨o, ho⟩ | hid | hid
      · rw [hnone] at ho
        cases ho
      · exact absurd hid hnew
      · exact absurd hid ((h.writable hopen).1 id)

omit [Unicode] [Hashes] in
theorem markTransaction_eq_ok {id : ObjectId} {base : UInt64}
    (hrun : SqliteStore.markTransaction id base staged db = .ok (db', t)) :
    t = staged ∧ staged.revision ≤ maxSqliteInteger ∧
      db' = { (Database.insertPromised id staged.revision db) with revision := staged.revision } ∧
      db'.Consistent := by
  simp only [SqliteStore.markTransaction, Except.bind_eq_ok, toSqlU64_eq_ok,
    Database.execute_eq_ok, Except.ok.injEq, Prod.mk.injEq] at hrun
  obtain ⟨-, -, _, ⟨hbounded, rfl⟩, _, ⟨-, rfl⟩, _, hrevision, rfl, rfl⟩ := hrun
  obtain ⟨-, rfl, hconsistent⟩ := Database.setRevision_eq_ok hrevision
  exact ⟨rfl, hbounded, rfl, hconsistent⟩

/-- The inventory with one more promise. -/
theorem Mirrors.insertPromised (h : Mirrors db loose s) {id : ObjectId}
    (hnone : db.objects[id]? = none) (next : UInt64) :
    MirrorsObjects
      { db with objects := db.objects.insert id ⟨none, none, .promised, none, next⟩ }
      (markStaged s id next) where
  present id' o ho := by
    obtain ⟨row, hrow, hmirrors⟩ := h.objects.present id' o ho
    have hne : id ≠ id' := by
      rintro rfl
      rw [hnone] at hrow
      cases hrow
    exact ⟨row, (BTreeMap.get_insert_of_ne _ _ hne).trans hrow, hmirrors⟩
  promised id' hid' := by
    by_cases hne : id = id'
    · subst hne
      exact ⟨_, BTreeMap.get_insert_self _ _ _, rfl⟩
    · obtain ⟨row, hrow, hpromised⟩ := h.objects.promised id'
        ((BTreeSet.mem_insert_iff.mp hid').resolve_left hne)
      exact ⟨row, (BTreeMap.get_insert_of_ne _ _ hne).trans hrow, hpromised⟩
  quarantined id' hid' := by
    obtain ⟨row, hrow, hquarantined⟩ := h.objects.quarantined id' hid'
    have hne : id ≠ id' := by
      rintro rfl
      rw [hnone] at hrow
      cases hrow
    exact ⟨row, (BTreeMap.get_insert_of_ne _ _ hne).trans hrow, hquarantined⟩
  known id' row hrow := by
    rcases BTreeMap.get_insert_eq_some_iff.mp hrow with ⟨rfl, -⟩ | ⟨-, hrow⟩
    · exact .inr (.inl (BTreeSet.mem_insert_iff.mpr (.inl rfl)))
    · rcases h.objects.known id' row hrow with hid' | hid' | hid'
      · exact .inl hid'
      · exact .inr (.inl (BTreeSet.mem_insert_iff.mpr (.inr hid')))
      · exact .inr (.inr hid')
  edges := h.objects.edges
  locations := h.objects.locations

/-- **A promise that commits leaves the mirror of what it installs.** -/
theorem Mirrors.markTransaction (h : Mirrors db loose s) (hopen : db.incidentReadOnly = false)
    {id : ObjectId} {base next : UInt64} (hnone : s.objects[id]? = none) (hnew : id ∉ s.promised)
    (hrun : SqliteStore.markTransaction id base (markStaged s id next) db = .ok (db', t)) :
    Mirrors db' loose t ∧ db'.incidentReadOnly = db.incidentReadOnly ∧
      t = markStaged s id next := by
  obtain ⟨rfl, hbounded, rfl, hconsistent⟩ := markTransaction_eq_ok hrun
  have hrow := h.row_none hopen hnone hnew
  have hinsert : Database.insertPromised id next db =
      { db with objects := db.objects.insert id ⟨none, none, .promised, none, next⟩ } := by
    rw [Database.insertPromised, hrow]
  have hobjects := h.insertPromised hrow next
  simp only [markStaged, hinsert] at hconsistent ⊢
  refine ⟨?_, trivial, trivial⟩
  refine ⟨rfl, hbounded, ⟨hobjects.present, hobjects.promised, hobjects.quarantined,
    hobjects.known, hobjects.edges, hobjects.locations⟩, ?_, h.references, h.records, h.decoded,
    ?_, fun _ => ⟨(h.writable hopen).1, ?_⟩, hconsistent⟩
  · exact h.graph.congr rfl rfl
  · rw [verifyIncidents_eq_ok]
    simp [verifyIncidents_open h.incidents hopen, hopen]
  · intro id' row kind hid' hrow' hkind
    rcases BTreeMap.get_insert_eq_some_iff.mp hrow' with ⟨-, rfl⟩ | ⟨hne, hrow'⟩
    · cases hkind
    · exact (h.writable hopen).2 id' row kind
        ((BTreeSet.mem_insert_iff.mp hid').resolve_left hne) hrow' hkind

/-! ### Quarantining an object -/

/-- The snapshot that `quarantine` stages. -/
def quarantineStaged (s : MemorySnapshot) (id : ObjectId) (next : UInt64) : MemorySnapshot :=
  { s with
    objects := s.objects.erase id
    promised := s.promised.erase id
    quarantined := s.quarantined.insert id
    revision := next }

omit [Unicode] [Hashes] in
theorem quarantineTransaction_eq_ok {id : ObjectId} {base : UInt64}
    (hrun : SqliteStore.quarantineTransaction id base staged db = .ok (db', t)) :
    t = staged ∧ staged.revision ≤ maxSqliteInteger ∧
      db' = { (Database.markQuarantined id
          (Database.deleteEdges id (Database.deleteLocation id db))) with
        graph := Database.graphRows staged, incidents := db.incidents ++ [id],
        incidentReadOnly := true, revision := staged.revision } ∧
      MirrorsGraph db' staged ∧ db'.Consistent := by
  simp only [SqliteStore.quarantineTransaction, Except.bind_eq_ok, toSqlU64_eq_ok,
    Database.execute_eq_ok, Except.ok.injEq, Prod.mk.injEq] at hrun
  obtain ⟨-, -, _, ⟨-, rfl⟩, _, ⟨-, rfl⟩, _, ⟨-, rfl⟩, db₁, hrebuild, _, ⟨hbounded, rfl⟩, _,
    ⟨-, rfl⟩, _, ⟨-, rfl⟩, _, hrevision, rfl, rfl⟩ := hrun
  have hgraph := mirrorsGraph_rebuild hrebuild
  obtain ⟨-, -, rfl⟩ := Database.rebuildGraphIndexes_eq_ok.mp hrebuild
  obtain ⟨-, rfl, hconsistent⟩ := Database.setRevision_eq_ok hrevision
  have hsame : (Database.markQuarantined id
      (Database.deleteEdges id (Database.deleteLocation id db))).incidents = db.incidents := by
    rw [Database.markQuarantined]
    split <;> rfl
  refine ⟨rfl, hbounded, ?_, hgraph, hconsistent⟩
  rw [← hsame]
  rfl

omit [Unicode] [Hashes] in
/-- The inventory with one object quarantined. -/
theorem MirrorsObjects.quarantine (h : MirrorsObjects db s) (id : ObjectId) (row : ObjectRow)
    (next : UInt64) :
    MirrorsObjects
      { db with
        objects := db.objects.insert id { row with presence := .quarantined, canonicalLength := none }
        edges := db.edges.erase id
        locations := db.locations.erase id }
      (quarantineStaged s id next) where
  present id' o ho := by
    obtain ⟨hne, ho⟩ := BTreeMap.get_erase_eq_some_iff.mp ho
    obtain ⟨row', hrow', hmirrors⟩ := h.present id' o ho
    exact ⟨row', (BTreeMap.get_insert_of_ne _ _ hne).trans hrow', hmirrors⟩
  promised id' hid' := by
    obtain ⟨hne, hid'⟩ := BTreeSet.mem_erase_iff.mp hid'
    obtain ⟨row', hrow', hpromised⟩ := h.promised id' hid'
    exact ⟨row', (BTreeMap.get_insert_of_ne _ _ hne).trans hrow', hpromised⟩
  quarantined id' hid' := by
    by_cases hne : id = id'
    · subst hne
      exact ⟨_, BTreeMap.get_insert_self _ _ _, rfl⟩
    · obtain ⟨row', hrow', hquarantined⟩ :=
        h.quarantined id' ((BTreeSet.mem_insert_iff.mp hid').resolve_left hne)
      exact ⟨row', (BTreeMap.get_insert_of_ne _ _ hne).trans hrow', hquarantined⟩
  known id' row' hrow' := by
    by_cases hne : id = id'
    · exact .inr (.inr (BTreeSet.mem_insert_iff.mpr (.inl hne)))
    · have hold : db.objects[id']? = some row' :=
        (BTreeMap.get_insert_of_ne _ _ hne).symm.trans hrow'
      rcases h.known id' row' hold with ⟨o, ho⟩ | hid' | hid'
      · exact .inl ⟨o, BTreeMap.get_erase_eq_some_iff.mpr ⟨hne, ho⟩⟩
      · exact .inr (.inl (BTreeSet.mem_erase_iff.mpr ⟨hne, hid'⟩))
      · exact .inr (.inr (BTreeSet.mem_insert_iff.mpr (.inr hid')))
  edges id' := by
    simp only [Database.edgesOf, quarantineStaged, Std.ExtTreeMap.getElem?_erase]
    split
    · rfl
    · exact h.edges id'
  locations id' := by
    simp only [quarantineStaged, BTreeSet.mem_erase_iff, BTreeMap.get_erase_eq_some_iff, h.locations,
      exists_and_left]

theorem Mirrors.quarantine_row (h : Mirrors db loose s) {id : ObjectId}
    (hknown : s.objects.contains id = true ∨ id ∈ s.promised) :
    ∃ row, db.objects[id]? = some row := by
  rcases hknown with hid | hid
  · obtain ⟨o, ho⟩ := BTreeMap.contains_iff_get.mp hid
    obtain ⟨row, hrow, -⟩ := h.objects.present id o ho
    exact ⟨row, hrow⟩
  · obtain ⟨row, hrow, -⟩ := h.objects.promised id hid
    exact ⟨row, hrow⟩

/-- **A quarantine that commits leaves the mirror of what it installs.** -/
theorem Mirrors.quarantineTransaction (h : Mirrors db loose s) {id : ObjectId}
    {base next : UInt64} (hknown : s.objects.contains id = true ∨ id ∈ s.promised)
    (hrun : SqliteStore.quarantineTransaction id base (quarantineStaged s id next) db =
      .ok (db', t)) :
    Mirrors db' loose t ∧ t = quarantineStaged s id next ∧ db'.incidentReadOnly = true := by
  obtain ⟨rfl, hbounded, rfl, hgraph, hconsistent⟩ := quarantineTransaction_eq_ok hrun
  refine ⟨?_, rfl, rfl⟩
  obtain ⟨row, hrow⟩ := h.quarantine_row hknown
  have hmark : Database.markQuarantined id (Database.deleteEdges id (Database.deleteLocation id db)) =
      { db with
        objects := db.objects.insert id { row with presence := .quarantined, canonicalLength := none }
        edges := db.edges.erase id
        locations := db.locations.erase id } := by
    simp only [Database.markQuarantined, Database.deleteEdges, Database.deleteLocation, hrow]
  have hobjects := h.objects.quarantine id row next
  simp only [hmark] at hconsistent hgraph ⊢
  refine ⟨rfl, hbounded, ⟨hobjects.present, hobjects.promised, hobjects.quarantined,
    hobjects.known, hobjects.edges, hobjects.locations⟩, hgraph, h.references,
    fun id' o ho => h.records id' o (BTreeMap.get_erase_eq_some_iff.mp ho).2,
    fun id' o ho => h.decoded id' o (BTreeMap.get_erase_eq_some_iff.mp ho).2, ?_, by simp, hconsistent⟩
  rw [verifyIncidents_eq_ok]
  refine ⟨fun id' hid' => ?_, by simp⟩
  by_cases hne : id = id'
  · subst hne
    exact ⟨_, BTreeMap.get_insert_self _ _ _, rfl⟩
  · have hold : id' ∈ db.incidents := by
      rcases List.mem_append.mp hid' with hid' | hid'
      · exact hid'
      · exact absurd (List.mem_singleton.mp hid').symm hne
    obtain ⟨row', hrow', hquarantined⟩ := (verifyIncidents_eq_ok.mp h.incidents).1 id' hold
    exact ⟨row', (BTreeMap.get_insert_of_ne _ _ hne).trans hrow', hquarantined⟩

/-! ### Publishing -/

/-- The bytes of every candidate are durable. -/
theorem putLoose_eq_ok {candidates : List PublicationObject} :
    ∀ {loose : LooseStore}, SqliteStore.putLoose candidates loose = (.ok (), loose') →
      loose.Grows loose' ∧ ∀ candidate ∈ candidates, ∀ o,
        decode candidate.id candidate.bytes = .ok o →
        loose'.records[candidate.id]? = some (LooseStore.recordOf o) := by
  induction candidates with
  | nil =>
      intro loose h
      cases h
      exact ⟨.refl _, by simp⟩
  | cons candidate candidates ih =>
      intro loose h
      rw [SqliteStore.putLoose] at h
      have hgrows := LooseStore.put_grows candidate.id candidate.bytes loose
      cases hput : loose.put candidate.id candidate.bytes with
      | mk r loose₁ =>
          rw [hput] at h hgrows
          cases r with
          | error e => cases h
          | ok outcome =>
              obtain ⟨hrest, hrecords⟩ := ih h
              refine ⟨hgrows.trans hrest, fun c hc o ho => ?_⟩
              rcases List.mem_cons.mp hc with rfl | hc
              · exact hrest _ _ (LooseStore.put_records ho hput).2
              · exact hrecords c hc o ho

theorem Mirrors.stages_publish (h : Mirrors db loose s) {publication : Publication}
    {p : StagedPublication} (hbegin : beginPublish publication s = .ok p)
    (hloose : SqliteStore.putLoose publication.objects loose = (.ok (), loose')) :
    Stages s { p.staged with revision := p.nextRevision } loose' := by
  obtain ⟨-, -, -, hstage⟩ := beginPublish_eq_ok.mp hbegin
  obtain ⟨staged, hobjects, -, -, hstaged⟩ := stage_eq_ok.mp hstage
  have hstages := StagesObjects.of_loop hobjects
  obtain ⟨hgrows, hrecords⟩ := putLoose_eq_ok hloose
  have hsame : p.staged.objects = staged.objects ∧ p.staged.promised = staged.promised ∧
      p.staged.quarantined = staged.quarantined := by
    rw [hstaged]
    exact ⟨rfl, rfl, rfl⟩
  obtain ⟨hobjectsEq, hpromisedEq, hquarantinedEq⟩ := hsame
  refine ⟨?_, ?_, fun id => ?_, fun id o ho => ?_, fun id o ho => ?_⟩
  · exact hobjectsEq ▸ hstages.grows
  · exact hquarantinedEq.trans hstages.quarantined
  · change id ∈ p.staged.promised ↔ id ∈ s.promised ∧ p.staged.objects[id]? = none
    rw [hpromisedEq, hobjectsEq]
    constructor
    · intro hid
      have hold := hstages.promised_old id hid
      exact ⟨hold, (hstages.promised_open id hid).trans (h.objects.promised_open hold)⟩
    · rintro ⟨hid, hnone⟩
      rcases hstages.promised_kept id hid with hid | hstored
      · exact hid
      · obtain ⟨o, ho⟩ := BTreeMap.contains_iff_get.mp hstored
        rw [hnone] at ho
        cases ho
  · change p.staged.objects[id]? = some o at ho
    rw [hobjectsEq] at ho
    rcases stageObjects_origin hobjects ho with hold | ⟨candidate, hmem, rfl, hdecode⟩
    · exact hgrows _ _ (h.records id o hold)
    · exact hrecords candidate hmem o hdecode
  · change p.staged.objects[id]? = some o at ho
    rw [hobjectsEq] at ho
    rcases hstages.decoded id o ho with hold | hdecode
    · exact h.decoded id o hold
    · exact hdecode

omit [Unicode] [Hashes] in
/-- The promises of a publication are for the edges of its objects. -/
theorem promiseEdges_eq_ok {candidates : List PublicationObject}
    (h : SqliteStore.promiseEdges candidates staged = .ok t) :
    ∃ objects, List.Forall₂ (fun (candidate : PublicationObject) o =>
        visibleObject staged candidate.id = .ok o) candidates objects ∧
      ∃ promised, t = { staged with promised := promised } ∧
        ∀ id, id ∈ promised ↔ id ∈ staged.promised ∨
          (∃ o ∈ objects, ∃ edge ∈ o.references, edge.id = id) ∧ staged.objects[id]? = none ∧
            id ∉ staged.quarantined := by
  have hloop : ∀ {candidates : List PublicationObject} {u : MemorySnapshot},
      u.objects = staged.objects → u.quarantined = staged.quarantined →
      candidates.foldlM (fun s candidate => do
        .ok (SqliteStore.addEdgePromises s (← visibleObject staged candidate.id))) u = .ok t →
      ∃ objects, List.Forall₂ (fun (candidate : PublicationObject) o =>
          visibleObject staged candidate.id = .ok o) candidates objects ∧
        ∃ promised, t = { u with promised := promised } ∧
          ∀ id, id ∈ promised ↔ id ∈ u.promised ∨
            (∃ o ∈ objects, ∃ edge ∈ o.references, edge.id = id) ∧ staged.objects[id]? = none ∧
              id ∉ staged.quarantined := by
    intro candidates
    induction candidates with
    | nil =>
        intro u _ _ hrun
        obtain rfl : u = t := Except.ok.inj hrun
        exact ⟨[], .nil, u.promised, rfl, by simp⟩
    | cons candidate candidates ih =>
        intro u hobjects hquarantined hrun
        simp only [List.foldlM_cons, Except.bind_eq_ok, Except.ok.injEq] at hrun
        obtain ⟨_, ⟨o, ho, rfl⟩, hrun⟩ := hrun
        obtain ⟨promised, hpromises, hmem⟩ := addEdgePromises_eq u o
        rw [hpromises] at hrun
        obtain ⟨objects, hfound, promised', rfl, hmem'⟩ :=
          ih (u := { u with promised := promised }) hobjects hquarantined hrun
        refine ⟨o :: objects, .cons ho hfound, promised', rfl, fun id => ?_⟩
        rw [hmem', hmem, hobjects, hquarantined]
        simp only [List.mem_cons, exists_eq_or_imp]
        rw [or_and_right, or_assoc]
  exact hloop rfl rfl h

omit [Unicode] [Hashes] in
theorem eq_add_one_of_checkedAdd {a b : UInt64} (h : checkedAdd a 1 = some b) : b = a + 1 := by
  simp only [checkedAdd] at h
  split at h
  · exact (Option.some.inj h).symm
  · cases h

omit [Unicode] [Hashes] in
/-- What a compare-and-swap of a mirrored row writes. -/
theorem writeReferenceCas_eq_ok {publication : Publication} {update : RefUpdate}
    {state : ReferenceState}
    (hrow : db.references[update.key]? =
      (s.references[update.key]?).map (ReferenceRow.ofState update.key))
    (hexpected : checkExpected s update = .ok ())
    (hnext : nextState s publication update = .ok state)
    (hrun : db.writeReferenceCas update state publication.operation = .ok db') :
    db' = Database.insertReference update.key (ReferenceRow.ofState update.key state) db := by
  have hget := checkExpected_eq_ok.mp hexpected
  obtain ⟨-, hoperation, hgeneration⟩ := nextState_eq_ok.mp hnext
  rw [Database.writeReferenceCas] at hrun
  cases hcase : update.expected with
  | absent =>
      simp only [hcase] at hget hrun
      rw [hget] at hrow hgeneration
      simp only [hrow, Option.map_none, Database.execute_eq_ok] at hrun
      obtain ⟨-, rfl⟩ := hrun
      rw [ReferenceRow.ofState, hgeneration, hoperation]
  | exact expected =>
      simp only [hcase] at hget hrun
      rw [hget] at hrow hgeneration
      simp only [hrow, Option.map_some, Except.bind_eq_ok, Except.ite_else_error_eq_ok,
        Database.execute_eq_ok] at hrun
      obtain ⟨_, -, -, -, rfl⟩ := hrun
      rw [ReferenceRow.ofState, ReferenceRow.ofState, eq_add_one_of_checkedAdd hgeneration,
        hoperation]

omit [Unicode] [Hashes] in
/-- The references once every update is written. -/
theorem writeReferences_eq_ok {publication : Publication} {updates : List RefUpdate}
    {results : List ReferenceState}
    (hresults : List.Forall₂ (fun update state => nextState s publication update = .ok state)
      updates results) :
    ∀ {db : Database}, (updates.map (·.key)).Nodup →
      (∀ update ∈ updates, checkExpected s update = .ok ()) →
      (∀ update ∈ updates, db.references[update.key]? =
        (s.references[update.key]?).map (ReferenceRow.ofState update.key)) →
      (updates.zip results).foldlM
        (fun db (update, state) => db.writeReferenceCas update state publication.operation) db =
          .ok db' →
      ∃ references, db' = { db with references := references } ∧
        (∀ key, key ∉ updates.map (·.key) → references[key]? = db.references[key]?) ∧
        List.Forall₂ (fun update state =>
          references[update.key]? = some (ReferenceRow.ofState update.key state)) updates results := by
  induction hresults with
  | nil =>
      intro db _ _ _ hrun
      obtain rfl : db = db' := Except.ok.inj hrun
      exact ⟨db.references, rfl, fun _ _ => rfl, .nil⟩
  | @cons update state updates results hnext _ ih =>
      intro db hkeys hexpected hrows hrun
      rw [List.map_cons, List.nodup_cons] at hkeys
      simp only [List.zip_cons_cons, List.foldlM_cons, Except.bind_eq_ok] at hrun
      obtain ⟨db₁, hwrite, hrun⟩ := hrun
      have hwritten := writeReferenceCas_eq_ok (hrows update List.mem_cons_self)
        (hexpected update List.mem_cons_self) hnext hwrite
      have hother : ∀ key, key ≠ update.key → db₁.references[key]? = db.references[key]? := by
        intro key hkey
        rw [hwritten]
        exact BTreeMap.get_insert_of_ne _ _ hkey.symm
      obtain ⟨references, hdb', hkept, hinstalled⟩ := ih hkeys.2
        (fun u hu => hexpected u (List.mem_cons_of_mem _ hu))
        (fun u hu => by
          have hne : u.key ≠ update.key := by
            rintro heq
            exact hkeys.1 (heq ▸ List.mem_map_of_mem hu)
          rw [hother u.key hne]
          exact hrows u (List.mem_cons_of_mem _ hu)) hrun
      refine ⟨references, by rw [hdb', hwritten, Database.insertReference], fun key hkey => ?_, .cons ?_ hinstalled⟩
      · rw [List.map_cons, List.mem_cons, not_or] at hkey
        rw [hkept key hkey.2, hother key hkey.1]
      · rw [hkept _ hkeys.1, hwritten]
        exact BTreeMap.get_insert_self _ _ _

/-- The results of a publication are the next states of its updates. -/
theorem forall₂_results {publication : Publication} {p : StagedPublication}
    (hbegin : beginPublish publication s = .ok p) :
    List.Forall₂ (fun update state => nextState s publication update = .ok state ∧
      p.staged.references[update.key]? = some state) publication.updates p.results := by
  have hresults := StagedPublication.results_eq hbegin
  obtain ⟨-, -, -, hstage⟩ := beginPublish_eq_ok.mp hbegin
  obtain ⟨_, -, -, hinstalls, -⟩ := stage_eq_ok.mp hstage
  have hboth : List.Forall₂ (fun update state => p.staged.references[update.key]? = some state)
      publication.updates p.results := by
    rw [← List.forall₂_map_left_iff (R := fun (x : Option ReferenceState) state => x = some state),
      hresults, List.forall₂_map_left_iff]
    exact List.forall₂_same.mpr fun _ _ => rfl
  refine ((List.forall₂_and_left _ _).mpr ⟨hinstalls.installed, hboth⟩).imp ?_
  rintro update state ⟨⟨state', hnext, hget'⟩, hget⟩
  rw [hget, Option.some.injEq] at hget'
  exact ⟨hget' ▸ hnext, hget⟩

/-- The tables after the index loop of `publish`. -/
theorem indexCandidates_eq_ok {candidates : List PublicationObject} {objects : List StoredObject}
    (hobjects : List.Forall₂ (fun (candidate : PublicationObject) o =>
      visibleObject staged candidate.id = .ok o) candidates objects) :
    ∀ {db : Database}, candidates.foldlM (SqliteStore.indexCandidate loose staged) db = .ok db' →
      db' = objects.foldl (fun db o => Database.indexed o staged.revision db) db := by
  induction hobjects with
  | nil =>
      intro db hrun
      exact (Except.ok.inj hrun).symm
  | @cons candidate o candidates objects ho _ ih =>
      intro db hrun
      simp only [List.foldlM_cons, SqliteStore.indexCandidate, Except.bind_eq_ok, ho,
        Except.ok.injEq, exists_eq_left'] at hrun
      obtain ⟨db₁, ⟨-, -, hindex⟩, hrun⟩ := hrun
      obtain ⟨-, rfl, -⟩ := Database.indexObject_eq_ok hindex
      exact ih hrun

/-- **A publication that commits leaves the mirror of what it installs.** -/
theorem Mirrors.publishTransaction (h : Mirrors db loose s) (hopen : db.incidentReadOnly = false)
    {publication : Publication} {p : StagedPublication} {base : UInt64}
    (hbegin : beginPublish publication s = .ok p)
    (hloose : SqliteStore.putLoose publication.objects loose = (.ok (), loose'))
    (hrun : SqliteStore.publishTransaction publication p.results base
      { p.staged with revision := p.nextRevision } loose' db = .ok (db', t)) :
    Mirrors db' loose' t ∧ db'.incidentReadOnly = db.incidentReadOnly ∧
      t.objects = p.staged.objects ∧ t.references = p.staged.references ∧
      t.revision = p.nextRevision := by
  have hstages := h.stages_publish hbegin hloose
  simp only [SqliteStore.publishTransaction, Except.bind_eq_ok, Except.ok.injEq,
    Prod.mk.injEq] at hrun
  obtain ⟨t, hpromises, -, -, db₁, hindex, db₂, hrebuild, db₃, hwrite, db₄, hrevision, rfl, rfl⟩ :=
    hrun
  obtain ⟨objects, hfound, promised, ht, hmem⟩ := promiseEdges_eq_ok hpromises
  have hobjectsEq : t.objects = p.staged.objects := by rw [ht]
  have hquarantinedEq : t.quarantined = p.staged.quarantined := by rw [ht]
  have hreferencesEq : t.references = p.staged.references := by rw [ht]
  have hpromisedEq : t.promised = promised := by rw [ht]
  have hvisible : List.Forall₂ (fun (candidate : PublicationObject) o =>
      visibleObject t candidate.id = .ok o) publication.objects objects := by
    refine hfound.imp fun candidate o ho => visibleObject_eq_ok.mpr ?_
    rw [hobjectsEq, hquarantinedEq]
    exact visibleObject_eq_ok.mp ho
  obtain rfl := indexCandidates_eq_ok hvisible hindex
  have hgraph := mirrorsGraph_rebuild hrebuild
  obtain ⟨-, -, rfl⟩ := Database.rebuildGraphIndexes_eq_ok.mp hrebuild
  obtain ⟨-, -, -, hstage⟩ := beginPublish_eq_ok.mp hbegin
  obtain ⟨staged, hobjects, hcheck, hinstalls, hstaged⟩ := stage_eq_ok.mp hstage
  obtain ⟨-, -, -, hkeys, hupdates, -, -⟩ := checkStaged_eq_ok.mp hcheck
  have hresults := forall₂_results hbegin
  obtain ⟨hsame, hflag, -⟩ := foldl_indexed_others objects t.revision db
  obtain ⟨references, rfl, hkept, hwritten⟩ := writeReferences_eq_ok
    (hresults.imp fun update state hstate => hstate.1) hkeys
    (fun update hupdate => (hupdates update hupdate).expected)
    (fun update _ => by
      change (objects.foldl _ db).references[update.key]? = _
      rw [hsame]
      exact h.references update.key) hwrite
  obtain ⟨hbounded, rfl, hconsistent⟩ := Database.setRevision_eq_ok hrevision
  refine ⟨?_, hflag, hobjectsEq, hreferencesEq, by rw [ht]⟩
  refine h.indexStaged hopen hstages objects t.revision (Database.graphRows t) references ?_ ?_
    hobjectsEq hquarantinedEq ?_ rfl hgraph hbounded ?_ hconsistent
  · intro o ho
    obtain ⟨candidate, -, hcandidate⟩ := forall₂_exists_of_mem hfound.flip ho
    have hget := (visibleObject_eq_ok.mp hcandidate).2
    rwa [← hstages.id_eq hget] at hget
  · intro id o ho
    have hget : staged.objects[id]? = some o := by
      change p.staged.objects[id]? = some o at ho
      rwa [hstaged] at ho
    rcases stageObjects_origin hobjects hget with hold | ⟨candidate, hcandidate, rfl, -⟩
    · exact .inl hold
    · obtain ⟨o', ho', hvisible'⟩ := forall₂_exists_of_mem hfound hcandidate
      rw [(visibleObject_eq_ok.mp hvisible').2, Option.some.injEq] at ho
      exact .inr (ho ▸ ho')
  · intro id
    have hfree : id ∉ p.staged.quarantined := by
      rw [show p.staged.quarantined = s.quarantined from hstages.quarantined]
      exact (h.writable hopen).1 id
    rw [hpromisedEq, hmem]
    simp only [hfree, not_false_eq_true, and_true]
  · intro key
    rw [hreferencesEq]
    by_cases hkey : key ∈ publication.updates.map (·.key)
    · obtain ⟨update, hupdate, rfl⟩ := List.mem_map.mp hkey
      have hboth : List.Forall₂ (fun (update : RefUpdate) state =>
          references[update.key]? = some (ReferenceRow.ofState update.key state) ∧
            p.staged.references[update.key]? = some state) publication.updates p.results :=
        .mp (fun _ _ hrow hstate => ⟨hrow, hstate.2⟩) hwritten hresults
      obtain ⟨state, -, hrow, hget⟩ := forall₂_exists_of_mem hboth hupdate
      rw [hrow, hget]
      rfl
    · have hold : p.staged.references[key]? = s.references[key]? := by
        rw [hinstalls.kept key hkey, (StagesObjects.of_loop hobjects).references]
      rw [hkept key hkey, hold]
      change (objects.foldl _ db).references[key]? = _
      rw [hsame]
      exact h.references key

end Transactions

end RGit
