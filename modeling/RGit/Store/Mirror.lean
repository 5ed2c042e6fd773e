/-
RGit/Store/Mirror.lean

The database as a mirror of a snapshot.

`Mirrors` relates the tables and the loose objects to the snapshot they stand
for.  Loading tables that mirror a snapshot returns that snapshot, unless one
of its references fails the checks of `load_snapshot` (`loadSnapshot_eq`).
-/
import RGit.Store.Ancestry
import RGit.Store.Sqlite

namespace RGit

open MemoryStore

section Generations

variable {s t : MemorySnapshot}

/-- The graph rows only depend on what is visible. -/
theorem expectedRows_congr (h : SeesMore s t) (h' : SeesMore t s) (o : StoredObject) :
    Database.expectedRows s o = Database.expectedRows t o := by
  have hgraph : Database.graphGeneration s o = Database.graphGeneration t o := by
    rw [Database.graphGeneration, Database.graphGeneration, generation_toOption_congr h h']
  have hparents : Database.parentRows s o = Database.parentRows t o := by
    simp only [Database.parentRows, generation_isOk_congr h h']
  rw [Database.expectedRows, Database.expectedRows, Database.generationRows,
    Database.generationRows, Database.expectedOperationRows, Database.expectedOperationRows,
    hgraph, hparents]

end Generations

/-! ### Mirrors -/

/-- The row of a stored object. -/
def ObjectRow.mirrors (row : ObjectRow) (o : StoredObject) : Prop :=
  row.kind = some o.kind ∧ row.schema = some o.object.schemaVersion ∧ row.presence = .present ∧
    row.canonicalLength = some o.bytes.length

/-- The inventory, the edges and the locations are those of the snapshot. -/
structure MirrorsObjects (db : Database) (s : MemorySnapshot) : Prop where
  present : ∀ (id : ObjectId) (o : StoredObject), s.objects[id]? = some o →
    ∃ row, db.objects[id]? = some row ∧ row.mirrors o
  promised : ∀ id, id ∈ s.promised → ∃ row, db.objects[id]? = some row ∧ row.presence = .promised
  quarantined : ∀ id, id ∈ s.quarantined →
    ∃ row, db.objects[id]? = some row ∧ row.presence = .quarantined
  known : ∀ (id : ObjectId) (row : ObjectRow), db.objects[id]? = some row →
    (∃ o, s.objects[id]? = some o) ∨ id ∈ s.promised ∨ id ∈ s.quarantined
  edges : ∀ id, db.edgesOf id = ((s.objects[id]?).map (·.references)).getD []
  locations : ∀ id, id ∈ db.locations ↔ ∃ o, s.objects[id]? = some o

/-- The kind in the row of a promised object is one that a stored edge expects. -/
def GuessedKinds (db : Database) (s : MemorySnapshot) : Prop :=
  ∀ (id : ObjectId) (row : ObjectRow) (kind : ObjectKind), id ∈ s.promised →
    db.objects[id]? = some row → row.kind = some kind →
    ∃ (source : ObjectId) (o : StoredObject), s.objects[source]? = some o ∧
      ∃ edge ∈ o.references, edge.id = id ∧ edge.expectedKind = some kind

/-- The row of a reference. -/
def ReferenceRow.ofState (key : ReferenceKey) (state : ReferenceState) : ReferenceRow :=
  ⟨state.target, key.expectedKind, state.generation, state.operation⟩

/-- The graph tables are those of the snapshot. -/
def MirrorsGraph (db : Database) (s : MemorySnapshot) : Prop :=
  ∃ rows, (s.objects.toList.map (·.2)).mapM (Database.expectedRows s) = .ok rows ∧
    rows.flatten.Perm db.graph

/-- **The tables and the loose objects stand for the snapshot.** -/
structure Mirrors [Unicode] [Hashes] (db : Database) (loose : LooseStore) (s : MemorySnapshot) :
    Prop where
  revision : db.revision = s.revision
  bounded : s.revision ≤ maxSqliteInteger
  objects : MirrorsObjects db s
  graph : MirrorsGraph db s
  references : ∀ key : ReferenceKey,
    db.references[key]? = (s.references[key]?).map (ReferenceRow.ofState key)
  records : ∀ (id : ObjectId) (o : StoredObject), s.objects[id]? = some o →
    loose.records[id]? = some (LooseStore.recordOf o)
  decoded : ∀ (id : ObjectId) (o : StoredObject), s.objects[id]? = some o →
    decode id o.bytes = .ok o
  incidents : SqliteStore.verifyIncidents db = .ok ()
  writable : db.incidentReadOnly = false → (∀ id, id ∉ s.quarantined) ∧ GuessedKinds db s
  consistent : db.Consistent

namespace MirrorsObjects

variable {db : Database} {s : MemorySnapshot} (h : MirrorsObjects db s)
include h

theorem promised_open {id : ObjectId} (hid : id ∈ s.promised) : s.objects[id]? = none := by
  obtain ⟨row, hrow, hpromised⟩ := h.promised id hid
  cases hget : s.objects[id]? with
  | none => rfl
  | some o =>
      obtain ⟨row', hrow', -, -, hpresent, -⟩ := h.present id o hget
      rw [hrow] at hrow'
      cases hrow'
      rw [hpresent] at hpromised
      cases hpromised

theorem quarantined_open {id : ObjectId} (hid : id ∈ s.quarantined) :
    s.objects[id]? = none ∧ id ∉ s.promised := by
  obtain ⟨row, hrow, hquarantined⟩ := h.quarantined id hid
  refine ⟨?_, fun hpromised => ?_⟩
  · cases hget : s.objects[id]? with
    | none => rfl
    | some o =>
        obtain ⟨row', hrow', -, -, hpresent, -⟩ := h.present id o hget
        rw [hrow] at hrow'
        cases hrow'
        rw [hpresent] at hquarantined
        cases hquarantined
  · obtain ⟨row', hrow', hpromised⟩ := h.promised id hpromised
    rw [hrow] at hrow'
    cases hrow'
    rw [hpromised] at hquarantined
    cases hquarantined

/-- What a row's presence says about the snapshot. -/
theorem known_cases {id : ObjectId} {row : ObjectRow} (hrow : db.objects[id]? = some row) :
    (∃ o, s.objects[id]? = some o ∧ row.mirrors o) ∨
      (row.presence = .promised ∧ id ∈ s.promised) ∨
      (row.presence = .quarantined ∧ id ∈ s.quarantined) := by
  rcases h.known id row hrow with ⟨o, ho⟩ | hid | hid
  · obtain ⟨row', hrow', hmirrors⟩ := h.present id o ho
    rw [hrow] at hrow'
    cases hrow'
    exact .inl ⟨o, ho, hmirrors⟩
  · obtain ⟨row', hrow', hpromised⟩ := h.promised id hid
    rw [hrow] at hrow'
    cases hrow'
    exact .inr (.inl ⟨hpromised, hid⟩)
  · obtain ⟨row', hrow', hquarantined⟩ := h.quarantined id hid
    rw [hrow] at hrow'
    cases hrow'
    exact .inr (.inr ⟨hquarantined, hid⟩)

end MirrorsObjects

/-! ### Loading -/

section Loading

variable [Unicode] [Hashes] {db : Database} {loose : LooseStore} {s : MemorySnapshot}

theorem Mirrors.readObject (h : Mirrors db loose s) {id : ObjectId} {o : StoredObject}
    (ho : s.objects[id]? = some o) : loose.readObjectAudited id = .ok o :=
  LooseStore.readObjectAudited_eq_ok (h.decoded id o ho) (h.records id o ho)

/-- A row of a stored object is read as the object. -/
theorem Mirrors.readRow_present (h : Mirrors db loose s) {id : ObjectId} {row : ObjectRow}
    {o : StoredObject} (ho : s.objects[id]? = some o) (hrow : row.mirrors o) (t : MemorySnapshot) :
    SqliteStore.readRow db loose t (id, row) =
      .ok { t with objects := t.objects.insert id o } := by
  obtain ⟨hkind, hschema, hpresent, hlength⟩ := hrow
  have hid : o.id = id := (MemoryStore.decode_eq_ok.mp (h.decoded id o ho)).2.2.2.1
  have hcheck : SqliteStore.checkRow row o = .ok () := by
    simp [SqliteStore.checkRow, hkind, hschema, hlength]
  have hindexes : SqliteStore.verifyObjectIndexes db o = .ok () := by
    have hlocation : db.locations.contains o.id = true :=
      Std.ExtTreeSet.mem_iff_contains.mp ((h.objects.locations o.id).mpr ⟨o, hid ▸ ho⟩)
    have hedges : db.edgesOf o.id = o.references := by
      rw [h.objects.edges, hid, ho]
      rfl
    simp [SqliteStore.verifyObjectIndexes, hlocation, hedges]
  simp [SqliteStore.readRow, hpresent, h.readObject ho, hcheck, hindexes, Except.mapError]

/-- What the object loop has read after some rows. -/
structure ReadRows (s t₀ t : MemorySnapshot) (rows : List (ObjectId × ObjectRow)) : Prop where
  revision : t.revision = t₀.revision
  objects : ∀ (id : ObjectId) (o : StoredObject), t.objects[id]? = some o ↔
    t₀.objects[id]? = some o ∨ s.objects[id]? = some o ∧ ∃ row, (id, row) ∈ rows
  promised : ∀ id, id ∈ t.promised ↔
    id ∈ t₀.promised ∨ id ∈ s.promised ∧ ∃ row, (id, row) ∈ rows
  quarantined : ∀ id, id ∈ t.quarantined ↔
    id ∈ t₀.quarantined ∨ id ∈ s.quarantined ∧ ∃ row, (id, row) ∈ rows

omit [Unicode] [Hashes] in
theorem ReadRows.nil (s t : MemorySnapshot) : ReadRows s t t [] where
  revision := rfl
  objects := by simp
  promised := by simp
  quarantined := by simp

omit [Unicode] [Hashes] in
/-- One more row in front: what it adds was added to the start. -/
theorem ReadRows.cons {t₀ t₁ t : MemorySnapshot} {entry : ObjectId × ObjectRow}
    {rows : List (ObjectId × ObjectRow)} (hstep : ReadRows s t₀ t₁ [entry])
    (hrest : ReadRows s t₁ t rows) : ReadRows s t₀ t (entry :: rows) where
  revision := hrest.revision.trans hstep.revision
  objects id o := by
    rw [hrest.objects, hstep.objects]
    simp only [List.mem_cons, List.not_mem_nil, or_false, exists_or]
    tauto
  promised id := by
    rw [hrest.promised, hstep.promised]
    simp only [List.mem_cons, List.not_mem_nil, or_false, exists_or]
    tauto
  quarantined id := by
    rw [hrest.quarantined, hstep.quarantined]
    simp only [List.mem_cons, List.not_mem_nil, or_false, exists_or]
    tauto

/-- One pass of the object loop. -/
theorem Mirrors.readRow (h : Mirrors db loose s) {id : ObjectId} {row : ObjectRow}
    (hrow : db.objects[id]? = some row) {t₀ : MemorySnapshot}
    (hbelow : ∀ (id : ObjectId) (o : StoredObject), t₀.objects[id]? = some o →
      s.objects[id]? = some o) :
    ∃ t, SqliteStore.readRow db loose t₀ (id, row) = .ok t ∧ ReadRows s t₀ t [(id, row)] := by
  have hown : ∀ id', (∃ row', (id', row') ∈ [(id, row)]) ↔ id = id' := by
    intro id'
    simp [eq_comm]
  -- a part of the snapshot that the row is not about stays as it was
  have hskip : ∀ {p : ObjectId → Prop} {q : Prop}, ¬p id → ∀ id', q ↔ q ∨ p id' ∧ id = id' := by
    intro p q hp id'
    constructor
    · exact .inl
    · rintro (hq | ⟨hid, rfl⟩)
      · exact hq
      · exact absurd hid hp
  rcases h.objects.known_cases hrow with ⟨o, ho, hmirrors⟩ | ⟨hpresence, hid⟩ | ⟨hpresence, hid⟩
  · have hpromised : id ∉ s.promised := by
      intro hid
      rw [h.objects.promised_open hid] at ho
      cases ho
    have hquarantined : id ∉ s.quarantined := by
      intro hid
      rw [(h.objects.quarantined_open hid).1] at ho
      cases ho
    refine ⟨_, h.readRow_present ho hmirrors t₀, rfl, fun id' o' => ?_, fun id' => ?_,
      fun id' => ?_⟩
    · rw [hown, BTreeMap.get_insert_eq_some_iff]
      by_cases hid : id = id'
      · subst hid
        rw [ho]
        simp only [true_and, ne_eq, not_true_eq_false, false_and, or_false, Option.some.injEq,
          and_true]
        constructor
        · exact .inr
        · rintro (ho' | rfl)
          · rw [hbelow id o' ho', Option.some.injEq] at ho
            exact ho.symm
          · rfl
      · simp [hid]
    · rw [hown]
      exact hskip hpromised id'
    · rw [hown]
      exact hskip hquarantined id'
  · have hobjects := h.objects.promised_open hid
    have hquarantined : id ∉ s.quarantined := fun hq => (h.objects.quarantined_open hq).2 hid
    refine ⟨{ t₀ with promised := t₀.promised.insert id }, by simp [SqliteStore.readRow, hpresence],
      rfl, fun id' o' => ?_, fun id' => ?_, fun id' => ?_⟩
    · rw [hown]
      exact hskip (p := fun id => s.objects[id]? = some o') (by simp [hobjects]) id'
    · rw [hown, BTreeSet.mem_insert_iff]
      constructor
      · rintro (rfl | hid')
        · exact .inr ⟨hid, rfl⟩
        · exact .inl hid'
      · rintro (hid' | ⟨-, rfl⟩)
        · exact .inr hid'
        · exact .inl rfl
    · rw [hown]
      exact hskip hquarantined id'
  · obtain ⟨hobjects, hpromised⟩ := h.objects.quarantined_open hid
    refine ⟨{ t₀ with quarantined := t₀.quarantined.insert id },
      by simp [SqliteStore.readRow, hpresence], rfl, fun id' o' => ?_, fun id' => ?_, fun id' => ?_⟩
    · rw [hown]
      exact hskip (p := fun id => s.objects[id]? = some o') (by simp [hobjects]) id'
    · rw [hown]
      exact hskip hpromised id'
    · rw [hown, BTreeSet.mem_insert_iff]
      constructor
      · rintro (rfl | hid')
        · exact .inr ⟨hid, rfl⟩
        · exact .inl hid'
      · rintro (hid' | ⟨-, rfl⟩)
        · exact .inr hid'
        · exact .inl rfl

/-- The object loop reads the part of the snapshot that its rows are about. -/
theorem Mirrors.readRows (h : Mirrors db loose s) {rows : List (ObjectId × ObjectRow)} :
    (∀ entry ∈ rows, db.objects[entry.1]? = some entry.2) → ∀ t₀ : MemorySnapshot,
      (∀ (id : ObjectId) (o : StoredObject), t₀.objects[id]? = some o →
        s.objects[id]? = some o) →
      ∃ t, rows.foldlM (SqliteStore.readRow db loose) t₀ = .ok t ∧ ReadRows s t₀ t rows := by
  induction rows with
  | nil => exact fun _ t₀ _ => ⟨t₀, rfl, .nil s t₀⟩
  | cons entry rows ih =>
      intro hrows t₀ hbelow
      obtain ⟨t₁, hread, hstep⟩ := h.readRow (hrows entry List.mem_cons_self) hbelow
      have hbelow₁ : ∀ (id : ObjectId) (o : StoredObject), t₁.objects[id]? = some o →
          s.objects[id]? = some o := by
        intro id o ho
        rcases (hstep.objects id o).mp ho with ho | ⟨ho, -⟩
        · exact hbelow id o ho
        · exact ho
      obtain ⟨t, hloop, hrest⟩ :=
        ih (fun e he => hrows e (List.mem_cons_of_mem _ he)) t₁ hbelow₁
      exact ⟨t, by rw [List.foldlM_cons, hread, Except.ok_bind, hloop], .cons hstep hrest⟩

theorem Mirrors.readReferences (h : Mirrors db loose s) :
    SqliteStore.readReferences db = s.references := by
  refine Std.ExtTreeMap.ext_getElem? fun key => ?_
  rw [SqliteStore.readReferences, Std.ExtTreeMap.getElem?_map, h.references]
  cases s.references[key]? <;> rfl

theorem Mirrors.verifyDerivedIndexes (h : Mirrors db loose s) :
    db.verifyDerivedIndexes s = .ok () := by
  obtain ⟨rows, hrows, hperm⟩ := h.graph
  simp [Database.verifyDerivedIndexes, hrows, List.isPerm_iff.mpr hperm]

/-- **Loading returns what the tables stand for**, once every reference
passes the checks. -/
theorem Mirrors.loadSnapshot_eq (h : Mirrors db loose s) :
    SqliteStore.loadSnapshot db loose =
      (forM s.references.toList (SqliteStore.checkReference s) >>= fun _ => .ok s) := by
  obtain ⟨t, hloop, hread⟩ := h.readRows
    (fun entry hentry => BTreeMap.mem_toList_iff_get.mp hentry) { revision := db.revision }
    (fun id o ho => by simp at ho)
  have hlisted : ∀ {id : ObjectId} {row : ObjectRow}, db.objects[id]? = some row →
      ∃ row, (id, row) ∈ db.objects.toList :=
    fun hrow => ⟨_, BTreeMap.mem_toList_iff_get.mpr hrow⟩
  have hsame : { t with references := s.references } = s := by
    have hobjects : t.objects = s.objects := by
      refine Std.ExtTreeMap.ext_getElem? fun id => Option.ext fun o => ?_
      rw [hread.objects]
      constructor
      · rintro (ho | ⟨ho, -⟩)
        · simp at ho
        · exact ho
      · intro ho
        obtain ⟨row, hrow, -⟩ := h.objects.present id o ho
        exact .inr ⟨ho, hlisted hrow⟩
    have hpromised : t.promised = s.promised := by
      refine Std.ExtTreeSet.ext_mem fun id => ?_
      rw [hread.promised]
      constructor
      · rintro (hid | ⟨hid, -⟩)
        · simp at hid
        · exact hid
      · intro hid
        obtain ⟨row, hrow, -⟩ := h.objects.promised id hid
        exact .inr ⟨hid, hlisted hrow⟩
    have hquarantined : t.quarantined = s.quarantined := by
      refine Std.ExtTreeSet.ext_mem fun id => ?_
      rw [hread.quarantined]
      constructor
      · rintro (hid | ⟨hid, -⟩)
        · simp at hid
        · exact hid
      · intro hid
        obtain ⟨row, hrow, -⟩ := h.objects.quarantined id hid
        exact .inr ⟨hid, hlisted hrow⟩
    have hrevision : t.revision = s.revision := hread.revision.trans h.revision
    rw [hobjects, hpromised, hquarantined, hrevision]
  simp only [SqliteStore.loadSnapshot, hloop, Except.ok_bind, h.readReferences, hsame,
    h.verifyDerivedIndexes]

end Loading

/-! ### Checking references -/

/-- A reference that `load_snapshot` accepts: sound, and named by its
operation. -/
structure ReloadableReference (objects : BTreeMap ObjectId StoredObject) (key : ReferenceKey)
    (state : ReferenceState) : Prop where
  sound : SoundReference objects key state
  head : key = .operationHead → state.target = state.operation
  named : key ≠ .operationHead → ∃ operation, objects[state.operation]? = some operation ∧
    SqliteStore.operationNames operation key state.target = true

/-- Every reference of the snapshot is accepted. -/
def Loads (s : MemorySnapshot) : Prop :=
  ∀ (key : ReferenceKey) (state : ReferenceState), s.references[key]? = some state →
    ReloadableReference s.objects key state

section References

variable {s : MemorySnapshot}

/-- Where nothing stored is quarantined, a closure is computed exactly when it
is complete. -/
theorem closureFrom_isOk_iff (hopen : ∀ id, id ∈ s.quarantined → s.objects[id]? = none)
    {roots : List ReferenceEdge} :
    (∃ closure, closureFrom s roots = .ok closure) ↔ Complete s.objects roots := by
  constructor
  · rintro ⟨closure, hclosure⟩
    exact .of_closureFrom hclosure
  · intro hcomplete
    have hok : ∀ edge, Reached (closureCheck s) StoredObject.references roots edge →
        ∃ o, closureCheck s edge = .ok o := by
      intro edge hedge
      have hstored : ReachedEdge s.objects roots edge := by
        induction hedge with
        | root he => exact .root he
        | step _ ho he ih => exact .step ih (storedEdge_of_closureCheck ho) he
      obtain ⟨o, ho, hkind⟩ := hcomplete edge hstored
      refine ⟨o, closureCheck_eq_ok.mpr ⟨fun hquarantined => ?_, ho, hkind⟩⟩
      rw [hopen edge.id hquarantined] at ho
      cases ho
    exact workLoop_isOk (fun _ _ h => (closureCheck_eq_ok.mp h).2.1) hok workInvariant_init

theorem checkReference_eq_ok (hopen : ∀ id, id ∈ s.quarantined → s.objects[id]? = none)
    {key : ReferenceKey} {state : ReferenceState} :
    SqliteStore.checkReference s (key, state) = .ok () ↔
      ReloadableReference s.objects key state := by
  simp only [SqliteStore.checkReference, Except.bind_eq_ok, Except.ofOption_eq_ok,
    Except.ite_error_eq_ok, Except.mapError_eq_ok, not_or, not_not, not_and, Bool.not_eq_false, Bool.not_eq_true', and_true, ne_eq]
  constructor
  · rintro ⟨target, htarget, operation, hoperation, ⟨hkind, hopkind, hidentity, hhead⟩, closure,
      hclosure, hnamed⟩
    exact ⟨⟨⟨target, htarget, hkind, hidentity⟩, ⟨operation, hoperation, hopkind⟩,
      .of_closureFrom hclosure⟩, hhead, fun hkey => ⟨operation, hoperation, hnamed hkey⟩⟩
  · rintro ⟨⟨⟨target, htarget, hkind, hidentity⟩, ⟨operation, hoperation, hopkind⟩, hcomplete⟩,
      hhead, hnamed⟩
    obtain ⟨closure, hclosure⟩ := (closureFrom_isOk_iff hopen).mpr hcomplete
    refine ⟨target, htarget, operation, hoperation, ⟨hkind, hopkind, hidentity, hhead⟩, closure,
      hclosure, fun hkey => ?_⟩
    obtain ⟨operation', hoperation', hnames⟩ := hnamed hkey
    rw [hoperation] at hoperation'
    cases hoperation'
    exact hnames

theorem checkReference_error {entry : ReferenceKey × ReferenceState} {e : StoreError}
    (h : SqliteStore.checkReference s entry = .error e) : e = .unsupportedDatabase := by
  obtain ⟨key, state⟩ := entry
  simp only [SqliteStore.checkReference] at h
  cases htarget : s.objects[state.target]? with
  | none =>
      simp only [htarget, Except.ofOption, Except.error_bind, Except.error.injEq] at h
      exact h.symm
  | some target =>
      cases hoperation : s.objects[state.operation]? with
      | none =>
          simp only [htarget, hoperation, Except.ofOption, Except.ok_bind, Except.error_bind,
            Except.error.injEq] at h
          exact h.symm
      | some operation =>
          simp only [htarget, hoperation, Except.ofOption, Except.ok_bind] at h
          split at h
          · exact (Except.error.inj h).symm
          · cases hclosure : closureFrom s (referenceRoots key state) with
            | error e' =>
                simp only [hclosure, Except.mapError, Except.error_bind, Except.error.injEq] at h
                exact h.symm
            | ok closure =>
                simp only [hclosure, Except.mapError, Except.ok_bind] at h
                split at h
                · exact (Except.error.inj h).symm
                · cases h

end References

section Refreshing

variable [Unicode] [Hashes] {store store' : SqliteStore} {s : MemorySnapshot}

theorem Mirrors.quarantined_open {db : Database} {loose : LooseStore} (h : Mirrors db loose s)
    (id : ObjectId) (hid : id ∈ s.quarantined) : s.objects[id]? = none :=
  (h.objects.quarantined_open hid).1

theorem Mirrors.checkReferences_eq_ok {db : Database} {loose : LooseStore}
    (h : Mirrors db loose s) :
    forM s.references.toList (SqliteStore.checkReference s) = .ok ⟨⟩ ↔ Loads s := by
  rw [forM_eq_ok]
  constructor
  · intro hall key state hstate
    exact (checkReference_eq_ok h.quarantined_open).mp
      (hall (key, state) (BTreeMap.mem_toList_iff_get.mpr hstate))
  · rintro hloads ⟨key, state⟩ hentry
    exact (checkReference_eq_ok h.quarantined_open).mpr
      (hloads key state (BTreeMap.mem_toList_iff_get.mp hentry))

/-- **When the store can be refreshed**: exactly when `load_snapshot` accepts
every reference, and then memory holds what the tables stand for. -/
theorem Mirrors.refresh_eq_ok (h : Mirrors store.database store.loose s) :
    SqliteStore.refresh store = .ok store' ↔ Loads s ∧ store' = { store with memory := s } := by
  rw [SqliteStore.refresh, h.incidents, Except.ok_bind, h.loadSnapshot_eq]
  simp only [Except.bind_eq_ok, Except.exists_unit_iff, h.checkReferences_eq_ok, Except.ok.injEq]
  constructor
  · rintro ⟨t, ⟨hloads, rfl⟩, rfl⟩
    exact ⟨hloads, rfl⟩
  · rintro ⟨hloads, rfl⟩
    exact ⟨s, ⟨hloads, rfl⟩, rfl⟩

/-- A store that cannot be refreshed reports its database. -/
theorem Mirrors.refresh_error (h : Mirrors store.database store.loose s) (hloads : ¬Loads s) :
    SqliteStore.refresh store = .error .unsupportedDatabase := by
  rw [SqliteStore.refresh, h.incidents, Except.ok_bind, h.loadSnapshot_eq]
  cases hcheck : forM s.references.toList (SqliteStore.checkReference s) with
  | ok u => exact absurd (h.checkReferences_eq_ok.mp hcheck) hloads
  | error e =>
      obtain ⟨entry, -, hentry⟩ := forM_error hcheck
      rw [checkReference_error hentry]
      rfl

end Refreshing

end RGit
