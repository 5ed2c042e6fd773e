/-
RGit/Store/Indexing.lean

What the transactions write.

A statement is refused when it breaks a constraint and has its effect
otherwise, so a function on a transaction that succeeds has the effect of its
statements (`indexObject_eq_ok`, `rebuildGraphIndexes_eq_ok`).  The effect of
`index_object` on the tables is that of adding the object to the snapshot
they stand for (`MirrorsObjects.index`).
-/
import RGit.Store.Mirror

namespace RGit

open MemoryStore

theorem toSqlU64_eq_ok {value column : UInt64} :
    toSqlU64 value = .ok column ↔ value ≤ maxSqliteInteger ∧ value = column := by
  simp [toSqlU64]

namespace Database

/-! ### Rows of targets -/

/-- The kind that the first edge to an identifier with a kind expects. -/
def guessedKind (edges : List ReferenceEdge) (id : ObjectId) : Option ObjectKind :=
  (edges.filter fun edge => edge.id = id).findSome? (·.expectedKind)

theorem exists_of_guessedKind {edges : List ReferenceEdge} {id : ObjectId} {kind : ObjectKind}
    (h : guessedKind edges id = some kind) :
    ∃ edge ∈ edges, edge.id = id ∧ edge.expectedKind = some kind := by
  obtain ⟨edge, hedge, hkind⟩ := List.exists_of_findSome?_eq_some h
  obtain ⟨hedge, hid⟩ := List.mem_filter.mp hedge
  exact ⟨edge, hedge, by simpa using hid, hkind⟩

section Targets

variable {revision : UInt64}

/-- The edges to one identifier, from the row it has. -/
def targetRows (revision : UInt64) (edges : List ReferenceEdge) (row : Option ObjectRow) :
    Option ObjectRow :=
  edges.foldl (fun row edge => some (targetRow revision edge row)) row

theorem targetRows_some (edges : List ReferenceEdge) (row : ObjectRow) :
    targetRows revision edges (some row) =
      some { row with kind := row.kind.or (edges.findSome? (·.expectedKind)) } := by
  induction edges generalizing row with
  | nil => simp [targetRows]
  | cons edge edges ih =>
      have hstep : targetRows revision (edge :: edges) (some row) =
          targetRows revision edges (some { row with kind := row.kind.or edge.expectedKind }) := rfl
      rw [hstep, ih, List.findSome?_cons]
      cases row.kind <;> cases edge.expectedKind <;> simp

theorem targetRows_none (edges : List ReferenceEdge) :
    targetRows revision edges none =
      if edges = [] then none
      else some ⟨edges.findSome? (·.expectedKind), none, .promised, none, revision⟩ := by
  cases edges with
  | nil => rfl
  | cons edge edges =>
      have hstep : targetRows revision (edge :: edges) none =
          targetRows revision edges
            (some ⟨edge.expectedKind, none, .promised, none, revision⟩) := rfl
      rw [hstep, targetRows_some, List.findSome?_cons, if_neg (by simp)]
      cases edge.expectedKind <;> simp

/-- The rows once every target has been upserted. -/
def upsertRows (revision : UInt64) (edges : List ReferenceEdge)
    (objects : BTreeMap ObjectId ObjectRow) : BTreeMap ObjectId ObjectRow :=
  edges.foldl (fun objects edge =>
    objects.insert edge.id (targetRow revision edge objects[edge.id]?)) objects

theorem get_upsertRows (edges : List ReferenceEdge) (objects : BTreeMap ObjectId ObjectRow)
    (id : ObjectId) :
    (upsertRows revision edges objects)[id]? =
      targetRows revision (edges.filter fun edge => edge.id = id) objects[id]? := by
  induction edges generalizing objects with
  | nil => rfl
  | cons edge edges ih =>
      rw [upsertRows, List.foldl_cons, ← upsertRows, ih]
      by_cases hid : edge.id = id
      · subst hid
        rw [BTreeMap.get_insert_self, List.filter_cons_of_pos (by simp)]
        rfl
      · rw [BTreeMap.get_insert_of_ne _ _ hid, List.filter_cons_of_neg (by simpa using hid)]

theorem get_upsertRows_some {edges : List ReferenceEdge} {objects : BTreeMap ObjectId ObjectRow}
    {id : ObjectId} {row : ObjectRow} (h : objects[id]? = some row) :
    (upsertRows revision edges objects)[id]? =
      some { row with kind := row.kind.or (guessedKind edges id) } := by
  rw [get_upsertRows, h, targetRows_some, guessedKind]

theorem get_upsertRows_target {edges : List ReferenceEdge}
    {objects : BTreeMap ObjectId ObjectRow} {edge : ReferenceEdge} (hedge : edge ∈ edges)
    (h : objects[edge.id]? = none) :
    (upsertRows revision edges objects)[edge.id]? =
      some ⟨guessedKind edges edge.id, none, .promised, none, revision⟩ := by
  rw [get_upsertRows, h, targetRows_none, guessedKind, if_neg]
  exact List.ne_nil_of_mem (List.mem_filter.mpr ⟨hedge, by simp⟩)

theorem get_upsertRows_other {edges : List ReferenceEdge} {objects : BTreeMap ObjectId ObjectRow}
    {id : ObjectId} (hedges : ∀ edge ∈ edges, edge.id ≠ id) :
    (upsertRows revision edges objects)[id]? = objects[id]? := by
  rw [get_upsertRows, List.filter_eq_nil_iff.mpr]
  · rfl
  · intro edge hedge
    simpa using hedges edge hedge

theorem foldl_upsertTarget (edges : List ReferenceEdge) (db : Database) :
    edges.foldl (fun db edge => upsertTarget revision edge db) db =
      { db with objects := upsertRows revision edges db.objects } := by
  induction edges generalizing db with
  | nil => rfl
  | cons edge edges ih => rw [List.foldl_cons, ih]; rfl

end Targets

/-! ### Edges -/

/-- The edges once those of a source have been inserted. -/
def appendEdges (source : ObjectId) (inserted : List ReferenceEdge)
    (edges : BTreeMap ObjectId (List ReferenceEdge)) : BTreeMap ObjectId (List ReferenceEdge) :=
  inserted.foldl (fun edges edge =>
    edges.insert source ((edges[source]?).getD [] ++ [edge])) edges

theorem get_appendEdges_self (source : ObjectId) (inserted : List ReferenceEdge)
    (edges : BTreeMap ObjectId (List ReferenceEdge)) :
    ((appendEdges source inserted edges)[source]?).getD [] =
      (edges[source]?).getD [] ++ inserted := by
  induction inserted generalizing edges with
  | nil => simp [appendEdges]
  | cons edge inserted ih =>
      rw [appendEdges, List.foldl_cons, ← appendEdges, ih, BTreeMap.get_insert_self]
      simp

theorem get_appendEdges_of_ne {source id : ObjectId} (hne : source ≠ id)
    (inserted : List ReferenceEdge) (edges : BTreeMap ObjectId (List ReferenceEdge)) :
    (appendEdges source inserted edges)[id]? = edges[id]? := by
  induction inserted generalizing edges with
  | nil => rfl
  | cons edge inserted ih =>
      rw [appendEdges, List.foldl_cons, ← appendEdges, ih, BTreeMap.get_insert_of_ne _ _ hne]

theorem foldl_insertEdge (source : ObjectId) (inserted : List ReferenceEdge) (db : Database) :
    inserted.foldl (fun db edge => insertEdge source edge db) db =
      { db with edges := appendEdges source inserted db.edges } := by
  induction inserted generalizing db with
  | nil => rfl
  | cons edge inserted ih => rw [List.foldl_cons, ih]; rfl

/-! ### Indexing an object -/

/-- A loop of statements has the effects of the statements. -/
theorem foldlM_execute_eq_ok {α : Type} {statement : α → Database → Database} {l : List α}
    {db db' : Database} :
    l.foldlM (fun db a => execute (statement a) db) db = .ok db' ↔
      Walk (fun db a => (statement a db).Consistent) (fun db a => statement a db) db l ∧
        l.foldl (fun db a => statement a db) db = db' :=
  foldlM_eq_ok fun _ _ _ => execute_eq_ok

/-- The tables of objects and edges with an object in them. -/
def indexed (object : StoredObject) (revision : UInt64) (db : Database) : Database :=
  { db with
    objects := upsertRows revision object.references (upsertObject object revision db).objects
    edges := appendEdges object.id object.references (db.edges.erase object.id)
    locations := (db.locations.erase object.id).insert object.id }

theorem indexObject_eq_ok {object : StoredObject} {revision : UInt64} {db db' : Database}
    (h : indexObject object revision db = .ok db') :
    revision ≤ maxSqliteInteger ∧ db' = indexed object revision db ∧ db'.Consistent := by
  simp only [indexObject, Except.bind_eq_ok, toSqlU64_eq_ok, execute_eq_ok,
    foldlM_execute_eq_ok, foldl_upsertTarget, foldl_insertEdge] at h
  obtain ⟨_, ⟨hrevision, rfl⟩, _, ⟨-, rfl⟩, _, ⟨-, rfl⟩, _, ⟨-, rfl⟩, _, ⟨-, rfl⟩, _, ⟨-, rfl⟩,
    hconsistent, rfl⟩ := h
  exact ⟨hrevision, rfl, hconsistent⟩

theorem setRevision_eq_ok {revision : UInt64} {db db' : Database}
    (h : setRevision revision db = .ok db') :
    revision ≤ maxSqliteInteger ∧ db' = { db with revision := revision } ∧ db'.Consistent := by
  simp only [setRevision, Except.bind_eq_ok, toSqlU64_eq_ok, execute_eq_ok] at h
  obtain ⟨_, ⟨hrevision, rfl⟩, hconsistent, rfl⟩ := h
  exact ⟨hrevision, rfl, hconsistent⟩

section Indexed

variable {object : StoredObject} {revision : UInt64} {db : Database} {id : ObjectId}

theorem get_indexed_self (object : StoredObject) (revision : UInt64) (db : Database) :
    ∃ row, (indexed object revision db).objects[object.id]? = some row ∧ row.mirrors object := by
  have hrow : (upsertObject object revision db).objects[object.id]? = some
      ⟨some object.kind, some object.object.schemaVersion, .present, some object.bytes.length,
        ((db.objects[object.id]?).map (·.firstSeenRevision)).getD revision⟩ :=
    BTreeMap.get_insert_self _ _ _
  exact ⟨_, get_upsertRows_some hrow, rfl, rfl, rfl, rfl⟩

theorem get_upsertObject_of_ne (hne : object.id ≠ id) :
    (upsertObject object revision db).objects[id]? = db.objects[id]? :=
  BTreeMap.get_insert_of_ne _ _ hne

theorem get_indexed_some (hne : object.id ≠ id) {row : ObjectRow}
    (hrow : db.objects[id]? = some row) :
    (indexed object revision db).objects[id]? =
      some { row with kind := row.kind.or (guessedKind object.references id) } :=
  get_upsertRows_some ((get_upsertObject_of_ne hne).trans hrow)

theorem get_indexed_target {edge : ReferenceEdge} (hedge : edge ∈ object.references)
    (hne : object.id ≠ edge.id) (hnone : db.objects[edge.id]? = none) :
    (indexed object revision db).objects[edge.id]? =
      some ⟨guessedKind object.references edge.id, none, .promised, none, revision⟩ :=
  get_upsertRows_target hedge ((get_upsertObject_of_ne hne).trans hnone)

theorem get_indexed_other (hne : object.id ≠ id)
    (hedges : ∀ edge ∈ object.references, edge.id ≠ id) :
    (indexed object revision db).objects[id]? = db.objects[id]? :=
  (get_upsertRows_other hedges).trans (get_upsertObject_of_ne hne)

theorem edgesOf_indexed_self (object : StoredObject) (revision : UInt64) (db : Database) :
    (indexed object revision db).edgesOf object.id = object.references := by
  have hedges := get_appendEdges_self object.id object.references (db.edges.erase object.id)
  rwa [Std.ExtTreeMap.getElem?_erase_self, Option.getD_none, List.nil_append] at hedges

theorem edgesOf_indexed_of_ne (hne : object.id ≠ id) :
    (indexed object revision db).edgesOf id = db.edgesOf id := by
  have hedges := get_appendEdges_of_ne hne object.references (db.edges.erase object.id)
  rw [Std.ExtTreeMap.getElem?_erase, if_neg (compare_ne_eq_iff.mpr hne)] at hedges
  rw [edgesOf, edgesOf]
  exact congrArg (·.getD []) hedges

theorem mem_locations_indexed :
    id ∈ (indexed object revision db).locations ↔ object.id = id ∨ id ∈ db.locations := by
  simp only [indexed, BTreeSet.mem_insert_iff, BTreeSet.mem_erase_iff]
  tauto

end Indexed

end Database

/-! ### Indexing and the snapshot -/

section Snapshots

variable {s : MemorySnapshot} {o : StoredObject}

theorem addEdgePromises_eq (s : MemorySnapshot) (o : StoredObject) :
    ∃ promised, SqliteStore.addEdgePromises s o = { s with promised := promised } ∧
      ∀ id, id ∈ promised ↔ id ∈ s.promised ∨
        (∃ edge ∈ o.references, edge.id = id) ∧ s.objects[id]? = none ∧ id ∉ s.quarantined := by
  rw [SqliteStore.addEdgePromises]
  generalize o.references = edges
  induction edges generalizing s with
  | nil => exact ⟨s.promised, rfl, by simp⟩
  | cons edge edges ih =>
      rw [List.foldl_cons]
      obtain ⟨promised, heq, hmem⟩ := ih (if !s.objects.contains edge.id &&
        !s.quarantined.contains edge.id && !s.promised.contains edge.id then
          { s with promised := s.promised.insert edge.id } else s)
      refine ⟨promised, ?_, fun id => ?_⟩
      · rw [heq]
        split <;> rfl
      · rw [hmem]
        -- the edge adds its target, if it is nowhere yet
        split
        next hnew =>
            simp only [Bool.and_eq_true, Bool.not_eq_true', BTreeMap.contains_eq_false_iff] at hnew
            obtain ⟨⟨hobject, hquarantined⟩, -⟩ := hnew
            rw [← Bool.not_eq_true, ← Std.ExtTreeSet.mem_iff_contains] at hquarantined
            simp only [BTreeSet.mem_insert_iff, List.mem_cons, exists_eq_or_imp]
            constructor
            · rintro ((rfl | hid) | ⟨hedge, hopen⟩)
              · exact .inr ⟨.inl rfl, hobject, hquarantined⟩
              · exact .inl hid
              · exact .inr ⟨.inr hedge, hopen⟩
            · rintro (hid | ⟨rfl | hedge, hopen⟩)
              · exact .inl (.inr hid)
              · exact .inl (.inl rfl)
              · exact .inr ⟨hedge, hopen⟩
        next hold =>
            simp only [List.mem_cons, exists_eq_or_imp]
            constructor
            · rintro (hid | ⟨hedge, hopen⟩)
              · exact .inl hid
              · exact .inr ⟨.inr hedge, hopen⟩
            · rintro (hid | ⟨rfl | hedge, hobject, hquarantined⟩)
              · exact .inl hid
              · refine .inl (Std.ExtTreeSet.mem_iff_contains.mpr ?_)
                rw [Std.ExtTreeSet.mem_iff_contains, Bool.not_eq_true] at hquarantined
                rw [← BTreeMap.contains_eq_false_iff] at hobject
                simpa [hobject, hquarantined] using hold
              · exact .inr ⟨hedge, hobject, hquarantined⟩

/-- The snapshot with an object in it, and promises for its targets. -/
def indexSnapshot (s : MemorySnapshot) (o : StoredObject) : MemorySnapshot :=
  SqliteStore.addEdgePromises
    { s with objects := s.objects.insert o.id o, promised := s.promised.erase o.id } o

theorem indexSnapshot_objects (s : MemorySnapshot) (o : StoredObject) :
    (indexSnapshot s o).objects = s.objects.insert o.id o := by
  obtain ⟨promised, heq, -⟩ := addEdgePromises_eq
    { s with objects := s.objects.insert o.id o, promised := s.promised.erase o.id } o
  rw [indexSnapshot, heq]

theorem indexSnapshot_quarantined (s : MemorySnapshot) (o : StoredObject) :
    (indexSnapshot s o).quarantined = s.quarantined := by
  obtain ⟨promised, heq, -⟩ := addEdgePromises_eq
    { s with objects := s.objects.insert o.id o, promised := s.promised.erase o.id } o
  rw [indexSnapshot, heq]

theorem mem_indexSnapshot_promised {id : ObjectId} :
    id ∈ (indexSnapshot s o).promised ↔ (o.id ≠ id ∧ id ∈ s.promised) ∨
      (∃ edge ∈ o.references, edge.id = id) ∧ o.id ≠ id ∧ s.objects[id]? = none ∧
        id ∉ s.quarantined := by
  obtain ⟨promised, heq, hmem⟩ := addEdgePromises_eq
    { s with objects := s.objects.insert o.id o, promised := s.promised.erase o.id } o
  have hget : (s.objects.insert o.id o)[id]? = none ↔ o.id ≠ id ∧ s.objects[id]? = none := by
    by_cases hid : o.id = id
    · subst hid
      simp
    · simp [BTreeMap.get_insert_of_ne _ _ hid, hid]
  rw [indexSnapshot, heq, hmem]
  simp only [BTreeSet.mem_erase_iff, hget, and_assoc]

/-- **Indexing an object mirrors adding it to the snapshot.** -/
theorem MirrorsObjects.index {db : Database} (h : MirrorsObjects db s)
    (hfree : ∀ id, id ∉ s.quarantined) (o : StoredObject) (revision : UInt64) :
    MirrorsObjects (Database.indexed o revision db) (indexSnapshot s o) where
  present id o' ho' := by
    rw [indexSnapshot_objects] at ho'
    rcases BTreeMap.get_insert_eq_some_iff.mp ho' with ⟨rfl, rfl⟩ | ⟨hne, ho'⟩
    · exact Database.get_indexed_self o revision db
    · obtain ⟨row, hrow, hkind, hschema, hpresence, hlength⟩ := h.present id o' ho'
      exact ⟨_, Database.get_indexed_some hne hrow, by simp [hkind], hschema, hpresence, hlength⟩
  promised id hid := by
    rcases mem_indexSnapshot_promised.mp hid with ⟨hne, hid⟩ | ⟨⟨edge, hedge, rfl⟩, hne, hnone, -⟩
    · obtain ⟨row, hrow, hpresence⟩ := h.promised id hid
      exact ⟨_, Database.get_indexed_some hne hrow, hpresence⟩
    · cases hrow : db.objects[edge.id]? with
      | none => exact ⟨_, Database.get_indexed_target hedge hne hrow, rfl⟩
      | some row =>
          refine ⟨_, Database.get_indexed_some hne hrow, ?_⟩
          rcases h.known_cases hrow with ⟨o', ho', -⟩ | ⟨hpresence, -⟩ | ⟨-, hquarantined⟩
          · rw [hnone] at ho'
            cases ho'
          · exact hpresence
          · exact absurd hquarantined (hfree _)
  quarantined id hid := by
    rw [indexSnapshot_quarantined] at hid
    exact absurd hid (hfree id)
  known id row hrow := by
    rw [indexSnapshot_objects, mem_indexSnapshot_promised]
    by_cases hne : o.id = id
    · exact .inl ⟨o, hne ▸ BTreeMap.get_insert_self _ _ _⟩
    · rw [BTreeMap.get_insert_of_ne _ _ hne]
      cases hold : db.objects[id]? with
      | some row' =>
          rcases h.known id row' hold with hid | hid | hid
          · exact .inl hid
          · exact .inr (.inl (.inl ⟨hne, hid⟩))
          · exact absurd hid (hfree id)
      | none =>
          by_cases hedge : ∃ edge ∈ o.references, edge.id = id
          · have hnone : s.objects[id]? = none := by
              cases hget : s.objects[id]? with
              | none => rfl
              | some o' =>
                  obtain ⟨row', hrow', -⟩ := h.present id o' hget
                  rw [hold] at hrow'
                  cases hrow'
            exact .inr (.inl (.inr ⟨hedge, hne, hnone, hfree id⟩))
          · have hedges : ∀ edge ∈ o.references, edge.id ≠ id :=
              fun edge hmem hid => hedge ⟨edge, hmem, hid⟩
            rw [Database.get_indexed_other hne hedges, hold] at hrow
            cases hrow
  edges id := by
    rw [indexSnapshot_objects]
    by_cases hne : o.id = id
    · subst hne
      rw [Database.edgesOf_indexed_self, BTreeMap.get_insert_self]
      rfl
    · rw [Database.edgesOf_indexed_of_ne hne, BTreeMap.get_insert_of_ne _ _ hne]
      exact h.edges id
  locations id := by
    rw [indexSnapshot_objects, Database.mem_locations_indexed, h.locations]
    by_cases hne : o.id = id
    · subst hne
      simp
    · rw [BTreeMap.get_insert_of_ne _ _ hne]
      simp [hne]

end Snapshots

end RGit
