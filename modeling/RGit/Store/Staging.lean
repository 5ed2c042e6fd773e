/-
RGit/Store/Staging.lean

The functions of the in-memory store, taken apart: when each of them
succeeds, and what it then returns.  Later modules use these statements and
do not unfold the functions again.
-/
import RGit.Lib.Loops
import RGit.Store.Memory
import RGit.Objects.Admission

namespace RGit

namespace MemoryStore

/-! ### Lookups -/

section Lookups

variable {s : MemorySnapshot} {id : ObjectId} {o : StoredObject}

theorem visibleObject_eq_ok :
    visibleObject s id = .ok o ↔ id ∉ s.quarantined ∧ s.objects[id]? = some o := by
  rw [Std.ExtTreeSet.mem_iff_contains, visibleObject]
  cases s.quarantined.contains id with
  | true => simp
  | false =>
      cases s.objects[id]? with
      | none => simp
      | some object => simp

theorem closureObject_eq_ok :
    closureObject s id = .ok o ↔ id ∉ s.quarantined ∧ s.objects[id]? = some o := by
  rw [← visibleObject_eq_ok, closureObject]
  cases visibleObject s id with
  | ok object => rfl
  | error e => cases e <;> simp

theorem checkEdgeKind_eq_ok {edge : ReferenceEdge} {object : StoredObject} :
    checkEdgeKind edge object = .ok o ↔ object = o ∧ ∀ kind ∈ edge.expectedKind, o.kind = kind := by
  rw [checkEdgeKind]
  cases edge.expectedKind with
  | none => simp
  | some kind =>
      simp only [Except.ite_error_eq_ok, ne_eq, not_not, Except.ok.injEq, Option.mem_def,
        Option.some.injEq, forall_eq']
      constructor
      · rintro ⟨hkind, rfl⟩
        exact ⟨rfl, hkind⟩
      · rintro ⟨rfl, hkind⟩
        exact ⟨hkind, rfl⟩

theorem closureCheck_eq_ok {edge : ReferenceEdge} :
    closureCheck s edge = .ok o ↔
      edge.id ∉ s.quarantined ∧ s.objects[edge.id]? = some o ∧
        ∀ kind ∈ edge.expectedKind, o.kind = kind := by
  simp only [closureCheck, Except.bind_eq_ok, closureObject_eq_ok, checkEdgeKind_eq_ok]
  constructor
  · rintro ⟨_, ⟨hfree, hget⟩, rfl, hkind⟩
    exact ⟨hfree, hget, hkind⟩
  · rintro ⟨hfree, hget, hkind⟩
    exact ⟨o, ⟨hfree, hget⟩, rfl, hkind⟩

theorem checkExpected_eq_ok {update : RefUpdate} :
    checkExpected s update = .ok () ↔
      s.references[update.key]? = match update.expected with
        | .absent => none
        | .exact expected => some expected := by
  rw [checkExpected]
  cases update.expected with
  | absent => simp [Option.isNone_iff_eq_none]
  | exact expected => simp

theorem nextState_eq_ok {publication : Publication} {update : RefUpdate}
    {state : ReferenceState} :
    nextState s publication update = .ok state ↔
      state.target = update.target ∧ state.operation = publication.operation ∧
        match s.references[update.key]? with
        | none => state.generation = 0
        | some old => checkedAdd old.generation 1 = some state.generation := by
  obtain ⟨target, generation, operation⟩ := state
  rw [nextState]
  cases s.references[update.key]? with
  | none => simp [eq_comm, and_comm]
  | some old =>
      simp only [Except.bind_eq_ok, Except.ofOption_eq_ok, Except.ok.injEq,
        ReferenceState.mk.injEq]
      constructor
      · rintro ⟨g, hg, rfl, rfl, rfl⟩
        exact ⟨rfl, rfl, hg⟩
      · rintro ⟨rfl, rfl, hg⟩
        exact ⟨_, hg, rfl, rfl, rfl⟩

end Lookups

/-! ### Decoding -/

section Decoding

variable [Unicode] [Hashes] {id : ObjectId} {b : Bytes} {o : StoredObject}

theorem decode_eq_ok :
    decode id b = .ok o ↔
      AnyObject.decode b .bulk = .ok o.object ∧ o.object.id id.algorithm = .ok id ∧
        o.object.references = .ok o.references ∧ o.id = id ∧ o.bytes = b := by
  obtain ⟨id', b', object, references⟩ := o
  simp only [decode, AnyObject.decodeVerified, Except.bind_eq_ok, Except.mapError_eq_ok,
    Except.ite_error_eq_ok, ne_eq, not_not, Except.ok.injEq, StoredObject.new_eq_ok,
    StoredObject.mk.injEq]
  constructor
  · rintro ⟨_, ⟨_, hdecode, _, hid, rfl, rfl⟩, _, hreferences, rfl, rfl, rfl, rfl⟩
    exact ⟨hdecode, hid, hreferences, rfl, rfl⟩
  · rintro ⟨hdecode, hid, hreferences, rfl, rfl⟩
    exact ⟨_, ⟨_, hdecode, _, hid, rfl, rfl⟩, _, hreferences, rfl, rfl, rfl, rfl⟩

/-- The identifier of a decoded object is the hash of its bytes. -/
theorem id_of_decode (h : decode id b = .ok o) :
    id = ObjectId.fromPayload (Discriminant.code o.kind) o.object.schemaVersion b id.algorithm := by
  obtain ⟨hdecode, hid, -, -, -⟩ := decode_eq_ok.mp h
  obtain ⟨m, hvalue, hread, -, ⟨e, he⟩, -⟩ := RGit.decode_eq_ok.mp hdecode
  obtain ⟨-, hraw⟩ := Admitted.of_decodeCanonical hread
  have hadmitted := admitted_of_decode hread he
  simp only [AnyObject.id, hvalue, hadmitted.2, hraw, Except.mapError, Except.ok_bind,
    Except.ok.injEq] at hid
  exact hid.symm

/-- An identifier has one decoded object. -/
theorem decode_bytes (h : decode id b = .ok o) : decode id o.bytes = .ok o := by
  obtain ⟨-, -, -, -, rfl⟩ := decode_eq_ok.mp h
  exact h

end Decoding

/-! ### Closures -/

/-- Following an edge through the stored objects, marks and kinds aside. -/
def storedEdge (objects : BTreeMap ObjectId StoredObject) (edge : ReferenceEdge) :
    Except Unit StoredObject := Except.ofOption objects[edge.id]? ()

/-- The edges reachable from `roots` through the stored objects. -/
abbrev ReachedEdge (objects : BTreeMap ObjectId StoredObject) (roots : List ReferenceEdge) :
    ReferenceEdge → Prop :=
  Reached (storedEdge objects) StoredObject.references roots

/-- Everything reachable from `roots` is stored and of the declared kind. -/
def Complete (objects : BTreeMap ObjectId StoredObject) (roots : List ReferenceEdge) : Prop :=
  ∀ edge, ReachedEdge objects roots edge →
    ∃ o, objects[edge.id]? = some o ∧ ∀ kind ∈ edge.expectedKind, o.kind = kind

/-- Every object of `objects` is in `objects'`. -/
def Grows (objects objects' : BTreeMap ObjectId StoredObject) : Prop :=
  ∀ id o, objects[(id : ObjectId)]? = some o → objects'[id]? = some o

section Closures

variable {s : MemorySnapshot} {objects objects' : BTreeMap ObjectId StoredObject}
  {roots : List ReferenceEdge}

theorem Grows.refl (objects : BTreeMap ObjectId StoredObject) : Grows objects objects :=
  fun _ _ h => h

theorem Grows.trans {objects'' : BTreeMap ObjectId StoredObject} (h : Grows objects objects')
    (h' : Grows objects' objects'') : Grows objects objects'' := fun id o ho => h' id o (h id o ho)

theorem Grows.insert {id : ObjectId} {o : StoredObject} (h : objects[id]? = none) :
    Grows objects (objects.insert id o) := by
  intro id' o' ho'
  refine BTreeMap.get_insert_eq_some_iff.mpr (.inr ⟨?_, ho'⟩)
  rintro rfl
  rw [h] at ho'
  cases ho'

theorem storedEdge_eq_ok {edge : ReferenceEdge} {o : StoredObject} :
    storedEdge objects edge = .ok o ↔ objects[edge.id]? = some o := by
  rw [storedEdge, Except.ofOption_eq_ok]

/-- New objects do not open a complete closure again. -/
theorem Complete.grow (h : Complete objects roots) (hgrow : Grows objects objects') :
    Complete objects' roots := by
  intro edge hedge
  have hold : ReachedEdge objects roots edge := by
    refine Reached.of_agree (fun e he => ?_) (fun e o ho => ?_) hedge
    · obtain ⟨o, ho, -⟩ := h e he
      exact ⟨o, storedEdge_eq_ok.mpr ho⟩
    · exact storedEdge_eq_ok.mpr (hgrow _ _ (storedEdge_eq_ok.mp ho))
  obtain ⟨o, ho, hkind⟩ := h edge hold
  exact ⟨o, hgrow _ _ ho, hkind⟩

/-- Fewer roots reach less. -/
theorem Complete.mono {roots' : List ReferenceEdge} (h : Complete objects roots)
    (hsub : roots' ⊆ roots) : Complete objects roots' := by
  intro edge hedge
  refine h edge ?_
  clear h
  induction hedge with
  | root he => exact .root (hsub he)
  | step _ ho he ih => exact .step ih ho he

theorem closureFrom_reached {closure : BTreeMap ObjectId StoredObject} :
    closureFrom s roots = .ok closure ↔
      (∀ edge, Reached (closureCheck s) StoredObject.references roots edge →
        ∃ o, closureCheck s edge = .ok o) ∧
      ∀ (id : ObjectId) (o : StoredObject), closure[id]? = some o ↔
        ∃ edge, Reached (closureCheck s) StoredObject.references roots edge ∧ edge.id = id ∧
          closureCheck s edge = .ok o :=
  workLoop_eq_ok fun _ _ h => (closureCheck_eq_ok.mp h).2.1

theorem storedEdge_of_closureCheck {edge : ReferenceEdge} {o : StoredObject}
    (h : closureCheck s edge = .ok o) : storedEdge s.objects edge = .ok o :=
  storedEdge_eq_ok.mpr (closureCheck_eq_ok.mp h).2.1

/-- A closure that was computed is complete. -/
theorem Complete.of_closureFrom {closure : BTreeMap ObjectId StoredObject}
    (h : closureFrom s roots = .ok closure) : Complete s.objects roots := by
  obtain ⟨hok, -⟩ := closureFrom_reached.mp h
  intro edge hedge
  have hreached := Reached.of_agree hok (fun _ _ => storedEdge_of_closureCheck) hedge
  obtain ⟨o, ho⟩ := hok edge hreached
  obtain ⟨-, hget, hkind⟩ := closureCheck_eq_ok.mp ho
  exact ⟨o, hget, hkind⟩

/-- A complete closure with nothing quarantined in it can be computed. -/
theorem Complete.closureFrom_isOk (h : Complete s.objects roots) (hfree : ∀ id, id ∉ s.quarantined) :
    ∃ closure, closureFrom s roots = .ok closure := by
  have hok : ∀ edge, Reached (closureCheck s) StoredObject.references roots edge →
      ∃ o, closureCheck s edge = .ok o := by
    intro edge hedge
    have hstored : ReachedEdge s.objects roots edge := by
      induction hedge with
      | root he => exact .root he
      | step _ ho he ih => exact .step ih (storedEdge_of_closureCheck ho) he
    obtain ⟨o, ho, hkind⟩ := h edge hstored
    exact ⟨o, closureCheck_eq_ok.mpr ⟨hfree _, ho, hkind⟩⟩
  exact workLoop_isOk (fun _ _ h => (closureCheck_eq_ok.mp h).2.1) hok workInvariant_init

end Closures

/-! ### Staging objects -/

/-- What staging objects does to a snapshot. -/
structure StagesObjects [Unicode] [Hashes] (s t : MemorySnapshot) : Prop where
  grows : Grows s.objects t.objects
  decoded : ∀ (id : ObjectId) (o : StoredObject), t.objects[id]? = some o →
    s.objects[id]? = some o ∨ decode id o.bytes = .ok o
  promised_kept : ∀ id, id ∈ s.promised → id ∈ t.promised ∨ t.objects.contains id = true
  promised_old : ∀ id, id ∈ t.promised → id ∈ s.promised
  promised_open : ∀ id, id ∈ t.promised → t.objects[id]? = s.objects[id]?
  quarantined : t.quarantined = s.quarantined
  references : t.references = s.references
  revision : t.revision = s.revision

section Objects

variable [Unicode] [Hashes] {s t : MemorySnapshot}

theorem StagesObjects.refl (s : MemorySnapshot) : StagesObjects s s where
  grows := .refl _
  decoded _ _ h := .inl h
  promised_kept _ h := .inl h
  promised_old _ h := h
  promised_open _ _ := rfl
  quarantined := rfl
  references := rfl
  revision := rfl

theorem stageObject_eq_ok {candidate : PublicationObject} :
    stageObject s candidate = .ok t ↔
      ∃ decoded, decode candidate.id candidate.bytes = .ok decoded ∧
        ((∃ existing, s.objects[candidate.id]? = some existing ∧ existing.bytes = decoded.bytes ∧
          t = { s with promised := s.promised.erase candidate.id }) ∨
        (s.objects[candidate.id]? = none ∧
          t = { s with
            objects := s.objects.insert candidate.id decoded
            promised := s.promised.erase candidate.id })) := by
  rw [stageObject, Except.bind_eq_ok]
  refine exists_congr fun decoded => and_congr_right fun _ => ?_
  cases s.objects[candidate.id]? with
  | none => simp [eq_comm]
  | some existing =>
      simp only [Except.ite_error_eq_ok, ne_eq, not_not, Except.ok.injEq, Option.some.injEq,
        exists_eq_left', reduceCtorEq, false_and, or_false, eq_comm (a := t)]

/-- One more object. -/
theorem StagesObjects.step {candidate : PublicationObject} {t' : MemorySnapshot}
    (h : StagesObjects s t) (hstep : stageObject t candidate = .ok t') : StagesObjects s t' := by
  obtain ⟨decoded, hdecode, ⟨existing, hget, -, rfl⟩ | ⟨hnone, rfl⟩⟩ := stageObject_eq_ok.mp hstep
  · refine ⟨h.grows, h.decoded, fun id hid => ?_, fun id hid => ?_, fun id hid => ?_,
      h.quarantined, h.references, h.revision⟩
    · rcases h.promised_kept id hid with hid | hid
      · by_cases heq : candidate.id = id
        · subst heq
          exact .inr (BTreeMap.contains_iff_get.mpr ⟨existing, hget⟩)
        · exact .inl (BTreeSet.mem_erase_iff.mpr ⟨heq, hid⟩)
      · exact .inr hid
    · exact h.promised_old id (BTreeSet.mem_erase_iff.mp hid).2
    · exact h.promised_open id (BTreeSet.mem_erase_iff.mp hid).2
  · refine ⟨h.grows.trans (.insert hnone), fun id o ho => ?_, fun id hid => ?_, fun id hid => ?_,
      fun id hid => ?_, h.quarantined, h.references, h.revision⟩
    · rcases BTreeMap.get_insert_eq_some_iff.mp ho with ⟨rfl, rfl⟩ | ⟨-, ho⟩
      · exact .inr (decode_bytes hdecode)
      · exact h.decoded id o ho
    · rcases h.promised_kept id hid with hid | hid
      · by_cases heq : candidate.id = id
        · subst heq
          exact .inr Std.ExtTreeMap.contains_insert_self
        · exact .inl (BTreeSet.mem_erase_iff.mpr ⟨heq, hid⟩)
      · right
        rw [Std.ExtTreeMap.contains_insert, hid, Bool.or_true]
    · exact h.promised_old id (BTreeSet.mem_erase_iff.mp hid).2
    · obtain ⟨hne, hid⟩ := BTreeSet.mem_erase_iff.mp hid
      exact (BTreeMap.get_insert_of_ne _ _ hne).trans (h.promised_open id hid)

/-- The staged objects are stored. -/
theorem stageObjects_stored {candidates : List PublicationObject}
    (h : candidates.foldlM stageObject s = .ok t) :
    ∀ candidate ∈ candidates, candidate.id ∈ t.objects := by
  induction candidates generalizing s with
  | nil => simp
  | cons candidate candidates ih =>
      simp only [List.foldlM_cons, Except.bind_eq_ok] at h
      obtain ⟨u, hu, h⟩ := h
      have hstored : ∃ o, u.objects[candidate.id]? = some o := by
        obtain ⟨decoded, -, ⟨existing, hget, -, rfl⟩ | ⟨-, rfl⟩⟩ := stageObject_eq_ok.mp hu
        · exact ⟨existing, hget⟩
        · exact ⟨decoded, BTreeMap.get_insert_self _ _ _⟩
      have hgrows : Grows u.objects t.objects :=
        foldlM_preserves (P := fun w => Grows u.objects w.objects)
          (fun _ _ _ _ hs hstep => hs.trans ((StagesObjects.refl _).step hstep).grows) (.refl _) h
      intro c hc
      rcases List.mem_cons.mp hc with rfl | hc
      · obtain ⟨o, ho⟩ := hstored
        exact BTreeMap.mem_iff_get.mpr ⟨o, hgrows _ _ ho⟩
      · exact ih h c hc

/-- A stored object was there before, or comes from a candidate. -/
theorem stageObjects_origin {candidates : List PublicationObject}
    (h : candidates.foldlM stageObject s = .ok t) {id : ObjectId} {o : StoredObject}
    (ho : t.objects[id]? = some o) :
    s.objects[id]? = some o ∨
      ∃ candidate ∈ candidates, candidate.id = id ∧ decode id candidate.bytes = .ok o := by
  induction candidates generalizing s with
  | nil =>
      cases h
      exact .inl ho
  | cons candidate candidates ih =>
      simp only [List.foldlM_cons, Except.bind_eq_ok] at h
      obtain ⟨u, hu, h⟩ := h
      rcases ih h with hold | ⟨c, hc, hid, hdecode⟩
      · obtain ⟨decoded, hdecode, ⟨_, -, -, rfl⟩ | ⟨-, rfl⟩⟩ := stageObject_eq_ok.mp hu
        · exact .inl hold
        · rcases BTreeMap.get_insert_eq_some_iff.mp hold with ⟨rfl, rfl⟩ | ⟨-, hold⟩
          · exact .inr ⟨candidate, List.mem_cons_self, rfl, hdecode⟩
          · exact .inl hold
      · exact .inr ⟨c, List.mem_cons_of_mem _ hc, hid, hdecode⟩

theorem StagesObjects.of_loop {candidates : List PublicationObject}
    (h : candidates.foldlM stageObject s = .ok t) : StagesObjects s t :=
  foldlM_preserves (P := StagesObjects s) (fun _ _ _ _ hs hstep => hs.step hstep) (.refl s) h

end Objects

/-! ### Counters -/

theorem toNat_of_checkedAdd {a b : UInt64} (h : checkedAdd a 1 = some b) :
    b.toNat = a.toNat + 1 := by
  rw [checkedAdd] at h
  split at h
  · next hlt =>
      cases h
      rw [UInt64.toNat_add]
      simp only [UInt64.reduceToNat] at hlt ⊢
      omega
  · cases h

/-! ### Line states -/

section LineStates

variable {publication : Publication} {s : MemorySnapshot} {lineId : LineId} {update : RefUpdate}
  {state : Entries}

theorem validateLinePredecessor_eq_ok {expected : ExpectedRef} :
    validateLinePredecessor state expected = .ok () ↔
      ∃ generation, (valueField state 6).bind valueUnsigned = some generation ∧
        match expected with
        | .absent => generation = 0 ∧ (valueField state 7).bind objectId = none
        | .exact old => checkedAdd old.generation 1 = some generation ∧
            (valueField state 7).bind objectId = some old.target := by
  rw [validateLinePredecessor, Except.bind_eq_ok]
  refine exists_congr fun generation => ?_
  rw [Except.ofOption_eq_ok]
  refine and_congr_right fun _ => ?_
  cases expected with
  | absent => simp
  | exact old =>
      simp only [Except.bind_eq_ok, Except.ofOption_eq_ok, Except.ite_else_error_eq_ok, and_true]
      constructor
      · rintro ⟨following, hfollowing, rfl, hprevious⟩
        exact ⟨hfollowing, hprevious⟩
      · rintro ⟨hfollowing, hprevious⟩
        exact ⟨generation, hfollowing, rfl, hprevious⟩

/-- What a checked line state says. -/
theorem checkLineState_eq_ok (h : checkLineState publication s lineId update = .ok state) :
    (∃ o, visibleObject s update.target = .ok o ∧ o.object.value = .map state) ∧
      (valueField state 3).bind valueBytes = some lineId.1 ∧
      objectIdField state 12 = some publication.operation ∧
      validateLinePredecessor state update.expected = .ok () := by
  simp only [checkLineState, Except.bind_eq_ok, Except.ofOption_eq_ok, Except.ite_error_eq_ok,
    ne_eq, not_not, Except.exists_unit_iff, Except.ok.injEq] at h
  obtain ⟨o, ho, m, hm, line, hline, hbytes, hoperation, hpredecessor, rfl⟩ := h
  refine ⟨⟨o, ho, ?_⟩, by rw [hline]; exact hbytes, hoperation, hpredecessor⟩
  cases hvalue : o.object.value with
  | map m' =>
      rw [hvalue] at hm
      exact congrArg _ (Option.some.inj hm)
  | _ => simp [hvalue, valueMap] at hm

end LineStates

/-! ### Staging references -/

/-- What `stage` asks of one update, apart from the operation. -/
structure UpdateOk (s staged : MemorySnapshot) (update : RefUpdate) : Prop where
  expected : checkExpected s update = .ok ()
  target : ∃ target, visibleObject staged update.target = .ok target ∧
    target.kind = update.key.expectedKind ∧ referenceIdentityMatches update.key target = true

section References

variable {s staged : MemorySnapshot} {publication : Publication}

theorem checkUpdate_eq_ok {keys keys' : List ReferenceKey} {update : RefUpdate} :
    checkUpdate s staged keys update = .ok keys' ↔
      (UpdateOk s staged update ∧ update.key ∉ keys) ∧ update.key :: keys = keys' := by
  simp only [checkUpdate, Except.ite_error_eq_ok, Except.bind_eq_ok, Except.exists_unit_iff,
    ne_eq, not_not, Bool.not_eq_true', Bool.not_eq_false, Except.ok.injEq]
  constructor
  · rintro ⟨hnew, hexpected, target, hvisible, hkind, hidentity, rfl⟩
    exact ⟨⟨⟨hexpected, target, hvisible, hkind, hidentity⟩, hnew⟩, rfl⟩
  · rintro ⟨⟨⟨hexpected, target, hvisible, hkind, hidentity⟩, hnew⟩, rfl⟩
    exact ⟨hnew, hexpected, target, hvisible, hkind, hidentity, rfl⟩

theorem checkUpdates_isOk_iff {updates : List RefUpdate} :
    (∃ keys, updates.foldlM (checkUpdate s staged) [] = .ok keys) ↔
      (updates.map (·.key)).Nodup ∧ ∀ update ∈ updates, UpdateOk s staged update := by
  have hstep : ∀ keys update keys', checkUpdate s staged keys update = .ok keys' ↔
      (UpdateOk s staged update ∧ update.key ∉ keys) ∧ update.key :: keys = keys' :=
    fun _ _ _ => checkUpdate_eq_ok
  simp only [foldlM_eq_ok hstep, exists_and_left, exists_eq', and_true, walk_and_left, walk_seen,
    List.not_mem_nil, not_false_eq_true, implies_true]
  exact and_comm

/-- The checks of `stage`, in one statement. -/
theorem checkStaged_eq_ok :
    checkStaged publication s staged = .ok () ↔
      ∃ operation, visibleObject staged publication.operation = .ok operation ∧
        operation.kind = .operation ∧ (publication.updates.map (·.key)).Nodup ∧
        (∀ update ∈ publication.updates, UpdateOk s staged update) ∧
        validateOperation publication operation staged = .ok () ∧
        ∃ closure, closureFrom staged (publicationRoots publication) = .ok closure ∧
          validateAffectedGraphs closure = .ok () := by
  simp only [checkStaged, Except.bind_eq_ok, Except.ite_error_eq_ok, ne_eq, not_not,
    Except.exists_unit_iff]
  refine exists_congr fun operation => and_congr_right fun _ => and_congr_right fun _ => ?_
  rw [← and_assoc, ← checkUpdates_isOk_iff]
  constructor
  · rintro ⟨keys, hkeys, h⟩
    exact ⟨⟨keys, hkeys⟩, h⟩
  · rintro ⟨⟨keys, hkeys⟩, h⟩
    exact ⟨keys, hkeys, h⟩

/-- What the last loop of `stage` leaves. -/
structure Installs (s : MemorySnapshot) (publication : Publication)
    (old references : BTreeMap ReferenceKey ReferenceState) : Prop where
  installed : ∀ update ∈ publication.updates,
    ∃ state, nextState s publication update = .ok state ∧ references[update.key]? = some state
  kept : ∀ key, key ∉ publication.updates.map (·.key) → references[key]? = old[key]?

theorem installReferences_eq_ok {old references : BTreeMap ReferenceKey ReferenceState}
    (hkeys : (publication.updates.map (·.key)).Nodup) :
    publication.updates.foldlM (installReference s publication) old = .ok references ↔
      Installs s publication old references := by
  have hloop : ∀ (updates : List RefUpdate) (old : BTreeMap ReferenceKey ReferenceState),
      (updates.map (·.key)).Nodup →
      (updates.foldlM (installReference s publication) old = .ok references ↔
        (∀ update ∈ updates, ∃ state, nextState s publication update = .ok state ∧
          references[update.key]? = some state) ∧
        ∀ key, key ∉ updates.map (·.key) → references[key]? = old[key]?) := by
    intro updates
    induction updates with
    | nil =>
        intro old _
        constructor
        · intro h
          cases h
          exact ⟨by simp, fun _ _ => rfl⟩
        · rintro ⟨-, hkept⟩
          have hsame : references = old := Std.ExtTreeMap.ext_getElem? fun key =>
            hkept key List.not_mem_nil
          rw [hsame]
          rfl
    | cons update updates ih =>
        intro old hnodup
        rw [List.map_cons, List.nodup_cons] at hnodup
        rw [List.forall_mem_cons, List.foldlM_cons]
        simp only [installReference, Except.bind_eq_ok, Except.ok.injEq, List.map_cons,
          List.mem_cons, not_or]
        constructor
        · rintro ⟨_, ⟨state, hstate, rfl⟩, hrest⟩
          obtain ⟨hinstalled, hkept⟩ := (ih _ hnodup.2).mp hrest
          refine ⟨⟨⟨state, hstate, ?_⟩, hinstalled⟩, ?_⟩
          · rw [hkept _ hnodup.1, BTreeMap.get_insert_self]
          · rintro key ⟨hne, hkey⟩
            rw [hkept key hkey, BTreeMap.get_insert_of_ne _ _ (Ne.symm hne)]
        · rintro ⟨⟨⟨state, hstate, hget⟩, hinstalled⟩, hkept⟩
          refine ⟨_, ⟨state, hstate, rfl⟩, (ih _ hnodup.2).mpr ⟨hinstalled, fun key hkey => ?_⟩⟩
          by_cases hne : key = update.key
          · subst hne
            rw [hget, BTreeMap.get_insert_self]
          · rw [hkept key ⟨hne, hkey⟩, BTreeMap.get_insert_of_ne _ _ (Ne.symm hne)]
  rw [hloop _ _ hkeys]
  exact ⟨fun ⟨h, h'⟩ => ⟨h, h'⟩, fun ⟨h, h'⟩ => ⟨h, h'⟩⟩

theorem installReferences_isOk_iff {old : BTreeMap ReferenceKey ReferenceState} :
    (∃ references,
      publication.updates.foldlM (installReference s publication) old = .ok references) ↔
      ∀ update ∈ publication.updates, ∃ state, nextState s publication update = .ok state := by
  have hloop : ∀ (updates : List RefUpdate) (old : BTreeMap ReferenceKey ReferenceState),
      (∃ references, updates.foldlM (installReference s publication) old = .ok references) ↔
        ∀ update ∈ updates, ∃ state, nextState s publication update = .ok state := by
    intro updates
    induction updates with
    | nil =>
        intro old
        exact ⟨fun _ => by simp, fun _ => ⟨old, rfl⟩⟩
    | cons update updates ih =>
        intro old
        rw [List.forall_mem_cons]
        simp only [List.foldlM_cons, installReference, Except.bind_eq_ok, Except.ok.injEq]
        constructor
        · rintro ⟨references, _, ⟨state, hstate, rfl⟩, hrest⟩
          exact ⟨⟨state, hstate⟩, (ih _).mp ⟨references, hrest⟩⟩
        · rintro ⟨⟨state, hstate⟩, hrest⟩
          obtain ⟨references, hreferences⟩ := (ih (old.insert update.key state)).mpr hrest
          exact ⟨references, _, ⟨state, hstate, rfl⟩, hreferences⟩
  exact hloop _ _

/-- Staging a publication, in one statement. -/
theorem stage_eq_ok [Unicode] [Hashes] {t : MemorySnapshot} :
    stage publication s = .ok t ↔
      ∃ staged, publication.objects.foldlM stageObject s = .ok staged ∧
        checkStaged publication s staged = .ok () ∧
        Installs s publication staged.references t.references ∧
        t = { staged with references := t.references } := by
  have hkeys : ∀ {staged}, checkStaged publication s staged = .ok () →
      (publication.updates.map (·.key)).Nodup := by
    intro staged h
    obtain ⟨-, -, -, hnodup, -⟩ := checkStaged_eq_ok.mp h
    exact hnodup
  simp only [stage, Except.bind_eq_ok, Except.exists_unit_iff, Except.ok.injEq]
  constructor
  · rintro ⟨staged, hobjects, hcheck, references, hreferences, rfl⟩
    exact ⟨staged, hobjects, hcheck, (installReferences_eq_ok (hkeys hcheck)).mp hreferences, rfl⟩
  · rintro ⟨staged, hobjects, hcheck, hinstalls, ht⟩
    exact ⟨staged, hobjects, hcheck, t.references,
      (installReferences_eq_ok (hkeys hcheck)).mpr hinstalls, ht.symm⟩

theorem stage_isOk_iff [Unicode] [Hashes] :
    (∃ t, stage publication s = .ok t) ↔
      ∃ staged, publication.objects.foldlM stageObject s = .ok staged ∧
        checkStaged publication s staged = .ok () ∧
        ∀ update ∈ publication.updates, ∃ state, nextState s publication update = .ok state := by
  simp only [stage, Except.bind_eq_ok, Except.exists_unit_iff, Except.ok.injEq]
  constructor
  · rintro ⟨_, staged, hobjects, hcheck, references, hreferences, -⟩
    exact ⟨staged, hobjects, hcheck, installReferences_isOk_iff.mp ⟨references, hreferences⟩⟩
  · rintro ⟨staged, hobjects, hcheck, hstates⟩
    obtain ⟨references, hreferences⟩ : ∃ references,
        publication.updates.foldlM (installReference s publication) staged.references =
          .ok references := installReferences_isOk_iff.mpr hstates
    exact ⟨_, staged, hobjects, hcheck, references, hreferences, rfl⟩

end References

/-! ### Publishing -/

section Publishing

variable [Unicode] [Hashes] {s t : MemorySnapshot} {publication : Publication}

theorem beginPublish_eq_ok {p : StagedPublication} :
    beginPublish publication s = .ok p ↔
      p.publication = publication ∧ p.baseRevision = s.revision ∧
        checkedAdd s.revision 1 = some p.nextRevision ∧ stage publication s = .ok p.staged := by
  obtain ⟨publication', staged, base, next⟩ := p
  simp only [beginPublish, Except.bind_eq_ok, Except.ofOption_eq_ok, Except.ok.injEq,
    StagedPublication.mk.injEq]
  constructor
  · rintro ⟨_, hnext, _, hstage, rfl, rfl, rfl, rfl⟩
    exact ⟨rfl, rfl, hnext, hstage⟩
  · rintro ⟨rfl, rfl, hnext, hstage⟩
    exact ⟨_, hnext, _, hstage, rfl, rfl, rfl, rfl⟩

theorem beginPublish_isOk_iff :
    (∃ p, beginPublish publication s = .ok p) ↔
      (∃ next, checkedAdd s.revision 1 = some next) ∧ ∃ t, stage publication s = .ok t := by
  constructor
  · rintro ⟨p, h⟩
    obtain ⟨-, -, hnext, hstage⟩ := beginPublish_eq_ok.mp h
    exact ⟨⟨_, hnext⟩, _, hstage⟩
  · rintro ⟨⟨next, hnext⟩, t, hstage⟩
    exact ⟨⟨publication, t, s.revision, next⟩,
      beginPublish_eq_ok.mpr ⟨rfl, rfl, hnext, hstage⟩⟩

/-- **When a publication is accepted, and what it leaves.** -/
theorem publish_eq_ok {validator : PublicationValidator} {results : List ReferenceState} :
    publish publication validator s = (.ok results, t) ↔
      ∃ p, beginPublish publication s = .ok p ∧ validator p.candidate = .ok () ∧
        results = p.results ∧ t = { p.staged with revision := p.nextRevision } := by
  rw [publish]
  cases hbegin : beginPublish publication s with
  | error e => simp
  | ok p =>
      obtain ⟨-, hbase, -, -⟩ := beginPublish_eq_ok.mp hbegin
      cases hvalid : validator p.candidate with
      | error e => simp [hvalid]
      | ok u => simp [hvalid, commitPublish, hbase, eq_comm]

theorem publish_isOk_iff {validator : PublicationValidator} :
    (publish publication validator s).1.isOk = true ↔
      ∃ p, beginPublish publication s = .ok p ∧ validator p.candidate = .ok () := by
  rw [Except.isOk_iff]
  constructor
  · rintro ⟨results, h⟩
    obtain ⟨p, hbegin, hvalid, -⟩ := publish_eq_ok.mp (Prod.ext h rfl)
    exact ⟨p, hbegin, hvalid⟩
  · rintro ⟨p, hbegin, hvalid⟩
    exact ⟨p.results, congrArg Prod.fst (publish_eq_ok.mpr ⟨p, hbegin, hvalid, rfl, rfl⟩)⟩

/-- A publication that fails leaves the snapshot. -/
theorem publish_error {validator : PublicationValidator} {e : StoreError}
    (h : publish publication validator s = (.error e, t)) : t = s := by
  rw [publish] at h
  cases hbegin : beginPublish publication s with
  | error e =>
      rw [hbegin] at h
      cases h
      rfl
  | ok p =>
      obtain ⟨-, hbase, -, -⟩ := beginPublish_eq_ok.mp hbegin
      rw [hbegin] at h
      simp only [commitPublish, hbase] at h
      split at h
      · cases h
        rfl
      · simp at h

/-- The results are the new states, update by update. -/
theorem StagedPublication.results_eq {p : StagedPublication}
    (h : beginPublish publication s = .ok p) :
    publication.updates.map (fun update => p.staged.references[update.key]?) =
      p.results.map some := by
  obtain ⟨rfl, -, -, hstage⟩ := beginPublish_eq_ok.mp h
  obtain ⟨_, -, -, hinstalls, -⟩ := stage_eq_ok.mp hstage
  refine map_eq_map_some_filterMap fun update hupdate => ?_
  obtain ⟨state, -, hget⟩ := hinstalls.installed update hupdate
  exact ⟨state, hget⟩

/-- There is one result for each update. -/
theorem StagedPublication.length_results {p : StagedPublication}
    (h : beginPublish publication s = .ok p) : p.results.length = publication.updates.length := by
  have hlength := congrArg List.length (results_eq h)
  simpa using hlength.symm

end Publishing

end MemoryStore

end RGit
