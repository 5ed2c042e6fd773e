/-
RGit/Store/Invariant.lean

The invariant of the in-memory store.

What an operation can do to the snapshot is said once (`put_cases`,
`markPromised_cases`, `quarantine_cases`, `publish_cases`); each case keeps
the invariant `SoundSnapshot`, so every snapshot that calls can reach has it,
whatever fails on the way and whatever the validators answer.
-/
import RGit.Store.Staging

namespace RGit

open MemoryStore

/-! ### What the operations do -/

section Cases

variable [Unicode] [Hashes] {s t : MemorySnapshot}

theorem put_cases {id : ObjectId} {bytes : Bytes} {r : Except StoreError PutOutcome}
    (h : put id bytes s = (r, t)) :
    (t = s ∧ ∃ e, r = .error e) ∨ (t = s ∧ r = .ok .alreadyPresent ∧ id ∈ s.objects) ∨
      ∃ decoded next, r = .ok .new ∧ decode id bytes = .ok decoded ∧ s.objects[id]? = none ∧
        checkedAdd s.revision 1 = some next ∧
        t = { s with
          objects := s.objects.insert id decoded
          promised := s.promised.erase id
          revision := next } := by
  rw [put] at h
  cases hdecode : decode id bytes with
  | error e =>
      rw [hdecode] at h
      cases h
      exact .inl ⟨rfl, e, rfl⟩
  | ok decoded =>
      simp only [hdecode] at h
      cases hget : s.objects[id]? with
      | some existing =>
          simp only [hget] at h
          split at h
          · cases h
            exact .inr (.inl ⟨rfl, rfl, BTreeMap.mem_iff_get.mpr ⟨existing, hget⟩⟩)
          · cases h
            exact .inl ⟨rfl, _, rfl⟩
      | none =>
          simp only [hget] at h
          cases hnext : checkedAdd s.revision 1 with
          | none =>
              simp only [hnext] at h
              cases h
              exact .inl ⟨rfl, _, rfl⟩
          | some next =>
              simp only [hnext] at h
              cases h
              exact .inr (.inr ⟨decoded, next, rfl, rfl, rfl, rfl, rfl⟩)

omit [Unicode] [Hashes] in
theorem markPromised_cases {id : ObjectId} {r : Except StoreError Unit}
    (h : markPromised id s = (r, t)) :
    (t = s ∧ ∃ e, r = .error e) ∨ (t = s ∧ r = .ok () ∧ (id ∈ s.promised ∨ id ∈ s.objects)) ∨
      ∃ next, r = .ok () ∧ s.objects[id]? = none ∧ id ∉ s.promised ∧
        checkedAdd s.revision 1 = some next ∧
        t = { s with promised := s.promised.insert id, revision := next } := by
  rw [markPromised] at h
  rw [Std.ExtTreeSet.mem_iff_contains, Std.ExtTreeMap.mem_iff_contains,
    ← BTreeMap.contains_eq_false_iff]
  cases hstored : s.objects.contains id with
  | true =>
      simp only [hstored, Bool.not_true, Bool.false_and, Bool.false_eq_true, if_false] at h
      cases h
      exact .inr (.inl ⟨rfl, rfl, .inr rfl⟩)
  | false =>
      cases hpromised : s.promised.contains id with
      | true =>
          simp only [hstored, hpromised, Bool.not_true, Bool.and_false, Bool.false_eq_true,
            if_false] at h
          cases h
          exact .inr (.inl ⟨rfl, rfl, .inl rfl⟩)
      | false =>
          simp only [hstored, hpromised, Bool.not_false, Bool.and_self, if_true] at h
          cases hnext : checkedAdd s.revision 1 with
          | none =>
              simp only [hnext] at h
              cases h
              exact .inl ⟨rfl, _, rfl⟩
          | some next =>
              simp only [hnext] at h
              cases h
              exact .inr (.inr ⟨next, rfl, rfl, by simp, rfl, rfl⟩)

omit [Unicode] [Hashes] in
theorem quarantine_cases {id : ObjectId} {r : Except StoreError Unit}
    (h : quarantine id s = (r, t)) :
    (t = s ∧ ∃ e, r = .error e) ∨ (t = s ∧ r = .ok () ∧ id ∈ s.quarantined) ∨
      ∃ next, r = .ok () ∧ (s.objects.contains id = true ∨ id ∈ s.promised) ∧
        id ∉ s.quarantined ∧ checkedAdd s.revision 1 = some next ∧
        t = { s with quarantined := s.quarantined.insert id, revision := next } := by
  rw [quarantine] at h
  simp only [Std.ExtTreeSet.mem_iff_contains]
  cases hknown : !s.objects.contains id && !s.promised.contains id with
  | true =>
      simp only [hknown, if_true] at h
      cases h
      exact .inl ⟨rfl, _, rfl⟩
  | false =>
      have hknown' : s.objects.contains id = true ∨ s.promised.contains id = true := by
        revert hknown
        cases s.objects.contains id <;> cases s.promised.contains id <;> simp
      simp only [hknown, Bool.false_eq_true, if_false] at h
      cases hmarked : s.quarantined.contains id with
      | true =>
          simp only [hmarked, Bool.not_true, Bool.false_eq_true, if_false] at h
          cases h
          exact .inr (.inl ⟨rfl, rfl, rfl⟩)
      | false =>
          simp only [hmarked, Bool.not_false, if_true] at h
          cases hnext : checkedAdd s.revision 1 with
          | none =>
              simp only [hnext] at h
              cases h
              exact .inl ⟨rfl, _, rfl⟩
          | some next =>
              simp only [hnext] at h
              cases h
              exact .inr (.inr ⟨next, rfl, hknown', by simp, rfl, rfl⟩)

theorem publish_cases {publication : Publication} {validator : PublicationValidator}
    {r : Except StoreError (List ReferenceState)}
    (h : publish publication validator s = (r, t)) :
    (t = s ∧ ∃ e, r = .error e) ∨
      ∃ p, r = .ok p.results ∧ beginPublish publication s = .ok p ∧
        validator p.candidate = .ok () ∧
        t = { p.staged with revision := p.nextRevision } := by
  cases r with
  | error e => exact .inl ⟨publish_error h, e, rfl⟩
  | ok results =>
      obtain ⟨p, hbegin, hvalid, rfl, ht⟩ := publish_eq_ok.mp h
      exact .inr ⟨p, rfl, hbegin, hvalid, ht⟩

/-- The last branch of `compare_and_swap` is not reached: a publication with
one update has one result. -/
theorem compareAndSwap_eq (key : ReferenceKey) (expected : ExpectedRef)
    (target operation : ObjectId) (validator : PublicationValidator) :
    (∃ e, publish (swapPublication key expected target operation) validator s = (.error e, s) ∧
      compareAndSwap key expected target operation validator s = (.error e, s)) ∨
    ∃ state t, publish (swapPublication key expected target operation) validator s =
        (.ok [state], t) ∧
      compareAndSwap key expected target operation validator s = (.ok state, t) := by
  cases h : publish (swapPublication key expected target operation) validator s with
  | mk r t =>
      rcases publish_cases h with ⟨rfl, e, rfl⟩ | ⟨p, rfl, hbegin, -, -⟩
      · exact .inl ⟨e, rfl, by simp [compareAndSwap, h]⟩
      · have hlength := StagedPublication.length_results hbegin
        obtain ⟨state, hstate⟩ := List.length_eq_one_iff.mp hlength
        rw [hstate] at h ⊢
        exact .inr ⟨state, t, rfl, by simp [compareAndSwap, h]⟩

end Cases

/-! ### The invariant -/

/-- The edges a reference keeps alive. -/
def referenceRoots (key : ReferenceKey) (state : ReferenceState) : List ReferenceEdge :=
  [⟨.operationAfter, some key.expectedKind, state.target⟩,
    ⟨.operationAfter, some .operation, state.operation⟩]

/-- A reference whose target and operation are as its key requires, with
everything below them. -/
structure SoundReference (objects : BTreeMap ObjectId StoredObject) (key : ReferenceKey)
    (state : ReferenceState) : Prop where
  target : ∃ target, objects[state.target]? = some target ∧ target.kind = key.expectedKind ∧
    referenceIdentityMatches key target = true
  operation : ∃ operation, objects[state.operation]? = some operation ∧
    operation.kind = .operation
  complete : Complete objects (referenceRoots key state)

/-- The invariant of the store. -/
structure SoundSnapshot [Unicode] [Hashes] (s : MemorySnapshot) : Prop where
  decoded : ∀ (id : ObjectId) (o : StoredObject), s.objects[id]? = some o →
    decode id o.bytes = .ok o
  disjoint : ∀ id, id ∈ s.promised → s.objects[id]? = none
  quarantined : ∀ id, id ∈ s.quarantined → s.objects.contains id = true ∨ id ∈ s.promised
  references : ∀ (key : ReferenceKey) (state : ReferenceState),
    s.references[key]? = some state → SoundReference s.objects key state

theorem SoundReference.grow {objects objects' : BTreeMap ObjectId StoredObject}
    {key : ReferenceKey} {state : ReferenceState} (h : SoundReference objects key state)
    (hgrow : Grows objects objects') : SoundReference objects' key state := by
  obtain ⟨target, htarget, hkind, hidentity⟩ := h.target
  obtain ⟨operation, hoperation, hopkind⟩ := h.operation
  exact ⟨⟨target, hgrow _ _ htarget, hkind, hidentity⟩,
    ⟨operation, hgrow _ _ hoperation, hopkind⟩, h.complete.grow hgrow⟩

section Preservation

variable [Unicode] [Hashes] {s t : MemorySnapshot}

theorem SoundSnapshot.initial : SoundSnapshot {} where
  decoded _ _ h := by simp at h
  disjoint _ h := by simp at h
  quarantined _ h := by simp at h
  references _ _ h := by simp at h

theorem SoundSnapshot.put {id : ObjectId} {bytes : Bytes} {r : Except StoreError PutOutcome}
    (h : SoundSnapshot s) (hrun : put id bytes s = (r, t)) : SoundSnapshot t := by
  rcases put_cases hrun with ⟨rfl, -⟩ | ⟨rfl, -⟩ | ⟨decoded, next, -, hdecode, hnone, -, rfl⟩
  · exact h
  · exact h
  · refine ⟨fun id' o ho => ?_, fun id' hid' => ?_, fun id' hid' => ?_,
      fun key state hstate => (h.references key state hstate).grow (.insert hnone)⟩
    · rcases BTreeMap.get_insert_eq_some_iff.mp ho with ⟨rfl, rfl⟩ | ⟨-, ho⟩
      · exact decode_bytes hdecode
      · exact h.decoded id' o ho
    · obtain ⟨hne, hid'⟩ := BTreeSet.mem_erase_iff.mp hid'
      exact (BTreeMap.get_insert_of_ne _ _ hne).trans (h.disjoint id' hid')
    · by_cases hid : id = id'
      · subst hid
        exact .inl Std.ExtTreeMap.contains_insert_self
      · rcases h.quarantined id' hid' with hid' | hid'
        · exact .inl ((BTreeMap.contains_insert_of_ne _ _ hid).trans hid')
        · exact .inr (BTreeSet.mem_erase_iff.mpr ⟨hid, hid'⟩)

theorem SoundSnapshot.markPromised {id : ObjectId} {r : Except StoreError Unit}
    (h : SoundSnapshot s) (hrun : markPromised id s = (r, t)) : SoundSnapshot t := by
  rcases markPromised_cases hrun with ⟨rfl, -⟩ | ⟨rfl, -⟩ | ⟨next, -, hnone, -, -, rfl⟩
  · exact h
  · exact h
  · refine ⟨h.decoded, fun id' hid' => ?_, fun id' hid' => ?_, h.references⟩
    · rcases BTreeSet.mem_insert_iff.mp hid' with rfl | hid'
      · exact hnone
      · exact h.disjoint id' hid'
    · rcases h.quarantined id' hid' with hid' | hid'
      · exact .inl hid'
      · exact .inr (BTreeSet.mem_insert_iff.mpr (.inr hid'))

theorem SoundSnapshot.quarantine {id : ObjectId} {r : Except StoreError Unit}
    (h : SoundSnapshot s) (hrun : quarantine id s = (r, t)) : SoundSnapshot t := by
  rcases quarantine_cases hrun with ⟨rfl, -⟩ | ⟨rfl, -⟩ | ⟨next, -, hknown, -, -, rfl⟩
  · exact h
  · exact h
  · refine ⟨h.decoded, h.disjoint, fun id' hid' => ?_, h.references⟩
    rcases BTreeSet.mem_insert_iff.mp hid' with rfl | hid'
    · exact hknown
    · exact h.quarantined id' hid'

/-- Staging keeps what the invariant says about objects and marks, and gives
every updated key a sound reference. -/
theorem SoundSnapshot.stage {publication : Publication} (h : SoundSnapshot s)
    (hstage : stage publication s = .ok t) : SoundSnapshot t := by
  obtain ⟨staged, hobjects, hcheck, hinstalls, ht⟩ := stage_eq_ok.mp hstage
  have hstages := StagesObjects.of_loop hobjects
  obtain ⟨operation, hoperation, hopkind, -, hupdates, -, closure, hclosure, -⟩ :=
    checkStaged_eq_ok.mp hcheck
  have hcomplete := Complete.of_closureFrom hclosure
  have hroot : ∀ update ∈ publication.updates, ∀ state : ReferenceState,
      state.target = update.target → state.operation = publication.operation →
      SoundReference staged.objects update.key state := by
    intro update hupdate state htarget hop
    obtain ⟨-, target, hvisible, hkind, hidentity⟩ := hupdates update hupdate
    rw [← htarget] at hvisible
    rw [← hop] at hoperation
    refine ⟨⟨target, (visibleObject_eq_ok.mp hvisible).2, hkind, hidentity⟩,
      ⟨operation, (visibleObject_eq_ok.mp hoperation).2, hopkind⟩, hcomplete.mono ?_⟩
    intro edge hedge
    simp only [referenceRoots, List.mem_cons, List.not_mem_nil, or_false] at hedge
    rcases hedge with rfl | rfl
    · exact List.mem_cons_of_mem _ (List.mem_map.mpr ⟨update, hupdate, by rw [htarget]⟩)
    · rw [hop]
      exact List.mem_cons_self
  rw [ht]
  refine ⟨fun id o ho => ?_, fun id hid => ?_, fun id hid => ?_, fun key state hstate => ?_⟩
  · rcases hstages.decoded id o ho with ho | ho
    · exact h.decoded id o ho
    · exact ho
  · exact (hstages.promised_open id hid).trans (h.disjoint id (hstages.promised_old id hid))
  · rw [hstages.quarantined] at hid
    rcases h.quarantined id hid with hid | hid
    · obtain ⟨o, ho⟩ := BTreeMap.contains_iff_get.mp hid
      exact .inl (BTreeMap.contains_iff_get.mpr ⟨o, hstages.grows id o ho⟩)
    · exact (hstages.promised_kept id hid).symm
  · by_cases hkey : key ∈ publication.updates.map (·.key)
    · obtain ⟨update, hupdate, rfl⟩ := List.mem_map.mp hkey
      obtain ⟨state', hnext, hget⟩ := hinstalls.installed update hupdate
      rw [hget] at hstate
      cases hstate
      obtain ⟨htarget, hop, -⟩ := nextState_eq_ok.mp hnext
      exact hroot update hupdate state htarget hop
    · rw [hinstalls.kept key hkey, hstages.references] at hstate
      exact (h.references key state hstate).grow hstages.grows

theorem SoundSnapshot.withRevision {revision : UInt64} (h : SoundSnapshot s) :
    SoundSnapshot { s with revision := revision } :=
  ⟨h.decoded, h.disjoint, h.quarantined, h.references⟩

theorem SoundSnapshot.publish {publication : Publication} {validator : PublicationValidator}
    {r : Except StoreError (List ReferenceState)} (h : SoundSnapshot s)
    (hrun : publish publication validator s = (r, t)) : SoundSnapshot t := by
  rcases publish_cases hrun with ⟨rfl, -⟩ | ⟨p, -, hbegin, -, rfl⟩
  · exact h
  · obtain ⟨-, -, -, hstage⟩ := beginPublish_eq_ok.mp hbegin
    exact (h.stage hstage).withRevision

theorem SoundSnapshot.compareAndSwap {key : ReferenceKey} {expected : ExpectedRef}
    {target operation : ObjectId} {validator : PublicationValidator}
    {r : Except StoreError ReferenceState} (h : SoundSnapshot s)
    (hrun : compareAndSwap key expected target operation validator s = (r, t)) :
    SoundSnapshot t := by
  rcases compareAndSwap_eq (s := s) key expected target operation validator with
    ⟨e, -, hcas⟩ | ⟨state, t, hp, hcas⟩
  · rw [hcas] at hrun
    cases hrun
    exact h
  · rw [hcas] at hrun
    cases hrun
    exact h.publish hp

end Preservation

/-! ### Runs -/

/-- A call on the store, successful or not. -/
inductive StoreCall where
  | put (id : ObjectId) (bytes : Bytes)
  | markPromised (id : ObjectId)
  | quarantine (id : ObjectId)
  | publish (publication : Publication) (validator : PublicationValidator)
  | compareAndSwap (key : ReferenceKey) (expected : ExpectedRef) (target operation : ObjectId)
      (validator : PublicationValidator)

namespace StoreCall

variable [Unicode] [Hashes]

/-- The snapshot a call leaves behind the lock. -/
def run (s : MemorySnapshot) : StoreCall → MemorySnapshot
  | .put id bytes => (MemoryStore.put id bytes s).2
  | .markPromised id => (MemoryStore.markPromised id s).2
  | .quarantine id => (MemoryStore.quarantine id s).2
  | .publish publication validator => (MemoryStore.publish publication validator s).2
  | .compareAndSwap key expected target operation validator =>
      (MemoryStore.compareAndSwap key expected target operation validator s).2

theorem sound_run {s : MemorySnapshot} (h : SoundSnapshot s) (c : StoreCall) :
    SoundSnapshot (c.run s) := by
  cases c with
  | put id bytes => exact h.put Prod.mk.eta.symm
  | markPromised id => exact h.markPromised Prod.mk.eta.symm
  | quarantine id => exact h.quarantine Prod.mk.eta.symm
  | publish publication validator => exact h.publish Prod.mk.eta.symm
  | compareAndSwap key expected target operation validator =>
      exact h.compareAndSwap Prod.mk.eta.symm

theorem sound_runs (calls : List StoreCall) {s : MemorySnapshot} (h : SoundSnapshot s) :
    SoundSnapshot (calls.foldl run s) := by
  induction calls generalizing s with
  | nil => exact h
  | cons c calls ih => exact ih (sound_run h c)

end StoreCall

/-- **Every reachable snapshot is sound.**  Objects are stored under the hash
of their bytes, nothing is both stored and promised, only known identifiers
are quarantined, and every reference points to the objects its key requires,
with everything that can be reached from them. -/
theorem reachable_sound [Unicode] [Hashes] (calls : List StoreCall) :
    let s := calls.foldl StoreCall.run {}
    (∀ (id : ObjectId) (o : StoredObject), s.objects[id]? = some o →
      o.id = id ∧ id = ObjectId.fromPayload (Discriminant.code o.kind) o.object.schemaVersion
        o.bytes id.algorithm) ∧
    (∀ id, ¬(id ∈ s.objects ∧ id ∈ s.promised)) ∧
    (∀ id, id ∈ s.quarantined → id ∈ s.objects ∨ id ∈ s.promised) ∧
    (∀ (key : ReferenceKey) (state : ReferenceState), s.references[key]? = some state →
      (∃ target, s.objects[state.target]? = some target ∧ target.kind = key.expectedKind ∧
        referenceIdentityMatches key target = true) ∧
      (∃ operation, s.objects[state.operation]? = some operation ∧
        operation.kind = .operation) ∧
      ∀ edge, ReachedEdge s.objects (referenceRoots key state) edge →
        ∃ o, s.objects[edge.id]? = some o ∧ ∀ kind ∈ edge.expectedKind, o.kind = kind) := by
  intro s
  have h : SoundSnapshot s := StoreCall.sound_runs calls .initial
  refine ⟨fun id o ho => ?_, ?_, fun id hid => ?_, fun key state hstate => ?_⟩
  · have hdecode := h.decoded id o ho
    obtain ⟨-, -, -, hid, -⟩ := MemoryStore.decode_eq_ok.mp hdecode
    exact ⟨hid, id_of_decode hdecode⟩
  · rintro id ⟨hstored, hpromised⟩
    obtain ⟨o, ho⟩ := BTreeMap.mem_iff_get.mp hstored
    rw [h.disjoint id hpromised] at ho
    cases ho
  · rw [Std.ExtTreeMap.mem_iff_contains]
    exact h.quarantined id hid
  · obtain ⟨htarget, hoperation, hcomplete⟩ := h.references key state hstate
    exact ⟨htarget, hoperation, hcomplete⟩

end RGit
