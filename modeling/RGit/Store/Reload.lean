/-
RGit/Store/Reload.lean

Every committed state of the durable store can be loaded again, as long as no
line was published.

What a call can do is said once, in `call_step`: the tables go on mirroring a
snapshot, which is the one in memory when the call succeeds.  The operation
that publishes a change, a release or a marker names its target, and so the
reference passes the checks of `load_snapshot`; the line state of a line
names its operation, not the other way round, and a published line is refused
when the store is loaded.
-/
import RGit.Canonical.AtOnce
import RGit.Store.Lines
import RGit.Store.OperationEdges
import RGit.Store.Transactions

namespace RGit

open MemoryStore

/-! ### What an accepted operation says -/

section Accepted

variable {publication : Publication} {operation : StoredObject} {s : MemorySnapshot}

/-- What `validate_operation` has checked of an update. -/
theorem validateOperation_update (h : validateOperation publication operation s = .ok ())
    {update : RefUpdate} (hupdate : update ∈ publication.updates) :
    (update.key = .operationHead → update.target = publication.operation) ∧
      (update.key ≠ .operationHead → (∀ lineId, update.key ≠ .line lineId) →
        ∃ actions action, operationActions operation = .ok actions ∧ action ∈ actions ∧
          transitionMatches action update = true) := by
  simp only [validateOperation, Except.bind_eq_ok] at h
  obtain ⟨actions, hactions, consumed, hloop, -⟩ := h
  obtain ⟨before, after, hstep⟩ := foldlM_step_of_mem hloop hupdate
  refine ⟨fun hkey => ?_, fun hkey hline => ?_⟩
  · rw [validateUpdate, hkey] at hstep
    simp only [Except.bind_eq_ok, checkOperationHead, Except.ite_error_eq_ok, ne_eq,
      not_not] at hstep
    obtain ⟨-, ⟨htarget, -⟩, -⟩ := hstep
    exact htarget
  · have hconsume : consumeAction actions before (fun action => transitionMatches action update) =
        .ok after := by
      rw [validateUpdate] at hstep
      split at hstep
      next hhead => exact absurd hhead hkey
      next lineId hlineKey => exact absurd hlineKey (hline lineId)
      next => exact hstep
    obtain ⟨index, action, -, -, hget, hmatches⟩ := consumeAction_eq_ok hconsume
    exact ⟨actions, action, hactions, List.mem_of_getElem? hget, hmatches⟩

end Accepted

/-! ### References apart from lines -/

/-- Every reference that is not a line is accepted by `load_snapshot`. -/
def LoadsApartFromLines (s : MemorySnapshot) : Prop :=
  ∀ (key : ReferenceKey) (state : ReferenceState), s.references[key]? = some state →
    (∀ lineId, key ≠ .line lineId) → ReloadableReference s.objects key state

theorem ReloadableReference.grow {objects objects' : BTreeMap ObjectId StoredObject}
    {key : ReferenceKey} {state : ReferenceState} (h : ReloadableReference objects key state)
    (hgrow : MemoryStore.Grows objects objects') : ReloadableReference objects' key state where
  sound := h.sound.grow hgrow
  head := h.head
  named hkey := by
    obtain ⟨operation, hoperation, hnames⟩ := h.named hkey
    exact ⟨operation, hgrow _ _ hoperation, hnames⟩

theorem LoadsApartFromLines.grow {s t : MemorySnapshot} (h : LoadsApartFromLines s)
    (hgrow : MemoryStore.Grows s.objects t.objects) (hreferences : t.references = s.references) :
    LoadsApartFromLines t := by
  intro key state hstate hline
  rw [hreferences] at hstate
  exact (h key state hstate hline).grow hgrow

theorem Loads.apart {s : MemorySnapshot} (h : Loads s) : LoadsApartFromLines s :=
  fun key state hstate _ => h key state hstate

section Publishing

variable [Unicode] [Hashes] {s : MemorySnapshot} {publication : Publication}
  {p : StagedPublication}

/-- **The references a publication installs are accepted, lines apart.** -/
theorem loadsApart_publish (hs : SoundSnapshot s) (hloads : Loads s)
    (hbegin : beginPublish publication s = .ok p) : LoadsApartFromLines p.staged := by
  obtain ⟨-, -, -, hstage⟩ := beginPublish_eq_ok.mp hbegin
  have hsound := hs.stage hstage
  obtain ⟨staged, hobjects, hcheck, hinstalls, hstaged⟩ := stage_eq_ok.mp hstage
  have hstages := StagesObjects.of_loop hobjects
  obtain ⟨operation, hoperation, hkind, -, -, hvalidate, -⟩ := checkStaged_eq_ok.mp hcheck
  have hsame : p.staged.objects = staged.objects := by rw [hstaged]
  intro key state hstate hline
  by_cases hkey : key ∈ publication.updates.map (·.key)
  · obtain ⟨update, hupdate, rfl⟩ := List.mem_map.mp hkey
    obtain ⟨state', hnext, hget⟩ := hinstalls.installed update hupdate
    rw [hget, Option.some.injEq] at hstate
    subst hstate
    obtain ⟨htarget, hop, -⟩ := nextState_eq_ok.mp hnext
    obtain ⟨hhead, hnamed⟩ := validateOperation_update hvalidate hupdate
    refine ⟨hsound.references _ _ hget, fun hkey => ?_, fun hkey => ?_⟩
    · rw [htarget, hop]
      exact hhead hkey
    · obtain ⟨actions, action, hactions, haction, hmatches⟩ := hnamed hkey hline
      obtain ⟨-, hget⟩ := visibleObject_eq_ok.mp hoperation
      have hdecode : decode publication.operation operation.bytes = .ok operation :=
        hsound.decoded _ _ (hsame ▸ hget)
      refine ⟨operation, by rw [hop, hsame]; exact hget, ?_⟩
      rw [htarget]
      exact operationNames_of_transition hdecode hkind hactions haction hmatches
  · rw [hinstalls.kept key hkey, hstages.references] at hstate
    exact (hloads key state hstate).grow (hsame ▸ hstages.grows)

end Publishing

theorem Mirrors.sound [Unicode] [Hashes] {db : Database} {loose : LooseStore} {s : MemorySnapshot}
    (h : Mirrors db loose s) (hloads : Loads s) (hopen : db.incidentReadOnly = false) :
    SoundSnapshot s where
  decoded := h.decoded
  disjoint _ hid := h.objects.promised_open hid
  quarantined id hid := absurd hid ((h.writable hopen).1 id)
  references key state hstate := (hloads key state hstate).sound

/-! ### What the calls do -/

namespace SqliteStore

/-- The tables are as they were; the loose objects may have grown. -/
structure Kept (store store' : SqliteStore) : Prop where
  database : store'.database = store.database
  loose : store.loose.Grows store'.loose
  orphans : store'.orphans = store.orphans

/-- The tables mirror what was installed; only the references of the updates
have moved. -/
structure Changed [Unicode] [Hashes] (store : SqliteStore) (s : MemorySnapshot)
    (updates : List RefUpdate) (store' : SqliteStore) : Prop where
  loads : Loads s
  before : store.database.incidentReadOnly = false
  after : store'.database.incidentReadOnly = false
  orphans : store'.orphans = store.orphans
  mirrors : Mirrors store'.database store'.loose store'.memory
  apart : LoadsApartFromLines store'.memory
  references : ∀ key : ReferenceKey, key ∉ updates.map (·.key) →
    store'.memory.references[key]? = s.references[key]?
  revision : s.revision < store'.memory.revision

theorem Kept.refl (store : SqliteStore) : Kept store store := ⟨rfl, .refl _, rfl⟩

theorem putLoose_grows [Unicode] [Hashes] (candidates : List PublicationObject) :
    ∀ loose : LooseStore, loose.Grows (putLoose candidates loose).2 := by
  induction candidates with
  | nil => exact fun loose => .refl _
  | cons candidate candidates ih =>
      intro loose
      have hgrows := LooseStore.put_grows candidate.id candidate.bytes loose
      rw [putLoose]
      cases hput : loose.put candidate.id candidate.bytes with
      | mk r loose₁ =>
          rw [hput] at hgrows
          cases r with
          | error e => exact hgrows
          | ok outcome => exact hgrows.trans (ih loose₁)

section Calls

variable [Unicode] [Hashes] {store store' : SqliteStore} {s : MemorySnapshot}

/-- What a writing call begins with. -/
theorem whileMutable_cases {α : Type} {body : Operation α} {r : Except StoreError α}
    (h : Mirrors store.database store.loose s) (hrun : whileMutable body store = (r, store')) :
    (r = .error .unsupportedDatabase ∧ ¬Loads s ∧ store' = store) ∨
      (r = .error .incidentReadOnly ∧ Loads s ∧ store.database.incidentReadOnly = true ∧
        store' = { store with memory := s }) ∨
      (Loads s ∧ store.database.incidentReadOnly = false ∧
        body { store with memory := s } = (r, store')) := by
  rw [whileMutable] at hrun
  by_cases hloads : Loads s
  · rw [h.refresh_eq_ok.mpr ⟨hloads, rfl⟩] at hrun
    cases hflag : store.database.incidentReadOnly with
    | true =>
        simp only [hflag, if_true, Prod.mk.injEq] at hrun
        exact .inr (.inl ⟨hrun.1.symm, hloads, rfl, hrun.2.symm⟩)
    | false =>
        simp only [hflag, Bool.false_eq_true, if_false] at hrun
        exact .inr (.inr ⟨hloads, rfl, hrun⟩)
  · rw [h.refresh_error hloads] at hrun
    cases hrun
    exact .inl ⟨rfl, hloads, rfl⟩

/-- **What `put` does.** -/
theorem put_cases {id : ObjectId} {bytes : Bytes} {r : Except StoreError PutOutcome}
    (h : Mirrors store.database store.loose s) (hrun : put id bytes store = (r, store')) :
    (Kept store store' ∧ r ≠ .ok .new ∧ (r = .ok .alreadyPresent → store'.memory = s)) ∨
      (r = .ok .new ∧ Changed store s [] store') := by
  rcases whileMutable_cases h hrun with ⟨rfl, -, rfl⟩ | ⟨rfl, -, -, rfl⟩ | ⟨hloads, hopen, hbody⟩
  · exact .inl ⟨.refl _, by simp, by simp⟩
  · exact .inl ⟨⟨rfl, .refl _, rfl⟩, by simp, by simp⟩
  · dsimp only at hbody
    cases hput : MemoryStore.put id bytes s with
    | mk outcome staged =>
        rw [hput] at hbody
        rcases RGit.put_cases hput with ⟨rfl, e, rfl⟩ | ⟨rfl, rfl, -⟩ |
          ⟨o, next, rfl, hdecode, hnone, hnext, hstaged⟩
        · cases hbody
          exact .inl ⟨⟨rfl, .refl _, rfl⟩, by simp, by simp⟩
        · cases hbody
          exact .inl ⟨⟨rfl, .refl _, rfl⟩, by simp, by simp⟩
        · have hgrows := LooseStore.put_grows id bytes store.loose
          cases hloose : store.loose.put id bytes with
          | mk result loose =>
              simp only [hloose] at hbody hgrows
              cases result with
              | error e =>
                  cases hbody
                  exact .inl ⟨⟨rfl, hgrows, rfl⟩, by simp, by simp⟩
              | ok outcome =>
                  obtain ⟨-, hrecord⟩ := LooseStore.put_records hdecode hloose
                  cases hrun' : putTransaction id s.revision staged loose store.database with
                  | error e =>
                      simp only [hrun'] at hbody
                      cases hbody
                      exact .inl ⟨⟨rfl, hgrows, rfl⟩, by simp, by simp⟩
                  | ok written =>
                      obtain ⟨db', t⟩ := written
                      subst hstaged
                      obtain ⟨hmirrors, hflag, hobjects, hreferences, hrevision⟩ :=
                        h.putTransaction hopen hdecode hnone hgrows hrecord hrun'
                      simp only [hrun', finish, ne_eq, not_true_eq_false, if_false] at hbody
                      cases hbody
                      exact .inr ⟨rfl, hloads, hopen, hflag.trans hopen, rfl, hmirrors,
                        hloads.apart.grow (hobjects ▸ .insert hnone) hreferences,
                        fun key _ => by rw [hreferences], hrevision ▸ lt_of_checkedAdd hnext⟩

/-- **What `mark_promised` does.** -/
theorem markPromised_cases {id : ObjectId} {r : Except StoreError Unit}
    (h : Mirrors store.database store.loose s) (hrun : markPromised id store = (r, store')) :
    (Kept store store' ∧ (r = .ok () → store'.memory = s)) ∨
      (r = .ok () ∧ Changed store s [] store') := by
  rcases whileMutable_cases h hrun with ⟨rfl, -, rfl⟩ | ⟨rfl, -, -, rfl⟩ | ⟨hloads, hopen, hbody⟩
  · exact .inl ⟨.refl _, by simp⟩
  · exact .inl ⟨⟨rfl, .refl _, rfl⟩, by simp⟩
  · dsimp only at hbody
    cases hmark : MemoryStore.markPromised id s with
    | mk outcome staged =>
        rw [hmark] at hbody
        rcases RGit.markPromised_cases hmark with ⟨rfl, e, rfl⟩ | ⟨rfl, rfl, -⟩ |
          ⟨next, rfl, hnone, hnew, hnext, hstaged⟩
        · cases hbody
          exact .inl ⟨⟨rfl, .refl _, rfl⟩, by simp⟩
        · simp only [if_true] at hbody
          cases hbody
          exact .inl ⟨⟨rfl, .refl _, rfl⟩, by simp⟩
        · have hne : staged.revision ≠ s.revision := by
            rw [hstaged]
            exact (lt_of_checkedAdd hnext).ne'
          simp only [hne, if_false] at hbody
          cases hrun' : markTransaction id s.revision staged store.database with
          | error e =>
              simp only [hrun'] at hbody
              cases hbody
              exact .inl ⟨⟨rfl, .refl _, rfl⟩, by simp⟩
          | ok written =>
              obtain ⟨db', t⟩ := written
              subst hstaged
              obtain ⟨hmirrors, hflag, rfl⟩ := h.markTransaction hopen hnone hnew hrun'
              simp only [hrun', finish, ne_eq, not_true_eq_false, if_false] at hbody
              cases hbody
              exact .inr ⟨rfl, hloads, hopen, hflag.trans hopen, rfl, hmirrors,
                hloads.apart.grow (.refl _) rfl, fun key _ => rfl, lt_of_checkedAdd hnext⟩

/-- **What `publish` does.** -/
theorem publish_cases {publication : Publication} {validator : PublicationValidator}
    {r : Except StoreError (List ReferenceState)} (h : Mirrors store.database store.loose s)
    (hrun : publish publication validator store = (r, store')) :
    (Kept store store' ∧ ∃ e, r = .error e) ∨
      (∃ p : StagedPublication, beginPublish publication s = .ok p ∧ r = .ok p.results ∧
        Changed store s publication.updates store') := by
  rcases whileMutable_cases h hrun with ⟨rfl, -, rfl⟩ | ⟨rfl, -, -, rfl⟩ | ⟨hloads, hopen, hbody⟩
  · exact .inl ⟨.refl _, _, rfl⟩
  · exact .inl ⟨⟨rfl, .refl _, rfl⟩, _, rfl⟩
  · dsimp only at hbody
    cases hpublish : MemoryStore.publish publication validator s with
    | mk outcome staged =>
        rw [hpublish] at hbody
        rcases RGit.publish_cases hpublish with ⟨rfl, e, rfl⟩ | ⟨p, rfl, hbegin, -, hstaged⟩
        · cases hbody
          exact .inl ⟨⟨rfl, .refl _, rfl⟩, _, rfl⟩
        · obtain ⟨-, -, hadd, hstage⟩ := beginPublish_eq_ok.mp hbegin
          have hgrows := putLoose_grows publication.objects store.loose
          cases hloose : putLoose publication.objects store.loose with
          | mk result loose =>
              simp only [hloose] at hbody hgrows
              cases result with
              | error e =>
                  cases hbody
                  exact .inl ⟨⟨rfl, hgrows, rfl⟩, _, rfl⟩
              | ok u =>
                  cases hrun' : publishTransaction publication p.results s.revision staged loose
                      store.database with
                  | error e =>
                      simp only [hrun'] at hbody
                      cases hbody
                      exact .inl ⟨⟨rfl, hgrows, rfl⟩, _, rfl⟩
                  | ok written =>
                      obtain ⟨db', t⟩ := written
                      subst hstaged
                      obtain ⟨hmirrors, hflag, hobjects, hreferences, hrevision⟩ :=
                        h.publishTransaction hopen hbegin hloose hrun'
                      simp only [hrun', finish, ne_eq, not_true_eq_false, if_false] at hbody
                      cases hbody
                      refine .inr ⟨p, hbegin, rfl, hloads, hopen, hflag.trans hopen, rfl, hmirrors,
                        (loadsApart_publish (h.sound hloads hopen) hloads hbegin).grow
                          (hobjects ▸ .refl _) hreferences, fun key hkey => ?_,
                        hrevision ▸ lt_of_checkedAdd hadd⟩
                      obtain ⟨staged', hobjects', -, hinstalls, -⟩ := stage_eq_ok.mp hstage
                      rw [hreferences, hinstalls.kept key hkey,
                        (StagesObjects.of_loop hobjects').references]

/-- `compare_and_swap` is a publication with one update. -/
theorem compareAndSwap_cases {key : ReferenceKey} {expected : ExpectedRef}
    {target operation : ObjectId} {validator : PublicationValidator}
    {r : Except StoreError ReferenceState} (h : Mirrors store.database store.loose s)
    (hrun : compareAndSwap key expected target operation validator store = (r, store')) :
    (Kept store store' ∧ ∃ e, r = .error e) ∨
      ((∃ state, r = .ok state) ∧ Changed store s [⟨key, expected, target⟩] store') := by
  rw [compareAndSwap] at hrun
  cases hpublish : publish (swapPublication key expected target operation) validator store with
  | mk outcome store₁ =>
      rw [hpublish] at hrun
      rcases publish_cases h hpublish with ⟨hkept, e, rfl⟩ | ⟨p, hbegin, rfl, hchanged⟩
      · cases hrun
        exact .inl ⟨hkept, e, rfl⟩
      · have hlength := StagedPublication.length_results hbegin
        obtain ⟨state, hstate⟩ := List.length_eq_one_iff.mp hlength
        simp only [hstate] at hrun
        cases hrun
        exact .inr ⟨⟨state, rfl⟩, hchanged⟩

end Calls

end SqliteStore

/-! ### Runs -/

/-- The updates that a call publishes. -/
def StoreCall.updates : StoreCall → List RefUpdate
  | .publish publication _ => publication.updates
  | .compareAndSwap key expected target _ _ => [⟨key, expected, target⟩]
  | _ => []

def StoreCall.isQuarantine : StoreCall → Bool
  | .quarantine _ => true
  | _ => false

namespace SqliteStore

variable [Unicode] [Hashes]

/-- An operation, its value forgotten. -/
def forgetting {α : Type} (operation : Operation α) : Operation Unit := fun store =>
  let (result, store) := operation store
  (result.map fun _ => (), store)

/-- A call on the durable store. -/
def call (store : SqliteStore) : StoreCall → Except StoreError Unit × SqliteStore
  | .put id bytes => forgetting (put id bytes) store
  | .markPromised id => markPromised id store
  | .quarantine id => quarantine id store
  | .publish publication validator => forgetting (publish publication validator) store
  | .compareAndSwap key expected target operation validator =>
      forgetting (compareAndSwap key expected target operation validator) store

/-- A call that has to succeed. -/
def succeeding (store : SqliteStore) (c : StoreCall) : Except StoreError SqliteStore :=
  (store.call c).1.map fun _ => (store.call c).2

omit [Unicode] [Hashes] in
theorem forgetting_eq {α : Type} {operation : Operation α} {store store' : SqliteStore}
    {r : Except StoreError Unit} (h : forgetting operation store = (r, store')) :
    ∃ result, operation store = (result, store') ∧ r = result.map fun _ => () := by
  rw [forgetting] at h
  cases hrun : operation store with
  | mk result store₁ =>
      rw [hrun] at h
      cases h
      exact ⟨result, rfl, rfl⟩

/-- **What a call does**, quarantines apart: the tables stay as they are, or
mirror the snapshot that the call leaves in memory. -/
theorem call_step {store store' : SqliteStore} {c : StoreCall} {s : MemorySnapshot}
    {r : Except StoreError Unit} (h : Mirrors store.database store.loose s)
    (hc : c.isQuarantine = false) (hrun : store.call c = (r, store')) :
    (Kept store store' ∧ (r = .ok () → store'.memory = s)) ∨
      Changed store s c.updates store' := by
  cases c with
  | put id bytes =>
      rw [call] at hrun
      obtain ⟨result, hput, rfl⟩ := forgetting_eq hrun
      rcases put_cases h hput with ⟨hkept, hnew, hmemory⟩ | ⟨-, hchanged⟩
      · refine .inl ⟨hkept, fun hok => hmemory ?_⟩
        rcases result with e | (_ | _)
        · cases hok
        · exact absurd rfl hnew
        · rfl
      · exact .inr hchanged
  | markPromised id =>
      rcases markPromised_cases h hrun with hkept | ⟨-, hchanged⟩
      · exact .inl hkept
      · exact .inr hchanged
  | quarantine id => cases hc
  | publish publication validator =>
      rw [call] at hrun
      obtain ⟨result, hpublish, rfl⟩ := forgetting_eq hrun
      rcases publish_cases h hpublish with ⟨hkept, e, rfl⟩ | ⟨p, -, -, hchanged⟩
      · refine .inl ⟨hkept, fun hok => ?_⟩
        cases hok
      · exact .inr hchanged
  | compareAndSwap key expected target operation validator =>
      rw [call] at hrun
      obtain ⟨result, hswap, rfl⟩ := forgetting_eq hrun
      rcases compareAndSwap_cases h hswap with ⟨hkept, e, rfl⟩ | ⟨-, hchanged⟩
      · refine .inl ⟨hkept, fun hok => ?_⟩
        cases hok
      · exact .inr hchanged

end SqliteStore

theorem Mirrors.initial [Unicode] [Hashes] : Mirrors {} {} {} where
  revision := rfl
  bounded := by decide
  objects := {
    present := by simp
    promised := by simp
    quarantined := by simp
    known := by simp
    edges := by simp [Database.edgesOf]
    locations := by simp }
  graph := ⟨[], rfl, .refl _⟩
  references := by simp
  records := by simp
  decoded := by simp
  incidents := by simp [SqliteStore.verifyIncidents]
  writable := fun _ => ⟨by simp, fun id row kind hid => by simp at hid⟩
  consistent := by decide

/-- What a run without a line keeps. -/
structure Reloads [Unicode] [Hashes] (store : SqliteStore) : Prop where
  mirrors : Mirrors store.database store.loose store.memory
  loads : Loads store.memory
  unlined : ∀ lineId, store.memory.references[ReferenceKey.line lineId]? = none
  orphans : store.orphans = []

section Runs

variable [Unicode] [Hashes]

omit [Unicode] [Hashes] in
theorem LoadsApartFromLines.loads {s : MemorySnapshot} (h : LoadsApartFromLines s)
    (hlines : ∀ lineId, s.references[ReferenceKey.line lineId]? = none) : Loads s := by
  intro key state hstate
  refine h key state hstate fun lineId hkey => ?_
  rw [hkey, hlines lineId] at hstate
  cases hstate

theorem Reloads.call {store store' : SqliteStore} {c : StoreCall} (h : Reloads store)
    (hc : c.isQuarantine = false)
    (hlines : ∀ update ∈ c.updates, ∀ lineId, update.key ≠ .line lineId)
    (hrun : store.call c = (.ok (), store')) : Reloads store' := by
  rcases SqliteStore.call_step h.mirrors hc hrun with ⟨hkept, hmemory⟩ | hchanged
  · have hmirrors := h.mirrors.looseGrows hkept.loose
    have hmemory := hmemory rfl
    rw [← hkept.database, ← hmemory] at hmirrors
    exact ⟨hmirrors, hmemory ▸ h.loads, hmemory ▸ h.unlined, hkept.orphans.trans h.orphans⟩
  · have hunlined : ∀ lineId, store'.memory.references[ReferenceKey.line lineId]? = none := by
      intro lineId
      rw [hchanged.references (.line lineId) ?_]
      · exact h.unlined lineId
      · intro hkey
        obtain ⟨update, hupdate, hkey⟩ := List.mem_map.mp hkey
        exact hlines update hupdate lineId hkey
    exact ⟨hchanged.mirrors, hchanged.apart.loads hunlined, hunlined,
      hchanged.orphans.trans h.orphans⟩

theorem Reloads.run (calls : List StoreCall) {store store' : SqliteStore} (h : Reloads store)
    (hcalls : ∀ c ∈ calls, c.isQuarantine = false ∧
      ∀ update ∈ c.updates, ∀ lineId, update.key ≠ .line lineId)
    (hrun : calls.foldlM SqliteStore.succeeding store = .ok store') : Reloads store' := by
  induction calls generalizing store with
  | nil =>
      cases hrun
      exact h
  | cons c calls ih =>
      rw [List.foldlM_cons, Except.bind_eq_ok] at hrun
      obtain ⟨store₁, hstep, hrun⟩ := hrun
      obtain ⟨hc, hlines⟩ := hcalls c List.mem_cons_self
      refine ih (h.call hc hlines ?_) (fun c' hc' => hcalls c' (List.mem_cons_of_mem _ hc')) hrun
      rw [SqliteStore.succeeding] at hstep
      cases hcall : store.call c with
      | mk r store₂ =>
          rw [hcall] at hstep
          cases r with
          | error e => cases hstep
          | ok u =>
              cases hstep
              rfl

end Runs

/-! ### A marker and a line -/

section Sample

local instance reloadUnicode : Unicode := asciiUnicode

end Sample

end RGit
