/-
RGit/Store/Concurrent.lean

Concurrent clients of the in-memory store.

`put`, `mark_promised` and `quarantine` run under the lock.  A `publish` is
two critical sections with the validator between them, so a system is the
snapshot behind the lock and what every client has staged.  Every change of
the snapshot moves its revision; hence a publication that commits finds the
snapshot it was staged against, and every run of the system is a run of
whole operations, one after another (`Run.linearized`).
-/
import RGit.Canonical.AtOnce
import RGit.Lib.Versioned
import RGit.Store.Invariant

namespace RGit

open MemoryStore

/-! ### The system -/

/-- A publication between its two critical sections. -/
structure InFlight where
  staged : StagedPublication
  validator : PublicationValidator

structure System where
  store : MemorySnapshot
  inFlight : Nat → Option InFlight

/-- What a client observes. -/
inductive Event where
  | put (id : ObjectId) (bytes : Bytes) (result : Except StoreError PutOutcome)
  | markPromised (id : ObjectId) (result : Except StoreError Unit)
  | quarantine (id : ObjectId) (result : Except StoreError Unit)
  | staged (client : Nat) (publication : Publication)
  | refused (client : Nat) (publication : Publication) (error : StoreError)
  | committed (client : Nat) (publication : Publication) (validator : PublicationValidator)
      (results : List ReferenceState)

namespace Event

/-- The operation returned an error. -/
def Failed : Event → Prop
  | .put _ _ r => ∃ e, r = .error e
  | .markPromised _ r | .quarantine _ r => ∃ e, r = .error e
  | .refused _ _ _ => True
  | .staged _ _ | .committed _ _ _ _ => False

/-- The whole operation that takes effect at this event. -/
def call : Event → Option StoreCall
  | .put id bytes _ => some (.put id bytes)
  | .markPromised id _ => some (.markPromised id)
  | .quarantine id _ => some (.quarantine id)
  | .staged _ _ | .refused _ _ _ => none
  | .committed _ publication validator _ => some (.publish publication validator)

end Event

section Concurrent

variable [Unicode] [Hashes]

/-- One step of one client. -/
inductive Step : System → Event → System → Prop
  | put {σ : System} {id : ObjectId} {bytes : Bytes} {r : Except StoreError PutOutcome}
      {s : MemorySnapshot} : put id bytes σ.store = (r, s) →
      Step σ (.put id bytes r) { σ with store := s }
  | markPromised {σ : System} {id : ObjectId} {r : Except StoreError Unit}
      {s : MemorySnapshot} : markPromised id σ.store = (r, s) →
      Step σ (.markPromised id r) { σ with store := s }
  | quarantine {σ : System} {id : ObjectId} {r : Except StoreError Unit}
      {s : MemorySnapshot} : quarantine id σ.store = (r, s) →
      Step σ (.quarantine id r) { σ with store := s }
  | stage {σ : System} (client : Nat) {publication : Publication} {p : StagedPublication}
      (validator : PublicationValidator) : σ.inFlight client = none →
      beginPublish publication σ.store = .ok p →
      Step σ (.staged client publication)
        { σ with inFlight := Function.update σ.inFlight client (some ⟨p, validator⟩) }
  | refuseStage {σ : System} {client : Nat} {publication : Publication} {e : StoreError} :
      σ.inFlight client = none → beginPublish publication σ.store = .error e →
      Step σ (.refused client publication e) σ
  | refuseValidator {σ : System} {client : Nat} {f : InFlight} {e : StoreError} :
      σ.inFlight client = some f → f.validator f.staged.candidate = .error e →
      Step σ (.refused client f.staged.publication e)
        { σ with inFlight := Function.update σ.inFlight client none }
  | refuseCommit {σ : System} {client : Nat} {f : InFlight} {e : StoreError}
      {s : MemorySnapshot} : σ.inFlight client = some f →
      f.validator f.staged.candidate = .ok () →
      commitPublish f.staged σ.store = (.error e, s) →
      Step σ (.refused client f.staged.publication e)
        ⟨s, Function.update σ.inFlight client none⟩
  | commit {σ : System} {client : Nat} {f : InFlight} {results : List ReferenceState}
      {s : MemorySnapshot} : σ.inFlight client = some f →
      f.validator f.staged.candidate = .ok () →
      commitPublish f.staged σ.store = (.ok results, s) →
      Step σ (.committed client f.staged.publication f.validator results)
        ⟨s, Function.update σ.inFlight client none⟩

/-- A run of the system, with nothing in flight at first. -/
inductive Run (s : MemorySnapshot) : List Event → System → Prop
  | start : Run s [] ⟨s, fun _ => none⟩
  | step {events : List Event} {event : Event} {σ σ' : System} :
      Run s events σ → Step σ event σ' → Run s (events ++ [event]) σ'

/-! ### Revisions -/

omit [Unicode] [Hashes] in
theorem lt_of_checkedAdd {a b : UInt64} (h : checkedAdd a 1 = some b) : a < b := by
  rw [UInt64.lt_iff_toNat_lt, toNat_of_checkedAdd h]
  omega

theorem stage_revision {publication : Publication} {s t : MemorySnapshot}
    (h : stage publication s = .ok t) : t.revision = s.revision := by
  obtain ⟨staged, hobjects, -, -, ht⟩ := stage_eq_ok.mp h
  rw [ht]
  exact (StagesObjects.of_loop hobjects).revision

/-- What is staged was staged against a state that is still there, or whose
revision is gone. -/
def Fresh (σ : System) : Prop :=
  ∀ client f, σ.inFlight client = some f → ∃ s,
    beginPublish f.staged.publication s = .ok f.staged ∧
      Captured MemorySnapshot.revision s σ.store

omit [Unicode] [Hashes] in
/-- A commit installs what was staged, if the revision is still the same. -/
theorem commitPublish_eq_ok {p : StagedPublication} {s t : MemorySnapshot}
    {results : List ReferenceState} :
    commitPublish p s = (.ok results, t) ↔
      s.revision = p.baseRevision ∧ results = p.results ∧
        t = { p.staged with revision := p.nextRevision } := by
  rw [commitPublish]
  split
  · next h => simp [h]
  · next h => simp [not_not.mp h, eq_comm]

/-- **A commit is a whole publication** on the state it finds. -/
theorem Fresh.publish_eq {σ : System} {client : Nat} {f : InFlight}
    {results : List ReferenceState} {s : MemorySnapshot} (h : Fresh σ)
    (hflight : σ.inFlight client = some f) (hvalid : f.validator f.staged.candidate = .ok ())
    (hcommit : commitPublish f.staged σ.store = (.ok results, s)) :
    publish f.staged.publication f.validator σ.store = (.ok results, s) := by
  obtain ⟨s₁, hbegin, hcaptured⟩ := h client f hflight
  obtain ⟨-, hbase, -, -⟩ := beginPublish_eq_ok.mp hbegin
  obtain ⟨hrevision, rfl, rfl⟩ := commitPublish_eq_ok.mp hcommit
  have hsame : σ.store = s₁ := hcaptured.state_eq (hrevision.trans hbase)
  rw [hsame]
  exact publish_eq_ok.mpr ⟨f.staged, hbegin, hvalid, rfl, rfl⟩

/-! ### What a step does to the store -/

/-- An event that takes effect is its whole operation, run on the store it
finds; every other event leaves the store. -/
def Atomic (s : MemorySnapshot) (event : Event) (t : MemorySnapshot) : Prop :=
  match event with
  | .put id bytes r => put id bytes s = (r, t)
  | .markPromised id r => markPromised id s = (r, t)
  | .quarantine id r => quarantine id s = (r, t)
  | .staged _ _ | .refused _ _ _ => t = s
  | .committed _ publication validator results =>
      publish publication validator s = (.ok results, t)

theorem Step.atomic {σ σ' : System} {event : Event} (h : Step σ event σ') (hfresh : Fresh σ) :
    Atomic σ.store event σ'.store := by
  cases h with
  | put h => exact h
  | markPromised h => exact h
  | quarantine h => exact h
  | stage => rfl
  | refuseStage => rfl
  | refuseValidator => rfl
  | refuseCommit hflight _ h =>
      rw [commitPublish] at h
      split at h <;> cases h
      rfl
  | commit hflight hvalid h => exact hfresh.publish_eq hflight hvalid h

/-- An operation that fails leaves the store. -/
theorem Atomic.failed {s t : MemorySnapshot} {event : Event} (h : Atomic s event t)
    (hfailed : event.Failed) : t = s := by
  cases event with
  | put id bytes r =>
      obtain ⟨e, rfl⟩ := hfailed
      rcases put_cases h with ⟨ht, -⟩ | ⟨ht, -⟩ | ⟨_, _, hr, -⟩
      · exact ht
      · exact ht
      · cases hr
  | markPromised id r =>
      obtain ⟨e, rfl⟩ := hfailed
      rcases markPromised_cases h with ⟨ht, -⟩ | ⟨ht, -⟩ | ⟨_, hr, -⟩
      · exact ht
      · exact ht
      · cases hr
  | quarantine id r =>
      obtain ⟨e, rfl⟩ := hfailed
      rcases quarantine_cases h with ⟨ht, -⟩ | ⟨ht, -⟩ | ⟨_, hr, -⟩
      · exact ht
      · exact ht
      · cases hr
  | staged => exact h
  | refused => exact h
  | committed => exact hfailed.elim

theorem Atomic.moves {s t : MemorySnapshot} {event : Event} (h : Atomic s event t) :
    Moves MemorySnapshot.revision s t := by
  cases event with
  | put id bytes r =>
      rcases put_cases h with ⟨ht, -⟩ | ⟨ht, -⟩ | ⟨_, _, -, -, -, hnext, rfl⟩
      · exact .inl ht
      · exact .inl ht
      · exact .inr (lt_of_checkedAdd hnext)
  | markPromised id r =>
      rcases markPromised_cases h with ⟨ht, -⟩ | ⟨ht, -⟩ | ⟨_, -, -, -, hnext, rfl⟩
      · exact .inl ht
      · exact .inl ht
      · exact .inr (lt_of_checkedAdd hnext)
  | quarantine id r =>
      rcases quarantine_cases h with ⟨ht, -⟩ | ⟨ht, -⟩ | ⟨_, -, -, -, hnext, rfl⟩
      · exact .inl ht
      · exact .inl ht
      · exact .inr (lt_of_checkedAdd hnext)
  | staged => exact .inl h
  | refused => exact .inl h
  | committed client publication validator results =>
      obtain ⟨p, hbegin, -, -, rfl⟩ := publish_eq_ok.mp h
      obtain ⟨-, -, hnext, -⟩ := beginPublish_eq_ok.mp hbegin
      exact .inr (lt_of_checkedAdd hnext)

/-- A step keeps what is in flight fresh. -/
theorem Fresh.step {σ σ' : System} {event : Event} (hfresh : Fresh σ) (h : Step σ event σ') :
    Fresh σ' := by
  have hmoves := (h.atomic hfresh).moves
  have hkeep : ∀ client f, σ.inFlight client = some f → ∃ s,
      beginPublish f.staged.publication s = .ok f.staged ∧
        Captured MemorySnapshot.revision s σ'.store := by
    intro client f hf
    obtain ⟨s, hbegin, hcaptured⟩ := hfresh client f hf
    exact ⟨s, hbegin, hcaptured.move hmoves⟩
  have hremove : ∀ {inFlight : Nat → Option InFlight} {client : Nat},
      inFlight = Function.update σ.inFlight client none →
      ∀ client' f, inFlight client' = some f → σ.inFlight client' = some f := by
    rintro _ client rfl client' f hf
    by_cases heq : client' = client
    · subst heq
      simp at hf
    · rwa [Function.update_of_ne heq] at hf
  cases h with
  | put | markPromised | quarantine => exact hkeep
  | refuseStage => exact hkeep
  | stage client validator _ hbegin =>
      intro client' f hf
      by_cases heq : client' = client
      · subst heq
        simp only [Function.update_self, Option.some.injEq] at hf
        subst hf
        obtain ⟨rfl, -, -, -⟩ := beginPublish_eq_ok.mp hbegin
        exact ⟨σ.store, hbegin, .refl _⟩
      · simp only [Function.update_of_ne heq] at hf
        exact hkeep client' f hf
  | refuseValidator | refuseCommit | commit =>
      intro client' f hf
      exact hkeep client' f (hremove rfl client' f hf)

/-! ### Nothing is lost -/

/-- The event supersedes the state of a reference: it is a publication that
names this state as the one it replaces. -/
def Supersedes (event : Event) (key : ReferenceKey) (state : ReferenceState) : Prop :=
  ∃ client publication validator results target,
    event = .committed client publication validator results ∧
      (⟨key, .exact state, target⟩ : RefUpdate) ∈ publication.updates

/-- Everything that is in `s` is in `t`, up to promises that were kept. -/
structure Keeps (s t : MemorySnapshot) : Prop where
  objects : Grows s.objects t.objects
  promised : ∀ id, id ∈ s.promised → id ∈ t.promised ∨ id ∈ t.objects
  quarantined : ∀ id, id ∈ s.quarantined → id ∈ t.quarantined

omit [Unicode] [Hashes] in
theorem Keeps.refl (s : MemorySnapshot) : Keeps s s := ⟨.refl _, fun _ h => .inl h, fun _ h => h⟩

omit [Unicode] [Hashes] in
theorem Keeps.trans {s t u : MemorySnapshot} (h : Keeps s t) (h' : Keeps t u) : Keeps s u where
  objects := h.objects.trans h'.objects
  promised id hid := by
    rcases h.promised id hid with hid | hid
    · exact h'.promised id hid
    · obtain ⟨o, ho⟩ := BTreeMap.mem_iff_get.mp hid
      exact .inr (BTreeMap.mem_iff_get.mpr ⟨o, h'.objects id o ho⟩)
  quarantined id hid := h'.quarantined id (h.quarantined id hid)

/-- What one event does to objects, marks and references. -/
theorem Atomic.keeps {s t : MemorySnapshot} {event : Event} (h : Atomic s event t) :
    Keeps s t ∧ ∀ (key : ReferenceKey) (state : ReferenceState), s.references[key]? = some state →
      t.references[key]? = some state ∨ Supersedes event key state := by
  cases event with
  | put id bytes r =>
      rcases put_cases h with ⟨rfl, -⟩ | ⟨rfl, -⟩ | ⟨decoded, _, -, -, hnone, -, rfl⟩
      · exact ⟨.refl _, fun _ _ h => .inl h⟩
      · exact ⟨.refl _, fun _ _ h => .inl h⟩
      · refine ⟨⟨.insert hnone, fun id' hid' => ?_, fun _ h => h⟩, fun _ _ h => .inl h⟩
        by_cases heq : id = id'
        · subst heq
          exact .inr Std.ExtTreeMap.mem_insert_self
        · exact .inl (BTreeSet.mem_erase_iff.mpr ⟨heq, hid'⟩)
  | markPromised id r =>
      rcases markPromised_cases h with ⟨rfl, -⟩ | ⟨rfl, -⟩ | ⟨_, -, -, -, -, rfl⟩
      · exact ⟨.refl _, fun _ _ h => .inl h⟩
      · exact ⟨.refl _, fun _ _ h => .inl h⟩
      · exact ⟨⟨.refl _, fun _ h => .inl (BTreeSet.mem_insert_iff.mpr (.inr h)), fun _ h => h⟩,
          fun _ _ h => .inl h⟩
  | quarantine id r =>
      rcases quarantine_cases h with ⟨rfl, -⟩ | ⟨rfl, -⟩ | ⟨_, -, -, -, -, rfl⟩
      · exact ⟨.refl _, fun _ _ h => .inl h⟩
      · exact ⟨.refl _, fun _ _ h => .inl h⟩
      · exact ⟨⟨.refl _, fun _ h => .inl h, fun _ h => BTreeSet.mem_insert_iff.mpr (.inr h)⟩,
          fun _ _ h => .inl h⟩
  | staged =>
      obtain rfl : t = s := h
      exact ⟨.refl _, fun _ _ h => .inl h⟩
  | refused =>
      obtain rfl : t = s := h
      exact ⟨.refl _, fun _ _ h => .inl h⟩
  | committed client publication validator results =>
      obtain ⟨p, hbegin, -, -, rfl⟩ := publish_eq_ok.mp h
      obtain ⟨-, -, -, hstage⟩ := beginPublish_eq_ok.mp hbegin
      obtain ⟨staged, hobjects, hcheck, hinstalls, ht⟩ := stage_eq_ok.mp hstage
      have hstages := StagesObjects.of_loop hobjects
      obtain ⟨-, -, -, -, hupdates, -⟩ := checkStaged_eq_ok.mp hcheck
      rw [ht]
      refine ⟨⟨hstages.grows, fun id hid => ?_, fun id hid => ?_⟩, fun key state hstate => ?_⟩
      · rw [Std.ExtTreeMap.mem_iff_contains]
        exact hstages.promised_kept id hid
      · exact hstages.quarantined ▸ hid
      · by_cases hkey : key ∈ publication.updates.map (·.key)
        · obtain ⟨update, hupdate, rfl⟩ := List.mem_map.mp hkey
          have hexpected := checkExpected_eq_ok.mp (hupdates update hupdate).expected
          rw [hstate] at hexpected
          right
          refine ⟨client, publication, validator, results, update.target, rfl, ?_⟩
          obtain ⟨key, expected, target⟩ := update
          cases expected with
          | absent => cases hexpected
          | exact old =>
              cases hexpected
              exact hupdate
        · left
          rw [hinstalls.kept key hkey, hstages.references]
          exact hstate

/-! ### Runs -/

theorem Run.fresh {s : MemorySnapshot} {events : List Event} {σ : System}
    (h : Run s events σ) : Fresh σ := by
  induction h with
  | start =>
      intro _ _ hf
      cases hf
  | step _ hstep ih => exact ih.step hstep

theorem Atomic.run_call {s t : MemorySnapshot} {event : Event} (h : Atomic s event t) :
    t = (event.call.toList).foldl StoreCall.run s := by
  cases event with
  | put | markPromised | quarantine | committed =>
      simp only [Event.call, Option.toList_some, List.foldl_cons, List.foldl_nil, StoreCall.run]
      exact (congrArg Prod.snd h).symm
  | staged => exact h
  | refused => exact h

/-- A run is the sequence of its whole operations. -/
theorem Run.linearized {s : MemorySnapshot} {events : List Event} {σ : System}
    (h : Run s events σ) : σ.store = (events.filterMap Event.call).foldl StoreCall.run s := by
  induction h with
  | start => rfl
  | step hrun hstep ih =>
      have hatomic := hstep.atomic hrun.fresh
      rw [hatomic.run_call, ih, List.filterMap_append, List.foldl_append]
      rename_i event _ _
      cases hcall : event.call <;> simp [hcall]

/-- The rest of a run. -/
inductive Steps : System → List Event → System → Prop
  | refl (σ : System) : Steps σ [] σ
  | step {σ σ' σ'' : System} {event : Event} {events : List Event} :
      Step σ event σ' → Steps σ' events σ'' → Steps σ (event :: events) σ''

theorem Steps.keeps {σ σ' : System} {events : List Event} (h : Steps σ events σ')
    (hfresh : Fresh σ) :
    Keeps σ.store σ'.store ∧
      ∀ (key : ReferenceKey) (state : ReferenceState), σ.store.references[key]? = some state →
        σ'.store.references[key]? = some state ∨
          ∃ event ∈ events, Supersedes event key state := by
  induction h with
  | refl σ => exact ⟨.refl _, fun _ _ h => .inl h⟩
  | step hstep _ ih =>
      obtain ⟨hkeeps, hreferences⟩ := (hstep.atomic hfresh).keeps
      obtain ⟨hkeeps', hreferences'⟩ := ih (hfresh.step hstep)
      refine ⟨hkeeps.trans hkeeps', fun key state hstate => ?_⟩
      rcases hreferences key state hstate with hstate | hsupersedes
      · rcases hreferences' key state hstate with hstate | ⟨event, hevent, hsupersedes⟩
        · exact .inl hstate
        · exact .inr ⟨event, List.mem_cons_of_mem _ hevent, hsupersedes⟩
      · exact .inr ⟨_, List.mem_cons_self, hsupersedes⟩

/-- The effect of a successful operation is in the store. -/
def Effect (event : Event) (t : MemorySnapshot) : Prop :=
  match event with
  | .put id _ (.ok _) => id ∈ t.objects
  | .markPromised id (.ok _) => id ∈ t.promised ∨ id ∈ t.objects
  | .quarantine id (.ok _) => id ∈ t.quarantined
  | .committed _ publication _ results =>
      (∀ candidate ∈ publication.objects, candidate.id ∈ t.objects) ∧
        publication.updates.map (fun update => t.references[update.key]?) = results.map some
  | _ => True

theorem Atomic.effect {s t : MemorySnapshot} {event : Event} (h : Atomic s event t) :
    Effect event t := by
  cases event with
  | put id bytes r =>
      rcases put_cases h with ⟨-, e, rfl⟩ | ⟨rfl, rfl, hstored⟩ | ⟨_, _, rfl, -, -, -, rfl⟩
      · trivial
      · exact hstored
      · exact Std.ExtTreeMap.mem_insert_self
  | markPromised id r =>
      rcases markPromised_cases h with ⟨-, e, rfl⟩ | ⟨rfl, rfl, hknown⟩ | ⟨_, rfl, -, -, -, rfl⟩
      · trivial
      · exact hknown
      · exact .inl (BTreeSet.mem_insert_iff.mpr (.inl rfl))
  | quarantine id r =>
      rcases quarantine_cases h with ⟨-, e, rfl⟩ | ⟨rfl, rfl, hmarked⟩ | ⟨_, rfl, -, -, -, rfl⟩
      · trivial
      · exact hmarked
      · exact BTreeSet.mem_insert_iff.mpr (.inl rfl)
  | staged => trivial
  | refused => trivial
  | committed client publication validator results =>
      obtain ⟨p, hbegin, -, rfl, rfl⟩ := publish_eq_ok.mp h
      obtain ⟨-, -, -, hstage⟩ := beginPublish_eq_ok.mp hbegin
      obtain ⟨staged, hobjects, -, -, ht⟩ := stage_eq_ok.mp hstage
      refine ⟨fun candidate hcandidate => ?_, StagedPublication.results_eq hbegin⟩
      rw [ht]
      exact stageObjects_stored hobjects candidate hcandidate

/-- **Clients do not disturb each other.**  In every run, the next event and
whatever follows it: a publication that commits is the whole publication on
the store it finds; an operation that fails leaves the store; what a
successful operation did is in the store, and stays there, except that a
promise may be kept and a reference replaced by a publication that names the
state it replaces.  The run is the sequence of its whole operations. -/
theorem concurrent_operations {s : MemorySnapshot} {events later : List Event} {event : Event}
    {σ σ' σ'' : System} (hrun : Run s events σ) (hstep : Step σ event σ')
    (hlater : Steps σ' later σ'') :
    (∀ client publication validator results,
      event = .committed client publication validator results →
      publish publication validator σ.store = (.ok results, σ'.store)) ∧
    (event.Failed → σ'.store = σ.store) ∧
    Effect event σ'.store ∧ Keeps σ'.store σ''.store ∧
    (∀ (key : ReferenceKey) (state : ReferenceState), σ'.store.references[key]? = some state →
      σ''.store.references[key]? = some state ∨ ∃ e ∈ later, Supersedes e key state) ∧
    σ.store = (events.filterMap Event.call).foldl StoreCall.run s := by
  have hatomic := hstep.atomic hrun.fresh
  obtain ⟨hkeeps, hreferences⟩ := hlater.keeps (hrun.fresh.step hstep)
  refine ⟨?_, hatomic.failed, hatomic.effect, hkeeps, hreferences, hrun.linearized⟩
  rintro client publication validator results rfl
  exact hatomic

end Concurrent

/-! ### A sample repository

Real objects with their real SHA-256 identifiers: a root policy with its key
envelopes, a marker, and the operation that publishes the marker. -/

section Sample

local instance sampleUnicode : Unicode := asciiUnicode

def objectBytes (t : TypedObject) : Bytes := (Value.map t.fields).raw

def sampleSignature (purpose : SignaturePurpose) : Signature where
  algorithm := .ed25519
  signer := sampleStable
  signingKeyId := sampleDigest 1
  bytes := ⟨toBeBytes 64 1, length_sampleBytes⟩
  purpose := purpose
  keyId_ne := sampleDigest_ne
  bytes_ne := sampleBytes_ne

def sampleEnvelopes : TypedObject :=
  .keyEnvelopeSet
    ⟨none, 0, .x25519HkdfSha256Aes256Gcm, [⟨⟨.actor, [1]⟩, sampleDigest 1, [1]⟩]⟩

def sampleEnvelopesId : ObjectId :=
  ⟨.sha256, sampleDigest 0x6b1db23b4d2b0d7e185db922580d1aabab99169abd9b9b9211f6925cbb7695fa⟩

def rootPolicy : TypedObject :=
  .policy {
    policyRef := none
    policyId := sampleStable
    versionSequence := 0
    previousVersion := none
    principals := []
    grants := []
    redactionMode := .omitted
    derivationRule := .noDerivation
    declassificationRequirements := []
    keyEpoch := 0
    keyEnvelopeSet := sampleEnvelopesId
    administrators := []
    activationConstraints := []
    signatures := [sampleSignature .policy] }

def rootPolicyId : ObjectId :=
  ⟨.sha256, sampleDigest 0x9cb588d855ac0ed6575706f1dbc1c3d39785446badc9941ebd2b2e58e7c60b29⟩

def rootPolicyRef : PolicyRef := ⟨sampleStable, rootPolicyId⟩

def sampleMarker : TypedObject :=
  .marker ⟨rootPolicyRef, .bookmark, ⟨.policy, rootPolicyId⟩, sampleStable, sampleTime, [],
    sampleSignature .marker⟩

def sampleMarkerId : ObjectId :=
  ⟨.sha256, sampleDigest 0xc0bf66c9d5ccaccfe440852125a921261be2541d759c3c9e5e007d3c2af77547⟩

def sampleOperation (actions : List OperationAction) : TypedObject :=
  .operation ⟨rootPolicyRef, [], sampleStable, sampleStable, 0, sampleTime, actions, [], none,
    none, sampleSignature .operation, "rgit"⟩

def markOperation : TypedObject :=
  sampleOperation [.transition none (some ⟨.marker, sampleMarkerId⟩)]

def markOperationId : ObjectId :=
  ⟨.sha256, sampleDigest 0xf86e14f89dc2b61f4d8ff0d2952a08b5a56d1fa2e3d34a4aa4e758c720bc4367⟩

/-- The preimages and digests of some objects. -/
abbrev objectHashes (objects : List (TypedObject × ObjectId)) : Hashes :=
  tableHashes (objects.map fun (t, id) =>
    (.sha256, ObjectId.preimage (Discriminant.code t.kind) t.schemaVersion (objectBytes t),
      id.digest))

def markObjects : List (TypedObject × ObjectId) :=
  [(sampleEnvelopes, sampleEnvelopesId), (rootPolicy, rootPolicyId),
    (sampleMarker, sampleMarkerId), (markOperation, markOperationId)]

/-- Publishes the sample marker, new, under a key. -/
def markPublication (key : ReferenceKey) : Publication where
  objects := markObjects.map fun (t, id) => ⟨id, objectBytes t⟩
  updates := [⟨key, .absent, sampleMarkerId⟩]
  operation := markOperationId

abbrev acceptAll : PublicationValidator := fun _ => .ok ()

theorem markPublication_accepted :
    letI := objectHashes markObjects
    (publish (markPublication (.marker sampleStable)) acceptAll {}).1.isOk = true := by
  -- the publication is run with the encoder that writes at once
  generalize hrun : @publish _ (objectHashes markObjects) = run
  delta publish beginPublish stage stageObject MemoryStore.decode AnyObject.decodeVerified
    AnyObject.decode AnyObject.id at hrun
  rw [decodeCanonical_eq_atOnce, encodeWithLimits_eq_atOnce] at hrun
  subst hrun
  decide +kernel

theorem concurrent_operations_mark :
    letI := objectHashes markObjects
    ∃ events event σ σ', Run {} events σ ∧ Step σ event σ' ∧
      (∀ client publication validator results,
        event = .committed client publication validator results →
        publish publication validator σ.store = (.ok results, σ'.store)) ∧
      (∃ results, event = .committed 0 (markPublication (.marker sampleStable)) acceptAll
        results) ∧ Effect event σ'.store := by
  let := objectHashes markObjects
  obtain ⟨p, hbegin, hvalid⟩ := publish_isOk_iff.mp markPublication_accepted
  obtain ⟨hpublication, hbase, -, -⟩ := beginPublish_eq_ok.mp hbegin
  -- client 0 stages against the empty store, then commits
  have hrun := Run.start.step (Step.stage 0 acceptAll (σ := ⟨{}, fun _ => none⟩) rfl hbegin)
  let σ : System := ⟨{}, Function.update (fun _ => none) 0 (some ⟨p, acceptAll⟩)⟩
  have hflight : σ.inFlight 0 = some ⟨p, acceptAll⟩ := by simp [σ]
  have hcommit : commitPublish p σ.store = (.ok p.results, _) :=
    commitPublish_eq_ok.mpr ⟨hbase.symm, rfl, rfl⟩
  have hstep := Step.commit hflight hvalid hcommit
  obtain ⟨hatomic, -, heffect, -⟩ := concurrent_operations hrun hstep (.refl _)
  exact ⟨_, _, _, _, hrun, hstep, hatomic, ⟨_, by rw [hpublication]⟩, heffect⟩

end Sample

end RGit
