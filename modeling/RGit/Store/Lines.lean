/-
RGit/Store/Lines.lean

The history of a line.

A line reference counts its updates, and each line state it ever named is a
stored object that repeats the count, names its predecessor and names the
operation that published it.  One call either keeps the reference or puts
one new state on top of it (`line_of_stage`); so the states a line went
through are the ones that its previous-state fields lead through
(`line_history`).
-/
import RGit.Store.Concurrent

namespace RGit

open MemoryStore

/-! ### What one call does to a reference -/

section Step

variable [Unicode] [Hashes]

/-- Every object is kept, and the references are those before or those of an
accepted publication. -/
def CallEffect (s t : MemorySnapshot) : Prop :=
  Grows s.objects t.objects ∧
    (t.references = s.references ∨
      ∃ publication t', stage publication s = .ok t' ∧ t.objects = t'.objects ∧
        t.references = t'.references)

theorem CallEffect.refl (s : MemorySnapshot) : CallEffect s s := ⟨.refl _, .inl rfl⟩

theorem CallEffect.of_publish {s t : MemorySnapshot} {publication : Publication}
    {validator : PublicationValidator} {r : Except StoreError (List ReferenceState)}
    (h : publish publication validator s = (r, t)) : CallEffect s t := by
  rcases publish_cases h with ⟨rfl, -⟩ | ⟨p, -, hbegin, -, rfl⟩
  · exact .refl _
  · obtain ⟨rfl, -, -, hstage⟩ := beginPublish_eq_ok.mp hbegin
    obtain ⟨staged, hobjects, -, -, hstaged⟩ := stage_eq_ok.mp hstage
    refine ⟨?_, .inr ⟨_, _, hstage, rfl, rfl⟩⟩
    rw [hstaged]
    exact (StagesObjects.of_loop hobjects).grows

theorem StoreCall.effect (s : MemorySnapshot) (c : StoreCall) : CallEffect s (c.run s) := by
  cases c with
  | put id bytes =>
      rw [run]
      cases h : MemoryStore.put id bytes s with
      | mk r t =>
          rcases put_cases h with ⟨rfl, -⟩ | ⟨rfl, -⟩ | ⟨_, _, -, -, hnone, -, rfl⟩
          · exact .refl _
          · exact .refl _
          · exact ⟨.insert hnone, .inl rfl⟩
  | markPromised id =>
      rw [run]
      cases h : MemoryStore.markPromised id s with
      | mk r t =>
          rcases markPromised_cases h with ⟨rfl, -⟩ | ⟨rfl, -⟩ | ⟨_, -, -, -, -, rfl⟩
          · exact .refl _
          · exact .refl _
          · exact ⟨.refl _, .inl rfl⟩
  | quarantine id =>
      rw [run]
      cases h : MemoryStore.quarantine id s with
      | mk r t =>
          rcases quarantine_cases h with ⟨rfl, -⟩ | ⟨rfl, -⟩ | ⟨_, -, -, -, -, rfl⟩
          · exact .refl _
          · exact .refl _
          · exact ⟨.refl _, .inl rfl⟩
  | publish publication validator => exact .of_publish Prod.mk.eta.symm
  | compareAndSwap key expected target operation validator =>
      rw [run]
      rcases compareAndSwap_eq (s := s) key expected target operation validator with
        ⟨e, -, hcas⟩ | ⟨state, t, hp, hcas⟩
      · rw [hcas]
        exact .refl _
      · rw [hcas]
        exact .of_publish hp

end Step

/-! ### Line states and their chains -/

/-- The state of a line reference, as its target records it. -/
structure LineRecord (objects : BTreeMap ObjectId StoredObject) (lineId : LineId)
    (state : ReferenceState) (previous : Option ObjectId) (o : StoredObject) (m : Entries) :
    Prop where
  stored : objects[state.target]? = some o
  kind : o.kind = .lineState
  value : o.object.value = .map m
  line : (valueField m 3).bind valueBytes = some lineId.1
  generation : (valueField m 6).bind valueUnsigned = some state.generation
  previous : (valueField m 7).bind objectId = previous
  operation : objectIdField m 12 = some state.operation

/-- The states of a line, newest first: each names the one below it, and the
generations go down by one to zero. -/
inductive LineChain (objects : BTreeMap ObjectId StoredObject) (lineId : LineId) :
    List ReferenceState → Prop
  | first {state : ReferenceState} {o : StoredObject} {m : Entries} :
      LineRecord objects lineId state none o m → state.generation = 0 →
      LineChain objects lineId [state]
  | advance {state old : ReferenceState} {older : List ReferenceState} {o : StoredObject}
      {m : Entries} :
      LineRecord objects lineId state (some old.target) o m →
      state.generation.toNat = old.generation.toNat + 1 →
      LineChain objects lineId (old :: older) → LineChain objects lineId (state :: old :: older)

section Chains

variable {objects objects' : BTreeMap ObjectId StoredObject} {lineId : LineId}

theorem LineRecord.grow {state : ReferenceState} {previous : Option ObjectId} {o : StoredObject}
    {m : Entries} (h : LineRecord objects lineId state previous o m)
    (hgrow : Grows objects objects') : LineRecord objects' lineId state previous o m :=
  { h with stored := hgrow _ _ h.stored }

theorem LineChain.grow {chain : List ReferenceState} (h : LineChain objects lineId chain)
    (hgrow : Grows objects objects') : LineChain objects' lineId chain := by
  induction h with
  | first hrecord hzero => exact .first (hrecord.grow hgrow) hzero
  | advance hrecord hnext _ ih => exact .advance (hrecord.grow hgrow) hnext ih

/-- The generations of a chain count down to zero. -/
theorem LineChain.generations {state : ReferenceState} {older : List ReferenceState}
    (h : LineChain objects lineId (state :: older)) :
    (state :: older).map (fun e => e.generation.toNat) =
      (List.range (state.generation.toNat + 1)).reverse := by
  generalize hchain : state :: older = chain at h
  induction h generalizing state older with
  | first _ hzero =>
      cases hchain
      simp [hzero]
  | advance _ hnext _ ih =>
      cases hchain
      rw [List.map_cons, ih rfl, hnext, List.range_succ (n := _ + 1), List.reverse_append]
      rfl

/-- Every state of a chain is recorded in its target. -/
theorem LineChain.record {chain : List ReferenceState} (h : LineChain objects lineId chain)
    {e : ReferenceState} (he : e ∈ chain) :
    ∃ previous o m, LineRecord objects lineId e previous o m := by
  induction h with
  | first hrecord _ =>
      obtain rfl := List.mem_singleton.mp he
      exact ⟨_, _, _, hrecord⟩
  | advance hrecord _ _ ih =>
      rcases List.mem_cons.mp he with rfl | he
      · exact ⟨_, _, _, hrecord⟩
      · exact ih he

/-- The targets of a chain are different objects. -/
theorem LineChain.nodup_targets {state : ReferenceState} {older : List ReferenceState}
    (h : LineChain objects lineId (state :: older)) :
    ((state :: older).map (·.target)).Nodup := by
  have hgenerations : ((state :: older).map fun e => e.generation.toNat).Nodup := by
    rw [h.generations, List.nodup_reverse]
    exact List.nodup_range
  refine List.Nodup.map_on (fun e he e' he' htarget => ?_) hgenerations.of_map
  -- equal targets record equal generations
  obtain ⟨_, o, m, hrecord⟩ := h.record he
  obtain ⟨_, o', m', hrecord'⟩ := h.record he'
  have ho : some o = some o' := by rw [← hrecord.stored, htarget, hrecord'.stored]
  cases ho
  have hm : Value.map m = .map m' := by rw [← hrecord.value, hrecord'.value]
  cases hm
  have hgeneration : some e.generation = some e'.generation := by
    rw [← hrecord.generation, hrecord'.generation]
  exact List.inj_on_of_nodup_map hgenerations he he'
    (congrArg UInt64.toNat (Option.some.inj hgeneration))

end Chains

/-! ### Runs -/

section Runs

variable [Unicode] [Hashes] {lineId : LineId}

/-- An accepted publication puts one state on top of those of the line. -/
theorem line_of_stage {s t : MemorySnapshot} {publication : Publication}
    (hstage : stage publication s = .ok t) {state : ReferenceState}
    (hstate : t.references[ReferenceKey.line lineId]? = some state) :
    s.references[ReferenceKey.line lineId]? = some state ∨
      ∃ previous o m, LineRecord t.objects lineId state previous o m ∧
        match s.references[ReferenceKey.line lineId]? with
        | none => state.generation = 0 ∧ previous = none
        | some old => state.generation.toNat = old.generation.toNat + 1 ∧
            previous = some old.target := by
  obtain ⟨staged, hobjects, hcheck, hinstalls, ht⟩ := stage_eq_ok.mp hstage
  obtain ⟨operation, -, -, -, hupdates, hvalidate, -⟩ := checkStaged_eq_ok.mp hcheck
  by_cases hkey : ReferenceKey.line lineId ∈ publication.updates.map (·.key)
  · right
    obtain ⟨update, hupdate, hkey⟩ := List.mem_map.mp hkey
    -- the pass of `validate_operation` for this update checks the line state
    obtain ⟨m, hm⟩ : ∃ m, checkLineState publication staged lineId update = .ok m := by
      simp only [validateOperation, Except.bind_eq_ok] at hvalidate
      obtain ⟨actions, -, consumed, hloop, -⟩ := hvalidate
      obtain ⟨c, c', hpass⟩ := foldlM_step_of_mem hloop hupdate
      simp only [validateUpdate, hkey, Except.bind_eq_ok] at hpass
      obtain ⟨m, hm, -⟩ := hpass
      exact ⟨m, hm⟩
    obtain ⟨⟨o, hvisible, hvalue⟩, hline, hoperation, hpredecessor⟩ := checkLineState_eq_ok hm
    obtain ⟨generation, hgeneration, hexpected⟩ := validateLinePredecessor_eq_ok.mp hpredecessor
    obtain ⟨hcurrent, o', hvisible', hkind, -⟩ := hupdates update hupdate
    obtain rfl : o = o' := Except.ok.inj (hvisible.symm.trans hvisible')
    obtain ⟨state', hnext, hget⟩ := hinstalls.installed update hupdate
    rw [hkey, hstate, Option.some.injEq] at hget
    subst hget
    obtain ⟨htarget, hop, hcount⟩ := nextState_eq_ok.mp hnext
    have hstored : t.objects[state.target]? = some o := by
      rw [ht, htarget]
      exact (visibleObject_eq_ok.mp hvisible).2
    rw [checkExpected_eq_ok, hkey] at hcurrent
    rw [hkey] at hkind hcount
    -- the counter of the store and that of the object start from the same state
    have hsame : generation = state.generation ∧
        match s.references[ReferenceKey.line lineId]? with
        | none => state.generation = 0 ∧ (valueField m 7).bind objectId = none
        | some old => state.generation.toNat = old.generation.toNat + 1 ∧
            (valueField m 7).bind objectId = some old.target := by
      cases hex : update.expected with
      | absent =>
          simp only [hex] at hcurrent hexpected
          simp only [hcurrent] at hcount ⊢
          exact ⟨hexpected.1.trans hcount.symm, hcount, hexpected.2⟩
      | exact old =>
          simp only [hex] at hcurrent hexpected
          simp only [hcurrent] at hcount ⊢
          rw [hexpected.1, Option.some.injEq] at hcount
          exact ⟨hcount, hcount ▸ toNat_of_checkedAdd hexpected.1, hexpected.2⟩
    obtain ⟨rfl, hlink⟩ := hsame
    exact ⟨_, o, m, ⟨hstored, hkind, hvalue, hline, hgeneration, rfl, hop ▸ hoperation⟩, hlink⟩
  · left
    rw [hinstalls.kept _ hkey, (StagesObjects.of_loop hobjects).references] at hstate
    exact hstate

/-- The states of the line are chained, newest first, and each of them was
current after some of the calls. -/
def LineHistory (calls : List StoreCall) (lineId : LineId) (state : ReferenceState)
    (older : List ReferenceState) : Prop :=
  LineChain (calls.foldl StoreCall.run {}).objects lineId (state :: older) ∧
    ∀ e ∈ state :: older, ∃ earlier, earlier <+: calls ∧
      (earlier.foldl StoreCall.run {}).references[ReferenceKey.line lineId]? = some e

/-- One more call. -/
theorem lineHistory_step {calls : List StoreCall} (c : StoreCall)
    (ih : ∀ state, (calls.foldl StoreCall.run {}).references[ReferenceKey.line lineId]? =
      some state → ∃ older, LineHistory calls lineId state older)
    {state : ReferenceState}
    (hstate : ((calls ++ [c]).foldl StoreCall.run {}).references[ReferenceKey.line lineId]? =
      some state) : ∃ older, LineHistory (calls ++ [c]) lineId state older := by
  have hrun : (calls ++ [c]).foldl StoreCall.run {} = c.run (calls.foldl StoreCall.run {}) := by
    rw [List.foldl_append]
    rfl
  have hprefix : calls <+: calls ++ [c] := List.prefix_append _ _
  have hnow := hstate
  rw [hrun] at hstate
  obtain ⟨hgrow, hcases⟩ := StoreCall.effect (calls.foldl StoreCall.run {}) c
  -- what was a history before the call is one after it
  have hkeep : ∀ state older, LineHistory calls lineId state older →
      LineHistory (calls ++ [c]) lineId state older := by
    rintro state older ⟨hchain, hearlier⟩
    refine ⟨hrun ▸ hchain.grow hgrow, fun e he => ?_⟩
    obtain ⟨earlier, hle, hget⟩ := hearlier e he
    exact ⟨earlier, hle.trans hprefix, hget⟩
  rcases hcases with hsame | ⟨publication, t, hstage, hobjects, hreferences⟩
  · rw [hsame] at hstate
    obtain ⟨older, h⟩ := ih state hstate
    exact ⟨older, hkeep _ _ h⟩
  · rw [hreferences] at hstate
    rcases line_of_stage hstage hstate with hold | ⟨previous, o, m, hrecord, hlink⟩
    · obtain ⟨older, h⟩ := ih state hold
      exact ⟨older, hkeep _ _ h⟩
    · rw [← hobjects, ← hrun] at hrecord
      cases hold : (calls.foldl StoreCall.run {}).references[ReferenceKey.line lineId]? with
      | none =>
          rw [hold] at hlink
          obtain ⟨hzero, rfl⟩ := hlink
          refine ⟨[], .first hrecord hzero, fun e he => ?_⟩
          obtain rfl := List.mem_singleton.mp he
          exact ⟨_, List.prefix_rfl, hnow⟩
      | some old =>
          rw [hold] at hlink
          obtain ⟨hnext, rfl⟩ := hlink
          obtain ⟨older, h⟩ := ih old hold
          obtain ⟨hchain, hearlier⟩ := hkeep _ _ h
          refine ⟨old :: older, .advance hrecord hnext hchain, fun e he => ?_⟩
          rcases List.mem_cons.mp he with rfl | he
          · exact ⟨_, List.prefix_rfl, hnow⟩
          · exact hearlier e he

/-- **The history of a line is in its objects.**  In every reachable snapshot,
the target of a line reference records the generation of the reference, and
its previous-state fields lead through as many stored line states as there
were updates: each was the target of the reference at its generation, and
names the operation that published it. -/
theorem line_history (calls : List StoreCall) (state : ReferenceState)
    (hstate : (calls.foldl StoreCall.run {}).references[ReferenceKey.line lineId]? = some state) :
    ∃ older, LineChain (calls.foldl StoreCall.run {}).objects lineId (state :: older) ∧
      (state :: older).map (fun e => e.generation.toNat) =
        (List.range (state.generation.toNat + 1)).reverse ∧
      ((state :: older).map (·.target)).Nodup ∧
      ∀ e ∈ state :: older,
        (∃ previous o m,
          LineRecord (calls.foldl StoreCall.run {}).objects lineId e previous o m) ∧
        ∃ earlier, earlier <+: calls ∧
          (earlier.foldl StoreCall.run {}).references[ReferenceKey.line lineId]? = some e := by
  have hall : ∀ state, (calls.foldl StoreCall.run {}).references[ReferenceKey.line lineId]? =
      some state → ∃ older, LineHistory calls lineId state older := by
    clear hstate
    induction calls using List.reverseRecOn with
    | nil =>
        intro state hstate
        simp at hstate
    | append_singleton calls c ih => exact fun _ => lineHistory_step c ih
  obtain ⟨older, hchain, hearlier⟩ := hall state hstate
  exact ⟨older, hchain, hchain.generations, hchain.nodup_targets,
    fun e he => ⟨hchain.record he, hearlier e he⟩⟩

end Runs

/-! ### A sample line

One line of the sample repository, whose head is a snapshot of an empty
manifest. -/

section Sample

local instance lineUnicode : Unicode := asciiUnicode

def sampleManifest : TypedObject := .manifest ⟨rootPolicyRef, []⟩

def sampleManifestId : ObjectId :=
  ⟨.sha256, sampleDigest 0x05d70406efc7ead64d4aa20088d9dab84603bd1e57a19b700f05c6fb3ffb4be6⟩

def sampleSnapshot : TypedObject :=
  .snapshot {
    policyRef := rootPolicyRef
    rootManifest := sampleManifestId
    parents := []
    changeId := sampleStable
    author := sampleStable
    device := sampleStable
    logicalTime := 0
    wallTime := sampleTime
    messageBlob := none }

def sampleSnapshotId : ObjectId :=
  ⟨.sha256, sampleDigest 0x00b520a3b1f3c298a520bee6221cb806ab45bfad4cf6ae220a5661eb6be6d635⟩

def sampleDeclaration : LineAdvanceDeclaration where
  policyRef := rootPolicyRef
  lineId := sampleStable
  displayName := "main"
  headSnapshot := sampleSnapshotId
  generation := 0
  previousState := none
  integrationPolicy := rootPolicyRef
  approvalPolicy := rootPolicyRef
  releasePolicy := rootPolicyRef
  visibilityPolicy := rootPolicyRef

def lineOperation : TypedObject := sampleOperation [.lineAdvance sampleDeclaration]

def lineOperationId : ObjectId :=
  ⟨.sha256, sampleDigest 0x5b09841eb2a40f83bfd4681e0c0bde48811aa606d6dee644a04da7ff650ca850⟩

def sampleLineState : TypedObject :=
  .lineState {
    policyRef := rootPolicyRef
    lineId := sampleStable
    displayName := "main"
    headSnapshot := sampleSnapshotId
    generation := 0
    previousState := none
    integrationPolicy := rootPolicyRef
    approvalPolicy := rootPolicyRef
    releasePolicy := rootPolicyRef
    visibilityPolicy := rootPolicyRef
    transactionOperation := lineOperationId
    signature := sampleSignature .lineState }

def sampleLineStateId : ObjectId :=
  ⟨.sha256, sampleDigest 0x99f8087fd06431cf6b9da7caa94df4d3a413215e855091487b73bd584ce46134⟩

def lineObjects : List (TypedObject × ObjectId) :=
  [(sampleEnvelopes, sampleEnvelopesId), (rootPolicy, rootPolicyId),
    (sampleManifest, sampleManifestId), (sampleSnapshot, sampleSnapshotId),
    (lineOperation, lineOperationId), (sampleLineState, sampleLineStateId)]

/-- Creates the sample line. -/
def linePublication : Publication where
  objects := lineObjects.map fun (t, id) => ⟨id, objectBytes t⟩
  updates := [⟨.line sampleStable, .absent, sampleLineStateId⟩]
  operation := lineOperationId

theorem linePublication_installed :
    letI := objectHashes lineObjects
    (([StoreCall.publish linePublication acceptAll].foldl StoreCall.run
        {}).references[ReferenceKey.line sampleStable]?) =
      some ⟨sampleLineStateId, 0, lineOperationId⟩ := by
  generalize hrun : @StoreCall.run _ (objectHashes lineObjects) = run
  delta StoreCall.run publish beginPublish stage stageObject MemoryStore.decode AnyObject.decodeVerified
    AnyObject.decode AnyObject.id at hrun
  rw [decodeCanonical_eq_atOnce, encodeWithLimits_eq_atOnce] at hrun
  subst hrun
  decide +kernel

theorem line_history_sample :
    letI := objectHashes lineObjects
    ∃ older : List ReferenceState, older = [] ∧
      LineChain ([StoreCall.publish linePublication acceptAll].foldl StoreCall.run {}).objects
        sampleStable (⟨sampleLineStateId, 0, lineOperationId⟩ :: older) := by
  let := objectHashes lineObjects
  obtain ⟨older, hchain, hgenerations, -⟩ := line_history _ _ linePublication_installed
  have hlength := congrArg List.length hgenerations
  simp only [List.length_map, List.length_cons, List.length_reverse, List.length_range] at hlength
  exact ⟨older, List.length_eq_zero_iff.mp (by simpa using hlength), hchain⟩

end Sample

end RGit
