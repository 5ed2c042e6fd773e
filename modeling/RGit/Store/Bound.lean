/-
RGit/Store/Bound.lean

Publications of schema-1 operations.

A schema-1 operation names the key of every change, release and marker it
moves in a bound transition.  The store looks for the transition of schema 0
instead, whose discriminator no schema-1 action has.  A publication that
passes every check but the matching of actions, and whose operation has
exactly the actions of its updates, is therefore accepted exactly when it
moves no change, release or marker (`boundPublication_iff`).
-/
import RGit.Store.Binding
import RGit.Store.Declarations

namespace RGit

open MemoryStore

/-! ### Consuming actions -/

section Consume

variable {actions : List Value} {consumed consumed' : List Nat} {holds : Value → Bool}

theorem findAction_eq_some {index : Nat} (h : findAction actions consumed holds = some index) :
    index ∉ consumed ∧ ∃ action, actions[index]? = some action ∧ holds action = true := by
  rw [findAction, Option.map_eq_some_iff] at h
  obtain ⟨⟨action, i⟩, hfind, rfl⟩ := h
  have hmem := List.mem_of_find?_eq_some hfind
  have hholds := List.find?_some hfind
  simp only [Bool.and_eq_true, Bool.not_eq_true', List.contains_eq_mem, decide_eq_false_iff_not]
    at hholds
  exact ⟨hholds.1, action, (List.mk_mem_zipIdx_iff_getElem?.mp hmem), hholds.2⟩

theorem findAction_isSome {index : Nat} {action : Value} (hget : actions[index]? = some action)
    (hnew : index ∉ consumed) (hholds : holds action = true) :
    ∃ index', findAction actions consumed holds = some index' := by
  cases hfind : findAction actions consumed holds with
  | some index' => exact ⟨index', rfl⟩
  | none =>
      rw [findAction, Option.map_eq_none_iff, List.find?_eq_none] at hfind
      have hmem : (action, index) ∈ actions.zipIdx := List.mk_mem_zipIdx_iff_getElem?.mpr hget
      have hcontra := hfind _ hmem
      simp [hnew, hholds] at hcontra

theorem consumeAction_eq_ok (h : consumeAction actions consumed holds = .ok consumed') :
    ∃ index action, consumed' = index :: consumed ∧ index ∉ consumed ∧
      actions[index]? = some action ∧ holds action = true := by
  rw [consumeAction] at h
  cases hfind : findAction actions consumed holds with
  | none => rw [hfind] at h; cases h
  | some index =>
      rw [hfind] at h
      cases h
      obtain ⟨hnew, action, hget, hholds⟩ := findAction_eq_some hfind
      exact ⟨index, action, rfl, hnew, hget, hholds⟩

theorem consumeAction_isOk {index : Nat} {action : Value} (hget : actions[index]? = some action)
    (hnew : index ∉ consumed) (hholds : holds action = true) :
    ∃ consumed', consumeAction actions consumed holds = .ok consumed' := by
  obtain ⟨index', hfind⟩ := findAction_isSome hget hnew hholds
  exact ⟨index' :: consumed, by rw [consumeAction, hfind]⟩

end Consume

/-! ### Typed objects in the store -/

/-- The typed object is visible under the identifier. -/
def StoresTyped [Unicode] (s : MemorySnapshot) (id : ObjectId) (t : TypedObject) : Prop :=
  ∃ o, visibleObject s id = .ok o ∧ t.encode = .ok o.bytes

/-- The declaration that announces a line state. -/
def LineState.declaration (l : LineState) : LineAdvanceDeclaration where
  policyRef := l.policyRef
  lineId := l.lineId
  displayName := l.displayName
  headSnapshot := l.headSnapshot
  generation := l.generation
  previousState := l.previousState
  integrationPolicy := l.integrationPolicy
  approvalPolicy := l.approvalPolicy
  releasePolicy := l.releasePolicy
  visibilityPolicy := l.visibilityPolicy

section Typed

variable [Unicode] [Hashes]

/-- The record of a stored object is that of the typed object it encodes. -/
theorem record_of_typed {id : ObjectId} {o : StoredObject} {t : TypedObject}
    (hdecode : decode id o.bytes = .ok o) (henc : t.encode = .ok o.bytes) :
    ∃ m, o.object.value = .map m ∧ Admitted (kindLimits t.kind) (.map m) ∧
      Value.map m = (Value.map t.fields).norm := by
  obtain ⟨hobject, -, -, -, -⟩ := MemoryStore.decode_eq_ok.mp hdecode
  obtain ⟨m, hvalue, hread, -, -, -⟩ := RGit.decode_eq_ok.mp hobject
  obtain ⟨-, henc⟩ := TypedObject.encode_eq_ok.mp henc
  have hsame : (Value.map t.fields).norm = .map m :=
    decodeCanonical_unique (kindLimits_atMost_bulk t.kind)
      (CanonicalLimits.restrictedBy_right .bulk .bulk) (decodeCanonical_encode henc) hread
  exact ⟨m, hvalue, hsame ▸ (Admitted.of_encode henc).1, hsame.symm⟩

/-- The actions of a stored schema-1 operation. -/
theorem operationActions_typed {id : ObjectId} {o : StoredObject} {op : OperationV1}
    (hdecode : decode id o.bytes = .ok o)
    (henc : (TypedObject.operationV1 op).encode = .ok o.bytes) :
    operationActions o = .ok (op.actions.map fun a => a.value.norm) ∧
      ∀ a ∈ op.actions, Admitted (kindLimits .operation) a.value.norm := by
  obtain ⟨m, hvalue, hm, heq⟩ := record_of_typed hdecode henc
  obtain ⟨⟨-, -, -, -, -, -, -, -, h₈, -⟩, -⟩ := (operationV1_fields_iff hm).mp heq
  refine ⟨?_, fun a ha => (hm.of_lookup h₈).of_mem (List.mem_map_of_mem ha)⟩
  simp [operationActions, hvalue, valueMap, valueField, h₈, valueArray, Except.ofOption]

omit [Hashes] in
/-- A schema-1 action is not a transition of schema 0. -/
theorem transitionMatches_schema_one {a : OperationActionV1} {update : RefUpdate}
    (ha : Admitted (kindLimits .operation) a.value.norm) :
    transitionMatches a.value.norm update = false := by
  cases a with
  | boundTransition key before after =>
      obtain ⟨m, hvalue, ⟨h₀, -⟩, -⟩ := (boundTransition_eq_norm_iff ha).mp rfl
      simp [hvalue, transitionMatches, valueMap, valueField, h₀, valueUnsigned]
  | lineAdvance d =>
      obtain ⟨m, hvalue, ⟨h₀, -⟩, -⟩ := (lineAdvanceAction_eq_norm_iff ha).mp rfl
      have hvalue : (OperationActionV1.lineAdvance d).value.norm = .map m := hvalue
      simp [hvalue, transitionMatches, valueMap, valueField, h₀, valueUnsigned]

omit [Hashes] in
/-- The declaration of a line state matches it. -/
theorem lineActionMatches_declaration {l : LineState} {m : Entries}
    (ha : Admitted (kindLimits .operation) (OperationActionV1.lineAdvance l.declaration).value.norm)
    (hm : Admitted (kindLimits .lineState) (.map m))
    (heq : Value.map m = (CanonicalObject.canonicalValue l).norm) :
    lineActionMatches (OperationActionV1.lineAdvance l.declaration).value.norm m = true := by
  have hmatch := lineActionMatches_lineAdvance ha hm heq
  refine hmatch.trans ?_
  simp [LineAdvanceDeclaration.matchesState, LineState.declaration]

end Typed

/-! ### The action loop -/

/-- The line an action declares to advance. -/
def declaredLine (action : Value) : Option Bytes :=
  (((((valueMap action).bind fun m => valueField m 3).bind valueMap).bind
    fun m => valueField m 1).bind valueBytes)

theorem declaredLine_of_matches {action : Value} {state : Entries}
    (h : lineActionMatches action state = true) :
    declaredLine action = (valueField state 3).bind valueBytes := by
  rw [lineActionMatches] at h
  cases hmap : valueMap action with
  | none => simp [hmap] at h
  | some m =>
      cases hdeclared : (valueField m 3).bind valueMap with
      | none => simp [hmap, hdeclared] at h
      | some d =>
          simp only [hmap, hdeclared, declaredFields, Bool.and_eq_true, List.all_cons,
            beq_iff_eq] at h
          have hline : valueField d 1 = valueField state 3 := h.2.1.2.1
          simp [declaredLine, hmap, hdeclared, hline]

/-- What the loop of `validate_operation` asks of an update, if no action is
used twice. -/
def UpdateDeclared (publication : Publication) (operation : StoredObject) (s : MemorySnapshot)
    (actions : List Value) (update : RefUpdate) : Prop :=
  (update.key = .operationHead ∧ checkOperationHead publication operation update = .ok ()) ∨
    ∃ lineId state action, update.key = .line lineId ∧
      checkLineState publication s lineId update = .ok state ∧ action ∈ actions ∧
      lineActionMatches action state = true

/-- A line action is declared for one line only, so that the first match is
never taken from another update. -/
theorem validateUpdates_isOk {publication : Publication} {operation : StoredObject}
    {s : MemorySnapshot} {actions : List Value} {updates : List RefUpdate}
    (hkeys : (updates.map (·.key)).Nodup)
    (hdeclared : ∀ update ∈ updates,
      UpdateDeclared publication operation s actions update) :
    ∀ consumed : List Nat,
      (∀ index ∈ consumed, ∀ action ∈ actions[index]?, ∀ lineId : LineId,
        declaredLine action = some lineId.1 → ReferenceKey.line lineId ∉ updates.map (·.key)) →
      ∃ consumed', updates.foldlM (validateUpdate publication operation s actions) consumed =
          .ok consumed' ∧
        consumed'.length =
          consumed.length + (updates.filter fun u => u.key ≠ .operationHead).length := by
  induction updates with
  | nil => exact fun consumed _ => ⟨consumed, rfl, rfl⟩
  | cons update updates ih =>
      intro consumed hfree
      rw [List.map_cons, List.nodup_cons] at hkeys
      have hrest := ih hkeys.2 fun u hu => hdeclared u (List.mem_cons_of_mem _ hu)
      rcases hdeclared update List.mem_cons_self with
        ⟨hkey, hhead⟩ | ⟨lineId, state, action, hkey, hstate, haction, hholds⟩
      · -- the operation head consumes nothing
        obtain ⟨consumed', hloop, hlength⟩ := hrest consumed fun index hindex a ha lineId hline =>
          fun hmem => hfree index hindex a ha lineId hline (List.mem_cons_of_mem _ hmem)
        refine ⟨consumed', ?_, by simpa [hkey] using hlength⟩
        rw [List.foldlM_cons, validateUpdate, hkey]
        simpa [hhead] using hloop
      · obtain ⟨index, hindex⟩ := List.mem_iff_getElem?.mp haction
        have hline : declaredLine action = some lineId.1 :=
          (declaredLine_of_matches hholds).trans (checkLineState_eq_ok hstate).2.1
        have hnew : index ∉ consumed := fun hmem =>
          hfree index hmem action hindex lineId hline (by simp [hkey])
        obtain ⟨consumed₁, hconsume⟩ : ∃ consumed₁, consumeAction actions consumed
            (fun action => lineActionMatches action state) = .ok consumed₁ :=
          consumeAction_isOk hindex hnew hholds
        obtain ⟨index₁, action₁, hconsumed₁, -, hget₁, hholds₁⟩ := consumeAction_eq_ok hconsume
        have hline₁ : declaredLine action₁ = some lineId.1 :=
          (declaredLine_of_matches hholds₁).trans (checkLineState_eq_ok hstate).2.1
        obtain ⟨consumed', hloop, hlength⟩ := hrest consumed₁ (by
          rw [hconsumed₁]
          intro i hi a ha lineId' hline' hmem
          rcases List.mem_cons.mp hi with rfl | hi
          · rw [hget₁, Option.mem_some_iff] at ha
            subst ha
            rw [hline₁, Option.some.injEq] at hline'
            obtain rfl : lineId = lineId' := Subtype.ext hline'
            exact hkeys.1 (hkey ▸ hmem)
          · exact hfree i hi a ha lineId' hline' (List.mem_cons_of_mem _ hmem))
        refine ⟨consumed', ?_, ?_⟩
        · rw [List.foldlM_cons, validateUpdate, hkey]
          simpa [hstate, hconsume] using hloop
        · rw [hlength, hconsumed₁]
          simp [hkey]
          omega

/-! ### Publications of schema-1 operations -/

/-- The object a key must have had for an update. -/
def RefUpdate.before (update : RefUpdate) : Option TypedObjectRef :=
  match update.expected with
  | .absent => none
  | .exact state => some ⟨update.key.expectedKind, state.target⟩

/-- The action a new writer emits for an update. -/
def ActionFor [Unicode] (staged : MemorySnapshot) (update : RefUpdate)
    (action : OperationActionV1) : Prop :=
  match update.key with
  | .operationHead => False
  | .line _ => ∃ l, StoresTyped staged update.target (.lineState l) ∧
      action = .lineAdvance l.declaration
  | key => action = .boundTransition key update.before ⟨key.expectedKind, update.target⟩

/-- The operation has one action for each update that is not of the operation
head, in some order, and no other. -/
def DeclaresUpdates [Unicode] (staged : MemorySnapshot) (updates : List RefUpdate)
    (operation : OperationV1) : Prop :=
  ∃ actions : List OperationActionV1, actions.Perm operation.actions ∧
    List.Forall₂ (ActionFor staged) (updates.filter fun u => u.key ≠ .operationHead) actions

/-- The checks of `publish` up to the matching of actions. -/
structure OtherChecks [Unicode] [Hashes] (publication : Publication) (s staged : MemorySnapshot)
    (operation : StoredObject) : Prop where
  objects : publication.objects.foldlM stageObject s = .ok staged
  visible : visibleObject staged publication.operation = .ok operation
  kind : operation.kind = .operation
  updates : ∃ keys, publication.updates.foldlM (checkUpdate s staged) [] = .ok keys
  heads : ∀ update ∈ publication.updates, update.key = .operationHead →
    checkOperationHead publication operation update = .ok ()
  lines : ∀ update ∈ publication.updates, ∀ lineId, update.key = .line lineId →
    ∃ state, checkLineState publication staged lineId update = .ok state
  closure : ∃ closure, closureFrom staged (publicationRoots publication) = .ok closure ∧
    validateAffectedGraphs closure = .ok ()
  states : ∀ update ∈ publication.updates, ∃ state, nextState s publication update = .ok state
  revision : ∃ next, checkedAdd s.revision 1 = some next

section Bound

variable [Unicode] [Hashes] {publication : Publication} {s staged : MemorySnapshot}
  {operation : StoredObject} {op : OperationV1}

/-- Once the actions match, nothing else is left to check. -/
theorem OtherChecks.stage (h : OtherChecks publication s staged operation) :
    (∃ t, stage publication s = .ok t) ↔ validateOperation publication operation staged = .ok () := by
  rw [stage_isOk_iff]
  constructor
  · rintro ⟨_, hobjects, hcheck, -⟩
    obtain rfl : staged = _ := Except.ok.inj (h.objects.symm.trans hobjects)
    obtain ⟨o, hvisible, -, -, -, hvalidate, -⟩ := checkStaged_eq_ok.mp hcheck
    rw [h.visible, Except.ok.injEq] at hvisible
    exact hvisible ▸ hvalidate
  · intro hvalidate
    obtain ⟨hnodup, hupdates⟩ := checkUpdates_isOk_iff.mp h.updates
    exact ⟨staged, h.objects, checkStaged_eq_ok.mpr ⟨operation, h.visible, h.kind, hnodup, hupdates,
      hvalidate, h.closure⟩, h.states⟩

theorem staged_decoded (hs : SoundSnapshot s) (h : OtherChecks publication s staged operation)
    (id : ObjectId) (o : StoredObject) (ho : visibleObject staged id = .ok o) :
    decode id o.bytes = .ok o := by
  obtain ⟨-, hget⟩ := visibleObject_eq_ok.mp ho
  rcases (StagesObjects.of_loop h.objects).decoded id o hget with hold | hdecode
  · exact hs.decoded id o hold
  · exact hdecode

/-- The action of a line update matches the line state it installs. -/
theorem updateDeclared_line (hs : SoundSnapshot s) (h : OtherChecks publication s staged operation)
    (hactions : ∀ a ∈ op.actions, Admitted (kindLimits .operation) a.value.norm)
    {update : RefUpdate} (hupdate : update ∈ publication.updates) {lineId : LineId}
    (hkey : update.key = .line lineId) {action : OperationActionV1} (haction : action ∈ op.actions)
    (hfor : ActionFor staged update action) :
    UpdateDeclared publication operation staged (op.actions.map fun a => a.value.norm) update := by
  simp only [ActionFor, hkey] at hfor
  obtain ⟨l, ⟨o, hvisible, henc⟩, rfl⟩ := hfor
  obtain ⟨state, hstate⟩ := h.lines update hupdate lineId hkey
  obtain ⟨⟨o', hvisible', hvalue⟩, -⟩ := checkLineState_eq_ok hstate
  obtain rfl : o = o' := Except.ok.inj (hvisible.symm.trans hvisible')
  obtain ⟨m, hvalue', hm, heq⟩ := record_of_typed (staged_decoded hs h _ o hvisible) henc
  obtain rfl : state = m := by
    rw [hvalue, Value.map.injEq] at hvalue'
    exact hvalue'
  exact .inr ⟨lineId, state, _, hkey, hstate, List.mem_map_of_mem haction,
    lineActionMatches_declaration (hactions _ haction) hm heq⟩

/-- The matching of actions fails on bound transitions, and on nothing else. -/
theorem validateOperation_bound_iff (hs : SoundSnapshot s)
    (h : OtherChecks publication s staged operation)
    (henc : (TypedObject.operationV1 op).encode = .ok operation.bytes)
    (hdeclares : DeclaresUpdates staged publication.updates op) :
    validateOperation publication operation staged = .ok () ↔
      ∀ update ∈ publication.updates, update.key.Bindable = false := by
  obtain ⟨hactions, hadmitted⟩ :=
    operationActions_typed (staged_decoded hs h _ _ h.visible) henc
  obtain ⟨hnodup, -⟩ := checkUpdates_isOk_iff.mp h.updates
  simp only [validateOperation, hactions, Except.ok_bind, Except.bind_eq_ok,
    Except.ite_error_eq_ok, ne_eq, not_not, and_true]
  constructor
  · rintro ⟨consumed, hloop, -⟩ update hupdate
    by_contra hbindable
    -- the pass of this update looks for a transition of schema 0
    obtain ⟨c, c', hstep⟩ := foldlM_step_of_mem hloop hupdate
    have hconsume : consumeAction (op.actions.map fun a => a.value.norm) c
        (fun action => transitionMatches action update) = .ok c' := by
      rw [validateUpdate] at hstep
      cases hkey : update.key with
      | line | operationHead => simp [hkey, ReferenceKey.Bindable] at hbindable
      | change | release | marker => simpa [hkey] using hstep
    obtain ⟨index, action, -, -, hget, hholds⟩ := consumeAction_eq_ok hconsume
    obtain ⟨a, ha, rfl⟩ := List.mem_map.mp (List.mem_of_getElem? hget)
    rw [transitionMatches_schema_one (hadmitted a ha)] at hholds
    cases hholds
  · intro hbindable
    obtain ⟨actions, hperm, hforall⟩ := hdeclares
    have hdeclared : ∀ update ∈ publication.updates, UpdateDeclared publication operation staged
        (op.actions.map fun a => a.value.norm) update := by
      intro update hupdate
      cases hkey : update.key with
      | operationHead => exact .inl ⟨hkey, h.heads update hupdate hkey⟩
      | line lineId =>
          obtain ⟨action, haction, hfor⟩ := forall₂_exists_of_mem hforall
            (List.mem_filter.mpr ⟨hupdate, by simp [hkey]⟩)
          exact updateDeclared_line hs h hadmitted hupdate hkey (hperm.mem_iff.mp haction) hfor
      | change | release | marker =>
          have := hbindable update hupdate
          simp [hkey, ReferenceKey.Bindable] at this
    obtain ⟨consumed, hloop, hlength⟩ := validateUpdates_isOk hnodup hdeclared [] (by simp)
    refine ⟨consumed, hloop, ?_⟩
    rw [hlength, hforall.length_eq, List.length_map, hperm.length_eq]
    simp

/-- **Which publications of schema-1 operations are accepted.**  The
publication passes every other check, its operation has exactly the actions
of its updates, and the validator accepts what would be installed.  It is
published, with exactly its references, if and only if it moves no change,
release or marker. -/
theorem boundPublication_iff (calls : List StoreCall) (validator : PublicationValidator)
    (h : OtherChecks publication (calls.foldl StoreCall.run {}) staged operation)
    (henc : (TypedObject.operationV1 op).encode = .ok operation.bytes)
    (hdeclares : DeclaresUpdates staged publication.updates op)
    (hvalid : ∀ references,
      Installs (calls.foldl StoreCall.run {}) publication
        (calls.foldl StoreCall.run {}).references references →
      validator ⟨publication, staged.objects, references⟩ = .ok ()) :
    (∃ results t,
      publish publication validator (calls.foldl StoreCall.run {}) = (.ok results, t) ∧
        Installs (calls.foldl StoreCall.run {}) publication
          (calls.foldl StoreCall.run {}).references t.references) ↔
      ∀ update ∈ publication.updates, update.key.Bindable = false := by
  have hs : SoundSnapshot (calls.foldl StoreCall.run {}) := StoreCall.sound_runs calls .initial
  generalize calls.foldl StoreCall.run {} = s at *
  rw [← validateOperation_bound_iff hs h henc hdeclares, ← h.stage]
  constructor
  · rintro ⟨results, t, hpublish, -⟩
    obtain ⟨p, hbegin, -⟩ := publish_eq_ok.mp hpublish
    exact ⟨_, (beginPublish_eq_ok.mp hbegin).2.2.2⟩
  · rintro ⟨t, hstage⟩
    obtain ⟨next, hnext⟩ := h.revision
    have hbegin : beginPublish publication s = .ok ⟨publication, t, s.revision, next⟩ :=
      beginPublish_eq_ok.mpr ⟨rfl, rfl, hnext, hstage⟩
    obtain ⟨_, hobjects, -, hinstalls, ht⟩ := stage_eq_ok.mp hstage
    obtain rfl : staged = _ := Except.ok.inj (h.objects.symm.trans hobjects)
    rw [(StagesObjects.of_loop h.objects).references] at hinstalls
    have hstored : t.objects = staged.objects := by rw [ht]
    refine ⟨_, _, publish_eq_ok.mpr ⟨_, hbegin, ?_, rfl, rfl⟩, hinstalls⟩
    rw [StagedPublication.candidate, hstored]
    exact hvalid _ hinstalls

end Bound

/-! ### The sample marker, bound to its key -/

section Sample

local instance boundUnicode : Unicode := asciiUnicode

def boundOperation : OperationV1 where
  policyRef := rootPolicyRef
  parents := []
  actor := sampleStable
  device := sampleStable
  logicalTime := 0
  wallTime := sampleTime
  actions := [.boundTransition (.marker sampleStable) none ⟨.marker, sampleMarkerId⟩]
  inversePayloads := []
  publicEnvelope := none
  privatePayload := none
  signature := sampleSignature .operation
  clientImplementation := "rgit"

def boundOperationId : ObjectId :=
  ⟨.sha256, sampleDigest 0xe7106e329b6ec5dd7e6763b5abab8fe38a557c365d38adf3e30f66d74d373d25⟩

def boundObjects : List (TypedObject × ObjectId) :=
  [(sampleEnvelopes, sampleEnvelopesId), (rootPolicy, rootPolicyId),
    (sampleMarker, sampleMarkerId), (.operationV1 boundOperation, boundOperationId)]

/-- Publishes the sample marker, new, under the key its operation names. -/
def boundPublication : Publication where
  objects := boundObjects.map fun (t, id) => ⟨id, objectBytes t⟩
  updates := [⟨.marker sampleStable, .absent, sampleMarkerId⟩]
  operation := boundOperationId

/-- The checks that can fail, on the empty store. -/
def boundChecks [Hashes] : Except StoreError (MemorySnapshot × StoredObject) := do
  let staged ← boundPublication.objects.foldlM stageObject {}
  let operation ← visibleObject staged boundPublication.operation
  let _ ← boundPublication.updates.foldlM (checkUpdate {} staged) []
  let closure ← closureFrom staged (publicationRoots boundPublication)
  validateAffectedGraphs closure
  if operation.kind ≠ .operation then .error .referenceKind
  else if (TypedObject.operationV1 boundOperation).encode ≠ .ok operation.bytes then
    .error .operationMismatch
  else .ok (staged, operation)

theorem boundChecks_isOk :
    letI := objectHashes boundObjects
    boundChecks.isOk = true := by
  generalize hrun : @boundChecks = checks
  delta boundChecks stageObject MemoryStore.decode AnyObject.decodeVerified AnyObject.decode
    AnyObject.id at hrun
  rw [decodeCanonical_eq_atOnce, encodeWithLimits_eq_atOnce] at hrun
  subst hrun
  decide +kernel

theorem boundPublication_checks :
    letI := objectHashes boundObjects
    ∃ staged operation, OtherChecks boundPublication {} staged operation ∧
      (TypedObject.operationV1 boundOperation).encode = .ok operation.bytes ∧
      DeclaresUpdates staged boundPublication.updates boundOperation := by
  let := objectHashes boundObjects
  obtain ⟨⟨staged, operation⟩, h⟩ := Except.isOk_iff.mp boundChecks_isOk
  simp only [boundChecks, Except.bind_eq_ok, Except.exists_unit_iff, Except.ite_error_eq_ok, ne_eq,
    not_not, Except.ok.injEq, Prod.mk.injEq] at h
  obtain ⟨_, hobjects, _, hvisible, keys, hkeys, closure, hclosure, hgraphs, hkind, henc, rfl,
    rfl⟩ := h
  refine ⟨_, _, ⟨hobjects, hvisible, hkind, ⟨keys, hkeys⟩, ?_, ?_, ⟨closure, hclosure, hgraphs⟩,
    ?_, ⟨1, by decide⟩⟩, henc, _, .refl _, .cons rfl .nil⟩
  · simp [boundPublication]
  · simp [boundPublication]
  · simp [boundPublication, nextState]

theorem boundPublication_iff_marker :
    letI := objectHashes boundObjects
    (∃ results t, publish boundPublication acceptAll {} = (.ok results, t) ∧
        Installs {} boundPublication ∅ t.references) ↔
      ∀ update ∈ boundPublication.updates, update.key.Bindable = false := by
  let := objectHashes boundObjects
  obtain ⟨staged, operation, hchecks, henc, hdeclares⟩ := boundPublication_checks
  exact boundPublication_iff [] acceptAll hchecks henc hdeclares fun _ _ => rfl

/-- The sample operation has the action of its only update, and everything
else is in order, but the publication is refused. -/
theorem boundPublication_refused :
    letI := objectHashes boundObjects
    (∃ staged operation, OtherChecks boundPublication {} staged operation ∧
      (TypedObject.operationV1 boundOperation).encode = .ok operation.bytes ∧
      DeclaresUpdates staged boundPublication.updates boundOperation) ∧
    ¬∃ results t, publish boundPublication acceptAll {} = (.ok results, t) := by
  let := objectHashes boundObjects
  refine ⟨boundPublication_checks, ?_⟩
  rintro ⟨results, t, hpublish⟩
  obtain ⟨staged, operation, hchecks, henc, hdeclares⟩ := boundPublication_checks
  obtain ⟨p, hbegin, -⟩ := publish_eq_ok.mp hpublish
  have hstage := (beginPublish_eq_ok.mp hbegin).2.2.2
  have hvalidate := hchecks.stage.mp ⟨_, hstage⟩
  have hbindable := (validateOperation_bound_iff .initial hchecks henc hdeclares).mp hvalidate
    _ (List.mem_singleton.mpr rfl)
  cases hbindable

end Sample

end RGit
