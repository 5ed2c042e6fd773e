/-
RGit/Store/Declarations.lean

Declarations of line states, as values and as records.

`LineAdvanceDeclaration::matches` compares ten typed fields;
`line_action_matches` compares the fields of two decoded records by their
numbers.  Reading a record back gives the typed fields, so the two agree on
every action of every operation that was encoded (`lineActionMatches_decoded`).
-/
import RGit.Canonical.AtOnce
import RGit.Objects.Bootstrap
import RGit.Objects.Signing
import RGit.Store.Memory

namespace RGit

open MemoryStore CanonicalObject

section Declarations

variable [Unicode]

/-- The schema-1 action declares the line state. -/
def OperationActionV1.declares (state : LineState) : OperationActionV1 → Bool
  | .lineAdvance declaration => declaration.matchesState state
  | .boundTransition .. => false

/-- `LineState::validate_transaction_v1`. -/
def LineState.validateTransactionV1 [Hashes] (state : LineState) (operation : OperationV1) :
    Except ObjectError Unit := do
  let id ← CanonicalObject.id operation state.transactionOperation.algorithm
  if id ≠ state.transactionOperation then
    .error (.invalid "line state transaction operation ID does not match operation")
  else if (operation.actions.filter fun action => action.declares state).length ≠ 1 then
    .error (.invalid "operation must contain exactly one matching line advance declaration")
  else .ok ()

/-! ### One action -/

section Action

variable {limits : CanonicalLimits} {state : LineState} {m : Entries}

/-- The record of a line advance matches the record of a line state exactly
when the declaration matches the state. -/
theorem lineActionMatches_lineAdvance {d : LineAdvanceDeclaration}
    (ha : Admitted limits (OperationAction.lineAdvance d).value.norm)
    (hm : Admitted (kindLimits .lineState) (.map m))
    (heq : Value.map m = (canonicalValue state).norm) :
    lineActionMatches (OperationAction.lineAdvance d).value.norm m = d.matchesState state := by
  obtain ⟨action, hvalue, ⟨h₀, h₃⟩, -⟩ := (lineAdvanceAction_eq_norm_iff ha).mp rfl
  have hvalue : (OperationAction.lineAdvance d).value.norm = .map action := hvalue
  rw [hvalue] at ha
  obtain ⟨r, hr, ⟨d₀, d₁, d₂, d₃, d₄, d₆, d₇, d₈, d₉, d₅⟩, -⟩ :=
    (Decode.lineAdvance_eq_norm_iff (ha.of_lookup h₃)).mp rfl
  obtain ⟨⟨-, -, s₂, s₃, s₄, s₅, s₆, s₈, s₉, s₁₀, s₁₁, -, -, s₇⟩, -⟩ :=
    (lineState_fields_iff hm).mp heq
  rw [Bool.eq_iff_iff, hvalue]
  simp [lineActionMatches, valueMap, valueField, h₀, h₃, hr, valueUnsigned, declaredFields,
    d₀, d₁, d₂, d₃, d₄, d₅, d₆, d₇, d₈, d₉, s₂, s₃, s₄, s₅, s₆, s₇, s₈, s₉, s₁₀, s₁₁,
    LineAdvanceDeclaration.matchesState]
  constructor
  · rintro ⟨⟨h₀, h₁, h₂, h₃, h₄, h₆, h₇, h₈, h₉⟩, h₅⟩
    exact ⟨h₀, h₁, h₂, h₃, h₄, h₅, h₆, h₇, h₈, h₉⟩
  · rintro ⟨h₀, h₁, h₂, h₃, h₄, h₅, h₆, h₇, h₈, h₉⟩
    exact ⟨⟨h₀, h₁, h₂, h₃, h₄, h₆, h₇, h₈, h₉⟩, h₅⟩

theorem lineActionMatches_action {action : OperationAction}
    (ha : Admitted limits action.value.norm) (hm : Admitted (kindLimits .lineState) (.map m))
    (heq : Value.map m = (canonicalValue state).norm) :
    lineActionMatches action.value.norm m = action.declares state := by
  cases action with
  | lineAdvance d => exact lineActionMatches_lineAdvance ha hm heq
  | transition before after =>
      obtain ⟨r, hvalue, ⟨h₀, -⟩, -⟩ := (transition_eq_norm_iff ha).mp rfl
      rw [hvalue]
      simp [lineActionMatches, valueMap, valueField, h₀, valueUnsigned, OperationAction.declares]

theorem lineActionMatches_actionV1 {action : OperationActionV1}
    (ha : Admitted limits action.value.norm) (hm : Admitted (kindLimits .lineState) (.map m))
    (heq : Value.map m = (canonicalValue state).norm) :
    lineActionMatches action.value.norm m = action.declares state := by
  cases action with
  | lineAdvance d => exact lineActionMatches_lineAdvance ha hm heq
  | boundTransition key before after =>
      obtain ⟨r, hvalue, ⟨h₀, -⟩, -⟩ := (boundTransition_eq_norm_iff ha).mp rfl
      rw [hvalue]
      simp [lineActionMatches, valueMap, valueField, h₀, valueUnsigned, OperationActionV1.declares]

end Action

/-! ### Whole operations -/

/-- The decoded actions of an operation. -/
def recordActions (operation : AnyObject) : Option (List Value) :=
  (valueMap operation.value).bind fun r => (valueField r 8).bind valueArray

theorem recordActions_operation {op : Operation} {b : Bytes} (h : encode op = .ok b) :
    ∃ o, AnyObject.decode b .bulk = .ok o ∧
      recordActions o = some (op.actions.map fun a => a.value.norm) ∧
      ∀ a ∈ op.actions, Admitted (kindLimits .operation) a.value.norm := by
  obtain ⟨r, heq, hr, -, -, -, hdecode⟩ := decode_encoded (t := .operation op) h
  obtain ⟨⟨-, -, -, -, -, -, -, -, h₈, -⟩, -⟩ := (operation_fields_iff hr).mp heq
  refine ⟨_, hdecode, ?_, fun a ha => (hr.of_lookup h₈).of_mem (List.mem_map_of_mem ha)⟩
  simp [recordActions, valueMap, valueField, h₈, valueArray]

theorem recordActions_operationV1 {op : OperationV1} {b : Bytes} (h : encode op = .ok b) :
    ∃ o, AnyObject.decode b .bulk = .ok o ∧
      recordActions o = some (op.actions.map fun a => a.value.norm) ∧
      ∀ a ∈ op.actions, Admitted (kindLimits .operation) a.value.norm := by
  obtain ⟨r, heq, hr, -, -, -, hdecode⟩ := decode_encoded (t := .operationV1 op) h
  obtain ⟨⟨-, -, -, -, -, -, -, -, h₈, -⟩, -⟩ := (operationV1_fields_iff hr).mp heq
  refine ⟨_, hdecode, ?_, fun a ha => (hr.of_lookup h₈).of_mem (List.mem_map_of_mem ha)⟩
  simp [recordActions, valueMap, valueField, h₈, valueArray]

omit [Unicode] in
/-- Actions that are matched one by one are matched as often. -/
theorem length_filter_values {α : Type} {actions : List α} {value : α → Value}
    {declares : α → Bool} {m : Entries}
    (h : ∀ a ∈ actions, lineActionMatches (value a) m = declares a) :
    ((actions.map value).filter fun v => lineActionMatches v m).length =
      (actions.filter declares).length := by
  rw [List.filter_map, List.length_map]
  refine congrArg List.length (List.filter_congr fun a ha => ?_)
  exact h a ha

omit [Unicode] in
/-- The checks of a transaction, for both schemas. -/
theorem transactionCheck_eq_ok {x : Except ObjectError ObjectId} {expected : ObjectId} {n : Nat}
    {e e' : ObjectError} :
    (do
      let opId ← x
      if opId ≠ expected then .error e else if n ≠ 1 then .error e' else .ok ()) =
        (.ok () : Except ObjectError Unit) ↔ x = .ok expected ∧ n = 1 := by
  simp only [Except.bind_eq_ok, Except.ite_error_eq_ok, ne_eq, not_not, and_true]
  constructor
  · rintro ⟨opId, hid, rfl, hcount⟩
    exact ⟨hid, hcount⟩
  · rintro ⟨hid, hcount⟩
    exact ⟨_, hid, rfl, hcount⟩

/-- **Two ways to match a declaration.**  Take an encoded line state and an
encoded operation of either schema, and decode both.  The record of each line
advance of the operation matches the record of the state exactly when the
declaration matches the state; so `validate_transaction` counts the actions
that the store would accept for the state. -/
theorem lineActionMatches_decoded [Hashes] (state : LineState) {stateBytes : Bytes}
    (hstate : encode state = .ok stateBytes) :
    ∃ o m, AnyObject.decode stateBytes .bulk = .ok o ∧ valueMap o.value = some m ∧
      (∀ (op : Operation) (b : Bytes), encode op = .ok b →
        ∃ decoded values, AnyObject.decode b .bulk = .ok decoded ∧
          recordActions decoded = some values ∧
          (∀ (i : Nat) (d : LineAdvanceDeclaration),
            op.actions[i]? = some (OperationAction.lineAdvance d) → ∃ v, values[i]? = some v ∧
              (lineActionMatches v m = true ↔ d.matchesState state = true)) ∧
          (state.validateTransaction op = .ok () ↔
            CanonicalObject.id op state.transactionOperation.algorithm =
                .ok state.transactionOperation ∧
              (values.filter fun v => lineActionMatches v m).length = 1)) ∧
      (∀ (op : OperationV1) (b : Bytes), encode op = .ok b →
        ∃ decoded values, AnyObject.decode b .bulk = .ok decoded ∧
          recordActions decoded = some values ∧
          (∀ (i : Nat) (d : LineAdvanceDeclaration),
            op.actions[i]? = some (OperationActionV1.lineAdvance d) → ∃ v, values[i]? = some v ∧
              (lineActionMatches v m = true ↔ d.matchesState state = true)) ∧
          (state.validateTransactionV1 op = .ok () ↔
            CanonicalObject.id op state.transactionOperation.algorithm =
                .ok state.transactionOperation ∧
              (values.filter fun v => lineActionMatches v m).length = 1)) := by
  obtain ⟨m, heq, hm, -, -, -, hdecode⟩ := decode_encoded (t := .lineState state) hstate
  refine ⟨_, m, hdecode, rfl, fun op b hop => ?_, fun op b hop => ?_⟩
  · obtain ⟨decoded, hdecoded, hactions, hadmitted⟩ := recordActions_operation hop
    have hmatch : ∀ a ∈ op.actions, lineActionMatches a.value.norm m = a.declares state :=
      fun a ha => lineActionMatches_action (hadmitted a ha) hm heq
    refine ⟨decoded, _, hdecoded, hactions, fun i d hd => ?_, ?_⟩
    · refine ⟨(OperationAction.lineAdvance d).value.norm, by rw [List.getElem?_map, hd]; rfl, ?_⟩
      rw [hmatch _ (List.mem_of_getElem? hd)]
      rfl
    · rw [length_filter_values hmatch]
      exact transactionCheck_eq_ok
  · obtain ⟨decoded, hdecoded, hactions, hadmitted⟩ := recordActions_operationV1 hop
    have hmatch : ∀ a ∈ op.actions, lineActionMatches a.value.norm m = a.declares state :=
      fun a ha => lineActionMatches_actionV1 (hadmitted a ha) hm heq
    refine ⟨decoded, _, hdecoded, hactions, fun i d hd => ?_, ?_⟩
    · refine ⟨(OperationActionV1.lineAdvance d).value.norm, by rw [List.getElem?_map, hd]; rfl, ?_⟩
      rw [hmatch _ (List.mem_of_getElem? hd)]
      rfl
    · rw [length_filter_values hmatch]
      exact transactionCheck_eq_ok

end Declarations

section Sample

local instance declarationsUnicode : Unicode := asciiUnicode

def declaredLineState : LineState where
  policyRef := samplePolicy
  lineId := sampleStable
  displayName := "main"
  headSnapshot := sampleId
  generation := 0
  previousState := none
  integrationPolicy := samplePolicy
  approvalPolicy := samplePolicy
  releasePolicy := samplePolicy
  visibilityPolicy := samplePolicy
  transactionOperation := sampleId
  signature := ⟨.ed25519, sampleStable, sampleDigest 1, ⟨toBeBytes 64 1, length_sampleBytes⟩,
    .lineState, sampleDigest_ne, sampleBytes_ne⟩

def declaringOperation : OperationV1 where
  policyRef := samplePolicy
  parents := []
  actor := sampleStable
  device := sampleStable
  logicalTime := 0
  wallTime := sampleTime
  actions := [.lineAdvance
    ⟨samplePolicy, sampleStable, "main", sampleId, 0, none, samplePolicy, samplePolicy,
      samplePolicy, samplePolicy⟩]
  inversePayloads := []
  publicEnvelope := none
  privatePayload := none
  signature := ⟨.ed25519, sampleStable, sampleDigest 1, ⟨toBeBytes 64 1, length_sampleBytes⟩,
    .operation, sampleDigest_ne, sampleBytes_ne⟩
  clientImplementation := "rgit"

theorem lineActionMatches_decoded_main :
    letI := sampleChunkHashes
    ∃ stateBytes b o m decoded values, encode declaredLineState = .ok stateBytes ∧
      encode declaringOperation = .ok b ∧ AnyObject.decode stateBytes .bulk = .ok o ∧
      valueMap o.value = some m ∧ AnyObject.decode b .bulk = .ok decoded ∧
      recordActions decoded = some values ∧
      ∃ v, values[0]? = some v ∧ lineActionMatches v m = true := by
  let := sampleChunkHashes
  have hstate : (encode declaredLineState).isOk = true := by
    rw [encode, encodeWithLimits_eq_atOnce]
    decide +kernel
  have hop : (encode declaringOperation).isOk = true := by
    rw [encode, encodeWithLimits_eq_atOnce]
    decide +kernel
  obtain ⟨stateBytes, hstate⟩ := Except.isOk_iff.mp hstate
  obtain ⟨b, hop⟩ := Except.isOk_iff.mp hop
  obtain ⟨o, m, hdecode, hm, -, hv1⟩ := lineActionMatches_decoded declaredLineState hstate
  obtain ⟨decoded, values, hdecoded, hvalues, hmatch, -⟩ := hv1 declaringOperation b hop
  obtain ⟨v, hv, hiff⟩ := hmatch 0 _ rfl
  exact ⟨stateBytes, b, o, m, decoded, values, hstate, hop, hdecode, hm, hdecoded, hvalues, v, hv,
    hiff.mpr (by decide)⟩

end Sample

end RGit
