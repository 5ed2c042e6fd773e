/-
RGit/Objects/Transitions.lean

The mutable keys that an operation binds.

`bound_reference_transitions` reads the records of the actions a second time,
after `validate_shapes` has accepted them.  Both readers dispatch on the number
of the action, and both read what the typed writer wrote
(`boundReferenceTransitions_spec`).
-/
import RGit.Canonical.AtOnce
import RGit.Objects.Admission

namespace RGit

open Decode CanonicalObject

structure BoundReferenceTransition where
  key : ReferenceKey
  before : Option TypedObjectRef
  after : TypedObjectRef
  deriving DecidableEq

/-- One pass of the loop in `bound_reference_transitions`. -/
def Decode.transitionStep (transitions : List BoundReferenceTransition) (v : Value) :
    DecodeResult (List BoundReferenceTransition) := do
  let action ← asMap v
  if (← unsigned (← field action 0) 8) ≠ 2 then .ok transitions
  else
    let key ← referenceKey (← field action 1) 8
    let before ← (optionalField action 2).mapM fun value => typedRefValue value 8
    let after ← typedRefValue (← field action 3) 8
    .ok (transitions ++ [⟨key, before, after⟩])

/-- `AnyObject::bound_reference_transitions`. -/
def AnyObject.boundReferenceTransitions (o : AnyObject) :
    DecodeResult (Option (List BoundReferenceTransition)) :=
  if o.kind ≠ .operation ∨ o.schemaVersion ≠ 1 then .ok none
  else do
    let m ← asMap o.value
    let transitions ← (← array (← field m 8) 8).foldlM transitionStep []
    .ok (some transitions)

namespace OperationActionV1

/-- The key of an action. -/
def key : OperationActionV1 → ReferenceKey
  | .boundTransition key _ _ => key
  | .lineAdvance declaration => .line declaration.lineId

/-- The transition of an action that binds a key. -/
def transition : OperationActionV1 → Option BoundReferenceTransition
  | .boundTransition key before after => some ⟨key, before, after⟩
  | .lineAdvance _ => none

end OperationActionV1

/-- A transition that may be published: its key is not a line or the operation
head, and the objects have the kind of the key. -/
structure BoundReferenceTransition.Bound (t : BoundReferenceTransition) : Prop where
  not_line : ∀ line, t.key ≠ .line line
  not_head : t.key ≠ .operationHead
  before_kind : ∀ r ∈ t.before, r.kind = t.key.expectedKind
  after_kind : t.after.kind = t.key.expectedKind

section Transitions

variable [Unicode] {limits : CanonicalLimits}

/-! ### What the validator accepts -/

/-- The key that a valid action claims is its own. -/
theorem claimedKey_eq_ok {a : OperationActionV1} {key : ReferenceKey}
    (h : a.claimedKey = .ok key) : a.key = key ∧ ∀ t ∈ a.transition, t.Bound := by
  cases a with
  | lineAdvance declaration =>
      rw [OperationActionV1.claimedKey, Except.bind_unit_eq_ok] at h
      exact ⟨Except.ok.inj h.2, by simp [OperationActionV1.transition]⟩
  | boundTransition key' before after =>
      simp only [OperationActionV1.claimedKey, Except.ite_error_eq_ok, Except.ok.injEq,
        Bool.or_eq_true, not_or, Bool.not_eq_true, Option.any_eq_false, bne_eq_false_iff_eq] at h
      obtain ⟨hkey, ⟨hbefore, hafter⟩, rfl⟩ := h
      refine ⟨rfl, fun t ht => ?_⟩
      obtain rfl := Option.some.inj ht
      refine ⟨?_, ?_, fun r hr => by simpa using hbefore r hr, hafter⟩
      · rintro line rfl
        simp at hkey
      · rintro rfl
        simp at hkey

/-- The loop over the actions lets no key be claimed twice. -/
theorem keys_of_validateStep {actions : List OperationActionV1} {seen keys : List ReferenceKey}
    (h : actions.foldlM OperationActionV1.validateStep seen = .ok keys) :
    (actions.map OperationActionV1.key).Nodup ∧ (∀ a ∈ actions, a.key ∉ seen) ∧
      ∀ t ∈ actions.filterMap OperationActionV1.transition, t.Bound := by
  induction actions generalizing seen with
  | nil => simp
  | cons a actions ih =>
      rw [List.foldlM_cons] at h
      obtain ⟨seen', hstep, hrest⟩ := Except.bind_eq_ok.mp h
      simp only [OperationActionV1.validateStep, Except.bind_eq_ok, Except.ite_error_eq_ok,
        Except.ok.injEq] at hstep
      obtain ⟨key, hclaimed, hfresh, rfl⟩ := hstep
      obtain ⟨rfl, hbound⟩ := claimedKey_eq_ok hclaimed
      obtain ⟨hnodup, hseen, hall⟩ := ih hrest
      refine ⟨?_, List.forall_mem_cons.mpr ⟨hfresh, fun b hb hmem => ?_⟩, fun t ht => ?_⟩
      · rw [List.map_cons, List.nodup_cons]
        refine ⟨fun hmem => ?_, hnodup⟩
        obtain ⟨b, hb, hkey⟩ := List.mem_map.mp hmem
        exact hseen b hb (hkey ▸ List.mem_cons_self)
      · exact hseen b hb (List.mem_cons_of_mem _ hmem)
      · obtain ⟨b, hb, hbt⟩ := List.mem_filterMap.mp ht
        rcases List.mem_cons.mp hb with rfl | hb
        · exact hbound t hbt
        · exact hall t (List.mem_filterMap.mpr ⟨b, hb, hbt⟩)

/-! ### What the second reader reads -/

/-- One action. -/
theorem transitionStep_value {a : OperationActionV1} (ha : Admitted limits a.value.norm)
    (transitions : List BoundReferenceTransition) :
    transitionStep transitions a.value.norm = .ok (transitions ++ a.transition.toList) := by
  cases a with
  | lineAdvance declaration =>
      obtain ⟨m, hm, ⟨h₀, -⟩, -⟩ := (lineAdvanceAction_eq_norm_iff ha).mp rfl
      rw [show (OperationActionV1.lineAdvance declaration).value.norm = .map m from hm,
        transitionStep]
      simp [asMap, field_eq_ok.mpr h₀, unsigned, OperationActionV1.transition]
  | boundTransition key before after =>
      obtain ⟨m, hm, ⟨h₀, h₁, h₃, h₂⟩, -⟩ := (boundTransition_eq_norm_iff ha).mp rfl
      rw [hm] at ha ⊢
      have hkey : referenceKey key.value 8 = .ok key :=
        (referenceKey_eq_ok (ha.of_lookup h₁)).mpr rfl
      have hafter : typedRefValue after.value 8 = .ok after :=
        (typedRefValue_eq_ok (ha.of_lookup h₃)).mpr rfl
      have hbefore : ((optionalField m 2).mapM fun value => typedRefValue value 8) =
          .ok before := by
        rw [optionalField, h₂]
        cases before with
        | none => rfl
        | some r =>
            have hr : typedRefValue r.value 8 = .ok r :=
              (typedRefValue_eq_ok (ha.of_lookup h₂)).mpr rfl
            rw [Option.map_some, Option.mapM_some, hr]
            rfl
      rw [transitionStep]
      simp [asMap, field_eq_ok.mpr h₀, field_eq_ok.mpr h₁, field_eq_ok.mpr h₃, unsigned, hkey,
        hbefore, hafter, OperationActionV1.transition]

/-- All actions, in order. -/
theorem foldlM_transitionStep {actions : List OperationActionV1}
    (h : ∀ a ∈ actions, Admitted limits a.value.norm)
    (transitions : List BoundReferenceTransition) :
    (actions.map fun a => a.value.norm).foldlM transitionStep transitions =
      .ok (transitions ++ actions.filterMap OperationActionV1.transition) := by
  induction actions generalizing transitions with
  | nil => simp
  | cons a actions ih =>
      obtain ⟨ha, h⟩ := List.forall_mem_cons.mp h
      rw [List.map_cons, List.foldlM_cons, transitionStep_value ha, Except.ok_bind, ih h]
      cases hnone : a.transition <;> simp [hnone]

theorem boundReferenceTransitions_of_actions {m : Entries} {actions : List OperationActionV1}
    (hm : Admitted limits (.map m))
    (h₈ : lookupKey m 8 = some (.array (actions.map fun a => a.value.norm))) :
    AnyObject.boundReferenceTransitions ⟨.operation, 1, .map m⟩ =
      .ok (some (actions.filterMap OperationActionV1.transition)) := by
  have hadmitted : ∀ a ∈ actions, Admitted limits a.value.norm := fun a ha =>
    (hm.of_lookup h₈).of_mem (List.mem_map_of_mem ha)
  have hloop := foldlM_transitionStep hadmitted []
  rw [List.nil_append] at hloop
  rw [AnyObject.boundReferenceTransitions]
  simp [asMap, field_eq_ok.mpr h₈, array, hloop]

/-- The actions of a record that the decoder accepts. -/
theorem actions_of_validRecord {m : Entries} (hm : Admitted limits (.map m))
    (h : ValidRecord .operation 1 m) :
    ∃ actions : List OperationActionV1,
      lookupKey m 8 = some (.array (actions.map fun a => a.value.norm)) ∧
      ∃ keys, actions.foldlM OperationActionV1.validateStep [] = .ok keys := by
  obtain ⟨-, -, hshape⟩ := (validateFields_eq_ok hm).mp h.valid
  simp only [validateShapes, operationShape, Except.bind_eq_ok, Except.exists_unit_iff,
    loopField_eq_ok hm actionStep_one_eq_ok] at hshape
  obtain ⟨-, -, -, -, -, ⟨actions, hactions, h₈⟩, -⟩ := hshape
  exact ⟨actions, h₈, hactions⟩

/-- **The transitions of an operation are read back**, and in everything that
decodes as a schema-1 operation the keys of the actions differ and the
transitions bind objects of the right kinds. -/
theorem boundReferenceTransitions_spec :
    (∀ (o : OperationV1) (b : Bytes), encode o = .ok b →
      ∃ decoded, AnyObject.decode b .bulk = .ok decoded ∧
        decoded.boundReferenceTransitions =
          .ok (some (o.actions.filterMap OperationActionV1.transition))) ∧
    ∀ (b : Bytes) (limits : CanonicalLimits) (decoded : AnyObject),
      AnyObject.decode b limits = .ok decoded → decoded.kind = .operation →
      decoded.schemaVersion = 1 →
      ∃ (m : Entries) (actions : List OperationActionV1), decoded.value = .map m ∧
        lookupKey m 8 = some (.array (actions.map fun a => a.value.norm)) ∧
        decoded.boundReferenceTransitions =
          .ok (some (actions.filterMap OperationActionV1.transition)) ∧
        (actions.map OperationActionV1.key).Nodup ∧
        ∀ t ∈ actions.filterMap OperationActionV1.transition,
          (∀ line, t.key ≠ .line line) ∧ t.key ≠ .operationHead ∧
          (∀ r ∈ t.before, r.kind = t.key.expectedKind) ∧ t.after.kind = t.key.expectedKind := by
  refine ⟨fun o b h => ?_, fun b limits decoded h hkind hschema => ?_⟩
  · obtain ⟨m, heq, hm, -, -, -, hdecode⟩ := decode_encoded (t := .operationV1 o) h
    obtain ⟨⟨-, -, -, -, -, -, -, -, h₈, -⟩, -⟩ := (operationV1_fields_iff hm).mp heq
    exact ⟨_, hdecode, boundReferenceTransitions_of_actions hm h₈⟩
  · obtain ⟨m, hvalue, hdecode, -, ⟨e, he⟩, hrecord⟩ := decode_eq_ok.mp h
    have hm := admitted_of_decode hdecode he
    obtain ⟨kind, schema, value⟩ := decoded
    cases hkind
    cases hschema
    cases hvalue
    obtain ⟨actions, h₈, keys, hvalid⟩ := actions_of_validRecord hm hrecord
    obtain ⟨hnodup, -, hbound⟩ := keys_of_validateStep hvalid
    refine ⟨m, actions, rfl, h₈, boundReferenceTransitions_of_actions hm h₈, hnodup, fun t ht => ?_⟩
    obtain ⟨hline, hhead, hbefore, hafter⟩ := hbound t ht
    exact ⟨hline, hhead, hbefore, hafter⟩

end Transitions

section Sample

local instance transitionsUnicode : Unicode := asciiUnicode

/-- An operation that moves a release and a marker of the same number. -/
def bindingOperation : OperationV1 where
  policyRef := samplePolicy
  parents := []
  actor := sampleStable
  device := sampleStable
  logicalTime := 0
  wallTime := sampleTime
  actions :=
    [.boundTransition (.release sampleStable) (some ⟨.release, sampleId⟩) ⟨.release, sampleId⟩,
      .boundTransition (.marker sampleStable) none ⟨.marker, sampleId⟩]
  inversePayloads := []
  publicEnvelope := none
  privatePayload := none
  signature := ⟨.ed25519, sampleStable, sampleDigest 1, ⟨toBeBytes 64 1, length_sampleBytes⟩,
    .operation, sampleDigest_ne, sampleBytes_ne⟩
  clientImplementation := "rgit"

theorem boundReferenceTransitions_spec_release :
    ∃ b decoded, encode bindingOperation = .ok b ∧ AnyObject.decode b .bulk = .ok decoded ∧
      decoded.boundReferenceTransitions =
        .ok (some [⟨.release sampleStable, some ⟨.release, sampleId⟩, ⟨.release, sampleId⟩⟩,
          ⟨.marker sampleStable, none, ⟨.marker, sampleId⟩⟩]) := by
  have h : (encode bindingOperation).isOk = true := by
    rw [encode, encodeWithLimits_eq_atOnce]
    decide +kernel
  obtain ⟨b, h⟩ := Except.isOk_iff.mp h
  obtain ⟨decoded, hdecode, htransitions⟩ := boundReferenceTransitions_spec.1 bindingOperation b h
  exact ⟨b, decoded, h, hdecode, htransitions⟩

end Sample

end RGit
