/-
RGit/Objects/ExpressOperation.lean

Operations of both schemas, and policies.

The two operation schemas share every field but their actions.  A schema-0
action names no reference key; schema-1 actions claim one key each, and the
loop over them refuses a key that is claimed twice.
-/
import RGit.Objects.Express

namespace RGit

open Discriminant (code)

open Decode CanonicalObject

section Kinds

variable [Unicode] {limits : CanonicalLimits} {m : Entries} {v : Value}

/-! ### Actions -/

omit [Unicode] in
theorem ifSome_typedRef_eq_ok {P : ObjectKind → Prop} {o : Option Value}
    {check : Value → DecodeResult Unit}
    (h : ∀ v ∈ o, (check v = .ok () ↔ ∃ r : TypedObjectRef, P r.kind ∧ v = r.value)) :
    Except.ifSome o check = .ok () ↔
      ∃ r : Option TypedObjectRef, (∀ r' ∈ r, P r'.kind) ∧ o = r.map TypedObjectRef.value := by
  rw [Except.ifSome_eq_ok]
  constructor
  · intro hok
    cases o with
    | none => exact ⟨none, by simp, rfl⟩
    | some v =>
        obtain ⟨r, hr, rfl⟩ := (h v rfl).mp (hok v rfl)
        exact ⟨some r, by simpa using hr, rfl⟩
  · rintro ⟨r, hr, rfl⟩ v hv
    cases r with
    | none => cases hv
    | some r =>
        obtain rfl := Option.some.inj hv
        exact (h _ rfl).mpr ⟨r, hr r rfl, rfl⟩

theorem transition_eq_norm_iff (hv : Admitted limits v) {before after : Option TypedObjectRef} :
    v = (OperationAction.transition before after).value.norm ↔ ∃ m, v = .map m ∧
      (lookupKey m 0 = some (.unsigned 0) ∧
        lookupKey m 1 = before.map TypedObjectRef.value ∧
        lookupKey m 2 = after.map TypedObjectRef.value) ∧
      ∀ e ∈ m, e.1 ∈ [0] ++ [1, 2] := by
  rw [OperationAction.value, eq_norm_map_iff hv ([0] ++ [1, 2])
    (by cases before <;> cases after <;> simp [optional])
    (by cases before <;> cases after <;> simp [optional])]
  simp [lookupKey_optional, lookupKey_cons, Function.comp_def]

theorem transitionShape_eq_ok (hm : Admitted limits (.map m))
    (h₀ : lookupKey m 0 = some (.unsigned 0)) :
    transitionShape (.map m) = .ok () ↔
      ∃ before after : Option TypedObjectRef,
        (OperationAction.transition before after).validate = .ok () ∧
          Value.map m = (OperationAction.transition before after).value.norm := by
  have hbefore : ∀ v ∈ lookupKey m 1, (typedRef v 8 = .ok () ↔
      ∃ r : TypedObjectRef, True ∧ v = r.value) := fun v hv => by
    simpa using typedRef_eq_ok (hm.of_lookup hv)
  have hafter : ∀ v ∈ lookupKey m 2, ((do
        let kind ← typedRefKind v 8
        if kind = .lineState then .error (.field 8) else .ok ()) = Except.ok () ↔
      ∃ r : TypedObjectRef, r.kind ≠ .lineState ∧ v = r.value) := fun v hv => by
    simp only [Except.bind_eq_ok, typedRefKind_eq_ok (hm.of_lookup hv), Except.ite_error_eq_ok,
      and_true]
    constructor
    · rintro ⟨_, ⟨r, rfl, hr⟩, hne⟩
      exact ⟨r, hne, hr⟩
    · rintro ⟨r, hne, hr⟩
      exact ⟨_, ⟨r, rfl, hr⟩, hne⟩
  simp only [transitionShape, Except.bind_eq_ok, Except.exists_unit_iff, exactMap_eq_ok,
    Value.map.injEq, Except.ite_error_eq_ok, OperationAction.validate, optionalField]
  constructor
  · rintro ⟨_, ⟨rfl, -, hkeys⟩, hsome, hb, ha⟩
    obtain ⟨before, -, h₁⟩ :=
      (ifSome_typedRef_eq_ok (P := fun _ => True) hbefore).mp hb
    obtain ⟨after, hkind, h₂⟩ :=
      (ifSome_typedRef_eq_ok (P := fun k => k ≠ .lineState) hafter).mp ha
    refine ⟨before, after, ⟨by simpa [h₁, h₂] using hsome, ?_, trivial⟩, ?_⟩
    · simpa [Option.any_eq_false] using hkind
    · rw [transition_eq_norm_iff hm]
      exact ⟨m, rfl, ⟨h₀, h₁, h₂⟩, hkeys⟩
  · rintro ⟨before, after, ⟨hsome, hkind, -⟩, heq⟩
    rw [transition_eq_norm_iff hm] at heq
    obtain ⟨_, hmap, ⟨-, h₁, h₂⟩, hkeys⟩ := heq
    cases hmap
    refine ⟨m, ⟨rfl, by simp [h₀], hkeys⟩, by simpa [h₁, h₂] using hsome,
      (ifSome_typedRef_eq_ok (P := fun _ => True) hbefore).mpr ⟨before, by simp, h₁⟩,
      (ifSome_typedRef_eq_ok (P := fun k => k ≠ .lineState) hafter).mpr ⟨after, ?_, h₂⟩⟩
    simpa [Option.any_eq_false] using hkind

theorem lineAdvanceAction_eq_norm_iff (hv : Admitted limits v) {d : LineAdvanceDeclaration} :
    v = (Value.map [(0, .unsigned 1), (3, d.value)]).norm ↔ ∃ m, v = .map m ∧
      (lookupKey m 0 = some (.unsigned 1) ∧ lookupKey m 3 = some d.value.norm) ∧
      ∀ e ∈ m, e.1 ∈ [0, 3] ++ [] := by
  rw [eq_norm_map_iff hv ([0, 3] ++ []) (by simp) (by simp)]
  simp [lookupKey_cons]

/-- The record of a line advance, as both schemas read it. -/
theorem lineAdvanceShape_eq_ok (hm : Admitted limits (.map m))
    (h₀ : lookupKey m 0 = some (.unsigned 1)) {lineId : LineId} :
    (∃ action, (Value.map m = .map action ∧ HasKeys action [0, 3] []) ∧
        ∃ declared, lookupKey action 3 = some declared ∧
          lineAdvance declared 8 = .ok lineId) ↔
      ∃ d : LineAdvanceDeclaration, d.validate = .ok () ∧ d.lineId = lineId ∧
        Value.map m = (Value.map [(0, .unsigned 1), (3, d.value)]).norm := by
  constructor
  · rintro ⟨_, ⟨hmap, -, hkeys⟩, _, h₃, hadvance⟩
    cases hmap
    obtain ⟨d, hvalid, hline, rfl⟩ := (lineAdvance_eq_ok (hm.of_lookup h₃)).mp hadvance
    exact ⟨d, hvalid, hline, (lineAdvanceAction_eq_norm_iff hm).mpr ⟨m, rfl, ⟨h₀, h₃⟩, hkeys⟩⟩
  · rintro ⟨d, hvalid, hline, heq⟩
    obtain ⟨_, hmap, ⟨-, h₃⟩, hkeys⟩ := (lineAdvanceAction_eq_norm_iff hm).mp heq
    cases hmap
    exact ⟨m, ⟨rfl, by simp [h₀, h₃], hkeys⟩, _, h₃,
      (lineAdvance_eq_ok (hm.of_lookup h₃)).mpr ⟨d, hvalid, hline, rfl⟩⟩

theorem boundTransition_eq_norm_iff (hv : Admitted limits v) {key : ReferenceKey}
    {before : Option TypedObjectRef} {after : TypedObjectRef} :
    v = (OperationActionV1.boundTransition key before after).value.norm ↔ ∃ m, v = .map m ∧
      (lookupKey m 0 = some (.unsigned 2) ∧ lookupKey m 1 = some key.value ∧
        lookupKey m 3 = some after.value ∧
        lookupKey m 2 = before.map TypedObjectRef.value) ∧
      ∀ e ∈ m, e.1 ∈ [0, 1, 3] ++ [2] := by
  rw [OperationActionV1.value, eq_norm_map_iff hv ([0, 1, 3] ++ [2])
    (by cases before <;> simp [optional]) (by cases before <;> simp [optional])]
  simp [lookupKey_optional, lookupKey_cons, Function.comp_def]

theorem boundTransitionShape_eq_ok (hm : Admitted limits (.map m))
    (h₀ : lookupKey m 0 = some (.unsigned 2)) {keys : List ReferenceKey} {key : ReferenceKey} :
    boundTransitionShape keys (.map m) = .ok key ↔
      key ∉ keys ∧ ∃ (before : Option TypedObjectRef) (after : TypedObjectRef),
        (OperationActionV1.boundTransition key before after).claimedKey = .ok key ∧
          Value.map m = (OperationActionV1.boundTransition key before after).value.norm := by
  have hkind : ∀ {v : Value} {expected : ObjectKind}, Admitted limits v → ((do
        let kind ← typedRefKind v 8
        if kind ≠ expected then .error (.field 8) else .ok ()) = Except.ok () ↔
      ∃ r : TypedObjectRef, r.kind = expected ∧ v = r.value) := fun {v expected} hv => by
    simp only [Except.bind_eq_ok, typedRefKind_eq_ok hv, Except.ite_error_eq_ok, ne_eq, not_not,
      and_true]
    constructor
    · rintro ⟨_, ⟨r, rfl, hr⟩, h⟩
      exact ⟨r, h, hr⟩
    · rintro ⟨r, h, hr⟩
      exact ⟨_, ⟨r, rfl, hr⟩, h⟩
  simp only [boundTransitionShape, Except.bind_eq_ok, Except.exists_unit_iff, exactMap_eq_ok,
    Value.map.injEq, field_eq_ok, Except.ite_error_eq_ok, OperationActionV1.claimedKey,
    optionalField, not_or, Except.ok.injEq, Bool.or_eq_true, ne_eq, not_not]
  constructor
  · rintro ⟨_, ⟨rfl, -, hkeys⟩, _, h₁, key', hkey, ⟨hline, hfresh⟩, hb, _, h₃, kind, hafter, hexp,
      rfl⟩
    obtain rfl := (referenceKey_eq_ok (hm.of_lookup h₁)).mp hkey
    obtain ⟨before, hbefore, h₂⟩ := (ifSome_typedRef_eq_ok (P := fun k => k = key'.expectedKind)
      fun v hv => hkind (hm.of_lookup hv)).mp hb
    obtain ⟨after, rfl, rfl⟩ := (typedRefKind_eq_ok (hm.of_lookup h₃)).mp hafter
    refine ⟨hfresh, before, after, ⟨hline, ⟨?_, ?_⟩, trivial⟩, ?_⟩
    · simpa [Option.any_eq_false] using hbefore
    · simpa using hexp
    · exact (boundTransition_eq_norm_iff hm).mpr ⟨m, rfl, ⟨h₀, h₁, h₃, h₂⟩, hkeys⟩
  · rintro ⟨hfresh, before, after, ⟨hline, ⟨hbefore, hafter⟩, -⟩, heq⟩
    obtain ⟨_, hmap, ⟨-, h₁, h₃, h₂⟩, hkeys⟩ := (boundTransition_eq_norm_iff hm).mp heq
    cases hmap
    refine ⟨m, ⟨rfl, by simp [h₀, h₁, h₃], hkeys⟩, _, h₁, key,
      (referenceKey_eq_ok (hm.of_lookup h₁)).mpr rfl, ⟨hline, hfresh⟩, ?_, _, h₃, after.kind,
      (typedRefKind_eq_ok (hm.of_lookup h₃)).mpr ⟨after, rfl, rfl⟩, by simpa using hafter, rfl⟩
    exact (ifSome_typedRef_eq_ok (P := fun k => k = key.expectedKind)
      fun v hv => hkind (hm.of_lookup hv)).mpr ⟨before, by simpa [Option.any_eq_false] using hbefore, h₂⟩

/-- One pass of the schema-0 loop, on the action itself. -/
def actionStepV0 (keys : List ReferenceKey) (a : OperationAction) :
    Except ObjectError (List ReferenceKey) := do
  a.validate
  .ok keys

theorem actionStep_zero_eq_ok (hv : Admitted limits v) (s s' : List ReferenceKey) :
    actionStep 0 s v = .ok s' ↔
      ∃ a : OperationAction, v = a.value.norm ∧ actionStepV0 s a = .ok s' := by
  simp only [actionStepV0, Except.bind_unit_eq_ok, Except.ok.injEq]
  constructor
  · intro h
    simp only [actionStep, Except.bind_eq_ok, asMap_eq_ok, field_eq_ok, unsigned_eq_ok] at h
    obtain ⟨m, rfl, _, h₀, n, rfl, h⟩ := h
    split_ifs at h with hn hn hn' hn'
    · obtain ⟨-, rfl⟩ := hn
      simp only [Except.bind_unit_eq_ok, Except.ok.injEq, transitionShape_eq_ok hv h₀] at h
      obtain ⟨⟨before, after, hvalid, heq⟩, rfl⟩ := h
      exact ⟨.transition before after, heq, hvalid, rfl⟩
    · cases hn'
    · obtain ⟨-, rfl⟩ := hn
      simp only [Except.bind_eq_ok, exactMap_eq_ok, field_eq_ok, Except.ok.injEq] at h
      obtain ⟨action, hkeys, declared, h₃, line, hline, rfl⟩ := h
      obtain ⟨d, hvalid, -, heq⟩ :=
        (lineAdvanceShape_eq_ok hv h₀).mp ⟨action, hkeys, declared, h₃, hline⟩
      exact ⟨.lineAdvance d, heq, hvalid, rfl⟩
    · cases hn'.1
  · rintro ⟨a, heq, hvalid, rfl⟩
    cases a with
    | transition before after =>
        obtain ⟨m, rfl, ⟨h₀, -, -⟩, -⟩ := (transition_eq_norm_iff hv).mp heq
        simp only [actionStep, asMap, Except.ok_bind, field_eq_ok.mpr h₀, unsigned, true_and,
          if_true, (transitionShape_eq_ok hv h₀).mpr ⟨before, after, hvalid, heq⟩]
    | lineAdvance d =>
        obtain ⟨m, rfl, ⟨h₀, -⟩, -⟩ := (lineAdvanceAction_eq_norm_iff hv).mp heq
        obtain ⟨action, hkeys, declared, h₃, hline⟩ :=
          (lineAdvanceShape_eq_ok hv h₀).mpr ⟨d, hvalid, rfl, heq⟩
        simp [actionStep, asMap, field_eq_ok.mpr h₀, unsigned, exactMap_eq_ok.mpr hkeys,
          field_eq_ok.mpr h₃, hline]

theorem actionStep_one_eq_ok (hv : Admitted limits v) (s s' : List ReferenceKey) :
    actionStep 1 s v = .ok s' ↔
      ∃ a : OperationActionV1, v = a.value.norm ∧
        OperationActionV1.validateStep s a = .ok s' := by
  simp only [OperationActionV1.validateStep, Except.bind_eq_ok, Except.ite_error_eq_ok,
    Except.ok.injEq]
  constructor
  · intro h
    simp only [actionStep, Except.bind_eq_ok, asMap_eq_ok, field_eq_ok, unsigned_eq_ok] at h
    obtain ⟨m, rfl, _, h₀, n, rfl, h⟩ := h
    split_ifs at h with hn hn hn'
    · cases hn.1
    · obtain ⟨-, rfl⟩ := hn
      simp only [Except.bind_eq_ok, exactMap_eq_ok, field_eq_ok, Except.ok.injEq,
        Except.ite_error_eq_ok] at h
      obtain ⟨action, hkeys, declared, h₃, line, hline, hfresh, rfl⟩ := h
      obtain ⟨d, hvalid, rfl, heq⟩ :=
        (lineAdvanceShape_eq_ok hv h₀).mp ⟨action, hkeys, declared, h₃, hline⟩
      refine ⟨.lineAdvance d, heq, .line d.lineId, ?_, hfresh, rfl⟩
      simp [OperationActionV1.claimedKey, hvalid]
    · obtain ⟨-, rfl⟩ := hn'
      simp only [Except.bind_eq_ok, Except.ok.injEq, boundTransitionShape_eq_ok hv h₀] at h
      obtain ⟨key, ⟨hfresh, before, after, hclaim, heq⟩, rfl⟩ := h
      exact ⟨.boundTransition key before after, heq, key, hclaim, hfresh, rfl⟩
  · rintro ⟨a, heq, key, hclaim, hfresh, rfl⟩
    cases a with
    | boundTransition key' before after =>
        obtain ⟨m, rfl, ⟨h₀, -⟩, -⟩ := (boundTransition_eq_norm_iff hv).mp heq
        have hkey : key' = key := by
          simp only [OperationActionV1.claimedKey, Except.ite_error_eq_ok, Except.ok.injEq]
            at hclaim
          exact hclaim.2.2
        subst hkey
        have hshape := (boundTransitionShape_eq_ok hv h₀).mpr
          ⟨hfresh, before, after, hclaim, heq⟩
        simp [actionStep, asMap, field_eq_ok.mpr h₀, unsigned, hshape]
    | lineAdvance d =>
        simp only [OperationActionV1.claimedKey, Except.bind_unit_eq_ok, Except.ok.injEq]
          at hclaim
        obtain ⟨hvalid, rfl⟩ := hclaim
        obtain ⟨m, rfl, ⟨h₀, -⟩, -⟩ := (lineAdvanceAction_eq_norm_iff hv).mp heq
        obtain ⟨action, hkeys, declared, h₃, hline⟩ :=
          (lineAdvanceShape_eq_ok hv h₀).mpr ⟨d, hvalid, rfl, heq⟩
        simp [actionStep, asMap, field_eq_ok.mpr h₀, unsigned, exactMap_eq_ok.mpr hkeys,
          field_eq_ok.mpr h₃, hline, hfresh]

omit [Unicode] in
theorem foldlM_actionStepV0_iff [Unicode] {as : List OperationAction} {keys : List ReferenceKey} :
    (∃ s, as.foldlM actionStepV0 keys = .ok s) ↔ ∀ a ∈ as, a.validate = .ok () := by
  induction as generalizing keys with
  | nil => simp
  | cons a as ih =>
      simp only [List.foldlM_cons, actionStepV0, bind_assoc, Except.ok_bind,
        Except.bind_unit_eq_ok, exists_and_left, List.forall_mem_cons]
      exact and_congr_right fun _ => ih

/-! ### Operations -/

theorem operation_fields_iff (hm : Admitted limits (.map m)) {o : Operation} :
    Value.map m = (canonicalValue o).norm ↔
      (lookupKey m 0 = some (.unsigned (code ObjectKind.operation)) ∧
        lookupKey m 1 = some (.unsigned 0) ∧ lookupKey m 2 = some o.policyRef.value ∧
        lookupKey m 3 = some (RGit.oidArray o.parents) ∧ lookupKey m 4 = some (stable o.actor) ∧
        lookupKey m 5 = some (stable o.device) ∧ lookupKey m 6 = some (.unsigned o.logicalTime) ∧
        lookupKey m 7 = some o.wallTime.value.norm ∧
        lookupKey m 8 = some (.array (o.actions.map fun a => a.value.norm)) ∧
        lookupKey m 9 = some (RGit.oidArray o.inversePayloads) ∧
        lookupKey m 12 = some o.signature.value ∧
        lookupKey m 13 = some (.text o.clientImplementation) ∧
        lookupKey m 10 = o.publicEnvelope.map RGit.oid ∧
        lookupKey m 11 = o.privatePayload.map RGit.oid) ∧
      ∀ e ∈ m, e.1 ∈ [0, 1, 2, 3, 4, 5, 6, 7, 8, 9, 12, 13] ++ [10, 11] := by
  rw [canonicalValue, map_eq_norm_iff hm ([0, 1, 2, 3, 4, 5, 6, 7, 8, 9, 12, 13] ++ [10, 11])
    (by cases h1 : o.publicEnvelope <;> cases h2 : o.privatePayload <;>
      simp [fields, Operation.unsignedMap, operationEntries, headerVersion, optional, h1, h2])
    (by cases h1 : o.publicEnvelope <;> cases h2 : o.privatePayload <;>
      simp [fields, Operation.unsignedMap, operationEntries, headerVersion, optional, h1, h2])]
  simp [fields, Operation.unsignedMap, operationEntries, headerVersion, lookupKey_cons,
    lookupKey_optional, Function.comp_def, lookupKey_append, Value.norm_array]

theorem operation_validate_iff {o : Operation} :
    validate o = .ok () ↔
      isNfc o.clientImplementation = true ∧ o.parents.Nodup ∧
        (∀ a ∈ o.actions, a.validate = .ok ()) ∧ o.signature.purpose = .operation := by
  simp only [validate, Operation.validate, Except.bind_eq_ok, Except.exists_unit_iff,
    ensureNfc_eq_ok, Except.ite_error_eq_ok, ne_eq, not_not, countDistinct_eq_length_iff,
    forM_eq_ok, ensureSignaturePurpose, Except.ite_else_error_eq_ok, and_true, List.mem_singleton,
    forall_eq]

theorem operation_iff (hm : Admitted limits (.map m)) :
    (ValidRecord .operation 0 m ∧ wallTimeFieldFits m 7 = true) ↔ Expresses Operation m := by
  constructor
  · rintro ⟨⟨h₀, h₁, hvalid⟩, hfits⟩
    obtain ⟨⟨-, hkeys⟩, hpolicy, hshape⟩ := (validateFields_eq_ok hm).mp hvalid
    obtain ⟨policy, h₂⟩ := hpolicy (.inl rfl)
    simp only [validateShapes, operationShape, Except.bind_eq_ok, Except.exists_unit_iff,
      uniqueIdsField_eq_ok, stableField_eq_ok, unsignedField_eq_ok,
      loopField_eq_ok hm actionStep_zero_eq_ok, foldlM_actionStepV0_iff, oidArrayField_eq_ok,
      optionalOidField_eq_ok, signatureField_eq_ok hm, textField_eq_ok] at hshape
    obtain ⟨⟨parents, hparents, h₃⟩, ⟨actor, h₄⟩, ⟨device, h₅⟩, ⟨logical, h₆⟩, hwall,
      ⟨actions, hactions, h₈⟩, ⟨inverse, h₉⟩, ⟨envelope, h₁₀⟩, ⟨payload, h₁₁⟩,
      ⟨signature, hpurpose, h₁₂⟩, ⟨client, h₁₃⟩⟩ := hshape
    obtain ⟨wall, h₇⟩ := (wallTimeField_eq_ok hm).mp ⟨hwall, hfits⟩
    refine ⟨⟨policy, parents, actor, device, logical, wall, actions, inverse, envelope, payload,
      signature, client⟩, ?_,
      (operation_fields_iff hm).mpr ⟨⟨h₀, h₁, h₂, h₃, h₄, h₅, h₆, h₇, h₈, h₉, h₁₂, h₁₃, h₁₀,
        h₁₁⟩, hkeys⟩⟩
    exact operation_validate_iff.mpr ⟨hm.isNfc_of_lookup h₁₃, hparents, hactions, hpurpose⟩
  · rintro ⟨o, hvalid, ho⟩
    obtain ⟨⟨h₀, h₁, h₂, h₃, h₄, h₅, h₆, h₇, h₈, h₉, h₁₂, h₁₃, h₁₀, h₁₁⟩, hkeys⟩ :=
      (operation_fields_iff hm).mp ho
    obtain ⟨hwall, hfits⟩ := (wallTimeField_eq_ok hm).mpr ⟨_, h₇⟩
    obtain ⟨-, hparents, hactions, hpurpose⟩ := operation_validate_iff.mp hvalid
    refine ⟨⟨h₀, h₁, (validateFields_eq_ok hm).mpr
      ⟨⟨by simp [fieldSets, *], hkeys⟩, fun _ => ⟨_, h₂⟩, ?_⟩⟩, hfits⟩
    simp only [validateShapes, operationShape, Except.bind_eq_ok, Except.exists_unit_iff,
      uniqueIdsField_eq_ok, stableField_eq_ok, unsignedField_eq_ok,
      loopField_eq_ok hm actionStep_zero_eq_ok, foldlM_actionStepV0_iff, oidArrayField_eq_ok,
      optionalOidField_eq_ok, signatureField_eq_ok hm, textField_eq_ok]
    exact ⟨⟨_, hparents, h₃⟩, ⟨_, h₄⟩, ⟨_, h₅⟩, ⟨_, h₆⟩, hwall, ⟨_, hactions, h₈⟩, ⟨_, h₉⟩,
      ⟨_, h₁₀⟩, ⟨_, h₁₁⟩, ⟨_, hpurpose, h₁₂⟩, ⟨_, h₁₃⟩⟩

theorem operationV1_fields_iff (hm : Admitted limits (.map m)) {o : OperationV1} :
    Value.map m = (canonicalValue o).norm ↔
      (lookupKey m 0 = some (.unsigned (code ObjectKind.operation)) ∧
        lookupKey m 1 = some (.unsigned 1) ∧ lookupKey m 2 = some o.policyRef.value ∧
        lookupKey m 3 = some (RGit.oidArray o.parents) ∧ lookupKey m 4 = some (stable o.actor) ∧
        lookupKey m 5 = some (stable o.device) ∧ lookupKey m 6 = some (.unsigned o.logicalTime) ∧
        lookupKey m 7 = some o.wallTime.value.norm ∧
        lookupKey m 8 = some (.array (o.actions.map fun a => a.value.norm)) ∧
        lookupKey m 9 = some (RGit.oidArray o.inversePayloads) ∧
        lookupKey m 12 = some o.signature.value ∧
        lookupKey m 13 = some (.text o.clientImplementation) ∧
        lookupKey m 10 = o.publicEnvelope.map RGit.oid ∧
        lookupKey m 11 = o.privatePayload.map RGit.oid) ∧
      ∀ e ∈ m, e.1 ∈ [0, 1, 2, 3, 4, 5, 6, 7, 8, 9, 12, 13] ++ [10, 11] := by
  rw [canonicalValue, map_eq_norm_iff hm ([0, 1, 2, 3, 4, 5, 6, 7, 8, 9, 12, 13] ++ [10, 11])
    (by cases h1 : o.publicEnvelope <;> cases h2 : o.privatePayload <;>
      simp [fields, OperationV1.unsignedMap, operationEntries, headerVersion, optional, h1, h2])
    (by cases h1 : o.publicEnvelope <;> cases h2 : o.privatePayload <;>
      simp [fields, OperationV1.unsignedMap, operationEntries, headerVersion, optional, h1, h2])]
  simp [fields, OperationV1.unsignedMap, operationEntries, headerVersion, lookupKey_cons,
    lookupKey_optional, Function.comp_def, lookupKey_append, Value.norm_array]

theorem operationV1_validate_iff {o : OperationV1} :
    validate o = .ok () ↔
      isNfc o.clientImplementation = true ∧ o.parents.Nodup ∧
        (∃ keys, o.actions.foldlM OperationActionV1.validateStep [] = .ok keys) ∧ o.signature.purpose = .operation := by
  simp only [validate, OperationV1.validate, Except.bind_eq_ok, Except.exists_unit_iff,
    ensureNfc_eq_ok, Except.ite_error_eq_ok, ne_eq, not_not, countDistinct_eq_length_iff,
    exists_and_right, ensureSignaturePurpose, Except.ite_else_error_eq_ok, and_true, List.mem_singleton,
    forall_eq]

theorem operationV1_iff (hm : Admitted limits (.map m)) :
    (ValidRecord .operation 1 m ∧ wallTimeFieldFits m 7 = true) ↔ Expresses OperationV1 m := by
  constructor
  · rintro ⟨⟨h₀, h₁, hvalid⟩, hfits⟩
    obtain ⟨⟨-, hkeys⟩, hpolicy, hshape⟩ := (validateFields_eq_ok hm).mp hvalid
    obtain ⟨policy, h₂⟩ := hpolicy (.inl rfl)
    simp only [validateShapes, operationShape, Except.bind_eq_ok, Except.exists_unit_iff,
      uniqueIdsField_eq_ok, stableField_eq_ok, unsignedField_eq_ok,
      loopField_eq_ok hm actionStep_one_eq_ok, oidArrayField_eq_ok, optionalOidField_eq_ok,
      signatureField_eq_ok hm, textField_eq_ok] at hshape
    obtain ⟨⟨parents, hparents, h₃⟩, ⟨actor, h₄⟩, ⟨device, h₅⟩, ⟨logical, h₆⟩, hwall,
      ⟨actions, hactions, h₈⟩, ⟨inverse, h₉⟩, ⟨envelope, h₁₀⟩, ⟨payload, h₁₁⟩,
      ⟨signature, hpurpose, h₁₂⟩, ⟨client, h₁₃⟩⟩ := hshape
    obtain ⟨wall, h₇⟩ := (wallTimeField_eq_ok hm).mp ⟨hwall, hfits⟩
    refine ⟨⟨policy, parents, actor, device, logical, wall, actions, inverse, envelope, payload,
      signature, client⟩, ?_,
      (operationV1_fields_iff hm).mpr ⟨⟨h₀, h₁, h₂, h₃, h₄, h₅, h₆, h₇, h₈, h₉, h₁₂, h₁₃, h₁₀,
        h₁₁⟩, hkeys⟩⟩
    exact operationV1_validate_iff.mpr ⟨hm.isNfc_of_lookup h₁₃, hparents, hactions, hpurpose⟩
  · rintro ⟨o, hvalid, ho⟩
    obtain ⟨⟨h₀, h₁, h₂, h₃, h₄, h₅, h₆, h₇, h₈, h₉, h₁₂, h₁₃, h₁₀, h₁₁⟩, hkeys⟩ :=
      (operationV1_fields_iff hm).mp ho
    obtain ⟨hwall, hfits⟩ := (wallTimeField_eq_ok hm).mpr ⟨_, h₇⟩
    obtain ⟨-, hparents, hactions, hpurpose⟩ := operationV1_validate_iff.mp hvalid
    refine ⟨⟨h₀, h₁, (validateFields_eq_ok hm).mpr
      ⟨⟨by simp [fieldSets, *], hkeys⟩, fun _ => ⟨_, h₂⟩, ?_⟩⟩, hfits⟩
    simp only [validateShapes, operationShape, Except.bind_eq_ok, Except.exists_unit_iff,
      uniqueIdsField_eq_ok, stableField_eq_ok, unsignedField_eq_ok,
      loopField_eq_ok hm actionStep_one_eq_ok, oidArrayField_eq_ok, optionalOidField_eq_ok,
      signatureField_eq_ok hm, textField_eq_ok]
    exact ⟨⟨_, hparents, h₃⟩, ⟨_, h₄⟩, ⟨_, h₅⟩, ⟨_, h₆⟩, hwall, ⟨_, hactions, h₈⟩, ⟨_, h₉⟩,
      ⟨_, h₁₀⟩, ⟨_, h₁₁⟩, ⟨_, hpurpose, h₁₂⟩, ⟨_, h₁₃⟩⟩

/-! ### Policies -/

omit [Unicode] in
@[simp] theorem norm_principals (ps : List Principal) :
    (Value.array (ps.map Principal.value)).norm = .array (ps.map Principal.value) :=
  norm_array_map norm_principal ps

omit [Unicode] in
@[simp] theorem norm_administrators (ids : List ActorId) :
    (Value.array (ids.map stable)).norm = .array (ids.map stable) :=
  norm_array_map norm_stable ids

omit [Unicode] in
@[simp] theorem norm_grant (g : Grant) : g.value.norm = g.value :=
  norm_map_of_sorted (by simp [SortedKeys]) (by simp [norm_array_map norm_unsigned])

omit [Unicode] in
@[simp] theorem norm_grants (gs : List Grant) :
    (Value.array (gs.map Grant.value)).norm = .array (gs.map Grant.value) :=
  norm_array_map norm_grant gs

omit [Unicode] in
theorem capabilityStep_eq_ok (v : Value) (s s' : Option UInt64) :
    capabilityStep s v = .ok s' ↔
      ∃ c : Capability, v = .unsigned (code c) ∧ increasingStep 7 code s c = .ok s' := by
  simp only [capabilityStep, Except.bind_eq_ok, unsigned_eq_ok, Except.ite_error_eq_ok, not_or,
    gt_iff_lt, not_lt, exists_code_of_le Capability 8 rfl rfl (by decide), increasingStep]
  constructor
  · rintro ⟨_, rfl, ⟨⟨c, rfl⟩, hprev⟩, hs⟩; exact ⟨c, rfl, hprev, hs⟩
  · rintro ⟨c, rfl, hprev, hs⟩; exact ⟨_, rfl, ⟨⟨c, rfl⟩, hprev⟩, hs⟩

omit [Unicode] in
theorem grant_sortedCapabilities_pairwise {g : Grant} (h : g.capabilities.Nodup) :
    g.sortedCapabilities.Pairwise (· < ·) := by
  have hperm : g.sortedCapabilities.Perm (g.capabilities.map code) :=
    List.perm_insertionSort _ _
  have hnodup : g.sortedCapabilities.Nodup :=
    hperm.nodup_iff.mpr (h.map fun _ _ => Discriminant.code_injective (by decide))
  have hle : g.sortedCapabilities.Pairwise (· ≤ ·) := List.pairwise_insertionSort _ _
  exact (hle.and hnodup).imp fun ⟨hab, hne⟩ => lt_of_le_of_ne hab hne

theorem grantShape_eq_ok (hv : Admitted limits v) {n : Nat} :
    grantShape n v = .ok () ↔
      ∃ g : Grant, (g.principalIndex.toNat < n ∧ g.capabilities.Nodup) ∧ v = g.value := by
  simp only [grantShape, Except.bind_eq_ok, exactMap_eq_ok, field_eq_ok, unsigned_eq_ok,
    array_eq_ok, Except.ite_error_eq_ok, ge_iff_le, not_le, and_true,
    foldlM_image fun v _ => capabilityStep_eq_ok v]
  constructor
  · rintro ⟨m, ⟨rfl, -, hkeys⟩, _, h₀, index, rfl, hindex, _, h₁, _, rfl, s, cs, rfl, hcs⟩
    have hsorted := foldlM_increasingStep_iff.mp ⟨s, hcs⟩
    have hid : Grant.sortedCapabilities ⟨index, cs⟩ = cs.map code :=
      List.Pairwise.insertionSort_eq (hsorted.imp le_of_lt)
    refine ⟨⟨index, cs⟩, ⟨hindex, ?_⟩, ?_⟩
    · exact List.Nodup.of_map code (hsorted.imp fun h => h.ne)
    · rw [← norm_grant, Grant.value, map_eq_norm_iff hv [0, 1] (by simp) (by simp), hid]
      exact ⟨by simp [lookupKey_cons, h₀, h₁, Value.norm_array, Function.comp_def], hkeys⟩
  · rintro ⟨g, ⟨hindex, hnodup⟩, rfl⟩
    have hperm : g.sortedCapabilities.Perm (g.capabilities.map code) :=
      List.perm_insertionSort _ _
    have hcodes : ∀ n ∈ g.sortedCapabilities, ∃ c : Capability, True ∧ n = code c := by
      intro n hn
      obtain ⟨c, -, rfl⟩ := List.mem_map.mp (hperm.mem_iff.mp hn)
      exact ⟨c, trivial, rfl⟩
    obtain ⟨cs, -, hcs⟩ := forall_exists_image_iff.mp hcodes
    have hsorted := grant_sortedCapabilities_pairwise hnodup
    rw [hcs] at hsorted
    obtain ⟨s, hs⟩ := foldlM_increasingStep_iff.mpr hsorted
    refine ⟨_, ⟨rfl, by simp [HasKeys, lookupKey_cons]⟩, _, rfl, _, rfl, hindex, _, rfl, _, rfl, s,
      cs, ?_, hs⟩
    rw [hcs, List.map_map]
    rfl

theorem principalsShape_eq_ok (hm : Admitted limits (.map m)) {n : Nat} :
    principalsShape m = .ok n ↔
      ∃ ps : List Principal, (∀ p ∈ ps, p.identifier ≠ []) ∧ ps.length = n ∧
        lookupKey m 6 = some (.array (ps.map Principal.value)) := by
  simp only [principalsShape, Except.bind_eq_ok, Except.exists_unit_iff, field_eq_ok,
    array_eq_ok, forM_eq_ok, Except.ok.injEq]
  constructor
  · rintro ⟨_, h₆, vs, rfl, hall, rfl⟩
    have hex : ∀ v ∈ vs, ∃ p : Principal, p.identifier ≠ [] ∧ v = p.value := fun v hv =>
      (principal_eq_ok ((hm.of_lookup h₆).of_mem hv)).mp (hall v hv)
    obtain ⟨ps, hps, rfl⟩ := forall_exists_image_iff.mp hex
    exact ⟨ps, hps, by simp, h₆⟩
  · rintro ⟨ps, hps, rfl, h₆⟩
    refine ⟨_, h₆, _, rfl, fun v hv => ?_, by simp⟩
    obtain ⟨p, hp, rfl⟩ := List.mem_map.mp hv
    exact (principal_eq_ok ((hm.of_lookup h₆).of_mem hv)).mpr ⟨p, hps p hp, rfl⟩

theorem administrators_eq_ok (hm : Admitted limits (.map m)) :
    eachField m 13 (fun administrator => fixedBytes administrator 13 16) = .ok () ↔
      ∃ ids : List ActorId, lookupKey m 13 = some (.array (ids.map stable)) := by
  have hcheck : ∀ {v : Value}, Admitted limits v →
      (fixedBytes v 13 16 = .ok () ↔ ∃ id : ActorId, True ∧ v = stable id) := fun _ => by
    simp only [fixedBytes_eq_ok, true_and]
  simp [eachField_eq_ok hm hcheck]

theorem grants_eq_ok (hm : Admitted limits (.map m)) {n : Nat} :
    eachField m 7 (grantShape n) = .ok () ↔
      ∃ gs : List Grant,
        (∀ g ∈ gs, g.principalIndex.toNat < n ∧ g.capabilities.Nodup) ∧
          lookupKey m 7 = some (.array (gs.map Grant.value)) :=
  eachField_eq_ok hm fun hv => grantShape_eq_ok hv

theorem policy_fields_iff (hm : Admitted limits (.map m)) {o : Policy} :
    Value.map m = (canonicalValue o).norm ↔
      (lookupKey m 0 = some (.unsigned (code ObjectKind.policy)) ∧
        lookupKey m 1 = some (.unsigned 0) ∧ lookupKey m 3 = some (stable o.policyId) ∧
        lookupKey m 4 = some (.unsigned o.versionSequence) ∧
        lookupKey m 6 = some (.array (o.principals.map Principal.value)) ∧
        lookupKey m 7 = some (.array (o.grants.map Grant.value)) ∧
        lookupKey m 8 = some (.unsigned (code o.redactionMode)) ∧
        lookupKey m 9 = some (.unsigned (code o.derivationRule)) ∧
        lookupKey m 10 = some (RGit.oidArray o.declassificationRequirements) ∧
        lookupKey m 11 = some (.unsigned o.keyEpoch) ∧
        lookupKey m 12 = some (RGit.oid o.keyEnvelopeSet) ∧
        lookupKey m 13 = some (.array (o.administrators.map stable)) ∧
        lookupKey m 14 = some (.bytes o.activationConstraints) ∧
        lookupKey m 15 = some (signatureArray o.signatures) ∧
        lookupKey m 2 = o.policyRef.map PolicyRef.value ∧
        lookupKey m 5 = o.previousVersion.map RGit.oid) ∧
      ∀ e ∈ m, e.1 ∈ [0, 1, 3, 4, 6, 7, 8, 9, 10, 11, 12, 13, 14, 15] ++ [2, 5] := by
  rw [canonicalValue, map_eq_norm_iff hm ([0, 1, 3, 4, 6, 7, 8, 9, 10, 11, 12, 13, 14, 15] ++ [2, 5])
    (by cases h1 : o.policyRef <;> cases h2 : o.previousVersion <;>
      simp [fields, Policy.unsignedMap, optionalHeader, optional, h1, h2])
    (by cases h1 : o.policyRef <;> cases h2 : o.previousVersion <;>
      simp [fields, Policy.unsignedMap, optionalHeader, optional, h1, h2])]
  simp [fields, Policy.unsignedMap, optionalHeader, lookupKey_cons,
    lookupKey_optional, Function.comp_def, lookupKey_append]

omit [Unicode] in
theorem policy_validate_iff {o : Policy} :
    validate o = .ok () ↔
      checkSignatures o.signatures .policy = .ok () ∧
        ¬(o.versionSequence == 0) = o.previousVersion.isSome ∧
        (∀ p ∈ o.principals, p.identifier ≠ []) ∧
        (∀ g ∈ o.grants, g.principalIndex.toNat < o.principals.length ∧ g.capabilities.Nodup) ∧
        o.declassificationRequirements.Nodup := by
  simp only [validate, Policy.validate, Except.bind_eq_ok, Except.exists_unit_iff,
    ensureSignatureSet_eq_ok, Except.ite_error_eq_ok, Bool.not_eq_true, List.any_eq_false, ne_eq,
    not_not, and_true, countDistinct_eq_length_iff, bne_iff_ne, decide_eq_true_eq, not_le,
    ge_iff_le, List.isEmpty_iff, forall_and, and_assoc]

theorem policy_iff (hm : Admitted .metadata (.map m)) :
    ValidRecord .policy 0 m ↔ Expresses Policy m := by
  constructor
  · rintro ⟨h₀, h₁, hvalid⟩
    obtain ⟨⟨-, hkeys⟩, hpolicy, hshape⟩ := (validateFields_eq_ok hm).mp hvalid
    obtain ⟨policy, h₂⟩ := policyHeader_optional hpolicy
    simp only [validateShapes, policyShape, Except.bind_eq_ok, Except.exists_unit_iff,
      stableField_eq_ok, field_eq_ok, unsigned_eq_ok, predecessorField_eq_ok,
      principalsShape_eq_ok hm, grants_eq_ok hm, oidField_eq_ok,
      enumField_eq_ok (k := 8) RedactionMode 2 rfl rfl (by decide),
      enumField_eq_ok (k := 9) DerivationRule 2 rfl rfl (by decide), uniqueIdsField_eq_ok,
      unsignedField_eq_ok, administrators_eq_ok hm, bytesField_eq_ok,
      signatureSetField_eq_ok hm] at hshape
    obtain ⟨⟨identifier, h₃⟩, _, h₄, version, rfl, ⟨previous, hprevious, h₅⟩,
      _, ⟨principals, hprincipals, rfl, h₆⟩, ⟨grants, hgrants, h₇⟩, ⟨envelopes, h₁₂⟩,
      ⟨redaction, h₈⟩, ⟨derivation, h₉⟩, ⟨requirements, hrequirements, h₁₀⟩, ⟨epoch, h₁₁⟩,
      ⟨administrators, h₁₃⟩, ⟨constraints, h₁₄⟩, ⟨signatures, hsignatures, h₁₅⟩⟩ := hshape
    refine ⟨⟨policy, identifier, version, previous, principals, grants, redaction, derivation,
      requirements, epoch, envelopes, administrators, constraints, signatures⟩, ?_,
      (policy_fields_iff hm).mpr ⟨⟨h₀, h₁, h₃, h₄, h₆, h₇, h₈, h₉, h₁₀, h₁₁, h₁₂, h₁₃, h₁₄, h₁₅,
        h₂, h₅⟩, hkeys⟩⟩
    exact policy_validate_iff.mpr
      ⟨hsignatures, hprevious, hprincipals, hgrants, hrequirements⟩
  · rintro ⟨o, hvalid, ho⟩
    obtain ⟨⟨h₀, h₁, h₃, h₄, h₆, h₇, h₈, h₉, h₁₀, h₁₁, h₁₂, h₁₃, h₁₄, h₁₅, h₂, h₅⟩, hkeys⟩ :=
      (policy_fields_iff hm).mp ho
    obtain ⟨hsignatures, hprevious, hprincipals, hgrants, hrequirements⟩ :=
      policy_validate_iff.mp hvalid
    refine ⟨h₀, h₁, (validateFields_eq_ok hm).mpr
      ⟨⟨by simp [fieldSets, *], hkeys⟩, policyHeader_of_optional rfl h₂, ?_⟩⟩
    simp only [validateShapes, policyShape, Except.bind_eq_ok, Except.exists_unit_iff,
      stableField_eq_ok, field_eq_ok, unsigned_eq_ok, predecessorField_eq_ok,
      principalsShape_eq_ok hm, grants_eq_ok hm, oidField_eq_ok,
      enumField_eq_ok (k := 8) RedactionMode 2 rfl rfl (by decide),
      enumField_eq_ok (k := 9) DerivationRule 2 rfl rfl (by decide), uniqueIdsField_eq_ok,
      unsignedField_eq_ok, administrators_eq_ok hm, bytesField_eq_ok, signatureSetField_eq_ok hm]
    exact ⟨⟨_, h₃⟩, _, h₄, _, rfl, ⟨_, hprevious, h₅⟩, _, ⟨_, hprincipals, rfl, h₆⟩,
      ⟨_, hgrants, h₇⟩, ⟨_, h₁₂⟩, ⟨_, h₈⟩, ⟨_, h₉⟩, ⟨_, hrequirements, h₁₀⟩, ⟨_, h₁₁⟩, ⟨_, h₁₃⟩,
      ⟨_, h₁₄⟩, ⟨_, hsignatures, h₁₅⟩⟩

end Kinds

end RGit
