/-
RGit/Objects/ExpressEvidence.lean

Evidence, projection rules and rulesets.  The three plain evidence kinds
differ in their number and purpose only, so they share one statement
(`evidence_iff`); CI evidence adds three fields to it.
-/
import RGit.Objects.ExpressRegistry

namespace RGit

open Discriminant (code)

open Decode CanonicalObject

section Kinds

variable [Unicode] {limits : CanonicalLimits} {m : Entries} {v : Value}

/-! ### Evidence -/

/-- The lookups that all evidence kinds share. -/
@[mk_iff evidenceLookups_def]
structure EvidenceLookups (m : Entries) (f : EvidenceFields) : Prop where
  policy : lookupKey m 2 = some f.policyRef.value
  target : lookupKey m 3 = some f.target.value
  snapshot : lookupKey m 4 = some (RGit.oid f.snapshot)
  ruleset : lookupKey m 5 = some (RGit.oid f.ruleset)
  issuer : lookupKey m 6 = some (stable f.issuer)
  device : lookupKey m 7 = some (stable f.device)
  outcome : lookupKey m 8 = some (.unsigned (code f.outcome))
  constraints : lookupKey m 9 = some (.bytes f.constraints)
  related : lookupKey m 10 = some (typedRefArray f.related)
  wallTime : lookupKey m 11 = some f.wallTime.value.norm
  signatures : lookupKey m 12 = some (signatureArray f.signatures)

theorem validateEvidence_eq_ok {f : EvidenceFields} {purpose : SignaturePurpose} :
    validateEvidence f purpose = .ok () ↔
      SortedRefs f.related ∧ isCanonicalMap f.constraints = true ∧
        checkSignatures f.signatures purpose = .ok () := by
  simp only [validateEvidence, Except.bind_eq_ok, Except.exists_unit_iff,
    sortedUniqueRefs_eq_ok, validateCanonicalMap_eq_ok]

/-- The part of the evidence arm before the CI fields. -/
theorem evidenceLookups_iff (hm : Admitted .metadata (.map m)) {purpose : SignaturePurpose} :
    ((∃ p : PolicyRef, lookupKey m 2 = some p.value) ∧ evidenceShape purpose false m = .ok () ∧
        wallTimeFieldFits m 11 = true) ↔
      ∃ f : EvidenceFields, validateEvidence f purpose = .ok () ∧ EvidenceLookups m f := by
  simp only [evidenceShape, Except.bind_eq_ok, Except.exists_unit_iff, typedField_eq_ok hm,
    oidField_eq_ok, stableField_eq_ok, enumField_eq_ok EvidenceOutcome 3 rfl rfl (by decide),
    canonicalMapField_eq_ok hm, typedRefSetField_eq_ok hm, signatureSetField_eq_ok hm,
    Bool.false_eq_true, if_false, and_true, validateEvidence_eq_ok]
  constructor
  · rintro ⟨⟨policy, h₂⟩, ⟨⟨target, h₃⟩, ⟨snapshot, h₄⟩, ⟨ruleset, h₅⟩, ⟨issuer, h₆⟩, ⟨device, h₇⟩,
      ⟨outcome, h₈⟩, ⟨constraints, hmap, h₉⟩, ⟨related, hrelated, h₁₀⟩, hwall, signatures,
      hsignatures, h₁₂⟩, hfits⟩
    obtain ⟨wall, h₁₁⟩ := (wallTimeField_eq_ok hm).mp ⟨hwall, hfits⟩
    exact ⟨⟨policy, target, snapshot, ruleset, issuer, device, outcome, constraints, related,
      wall, signatures⟩, ⟨hrelated, hmap, hsignatures⟩,
      ⟨h₂, h₃, h₄, h₅, h₆, h₇, h₈, h₉, h₁₀, h₁₁, h₁₂⟩⟩
  · rintro ⟨f, ⟨hrelated, hmap, hsignatures⟩, h₂, h₃, h₄, h₅, h₆, h₇, h₈, h₉, h₁₀, h₁₁, h₁₂⟩
    obtain ⟨hwall, hfits⟩ := (wallTimeField_eq_ok hm).mpr ⟨_, h₁₁⟩
    exact ⟨⟨_, h₂⟩, ⟨⟨_, h₃⟩, ⟨_, h₄⟩, ⟨_, h₅⟩, ⟨_, h₆⟩, ⟨_, h₇⟩, ⟨_, h₈⟩, ⟨_, hmap, h₉⟩,
      ⟨_, hrelated, h₁₀⟩, hwall, _, hsignatures, h₁₂⟩, hfits⟩

theorem evidence_fields_iff (hm : Admitted limits (.map m)) {kind : ObjectKind}
    {f : EvidenceFields} :
    Value.map m =
        (Value.map (evidenceMap kind f ++ [(12, signatureArray f.signatures)])).norm ↔
      (lookupKey m 0 = some (.unsigned (code kind)) ∧ lookupKey m 1 = some (.unsigned 0) ∧
        EvidenceLookups m f) ∧
      ∀ e ∈ m, e.1 ∈ [0, 1, 2, 3, 4, 5, 6, 7, 8, 9, 10, 11, 12] ++ [] := by
  rw [map_eq_norm_iff hm ([0, 1, 2, 3, 4, 5, 6, 7, 8, 9, 10, 11, 12] ++ [])
    (by simp [evidenceMap, optionalHeader, optional])
    (by simp [evidenceMap, optionalHeader, optional])]
  refine and_congr_left fun _ => ?_
  simp [evidenceLookups_def, evidenceMap, optionalHeader, optional, lookupKey_cons]

/-- Plain evidence, of any of its three kinds. -/
theorem evidence_iff (hm : Admitted .metadata (.map m)) {kind : ObjectKind}
    {purpose : SignaturePurpose}
    (hsets : fieldSets kind = ([0, 1, 2, 3, 4, 5, 6, 7, 8, 9, 10, 11, 12], []))
    (hpolicy : policyOptional kind = false)
    (hshape : validateShapes kind 0 m = evidenceShape purpose false m) :
    (ValidRecord kind 0 m ∧ wallTimeFieldFits m 11 = true) ↔
      ∃ f : EvidenceFields, validateEvidence f purpose = .ok () ∧ Value.map m =
        (Value.map (evidenceMap kind f ++ [(12, signatureArray f.signatures)])).norm := by
  constructor
  · rintro ⟨⟨h₀, h₁, hvalid⟩, hfits⟩
    rw [validateFields_eq_ok hm, hsets, hshape] at hvalid
    obtain ⟨⟨-, hkeys⟩, hheader, hok⟩ := hvalid
    obtain ⟨f, hf, hlooks⟩ :=
      (evidenceLookups_iff hm).mp ⟨hheader (.inl hpolicy), hok, hfits⟩
    exact ⟨f, hf, (evidence_fields_iff hm).mpr ⟨⟨h₀, h₁, hlooks⟩, hkeys⟩⟩
  · rintro ⟨f, hf, heq⟩
    obtain ⟨⟨h₀, h₁, hlooks⟩, hkeys⟩ := (evidence_fields_iff hm).mp heq
    obtain ⟨hheader, hok, hfits⟩ := (evidenceLookups_iff hm).mpr ⟨f, hf, hlooks⟩
    refine ⟨⟨h₀, h₁, ?_⟩, hfits⟩
    rw [validateFields_eq_ok hm, hsets, hshape]
    obtain ⟨h₂, h₃, h₄, h₅, h₆, h₇, h₈, h₉, h₁₀, h₁₁, h₁₂⟩ := hlooks
    exact ⟨⟨by simp [*], hkeys⟩, fun _ => hheader, hok⟩

theorem reviewEvidence_iff (hm : Admitted .metadata (.map m)) :
    (ValidRecord .reviewEvidence 0 m ∧ wallTimeFieldFits m 11 = true) ↔
      Expresses ReviewEvidence m := by
  rw [evidence_iff hm rfl rfl rfl]
  exact ⟨fun ⟨f, h⟩ => ⟨⟨f⟩, h⟩, fun ⟨o, h⟩ => ⟨o.fields, h⟩⟩

theorem approvalEvidence_iff (hm : Admitted .metadata (.map m)) :
    (ValidRecord .approvalEvidence 0 m ∧ wallTimeFieldFits m 11 = true) ↔
      Expresses ApprovalEvidence m := by
  rw [evidence_iff hm rfl rfl rfl]
  exact ⟨fun ⟨f, h⟩ => ⟨⟨f⟩, h⟩, fun ⟨o, h⟩ => ⟨o.fields, h⟩⟩

theorem policyDecisionEvidence_iff (hm : Admitted .metadata (.map m)) :
    (ValidRecord .policyDecisionEvidence 0 m ∧ wallTimeFieldFits m 11 = true) ↔
      Expresses PolicyDecisionEvidence m := by
  rw [evidence_iff hm rfl rfl rfl]
  exact ⟨fun ⟨f, h⟩ => ⟨⟨f⟩, h⟩, fun ⟨o, h⟩ => ⟨o.fields, h⟩⟩

/-- The part of the evidence arm that only CI evidence has. -/
theorem evidenceShape_ci {purpose : SignaturePurpose} :
    evidenceShape purpose true m = .ok () ↔
      evidenceShape purpose false m = .ok () ∧
        (∃ name : String, name ≠ "" ∧ lookupKey m 13 = some (.text name)) ∧
        (∃ runner : ObjectId, lookupKey m 14 = some (RGit.oid runner)) ∧
        ∃ build : Option ObjectId, lookupKey m 15 = build.map RGit.oid := by
  simp only [evidenceShape, Except.bind_eq_ok, Except.exists_unit_iff, field_eq_ok, text_eq_ok,
    Except.ite_error_eq_ok, oidField_eq_ok, optionalOidField_eq_ok, if_true, Bool.false_eq_true,
    if_false, and_true, and_assoc]
  have hname : (∃ v, lookupKey m 13 = some v ∧ ∃ name, v = .text name ∧ ¬name = "" ∧
      (∃ runner : ObjectId, lookupKey m 14 = some (RGit.oid runner)) ∧
        ∃ build : Option ObjectId, lookupKey m 15 = build.map RGit.oid) ↔
      (∃ name : String, name ≠ "" ∧ lookupKey m 13 = some (.text name)) ∧
        (∃ runner : ObjectId, lookupKey m 14 = some (RGit.oid runner)) ∧
        ∃ build : Option ObjectId, lookupKey m 15 = build.map RGit.oid := by
    constructor
    · rintro ⟨_, h₁₃, name, rfl, hname, hrest⟩; exact ⟨⟨name, hname, h₁₃⟩, hrest⟩
    · rintro ⟨⟨name, hname, h₁₃⟩, hrest⟩; exact ⟨_, h₁₃, name, rfl, hname, hrest⟩
  rw [hname]

omit [Unicode] in
theorem norm_map_sortEntries (es : Entries) :
    (Value.map (sortEntries es)).norm = (Value.map es).norm := by
  have hmap : (sortEntries es).map (fun e => (e.1, e.2.norm)) =
      sortEntries (es.map fun e => (e.1, e.2.norm)) :=
    List.map_insertionSort _ _ _ es fun _ _ _ _ => Iff.rfl
  rw [Value.norm_map, Value.norm_map, hmap]
  exact congrArg _ (List.Pairwise.insertionSort_eq (List.pairwise_insertionSort _ _))

theorem ciEvidence_fields_iff (hm : Admitted limits (.map m)) {o : CiEvidence} :
    Value.map m = (canonicalValue o).norm ↔
      (lookupKey m 0 = some (.unsigned (code ObjectKind.ciEvidence)) ∧
        lookupKey m 1 = some (.unsigned 0) ∧ EvidenceLookups m o.fields ∧
        lookupKey m 13 = some (.text o.checkName) ∧
        lookupKey m 14 = some (RGit.oid o.runnerIdentity) ∧
        lookupKey m 15 = o.buildProvenance.map RGit.oid) ∧
      ∀ e ∈ m, e.1 ∈ [0, 1, 2, 3, 4, 5, 6, 7, 8, 9, 10, 11, 12, 13, 14] ++ [15] := by
  show Value.map m = (Value.map (sortEntries
    (o.unsignedMap ++ [(12, signatureArray o.fields.signatures)]))).norm ↔ _
  rw [norm_map_sortEntries,
    map_eq_norm_iff hm ([0, 1, 2, 3, 4, 5, 6, 7, 8, 9, 10, 11, 12, 13, 14] ++ [15])
    (by cases h : o.buildProvenance <;>
      simp [CiEvidence.unsignedMap, evidenceMap, optionalHeader, optional, h])
    (by cases h : o.buildProvenance <;>
      simp [CiEvidence.unsignedMap, evidenceMap, optionalHeader, optional, h])]
  refine and_congr_left fun _ => ?_
  simp [evidenceLookups_def, CiEvidence.unsignedMap, evidenceMap, optionalHeader,
    lookupKey_cons, lookupKey_optional, lookupKey_append, Function.comp_def, and_assoc]

theorem ciEvidence_validate_iff {o : CiEvidence} :
    validate o = .ok () ↔
      isNfc o.checkName = true ∧ o.checkName ≠ "" ∧
        validateEvidence o.fields .ciEvidence = .ok () := by
  simp only [validate, Except.bind_eq_ok, Except.exists_unit_iff, nfc_eq_ok,
    Except.ite_error_eq_ok, ne_eq]

theorem ciEvidence_iff (hm : Admitted .metadata (.map m)) :
    (ValidRecord .ciEvidence 0 m ∧ wallTimeFieldFits m 11 = true) ↔
      Expresses CiEvidence m := by
  constructor
  · rintro ⟨⟨h₀, h₁, hvalid⟩, hfits⟩
    obtain ⟨⟨-, hkeys⟩, hheader, hshape⟩ := (validateFields_eq_ok hm).mp hvalid
    rw [validateShapes, evidenceShape_ci] at hshape
    obtain ⟨hok, ⟨name, hname, h₁₃⟩, ⟨runner, h₁₄⟩, build, h₁₅⟩ := hshape
    obtain ⟨f, hf, hlooks⟩ := (evidenceLookups_iff hm).mp ⟨hheader (.inl rfl), hok, hfits⟩
    refine ⟨⟨f, name, runner, build⟩, ?_,
      (ciEvidence_fields_iff hm).mpr ⟨⟨h₀, h₁, hlooks, h₁₃, h₁₄, h₁₅⟩, hkeys⟩⟩
    exact ciEvidence_validate_iff.mpr ⟨hm.isNfc_of_lookup h₁₃, hname, hf⟩
  · rintro ⟨o, hvalid, ho⟩
    obtain ⟨⟨h₀, h₁, hlooks, h₁₃, h₁₄, h₁₅⟩, hkeys⟩ := (ciEvidence_fields_iff hm).mp ho
    obtain ⟨-, hname, hf⟩ := ciEvidence_validate_iff.mp hvalid
    obtain ⟨hheader, hok, hfits⟩ := (evidenceLookups_iff hm).mpr ⟨o.fields, hf, hlooks⟩
    refine ⟨⟨h₀, h₁, (validateFields_eq_ok hm).mpr ⟨⟨?_, hkeys⟩, fun _ => hheader, ?_⟩⟩, hfits⟩
    · obtain ⟨h₂, h₃, h₄, h₅, h₆, h₇, h₈, h₉, h₁₀, h₁₁, h₁₂⟩ := hlooks
      simp [fieldSets, *]
    · rw [validateShapes, evidenceShape_ci]
      exact ⟨hok, ⟨_, hname, h₁₃⟩, ⟨_, h₁₄⟩, _, h₁₅⟩

/-! ### Projection rules -/

omit [Unicode] in
@[simp] theorem norm_projectionRule (r : ProjectionRule) : r.value.norm = r.value :=
  norm_map_of_sorted (by simp [SortedKeys]) (by simp)

omit [Unicode] in
@[simp] theorem norm_projectionRules (rs : List ProjectionRule) :
    (Value.array (rs.map ProjectionRule.value)).norm = .array (rs.map ProjectionRule.value) :=
  norm_array_map norm_projectionRule rs

theorem projectionRuleShape_eq_ok (hv : Admitted limits v) :
    projectionRuleShape v = .ok () ↔
      ∃ r : ProjectionRule, isCanonicalMap r.parameters = true ∧ v = r.value := by
  simp only [projectionRuleShape, Except.bind_eq_ok, exactMap_eq_ok, field_eq_ok,
    unsigned_eq_ok, gt_iff_lt, Except.ite_error_eq_ok, not_lt, canonicalMapBytes_eq_ok,
    exists_code_of_le ProjectionRuleKind 2 rfl rfl (by decide)]
  constructor
  · rintro ⟨m, ⟨rfl, -, hkeys⟩, _, h₀, _, rfl, ⟨kind, rfl⟩, _, h₁, parameters, hmap, rfl⟩
    refine ⟨⟨kind, parameters⟩, hmap, ?_⟩
    rw [← norm_projectionRule, ProjectionRule.value,
      map_eq_norm_iff hv [0, 1] (by simp) (by simp)]
    exact ⟨by simp [lookupKey_cons, h₀, h₁], hkeys⟩
  · rintro ⟨r, hmap, rfl⟩
    exact ⟨_, ⟨rfl, by simp [HasKeys, lookupKey_cons]⟩, _, rfl, _, rfl, ⟨r.ruleKind, rfl⟩, _,
      rfl, _, hmap, rfl⟩

theorem projectionRules_fields_iff (hm : Admitted limits (.map m)) {o : ProjectionRules} :
    Value.map m = (canonicalValue o).norm ↔
      (lookupKey m 0 = some (.unsigned (code ObjectKind.projectionRules)) ∧
        lookupKey m 1 = some (.unsigned 0) ∧ lookupKey m 2 = some o.policyRef.value ∧
        lookupKey m 3 = some (.unsigned o.version) ∧
        lookupKey m 5 = some (.array (o.rules.map ProjectionRule.value)) ∧
        lookupKey m 6 = some (.bool o.defaultFail) ∧ lookupKey m 4 = o.previous.map RGit.oid) ∧
      ∀ e ∈ m, e.1 ∈ [0, 1, 2, 3, 5, 6] ++ [4] := by
  rw [canonicalValue, map_eq_norm_iff hm ([0, 1, 2, 3, 5, 6] ++ [4])
    (by cases h : o.previous <;>
      simp [fields, optionalHeader, optional, h])
    (by cases h : o.previous <;>
      simp [fields, optionalHeader, optional, h])]
  simp [fields, optionalHeader, lookupKey_cons,
    lookupKey_optional, Function.comp_def, lookupKey_append]

theorem projectionRules_validate_iff {o : ProjectionRules} :
    validate o = .ok () ↔
      ¬(o.version == 0) = o.previous.isSome ∧ ¬(!o.defaultFail) = true ∧
        ∀ r ∈ o.rules, isCanonicalMap r.parameters = true := by
  simp only [validate, Except.ite_error_eq_ok, forM_eq_ok, validateCanonicalMap_eq_ok]

theorem projectionRules_iff (hm : Admitted limits (.map m)) :
    ValidRecord .projectionRules 0 m ↔ Expresses ProjectionRules m := by
  constructor
  · rintro ⟨h₀, h₁, hvalid⟩
    obtain ⟨⟨-, hkeys⟩, hpolicy, hshape⟩ := (validateFields_eq_ok hm).mp hvalid
    obtain ⟨policy, h₂⟩ := hpolicy (.inl rfl)
    simp only [validateShapes, projectionRulesShape, Except.bind_eq_ok, Except.exists_unit_iff,
      field_eq_ok, unsigned_eq_ok, predecessorField_eq_ok,
      eachField_eq_ok hm projectionRuleShape_eq_ok, boolean_eq_ok, Except.ite_error_eq_ok,
      and_true] at hshape
    obtain ⟨_, h₃, version, rfl, ⟨previous, hprevious, h₄⟩, ⟨rules, hrules, h₅⟩,
      _, h₆, defaultFail, rfl, hdefault⟩ := hshape
    refine ⟨⟨policy, version, previous, rules, defaultFail⟩, ?_,
      (projectionRules_fields_iff hm).mpr ⟨⟨h₀, h₁, h₂, h₃, h₅, h₆, h₄⟩, hkeys⟩⟩
    exact projectionRules_validate_iff.mpr ⟨hprevious, hdefault, hrules⟩
  · rintro ⟨o, hvalid, ho⟩
    obtain ⟨⟨h₀, h₁, h₂, h₃, h₅, h₆, h₄⟩, hkeys⟩ :=
      (projectionRules_fields_iff hm).mp ho
    obtain ⟨hprevious, hdefault, hrules⟩ := projectionRules_validate_iff.mp hvalid
    refine ⟨h₀, h₁, (validateFields_eq_ok hm).mpr
      ⟨⟨by simp [fieldSets, *], hkeys⟩, fun _ => ⟨_, h₂⟩, ?_⟩⟩
    simp only [validateShapes, projectionRulesShape, Except.bind_eq_ok, Except.exists_unit_iff,
      field_eq_ok, unsigned_eq_ok, predecessorField_eq_ok,
      eachField_eq_ok hm projectionRuleShape_eq_ok, boolean_eq_ok, Except.ite_error_eq_ok,
      and_true]
    exact ⟨_, h₃, _, rfl, ⟨_, hprevious, h₄⟩, ⟨_, hrules, h₅⟩, _, h₆, _, rfl, hdefault⟩

/-! ### Rulesets -/

omit [Unicode] in
theorem isEvidenceKind_iff {n : UInt64} :
    (20 ≤ n ∧ n ≤ 23) ↔ ∃ k : ObjectKind, isEvidenceKind k = true ∧ n = code k := by
  constructor
  · rintro ⟨hlo, hhi⟩
    have hlo : 20 ≤ n.toNat := UInt64.le_iff_toNat_le.mp hlo
    have hhi : n.toNat ≤ 23 := UInt64.le_iff_toNat_le.mp hhi
    have hcases : n = 20 ∨ n = 21 ∨ n = 22 ∨ n = 23 := by
      simp only [← UInt64.toNat_inj]
      simp
      omega
    rcases hcases with rfl | rfl | rfl | rfl
    · exact ⟨.reviewEvidence, rfl, rfl⟩
    · exact ⟨.approvalEvidence, rfl, rfl⟩
    · exact ⟨.ciEvidence, rfl, rfl⟩
    · exact ⟨.policyDecisionEvidence, rfl, rfl⟩
  · rintro ⟨k, hk, rfl⟩
    cases k <;> first | exact ⟨by decide, by decide⟩ | cases hk

omit [Unicode] in
@[simp] theorem norm_evidenceKinds (ks : List ObjectKind) :
    (Value.array (ks.map fun k => .unsigned (code k))).norm =
      .array (ks.map fun k => .unsigned (code k)) :=
  norm_array_map (fun _ => norm_unsigned _) ks

/-- One pass of the evidence kind loop, on the kind itself. -/
def requiredKindStep (prior : Option UInt64) (k : ObjectKind) : DecodeResult (Option UInt64) :=
  if isEvidenceKind k then increasingStep 7 code prior k else .error (.field 7)

omit [Unicode] in
theorem evidenceKindStep_eq_ok (v : Value) (s s' : Option UInt64) :
    evidenceKindStep s v = .ok s' ↔
      ∃ k : ObjectKind, v = .unsigned (code k) ∧ requiredKindStep s k = .ok s' := by
  simp only [evidenceKindStep, Except.bind_eq_ok, unsigned_eq_ok, Except.ite_error_eq_ok, not_or,
    not_not, isEvidenceKind_iff, requiredKindStep, increasingStep, Except.ite_else_error_eq_ok]
  constructor
  · rintro ⟨_, rfl, ⟨⟨k, hk, rfl⟩, hprev⟩, hs⟩; exact ⟨k, rfl, hk, hprev, hs⟩
  · rintro ⟨k, rfl, hk, hprev, hs⟩; exact ⟨_, rfl, ⟨⟨k, hk, rfl⟩, hprev⟩, hs⟩

omit [Unicode] in
theorem foldlM_requiredKindStep_iff {ks : List ObjectKind} :
    (∃ s, ks.foldlM requiredKindStep none = .ok s) ↔
      (∀ k ∈ ks, isEvidenceKind k = true) ∧ (ks.map code).Pairwise (· < ·) := by
  have hstep : ∀ (s : Option UInt64) (k : ObjectKind) (s' : Option UInt64),
      requiredKindStep s k = .ok s' ↔
        (isEvidenceKind k = true ∧ ∀ old ∈ s, old < code k) ∧ some (code k) = s' := by
    intro s k s'
    simp [requiredKindStep, increasingStep, Option.any_eq_false, and_assoc]
  simp only [foldlM_eq_ok hstep, exists_and_left, exists_eq', and_true]
  rw [walk_and_left, walk_previous code (· < ·), List.isChain_iff_pairwise]
  simp

omit [Unicode] in
theorem outOfOrder_codes {ns : List UInt64} :
    outOfOrder ns = false ↔ ns.Pairwise (· < ·) := by
  have hlt : ∀ a b : UInt64, (compare a b).isGE = false ↔ a < b := fun a b => by
    rw [← compare_lt_iff_lt]
    cases compare a b <;> simp
  rw [outOfOrder, anyWindow_eq_false_iff]
  simp only [hlt]
  exact List.isChain_iff_pairwise

theorem ruleset_fields_iff (hm : Admitted limits (.map m)) {o : Ruleset} :
    Value.map m = (canonicalValue o).norm ↔
      (lookupKey m 0 = some (.unsigned (code ObjectKind.ruleset)) ∧
        lookupKey m 1 = some (.unsigned 0) ∧ lookupKey m 2 = some o.policyRef.value ∧
        lookupKey m 3 = some (.unsigned (code o.rulesetKind)) ∧
        lookupKey m 4 = some (.unsigned o.version) ∧ lookupKey m 6 = some (.bytes o.constraints) ∧
        lookupKey m 7 = some (.array (o.requiredEvidenceKinds.map fun k => .unsigned (code k))) ∧
        lookupKey m 5 = o.previous.map RGit.oid) ∧
      ∀ e ∈ m, e.1 ∈ [0, 1, 2, 3, 4, 6, 7] ++ [5] := by
  rw [canonicalValue, map_eq_norm_iff hm ([0, 1, 2, 3, 4, 6, 7] ++ [5])
    (by cases h : o.previous <;>
      simp [fields, optionalHeader, optional, h])
    (by cases h : o.previous <;>
      simp [fields, optionalHeader, optional, h])]
  simp [fields, optionalHeader, lookupKey_cons,
    lookupKey_optional, Function.comp_def, lookupKey_append]

theorem ruleset_validate_iff {o : Ruleset} :
    validate o = .ok () ↔
      ¬(o.version == 0) = o.previous.isSome ∧
        ((∀ k ∈ o.requiredEvidenceKinds, isEvidenceKind k = true) ∧
          (o.requiredEvidenceKinds.map code).Pairwise (· < ·)) ∧
        isCanonicalMap o.constraints = true := by
  simp only [validate, Except.ite_error_eq_ok, Bool.not_eq_true, Bool.or_eq_false_iff,
    List.any_eq_false, Bool.not_eq_false', outOfOrder_codes, validateCanonicalMap_eq_ok,
    and_comm (a := List.Pairwise _ _)]

theorem ruleset_iff (hm : Admitted limits (.map m)) :
    ValidRecord .ruleset 0 m ↔ Expresses Ruleset m := by
  constructor
  · rintro ⟨h₀, h₁, hvalid⟩
    obtain ⟨⟨-, hkeys⟩, hpolicy, hshape⟩ := (validateFields_eq_ok hm).mp hvalid
    obtain ⟨policy, h₂⟩ := hpolicy (.inl rfl)
    simp only [validateShapes, rulesetShape, Except.bind_eq_ok, Except.exists_unit_iff,
      enumField_eq_ok RulesetKind 4 rfl rfl (by decide), field_eq_ok, unsigned_eq_ok,
      predecessorField_eq_ok, canonicalMapField_eq_ok hm,
      loopField_eq_ok hm fun {v} _ => evidenceKindStep_eq_ok v,
      foldlM_requiredKindStep_iff] at hshape
    obtain ⟨⟨kind, h₃⟩, _, h₄, version, rfl, ⟨previous, hprevious, h₅⟩, ⟨constraints, hmap, h₆⟩,
      ⟨required, hrequired, h₇⟩⟩ := hshape
    refine ⟨⟨policy, kind, version, previous, constraints, required⟩, ?_,
      (ruleset_fields_iff hm).mpr ⟨⟨h₀, h₁, h₂, h₃, h₄, h₆, h₇, h₅⟩, hkeys⟩⟩
    exact ruleset_validate_iff.mpr ⟨hprevious, hrequired, hmap⟩
  · rintro ⟨o, hvalid, ho⟩
    obtain ⟨⟨h₀, h₁, h₂, h₃, h₄, h₆, h₇, h₅⟩, hkeys⟩ :=
      (ruleset_fields_iff hm).mp ho
    obtain ⟨hprevious, hrequired, hmap⟩ := ruleset_validate_iff.mp hvalid
    refine ⟨h₀, h₁, (validateFields_eq_ok hm).mpr
      ⟨⟨by simp [fieldSets, *], hkeys⟩, fun _ => ⟨_, h₂⟩, ?_⟩⟩
    simp only [validateShapes, rulesetShape, Except.bind_eq_ok, Except.exists_unit_iff,
      enumField_eq_ok RulesetKind 4 rfl rfl (by decide), field_eq_ok, unsigned_eq_ok,
      predecessorField_eq_ok, canonicalMapField_eq_ok hm,
      loopField_eq_ok hm fun {v} _ => evidenceKindStep_eq_ok v, foldlM_requiredKindStep_iff]
    exact ⟨⟨_, h₃⟩, _, h₄, _, rfl, ⟨_, hprevious, h₅⟩, ⟨_, hmap, h₆⟩, ⟨_, hrequired, h₇⟩⟩

end Kinds

end RGit
