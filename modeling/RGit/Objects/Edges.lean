/-
RGit/Objects/Edges.lean

What `references` is for: the schema says which fields of a record carry an
identifier, in which role and of which kind, and the edges of an object are
the identifiers it carries there.

A `SchemaField` is a path into the record together with the role and the
shape of what the path leads to.  `schemaFields` lists the fields of every
kind; `Carries` says that a record carries an edge in such a field.  One
field, or one loop over nested fields, of `references` is then compared with
the schema fields it reads (`Part`).
-/
import RGit.Objects.Fields
import RGit.Objects.References

namespace RGit

open Discriminant (code)

/-! ### Schema fields -/

/-- One step of a path into a record. -/
inductive PathStep where
  | key (k : UInt64)
  | each
  /-- Go on only where field `k` holds the number `n`. -/
  | tagged (k n : UInt64)
  deriving DecidableEq

/-- The values a path leads to. -/
def reach : List PathStep → Value → List Value
  | [], v => [v]
  | .key k :: path, .map m =>
      match lookupKey m k with
      | some v => reach path v
      | none => []
  | .each :: path, .array vs => vs.flatMap (reach path)
  | .tagged k n :: path, .map m =>
      match lookupKey m k with
      | some (.unsigned n') => if n' = n then reach path (.map m) else []
      | _ => []
  | _, _ => []

@[simp] theorem reach_nil (v : Value) : reach [] v = [v] := by
  cases v <;> rfl

theorem reach_key (k : UInt64) (path : List PathStep) (m : Entries) :
    reach (.key k :: path) (.map m) = (lookupKey m k).elim [] (reach path) := by
  rw [reach]
  cases lookupKey m k <;> rfl

theorem reach_each (path : List PathStep) (vs : List Value) :
    reach (.each :: path) (.array vs) = vs.flatMap (reach path) := rfl

/-- A field behind a tag is reached in the records that bear the tag. -/
theorem reach_tagged {k n n' : UInt64} {path : List PathStep} {m : Entries}
    (h : lookupKey m k = some (.unsigned n')) :
    reach (.tagged k n :: path) (.map m) = if n' = n then reach path (.map m) else [] := by
  simp only [reach, h]

/-- What stands at the end of a path. -/
inductive Leaf where
  | id (expected : Option ObjectKind)
  | typed
  | policy
  deriving DecidableEq

/-- The value is an identifier, typed reference or policy reference that names
`target` with the given kind. -/
def Leaf.Holds : Leaf → Value → Option ObjectKind → ObjectId → Prop
  | .id expected, v, kind, target => kind = expected ∧ v = RGit.oid target
  | .typed, v, kind, target =>
      ∃ r : TypedObjectRef, kind = some r.kind ∧ target = r.id ∧ v = r.value
  | .policy, v, kind, target =>
      ∃ p : PolicyRef, kind = some .policy ∧ target = p.version ∧ v = p.value

structure SchemaField where
  role : ReferenceRole
  path : List PathStep
  leaf : Leaf
  deriving DecidableEq

/-- The record carries the edge in the field. -/
def Carries (v : Value) (f : SchemaField) (e : ReferenceEdge) : Prop :=
  e.role = f.role ∧ ∃ w ∈ reach f.path v, f.leaf.Holds w e.expectedKind e.id

namespace SchemaField

/-- The same field of every element of an array field. -/
def within (k : UInt64) (f : SchemaField) : SchemaField :=
  { f with path := .key k :: .each :: f.path }

end SchemaField

def idAt (k : UInt64) (role : ReferenceRole) (expected : Option ObjectKind) : SchemaField :=
  ⟨role, [.key k], .id expected⟩

def idsAt (k : UInt64) (role : ReferenceRole) (expected : ObjectKind) : SchemaField :=
  ⟨role, [.key k, .each], .id (some expected)⟩

def typedAt (k : UInt64) (role : ReferenceRole) : SchemaField := ⟨role, [.key k], .typed⟩

def typedsAt (k : UInt64) (role : ReferenceRole) : SchemaField :=
  ⟨role, [.key k, .each], .typed⟩

def policyAt (k : UInt64) (role : ReferenceRole) : SchemaField := ⟨role, [.key k], .policy⟩

/-- The fields of a manifest entry: its target, by entry kind, and its policy. -/
def manifestEntryFields : List SchemaField :=
  [⟨.manifestEntryTarget, [.tagged 1 0, .key 2], .id (some .blob)⟩,
    ⟨.manifestEntryTarget, [.tagged 1 1, .key 2], .id (some .manifest)⟩,
    ⟨.manifestEntryTarget, [.tagged 1 2, .key 2], .id (some .blob)⟩,
    ⟨.manifestEntryTarget, [.tagged 1 3, .key 2], .id (some .subproject)⟩,
    ⟨.manifestEntryTarget, [.tagged 1 4, .key 2], .id (some .secretRef)⟩,
    policyAt 4 .manifestEntryPolicy]

/-- The fields of a line declaration. -/
def declarationFields : List SchemaField :=
  [policyAt 0 .operationLinePolicy, policyAt 6 .operationLineIntegrationPolicy,
    policyAt 7 .operationLineApprovalPolicy, policyAt 8 .operationLineReleasePolicy,
    policyAt 9 .operationLineVisibilityPolicy,
    idAt 3 .operationLineHeadSnapshot (some .snapshot),
    idAt 5 .operationLinePreviousState (some .lineState)]

/-- The fields of an action, by discriminator: a transition, a bound
transition, a line advance. -/
def actionFields : List SchemaField :=
  [⟨.operationBefore, [.tagged 0 0, .key 1], .typed⟩,
    ⟨.operationAfter, [.tagged 0 0, .key 2], .typed⟩,
    ⟨.operationBefore, [.tagged 0 2, .key 2], .typed⟩,
    ⟨.operationAfter, [.tagged 0 2, .key 3], .typed⟩] ++
  declarationFields.map fun f => { f with path := .tagged 0 1 :: .key 3 :: f.path }

/-- The fields of a key record. -/
def keyRecordFields : List SchemaField :=
  [idAt 3 .identityKeyNotBefore (some .operation), idAt 4 .identityKeyNotAfter (some .operation)]

/-- The fields that all evidence kinds have. -/
def evidenceFields : List SchemaField :=
  [typedAt 3 .evidenceTarget, idAt 4 .evidenceSnapshot (some .snapshot),
    idAt 5 .evidenceRuleset (some .ruleset), typedsAt 10 .evidenceRelated]

/-- The policy references of a kind. -/
def policySchemaFields : ObjectKind → List SchemaField
  | .changeRevision =>
      [policyAt 2 .objectPolicy, policyAt 14 .reviewPolicy, policyAt 15 .landingPolicy]
  | .lineState =>
      [policyAt 2 .objectPolicy, policyAt 8 .integrationPolicy, policyAt 9 .approvalPolicy,
        policyAt 10 .releasePolicy, policyAt 11 .visibilityPolicy]
  | .release => [policyAt 2 .objectPolicy, policyAt 6 .audiencePolicy]
  | _ => [policyAt 2 .objectPolicy]

/-- The identifiers and typed references of a kind. -/
def ownSchemaFields : ObjectKind → List SchemaField
  | .chunk => []
  | .blob => [⟨.blobChunk, [.key 5, .each, .key 0], .id (some .chunk)⟩]
  | .secretRef => [idAt 9 .secretDevelopmentValue none]
  | .manifest => manifestEntryFields.map (.within 3)
  | .subproject => [idAt 6 .subprojectNativeProjection none]
  | .snapshot =>
      [idAt 3 .snapshotRootManifest (some .manifest), idAt 10 .snapshotMessage (some .blob),
        idsAt 4 .snapshotParent .snapshot]
  | .changeRevision =>
      [idAt 4 .changePreviousRevision (some .changeRevision), idAt 5 .changeTitle (some .blob),
        idAt 6 .changeDescription (some .blob), idAt 7 .changeBaseSnapshot (some .snapshot),
        idAt 8 .changeCurrentSnapshot (some .snapshot)]
  | .lineState =>
      [idAt 5 .lineHeadSnapshot (some .snapshot), idAt 7 .linePreviousState (some .lineState),
        idAt 12 .lineTransactionOperation (some .operation)]
  | .conflict => [typedAt 3 .conflictBase, typedAt 4 .conflictLeft, typedAt 5 .conflictRight]
  | .operation =>
      [idsAt 3 .operationParent .operation,
        idsAt 9 .operationInversePayload .operationPayload] ++
      actionFields.map (.within 8) ++
      [idAt 10 .operationPublicEnvelope (some .operationPayload),
        idAt 11 .operationPrivatePayload (some .operationPayload)]
  | .marker => [typedAt 4 .markerTarget]
  | .release =>
      [idAt 5 .releaseSourceSnapshot (some .snapshot),
        idAt 7 .releaseProjectionRules (some .projectionRules),
        idAt 8 .releaseProjectedRoot (some .manifest),
        idAt 9 .releaseProjectionProof (some .projectionProof),
        idAt 11 .releaseNotes (some .blob),
        idsAt 12 .releaseBuildProvenance .buildProvenance, idsAt 13 .releaseArtifact .artifact,
        idsAt 14 .releasePolicyEvidence .policyDecisionEvidence]
  | .policy =>
      [idAt 5 .policyPreviousVersion (some .policy),
        idAt 12 .policyKeyEnvelopeSet (some .keyEnvelopeSet),
        idsAt 10 .policyDeclassificationRequirement .policyDecisionEvidence]
  | .repositoryRoot =>
      [idAt 4 .repositoryRootPolicy (some .policy), idsAt 5 .repositoryTrustedIdentity .identity,
        idAt 6 .repositoryBootstrapKeyEnvelopeSet (some .keyEnvelopeSet),
        idAt 7 .repositoryGenesisOperation (some .operation),
        idsAt 8 .repositoryInitialLineState .lineState]
  | .identity =>
      [idAt 6 .identityPrevious (some .identity)] ++ keyRecordFields.map (.within 7) ++
      keyRecordFields.map (.within 8) ++
      [idAt 11 .identityActivationOperation (some .operation),
        idAt 12 .identityNotAfterOperation (some .operation)]
  | .groupMembership =>
      [idAt 6 .membershipPrevious (some .groupMembership),
        idAt 10 .membershipActivationOperation (some .operation),
        idAt 11 .membershipNotAfterOperation (some .operation)]
  | .keyEnvelopeSet => []
  | .changeRelation =>
      [idsAt 4 .changeRelationSource .changeRevision,
        idsAt 5 .changeRelationResult .changeRevision,
        idsAt 6 .changeRelationProvenance .snapshot,
        idAt 7 .changeRelationOperation (some .operation)]
  | .conflictResolution =>
      [idAt 3 .resolutionConflict (some .conflict), typedAt 4 .resolutionResult,
        typedsAt 8 .resolutionProvenance]
  | .reviewEvidence | .approvalEvidence | .policyDecisionEvidence => evidenceFields
  | .ciEvidence =>
      evidenceFields ++
        [idAt 14 .ciRunnerIdentity (some .identity),
          idAt 15 .ciBuildProvenance (some .buildProvenance)]
  | .projectionRules => [idAt 4 .projectionRulesPrevious (some .projectionRules)]
  | .projectionProof =>
      [idAt 4 .projectionSourceSnapshot (some .snapshot),
        idAt 5 .projectionRules (some .projectionRules),
        idAt 6 .projectionAudiencePolicy (some .policy),
        idAt 7 .projectionManifest (some .manifest)]
  | .buildProvenance =>
      [idAt 3 .buildSnapshot (some .snapshot), idAt 4 .buildRuleset (some .ruleset),
        idAt 5 .buildIdentity (some .identity), typedsAt 6 .buildInput,
        idsAt 7 .buildOutput .artifact]
  | .artifact => [idAt 8 .artifactBlob (some .blob)]
  | .operationPayload => [typedsAt 4 .payloadReference]
  | .view =>
      [idsAt 5 .viewPolicy .policy,
        ⟨.viewLineState, [.key 6, .each, .key 2], .id (some .lineState)⟩,
        idAt 7 .viewManifest (some .manifest)]
  | .migration =>
      [⟨.migrationOldObject, [.key 5, .each, .key 0], .id none⟩,
        ⟨.migrationNewObject, [.key 5, .each, .key 1], .id none⟩,
        idAt 6 .migrationToolIdentity (some .identity)]
  | .ruleset => [idAt 5 .rulesetPrevious (some .ruleset)]

/-- Every field of the schema that holds an object identifier. -/
def schemaFields (kind : ObjectKind) : List SchemaField :=
  policySchemaFields kind ++ ownSchemaFields kind

namespace Decode

/-! ### Parts of `references` -/

/-- The edges of a part are the edges the record carries in the fields `fs`. -/
def Part (x : Edges) (v : Value) (fs : List SchemaField) : Prop :=
  ∃ es, x = .ok es ∧ ∀ e, e ∈ es ↔ ∃ f ∈ fs, Carries v f e

theorem concatEdges_append_eq_ok (xs ys : List Edges) {es : List ReferenceEdge} :
    concatEdges (xs ++ ys) = .ok es ↔
      ∃ as bs, concatEdges xs = .ok as ∧ concatEdges ys = .ok bs ∧ es = as ++ bs := by
  simp only [concatEdges, List.mapM_append, Except.bind_eq_ok, Except.pure_eq_ok,
    Except.ok.injEq]
  constructor
  · rintro ⟨_, ⟨as, hx, bs, hy, rfl⟩, rfl⟩
    exact ⟨as.flatten, bs.flatten, ⟨as, hx, rfl⟩, ⟨bs, hy, rfl⟩, by simp⟩
  · rintro ⟨_, _, ⟨as, hx, rfl⟩, ⟨bs, hy, rfl⟩, rfl⟩
    exact ⟨_, ⟨as, hx, bs, hy, rfl⟩, by simp⟩

theorem concatEdges_singleton (x : Edges) : concatEdges [x] = x := by
  cases x <;> simp [concatEdges]

section Parts

variable {v : Value} {m : Entries} {k : UInt64} {role : ReferenceRole} {x : Edges}
  {xs ys : List Edges} {fs gs : List SchemaField}

theorem Part.nil : Part (concatEdges []) v [] := ⟨[], rfl, by simp⟩

theorem Part.append (hxs : Part (concatEdges xs) v fs) (hys : Part (concatEdges ys) v gs) :
    Part (concatEdges (xs ++ ys)) v (fs ++ gs) := by
  obtain ⟨as, ha, has⟩ := hxs
  obtain ⟨bs, hb, hbs⟩ := hys
  refine ⟨as ++ bs, (concatEdges_append_eq_ok xs ys).mpr ⟨as, bs, ha, hb, rfl⟩, fun e => ?_⟩
  simp only [List.mem_append, has, hbs, or_and_right, exists_or]

theorem Part.one (hx : Part x v fs) : Part (concatEdges [x]) v fs := by
  rwa [concatEdges_singleton]

theorem Part.cons (hx : Part x v fs) (hxs : Part (concatEdges xs) v gs) :
    Part (concatEdges (x :: xs)) v (fs ++ gs) := hx.one.append hxs

/-- A part that pushes one edge. -/
theorem Part.edge {f : SchemaField} {e : ReferenceEdge} (hx : x = .ok [e])
    (hcarries : ∀ e', Carries v f e' ↔ e' = e) : Part x v [f] :=
  ⟨[e], hx, fun e' => by simp [hcarries]⟩

/-- A part whose fields are not there. -/
theorem Part.absent (hx : x = .ok []) (h : ∀ f ∈ fs, reach f.path v = []) : Part x v fs := by
  refine ⟨[], hx, fun e => ?_⟩
  simp only [List.not_mem_nil, false_iff, not_exists, not_and]
  rintro f hf ⟨-, w, hw, -⟩
  rw [h f hf] at hw
  cases hw

theorem edge_eq_iff {e : ReferenceEdge} {kind : Option ObjectKind} {id : ObjectId} :
    e = ⟨role, kind, id⟩ ↔ e.role = role ∧ e.expectedKind = kind ∧ e.id = id := by
  cases e; simp

theorem oid_inj {a b : ObjectId} : RGit.oid a = RGit.oid b ↔ a = b := by
  refine ⟨fun h => ?_, fun h => h ▸ rfl⟩
  have ha : oid (RGit.oid a) 0 = .ok a := oid_eq_ok.mpr rfl
  have hb : oid (RGit.oid b) 0 = .ok b := oid_eq_ok.mpr rfl
  rw [h, hb] at ha
  exact (Except.ok.inj ha).symm

/-! ### One identifier -/

theorem idEdge_eq_ok (id : ObjectId) (expected : Option ObjectKind) :
    idEdge (RGit.oid id) k role expected = .ok [⟨role, expected, id⟩] := by
  simp [idEdge, oid_eq_ok.mpr (rfl : RGit.oid id = RGit.oid id)]

theorem carries_oid_iff {path : List PathStep} {expected : Option ObjectKind} {id : ObjectId}
    (h : reach path v = [RGit.oid id]) (e : ReferenceEdge) :
    Carries v ⟨role, path, .id expected⟩ e ↔ e = ⟨role, expected, id⟩ := by
  simp only [Carries, h, List.mem_singleton, exists_eq_left, Leaf.Holds, edge_eq_iff, oid_inj]
  rw [eq_comm (a := id)]

theorem addEdge_part {expected : Option ObjectKind}
    (h : ∃ id : Option ObjectId, lookupKey m k = id.map RGit.oid) :
    Part (addEdge m k role expected) (.map m) [idAt k role expected] := by
  obtain ⟨id, h⟩ := h
  cases id with
  | none =>
      refine .absent (by simp [addEdge, optionalField, h]) ?_
      simp [idAt, reach_key, h]
  | some id =>
      have hreach : reach [.key k] (.map m) = [RGit.oid id] := by simp [reach_key, h]
      refine .edge ?_ (carries_oid_iff hreach)
      simp only [addEdge, h, Option.map_some]
      exact idEdge_eq_ok id expected

theorem optionalEdge_part {reported : UInt64} {expected : ObjectKind}
    (h : ∃ id : Option ObjectId, lookupKey m k = id.map RGit.oid) :
    Part (optionalEdge m k reported role expected) (.map m) [idAt k role (some expected)] := by
  obtain ⟨id, h⟩ := h
  cases id with
  | none =>
      refine .absent (by simp [optionalEdge, optionalField, h]) ?_
      simp [idAt, reach_key, h]
  | some id =>
      have hreach : reach [.key k] (.map m) = [RGit.oid id] := by simp [reach_key, h]
      refine .edge ?_ (carries_oid_iff hreach)
      simpa [optionalEdge, optionalField, h] using idEdge_eq_ok id (some expected)

theorem requiredEdge_part {reported : UInt64} {expected : Option ObjectKind}
    (h : ∃ id : ObjectId, lookupKey m k = some (RGit.oid id)) :
    Part (requiredEdge m k reported role expected) (.map m) [idAt k role expected] := by
  obtain ⟨id, h⟩ := h
  have hreach : reach [.key k] (.map m) = [RGit.oid id] := by simp [reach_key, h]
  refine .edge ?_ (carries_oid_iff hreach)
  rw [requiredEdge, field_eq_ok.mpr h]
  exact idEdge_eq_ok id expected

/-! ### Typed references and policies -/

theorem typedRef_inj {r s : TypedObjectRef} : r.value = s.value ↔ r = s := by
  obtain ⟨kind, id⟩ := r
  obtain ⟨kind', id'⟩ := s
  simp [TypedObjectRef.value, ObjectKind.code_inj, oid_inj]

theorem typedEdge_eq_ok (r : TypedObjectRef) :
    typedEdge r.value k role = .ok [⟨role, some r.kind, r.id⟩] := by
  have hkind : kindOf (code r.kind) = .ok r.kind := kindOf_eq_ok.mpr rfl
  have hid : oid (RGit.oid r.id) k = .ok r.id := oid_eq_ok.mpr rfl
  simp [typedEdge, TypedObjectRef.value, asMap, field, lookupKey_cons, Except.ofOption, unsigned,
    hkind, hid]

theorem carries_typed_iff {path : List PathStep} {r : TypedObjectRef}
    (h : reach path v = [r.value]) (e : ReferenceEdge) :
    Carries v ⟨role, path, .typed⟩ e ↔ e = ⟨role, some r.kind, r.id⟩ := by
  simp only [Carries, h, List.mem_singleton, exists_eq_left, Leaf.Holds, edge_eq_iff,
    typedRef_inj]
  constructor
  · rintro ⟨hrole, _, hkind, hid, rfl⟩; exact ⟨hrole, hkind, hid⟩
  · rintro ⟨hrole, hkind, hid⟩; exact ⟨hrole, _, hkind, hid, rfl⟩

theorem addTypedEdge_part (h : ∃ r : TypedObjectRef, lookupKey m k = some r.value) :
    Part (addTypedEdge m k role) (.map m) [typedAt k role] := by
  obtain ⟨r, h⟩ := h
  have hreach : reach [.key k] (.map m) = [r.value] := by simp [reach_key, h]
  refine .edge ?_ (carries_typed_iff hreach)
  rw [addTypedEdge, field_eq_ok.mpr h]
  exact typedEdge_eq_ok r

theorem optionalTypedEdge_part
    (h : ∃ r : Option TypedObjectRef, lookupKey m k = r.map TypedObjectRef.value) :
    Part (optionalTypedEdge m k role) (.map m) [typedAt k role] := by
  obtain ⟨r, h⟩ := h
  cases r with
  | none =>
      refine .absent (by simp [optionalTypedEdge, optionalField, h]) ?_
      simp [typedAt, reach_key, h]
  | some r =>
      have hreach : reach [.key k] (.map m) = [r.value] := by simp [reach_key, h]
      refine .edge ?_ (carries_typed_iff hreach)
      simp only [optionalTypedEdge, h, Option.map_some]
      exact typedEdge_eq_ok r

theorem policyRef_inj {p q : PolicyRef} : p.value = q.value ↔ p = q := by
  obtain ⟨policy, version⟩ := p
  obtain ⟨policy', version'⟩ := q
  simp [PolicyRef.value, oid_inj, stable, Subtype.ext_iff]

theorem policyEdge_eq_ok (p : PolicyRef) :
    policyEdge p.value k role = .ok [⟨role, some .policy, p.version⟩] := by
  have hid : oid (RGit.oid p.version) k = .ok p.version := oid_eq_ok.mpr rfl
  simp [policyEdge, PolicyRef.value, asMap, field, lookupKey_cons, Except.ofOption, hid]

theorem carries_policy_iff {path : List PathStep} {p : PolicyRef}
    (h : reach path v = [p.value]) (e : ReferenceEdge) :
    Carries v ⟨role, path, .policy⟩ e ↔ e = ⟨role, some .policy, p.version⟩ := by
  simp only [Carries, h, List.mem_singleton, exists_eq_left, Leaf.Holds, edge_eq_iff,
    policyRef_inj]
  constructor
  · rintro ⟨hrole, _, hkind, hid, rfl⟩; exact ⟨hrole, hkind, hid⟩
  · rintro ⟨hrole, hkind, hid⟩; exact ⟨hrole, _, hkind, hid, rfl⟩

theorem addPolicyEdge_part
    (h : ∃ p : Option PolicyRef, lookupKey m k = p.map PolicyRef.value) :
    Part (addPolicyEdge m k role) (.map m) [policyAt k role] := by
  obtain ⟨p, h⟩ := h
  cases p with
  | none =>
      refine .absent (by simp [addPolicyEdge, optionalField, h]) ?_
      simp [policyAt, reach_key, h]
  | some p =>
      have hreach : reach [.key k] (.map m) = [p.value] := by simp [reach_key, h]
      refine .edge ?_ (carries_policy_iff hreach)
      simp only [addPolicyEdge, h, Option.map_some]
      exact policyEdge_eq_ok p

theorem requiredPolicyEdge_part {reported : UInt64}
    (h : ∃ p : PolicyRef, lookupKey m k = some p.value) :
    Part (requiredPolicyEdge m k reported role) (.map m) [policyAt k role] := by
  obtain ⟨p, h⟩ := h
  have hreach : reach [.key k] (.map m) = [p.value] := by simp [reach_key, h]
  refine .edge ?_ (carries_policy_iff hreach)
  rw [requiredPolicyEdge, field_eq_ok.mpr h]
  exact policyEdge_eq_ok p

/-! ### Loops -/

theorem carries_within_iff {f : SchemaField} {vs : List Value} {e : ReferenceEdge}
    (h : lookupKey m k = some (.array vs)) :
    Carries (.map m) (f.within k) e ↔ ∃ w ∈ vs, Carries w f e := by
  simp only [Carries, SchemaField.within, reach_key, h, Option.elim_some, reach_each,
    List.mem_flatMap]
  constructor
  · rintro ⟨hrole, w, ⟨u, hu, hw⟩, hholds⟩; exact ⟨u, hu, hrole, w, hw, hholds⟩
  · rintro ⟨u, hu, hrole, w, hw, hholds⟩; exact ⟨hrole, w, ⟨u, hu, hw⟩, hholds⟩

/-- The loop over elements that each push their own fields. -/
theorem eachEdges_spec {f : Value → Edges} {vs : List Value} (h : ∀ w ∈ vs, Part (f w) w fs) :
    ∃ es, eachEdges vs f = .ok es ∧
      ∀ e, e ∈ es ↔ ∃ w ∈ vs, ∃ g ∈ fs, Carries w g e := by
  induction vs with
  | nil => exact ⟨[], rfl, by simp⟩
  | cons w vs ih =>
      obtain ⟨as, ha, has⟩ := h w (by simp)
      obtain ⟨bs, hb, hbs⟩ := ih fun u hu => h u (List.mem_cons_of_mem _ hu)
      refine ⟨as ++ bs, ?_, fun e => ?_⟩
      · exact (concatEdges_append_eq_ok [f w] (vs.map f)).mpr
          ⟨as, bs, by rwa [concatEdges_singleton], hb, rfl⟩
      · simp only [List.mem_append, has, hbs, List.mem_cons, or_and_right, exists_or,
          exists_eq_left]

theorem nestedEdges_part (fs : List SchemaField) {f : Value → Edges} {vs : List Value}
    (hvs : lookupKey m k = some (.array vs)) (h : ∀ w ∈ vs, Part (f w) w fs) :
    Part (nestedEdges m k f) (.map m) (fs.map (.within k)) := by
  obtain ⟨es, he, hes⟩ := eachEdges_spec h
  refine ⟨es, ?_, fun e => ?_⟩
  · rw [nestedEdges, field_eq_ok.mpr hvs]
    exact he
  · rw [hes]
    constructor
    · rintro ⟨w, hw, g, hg, hcarries⟩
      exact ⟨_, List.mem_map_of_mem hg, (carries_within_iff hvs).mpr ⟨w, hw, hcarries⟩⟩
    · rintro ⟨_, hmem, hcarries⟩
      obtain ⟨g, hg, rfl⟩ := List.mem_map.mp hmem
      obtain ⟨w, hw, hcarries⟩ := (carries_within_iff hvs).mp hcarries
      exact ⟨w, hw, g, hg, hcarries⟩

theorem addEdges_part {expected : ObjectKind}
    (h : ∃ ids : List ObjectId, lookupKey m k = some (RGit.oidArray ids)) :
    Part (addEdges m k role expected) (.map m) [idsAt k role expected] := by
  obtain ⟨ids, h⟩ := h
  refine nestedEdges_part [⟨role, [], .id (some expected)⟩] h fun w hw => ?_
  obtain ⟨id, -, rfl⟩ := List.mem_map.mp hw
  exact .edge (idEdge_eq_ok id _) (carries_oid_iff rfl)

theorem addTypedEdges_part
    (h : ∃ rs : List TypedObjectRef, lookupKey m k = some (typedRefArray rs)) :
    Part (addTypedEdges m k role) (.map m) [typedsAt k role] := by
  obtain ⟨rs, h⟩ := h
  refine nestedEdges_part [⟨role, [], .typed⟩] h fun w hw => ?_
  obtain ⟨r, -, rfl⟩ := List.mem_map.mp hw
  exact .edge (typedEdge_eq_ok r) (carries_typed_iff rfl)

end Parts

end Decode

end RGit
