/-
RGit/Store/OperationEdges.lean

The edges of stored operations and snapshots.

An operation that was accepted for a transition names its target
(`operationNames_of_transition`), and the parent edges of snapshots and
operations expect the kind of their source (`expectedKind_of_parent`).
-/
import RGit.Store.Bound
import RGit.Store.Sqlite

namespace RGit

open MemoryStore Decode

/-! ### Concatenated edges -/

section Concatenated

variable {parts : List Edges} {es : List ReferenceEdge}

theorem concatEdges_eq_ok_iff :
    concatEdges parts = .ok es ↔
      ∃ ess, List.Forall₂ (fun x as => x = .ok as) parts ess ∧ ess.flatten = es := by
  simp only [concatEdges, Except.bind_eq_ok, mapM_eq_ok, Except.ok.injEq]

theorem mem_of_concatEdges (h : concatEdges parts = .ok es) {x : Edges} (hx : x ∈ parts) :
    ∃ as, x = .ok as ∧ ∀ e ∈ as, e ∈ es := by
  obtain ⟨ess, hparts, rfl⟩ := concatEdges_eq_ok_iff.mp h
  obtain ⟨as, has, rfl⟩ := forall₂_exists_of_mem hparts hx
  exact ⟨as, rfl, fun e he => List.mem_flatten.mpr ⟨as, has, he⟩⟩

theorem part_of_mem_concatEdges (h : concatEdges parts = .ok es) {e : ReferenceEdge} (he : e ∈ es) :
    ∃ x ∈ parts, ∃ as, x = .ok as ∧ e ∈ as := by
  obtain ⟨ess, hparts, rfl⟩ := concatEdges_eq_ok_iff.mp h
  obtain ⟨as, has, he⟩ := List.mem_flatten.mp he
  obtain ⟨x, hx, hxas⟩ := forall₂_exists_of_mem hparts.flip has
  exact ⟨x, hx, as, hxas, he⟩

end Concatenated

/-! ### Reading values -/

section Values

variable {v : Value}

theorem toOption_eq_some {ε α : Type} {x : Except ε α} {a : α} :
    x.toOption = some a ↔ x = .ok a := by
  cases x <;> simp [Except.toOption]

theorem valueMap_eq_some {m : Entries} : valueMap v = some m ↔ v = .map m := by
  cases v <;> simp [valueMap]

theorem valueArray_eq_some {vs : List Value} : valueArray v = some vs ↔ v = .array vs := by
  cases v <;> simp [valueArray]

theorem valueUnsigned_eq_some {n : UInt64} : valueUnsigned v = some n ↔ v = .unsigned n := by
  cases v <;> simp [valueUnsigned]

theorem valueBytes_eq_some {b : Bytes} : valueBytes v = some b ↔ v = .bytes b := by
  cases v <;> simp [valueBytes]

theorem objectId_eq_some {id : ObjectId} : objectId v = some id ↔ v = RGit.oid id := by
  simp only [objectId, Option.bind_eq_bind, Option.bind_eq_some_iff, valueBytes_eq_some,
    toOption_eq_some, ObjectId.fromBytes_eq_ok]
  exact ⟨fun ⟨b, hv, hb⟩ => by rw [hv, hb, RGit.oid], fun h => ⟨_, h, rfl⟩⟩

theorem typedRef_eq_some {kind : ObjectKind} {id : ObjectId} :
    MemoryStore.typedRef v = some (kind, id) ↔
      ∃ m, v = .map m ∧ lookupKey m 0 = some (.unsigned (Discriminant.code kind)) ∧
        lookupKey m 1 = some (RGit.oid id) := by
  simp only [MemoryStore.typedRef, objectIdField, valueField, Option.bind_eq_bind,
    Option.bind_eq_some_iff, valueMap_eq_some, valueUnsigned_eq_some, toOption_eq_some,
    kindOf_eq_ok, objectId_eq_some, Option.some.injEq, Prod.mk.injEq]
  constructor
  · rintro ⟨m, rfl, _, h₀, _, rfl, _, rfl, _, ⟨_, h₁, rfl⟩, rfl, rfl⟩
    exact ⟨m, rfl, h₀, h₁⟩
  · rintro ⟨m, rfl, h₀, h₁⟩
    exact ⟨m, rfl, _, h₀, _, rfl, _, rfl, _, ⟨_, h₁, rfl⟩, rfl, rfl⟩

end Values

/-! ### The target of a transition -/

section Transitions

variable {update : RefUpdate}

/-- The edges of an action that matches a transition. -/
theorem actionEdges_of_matches {action : Value} (h : transitionMatches action update = true)
    {as : List ReferenceEdge} (has : actionEdges action = .ok as) :
    ∃ edge ∈ as, edge.id = update.target ∧ edge.expectedKind = some update.key.expectedKind := by
  rw [transitionMatches] at h
  cases hmap : valueMap action with
  | none => simp [hmap] at h
  | some m =>
      simp only [hmap, Bool.and_eq_true, beq_iff_eq] at h
      obtain ⟨⟨hzero, -⟩, hafter⟩ := h
      obtain ⟨w, hw, hzero⟩ := Option.bind_eq_some_iff.mp hzero
      obtain ⟨u, hu, hafter⟩ := Option.bind_eq_some_iff.mp hafter
      obtain ⟨r, rfl, hkind, hid⟩ := typedRef_eq_some.mp hafter
      rw [valueUnsigned_eq_some] at hzero
      rw [valueMap_eq_some] at hmap
      subst hmap hzero
      -- a transition has the edges of its two typed references
      have hedges : concatEdges [optionalTypedEdge m 1 .operationBefore,
          optionalTypedEdge m 2 .operationAfter] = .ok as := by
        simpa [actionEdges, asMap, field_eq_ok.mpr hw, Decode.unsigned] using has
      have hedge : optionalTypedEdge m 2 .operationAfter =
          .ok [⟨.operationAfter, some update.key.expectedKind, update.target⟩] := by
        have hu : optionalField m 2 = some (.map r) := hu
        have hcode : kindOf (Discriminant.code update.key.expectedKind) =
            .ok update.key.expectedKind := kindOf_eq_ok.mpr rfl
        have htarget : Decode.oid (RGit.oid update.target) 8 = .ok update.target :=
          oid_eq_ok.mpr rfl
        simp [optionalTypedEdge, hu, typedEdge, asMap, field_eq_ok.mpr hkind,
          field_eq_ok.mpr hid, Decode.unsigned, hcode, htarget]
      obtain ⟨bs, hbs, hmem⟩ := mem_of_concatEdges hedges
        (x := optionalTypedEdge m 2 .operationAfter) (by simp)
      rw [hedge, Except.ok.injEq] at hbs
      exact ⟨_, hmem _ (hbs ▸ List.mem_singleton_self _), rfl, rfl⟩

end Transitions

section Stored

variable [Unicode] [Hashes] {id : ObjectId} {b : Bytes} {o : StoredObject}

/-- The edges of a stored object, before duplicates are dropped. -/
theorem references_of_decode (h : decode id b = .ok o) :
    ∃ m, o.object.value = .map m ∧ o.references.Nodup ∧
      ∃ es, concatEdges ((policyFields o.kind).map (fun (k, role) => addPolicyEdge m k role) ++
          kindEdges o.kind m) = .ok es ∧ ∀ e, e ∈ o.references ↔ e ∈ es := by
  obtain ⟨hobject, -, hreferences, -, -⟩ := MemoryStore.decode_eq_ok.mp h
  obtain ⟨m, hvalue, -⟩ := RGit.decode_eq_ok.mp hobject
  obtain ⟨es, hes, hunique⟩ := (references_eq_ok hvalue).mp hreferences
  obtain ⟨hnodup, hmem⟩ := uniqueEdges_spec es
  exact ⟨m, hvalue, hunique ▸ hnodup, es, hes, fun e => hunique ▸ hmem e⟩

/-- **An operation names the targets of its transitions.** -/
theorem operationNames_of_transition (h : decode id b = .ok o) (hkind : o.kind = .operation)
    {actions : List Value} (hactions : operationActions o = .ok actions) {action : Value}
    (haction : action ∈ actions) {update : RefUpdate}
    (hmatches : transitionMatches action update = true) :
    SqliteStore.operationNames o update.key update.target = true := by
  obtain ⟨m, hvalue, -, es, hes, hmem⟩ := references_of_decode h
  have hfield : lookupKey m 8 = some (.array actions) := by
    simp only [operationActions, Except.bind_eq_ok, Except.ofOption_eq_ok, valueMap_eq_some,
      hvalue, Value.map.injEq, exists_eq_left', Option.bind_eq_some_iff, valueArray_eq_some,
      valueField] at hactions
    obtain ⟨_, hget, rfl⟩ := hactions
    exact hget
  rw [hkind] at hes
  obtain ⟨bs, hbs, hbsmem⟩ := mem_of_concatEdges hes (x := nestedEdges m 8 actionEdges)
    (by simp [kindEdges])
  rw [nestedEdges] at hbs
  simp only [field_eq_ok.mpr hfield, Except.ok_bind, Decode.array, eachEdges] at hbs
  obtain ⟨as, has, hasmem⟩ := mem_of_concatEdges hbs (List.mem_map_of_mem haction)
  obtain ⟨edge, hedge, hid, hexpected⟩ := actionEdges_of_matches hmatches has
  rw [SqliteStore.operationNames, List.any_eq_true]
  exact ⟨edge, (hmem edge).mpr (hbsmem edge (hasmem edge hedge)), by simp [hid, hexpected]⟩

/-- A stored operation has a logical time. -/
theorem logicalTime_of_decode (h : decode id b = .ok o) (hkind : o.kind = .operation) :
    ∃ time, Database.valueUnsignedField o.object.value 6 = some time := by
  obtain ⟨hobject, -, -, -, -⟩ := MemoryStore.decode_eq_ok.mp h
  obtain ⟨m, hvalue, hread, -, ⟨e, he⟩, hrecord⟩ := RGit.decode_eq_ok.mp hobject
  have hshape := ((validateFields_eq_ok (admitted_of_decode hread he)).mp hrecord.valid).2.2
  have hkind' : o.object.kind = .operation := hkind
  rw [hkind'] at hshape
  simp only [validateShapes, operationShape, Except.bind_eq_ok, Except.exists_unit_iff,
    unsignedField_eq_ok] at hshape
  obtain ⟨-, -, -, ⟨time, htime⟩, -⟩ := hshape
  exact ⟨time, by simp [Database.valueUnsignedField, hvalue, valueMap, valueField, htime,
    valueUnsigned]⟩

end Stored

/-! ### Parent edges -/

section Roles

variable {m : Entries} {k k' : UInt64} {role : ReferenceRole} {as : List ReferenceEdge}

/-- Every edge of a part has the role. -/
def HasRole (x : Edges) (role : ReferenceRole) : Prop := ∀ as, x = .ok as → ∀ e ∈ as, e.role = role

theorem idEdge_role {v : Value} {expected : Option ObjectKind}
    (h : idEdge v k role expected = .ok as) : ∀ e ∈ as, e.role = role ∧ e.expectedKind = expected := by
  simp only [idEdge, Except.bind_eq_ok, Except.ok.injEq] at h
  obtain ⟨id, -, rfl⟩ := h
  simp

theorem policyEdge_role {v : Value} : HasRole (policyEdge v k role) role := by
  intro as h
  simp only [policyEdge, Except.bind_eq_ok, Except.ok.injEq] at h
  obtain ⟨-, -, -, -, id, -, rfl⟩ := h
  simp

theorem typedEdge_role {v : Value} : HasRole (typedEdge v k role) role := by
  intro as h
  simp only [typedEdge, Except.bind_eq_ok, Except.ok.injEq] at h
  obtain ⟨-, -, -, -, -, -, -, -, -, -, id, -, rfl⟩ := h
  simp

theorem addEdge_role {expected : Option ObjectKind} : HasRole (addEdge m k role expected) role := by
  intro as h
  rw [addEdge] at h
  split at h
  · cases h
    simp
  · cases h
    simp
  · exact fun e he => (idEdge_role h e he).1

theorem optionalEdge_role {expected : ObjectKind} :
    HasRole (optionalEdge m k k' role expected) role := by
  intro as h
  rw [optionalEdge] at h
  split at h
  · cases h
    simp
  · exact fun e he => (idEdge_role h e he).1

theorem requiredEdge_role {expected : Option ObjectKind} :
    HasRole (requiredEdge m k k' role expected) role := by
  intro as h
  simp only [requiredEdge, Except.bind_eq_ok] at h
  obtain ⟨v, -, h⟩ := h
  exact fun e he => (idEdge_role h e he).1

theorem requiredPolicyEdge_role : HasRole (requiredPolicyEdge m k k' role) role := by
  intro as h
  simp only [requiredPolicyEdge, Except.bind_eq_ok] at h
  obtain ⟨v, -, h⟩ := h
  exact policyEdge_role as h

theorem addPolicyEdge_role : HasRole (addPolicyEdge m k role) role := by
  intro as h
  rw [addPolicyEdge] at h
  split at h
  · cases h
    simp
  · exact policyEdge_role as h

theorem optionalTypedEdge_role : HasRole (optionalTypedEdge m k role) role := by
  intro as h
  rw [optionalTypedEdge] at h
  split at h
  · cases h
    simp
  · exact typedEdge_role as h

theorem addEdges_role {expected : ObjectKind} (h : addEdges m k role expected = .ok as) :
    ∀ e ∈ as, e.role = role ∧ e.expectedKind = some expected := by
  simp only [addEdges, Except.bind_eq_ok] at h
  obtain ⟨v, -, vs, -, h⟩ := h
  intro e he
  obtain ⟨x, hx, bs, hbs, he⟩ := part_of_mem_concatEdges h he
  obtain ⟨w, -, rfl⟩ := List.mem_map.mp hx
  exact idEdge_role hbs e he

/-- No edge of an action is a parent edge. -/
theorem actionEdges_role {v : Value} (h : actionEdges v = .ok as) :
    ∀ e ∈ as, e.role ≠ .operationParent := by
  have hpair : ∀ {m : Entries} {k k' : UInt64} {as : List ReferenceEdge},
      concatEdges [optionalTypedEdge m k .operationBefore,
        optionalTypedEdge m k' .operationAfter] = .ok as →
      ∀ e ∈ as, e.role ≠ .operationParent := by
    intro m k k' as h e he
    obtain ⟨x, hx, bs, hbs, he⟩ := part_of_mem_concatEdges h he
    simp only [List.mem_cons, List.not_mem_nil, or_false] at hx
    rcases hx with rfl | rfl
    · rw [optionalTypedEdge_role bs hbs e he]
      decide
    · rw [optionalTypedEdge_role bs hbs e he]
      decide
  simp only [actionEdges, Except.bind_eq_ok] at h
  obtain ⟨m, -, w, -, n, -, h⟩ := h
  split at h
  · exact hpair h
  · split at h
    · exact hpair h
    · simp only [Except.ite_else_error_eq_ok, Except.bind_eq_ok, declarationEdges] at h
      obtain ⟨-, d, -, r, -, h⟩ := h
      intro e he
      obtain ⟨x, hx, bs, hbs, he⟩ := part_of_mem_concatEdges h he
      simp only [List.mem_cons, List.not_mem_nil, or_false] at hx
      rcases hx with rfl | rfl | rfl | rfl | rfl | rfl | rfl
      all_goals first
        | (rw [requiredPolicyEdge_role bs hbs e he]; decide)
        | (rw [requiredEdge_role bs hbs e he]; decide)
        | (rw [optionalEdge_role bs hbs e he]; decide)

end Roles

section Parents

variable [Unicode] [Hashes] {id : ObjectId} {b : Bytes} {o : StoredObject}

/-- **A parent edge expects the kind of its source.** -/
theorem expectedKind_of_parent (h : decode id b = .ok o) {role : ReferenceRole}
    (hrole : parentRole o.kind = some role) {e : ReferenceEdge} (he : e ∈ o.references)
    (herole : e.role = role) : e.expectedKind = some o.kind := by
  obtain ⟨m, -, -, es, hes, hmem⟩ := references_of_decode h
  obtain ⟨x, hx, as, has, he⟩ := part_of_mem_concatEdges hes ((hmem e).mp he)
  subst herole
  cases hkind : o.kind <;> rw [hkind] at hrole hx <;> simp only [parentRole, reduceCtorEq,
    Option.some.injEq] at hrole
  case snapshot =>
    simp only [policyFields, kindEdges, List.map_cons, List.map_nil, List.cons_append,
      List.nil_append, List.mem_cons, List.not_mem_nil, or_false] at hx
    rcases hx with rfl | rfl | rfl | rfl
    · rw [addPolicyEdge_role as has e he] at hrole
      cases hrole
    · rw [addEdge_role as has e he] at hrole
      cases hrole
    · rw [addEdge_role as has e he] at hrole
      cases hrole
    · exact (addEdges_role has e he).2
  case operation =>
    simp only [policyFields, kindEdges, List.map_cons, List.map_nil, List.cons_append,
      List.nil_append, List.mem_cons, List.not_mem_nil, or_false] at hx
    rcases hx with rfl | rfl | rfl | rfl | rfl | rfl
    · rw [addPolicyEdge_role as has e he] at hrole
      cases hrole
    · exact (addEdges_role has e he).2
    · rw [(addEdges_role has e he).1] at hrole
      cases hrole
    · simp only [nestedEdges, Except.bind_eq_ok] at has
      obtain ⟨v, -, vs, -, has⟩ := has
      obtain ⟨x, hx, bs, hbs, he⟩ := part_of_mem_concatEdges has he
      obtain ⟨w, -, rfl⟩ := List.mem_map.mp hx
      exact absurd hrole.symm (actionEdges_role hbs e he)
    · rw [addEdge_role as has e he] at hrole
      cases hrole
    · rw [addEdge_role as has e he] at hrole
      cases hrole

/-- The parents of an object are distinct. -/
theorem nodup_parentIds (h : decode id b = .ok o) {role : ReferenceRole}
    (hrole : parentRole o.kind = some role) : (parentIds role o).Nodup := by
  obtain ⟨-, -, hnodup, -⟩ := references_of_decode h
  rw [parentIds, List.nodup_map_iff_inj_on (hnodup.filter _)]
  intro e he e' he' hid
  obtain ⟨he, herole⟩ := List.mem_filter.mp he
  obtain ⟨he', herole'⟩ := List.mem_filter.mp he'
  have herole : e.role = role := by simpa using herole
  have herole' : e'.role = role := by simpa using herole'
  have hkind := expectedKind_of_parent h hrole he herole
  have hkind' := expectedKind_of_parent h hrole he' herole'
  obtain ⟨r, k, i⟩ := e
  obtain ⟨r', k', i'⟩ := e'
  simp only at herole herole' hkind hkind' hid
  subst herole herole' hkind hkind' hid
  rfl

end Parents

end RGit
