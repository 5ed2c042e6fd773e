/-
RGit/Store/Closures.lean

What `closure_from` computes.

Every edge that can be reached is checked, also the ones that lead to an
object that is there already; so the closure succeeds exactly when all of
them lead to visible objects of the expected kinds, and neither the order
nor the repetition of edges matters (`closureFrom_spec`).
-/
import RGit.Store.Staging

namespace RGit

open MemoryStore

section Closures

/-- The edges reachable through visible objects, whatever kinds they expect. -/
abbrev VisibleEdge (s : MemorySnapshot) (roots : List ReferenceEdge) : ReferenceEdge → Prop :=
  Reached (fun edge => visibleObject s edge.id) StoredObject.references roots

/-- An edge leads to a stored object that is not quarantined, of the kind that
the edge expects when it expects one. -/
def Leads (s : MemorySnapshot) (edge : ReferenceEdge) : Prop :=
  ∃ o, edge.id ∉ s.quarantined ∧ s.objects[edge.id]? = some o ∧
    ∀ kind ∈ edge.expectedKind, o.kind = kind

/-- The same object with its edges in another order, or repeated. -/
structure Rearranged (o o' : StoredObject) : Prop where
  id : o.id = o'.id
  bytes : o.bytes = o'.bytes
  object : o.object = o'.object
  references : ∀ edge, edge ∈ o.references ↔ edge ∈ o'.references

/-- The same visible objects, each with its edges rearranged. -/
structure SameEdges (s s' : MemorySnapshot) : Prop where
  quarantined : ∀ id, id ∈ s.quarantined ↔ id ∈ s'.quarantined
  objects : ∀ id : ObjectId, Option.Rel Rearranged s.objects[id]? s'.objects[id]?

variable {s s' : MemorySnapshot} {roots roots' : List ReferenceEdge}

theorem visibleEdge_of_reached {edge : ReferenceEdge}
    (h : Reached (closureCheck s) StoredObject.references roots edge) :
    VisibleEdge s roots edge := by
  induction h with
  | root he => exact .root he
  | step _ ho he ih =>
      obtain ⟨hfree, hget, -⟩ := closureCheck_eq_ok.mp ho
      exact .step ih (visibleObject_eq_ok.mpr ⟨hfree, hget⟩) he

/-- What a closure that was computed says of every edge. -/
theorem leads_of_closureFrom {closure : BTreeMap ObjectId StoredObject}
    (h : closureFrom s roots = .ok closure) {edge : ReferenceEdge}
    (hedge : VisibleEdge s roots edge) :
    Reached (closureCheck s) StoredObject.references roots edge ∧ Leads s edge := by
  obtain ⟨hok, -⟩ := closureFrom_reached.mp h
  have hreached : Reached (closureCheck s) StoredObject.references roots edge := by
    refine hedge.of_agree hok ?_
    intro e o ho
    obtain ⟨hfree, hget, -⟩ := closureCheck_eq_ok.mp ho
    exact visibleObject_eq_ok.mpr ⟨hfree, hget⟩
  obtain ⟨o, ho⟩ := hok edge hreached
  exact ⟨hreached, o, closureCheck_eq_ok.mp ho⟩

/-- A closure is computed exactly when every edge leads somewhere. -/
theorem closureFrom_isOk_iff_leads :
    (∃ closure, closureFrom s roots = .ok closure) ↔
      ∀ edge, VisibleEdge s roots edge → Leads s edge := by
  constructor
  · rintro ⟨closure, h⟩ edge hedge
    exact (leads_of_closureFrom h hedge).2
  · intro hleads
    refine workLoop_isOk (fun _ _ h => (closureCheck_eq_ok.mp h).2.1) ?_ workInvariant_init
    intro edge hedge
    obtain ⟨o, ho⟩ := hleads edge (visibleEdge_of_reached hedge)
    exact ⟨o, closureCheck_eq_ok.mpr ho⟩

/-- The objects of a closure are the ones that can be reached. -/
theorem closureFrom_get {closure : BTreeMap ObjectId StoredObject}
    (h : closureFrom s roots = .ok closure) (id : ObjectId) (o : StoredObject) :
    closure[id]? = some o ↔
      (∃ edge, VisibleEdge s roots edge ∧ edge.id = id) ∧ visibleObject s id = .ok o := by
  rw [(closureFrom_reached.mp h).2]
  constructor
  · rintro ⟨edge, hedge, rfl, ho⟩
    obtain ⟨hfree, hget, -⟩ := closureCheck_eq_ok.mp ho
    exact ⟨⟨edge, visibleEdge_of_reached hedge, rfl⟩, visibleObject_eq_ok.mpr ⟨hfree, hget⟩⟩
  · rintro ⟨⟨edge, hedge, rfl⟩, ho⟩
    obtain ⟨hreached, o', hleads⟩ := leads_of_closureFrom h hedge
    obtain ⟨-, hsame⟩ := visibleObject_eq_ok.mp ho
    obtain rfl := Option.some.inj (hleads.2.1.symm.trans hsame)
    exact ⟨edge, hreached, rfl, closureCheck_eq_ok.mpr hleads⟩

/-! ### Rearranging -/

theorem rearranged_symm {a b : Option StoredObject} (h : Option.Rel Rearranged a b) :
    Option.Rel Rearranged b a := by
  cases h with
  | some hsame =>
      exact .some ⟨hsame.id.symm, hsame.bytes.symm, hsame.object.symm,
        fun edge => (hsame.references edge).symm⟩
  | none => exact .none

theorem SameEdges.symm (h : SameEdges s s') : SameEdges s' s :=
  ⟨fun id => (h.quarantined id).symm, fun id => rearranged_symm (h.objects id)⟩

theorem SameEdges.visible (h : SameEdges s s') {id : ObjectId} {o : StoredObject}
    (ho : visibleObject s id = .ok o) :
    ∃ o', visibleObject s' id = .ok o' ∧ Rearranged o o' := by
  obtain ⟨hfree, hget⟩ := visibleObject_eq_ok.mp ho
  have hrel := h.objects id
  rw [hget] at hrel
  cases hget' : s'.objects[id]? with
  | none =>
      rw [hget'] at hrel
      cases hrel
  | some o' =>
      rw [hget'] at hrel
      cases hrel with
      | some hsame =>
          exact ⟨o', visibleObject_eq_ok.mpr ⟨fun hq => hfree ((h.quarantined id).mpr hq), hget'⟩,
            hsame⟩

theorem SameEdges.visibleEdge (h : SameEdges s s')
    (hroots : ∀ edge, edge ∈ roots ↔ edge ∈ roots') {edge : ReferenceEdge}
    (hedge : VisibleEdge s roots edge) : VisibleEdge s' roots' edge := by
  induction hedge with
  | root he => exact .root ((hroots _).mp he)
  | step _ ho he ih =>
      obtain ⟨o', ho', hsame⟩ := h.visible ho
      exact .step ih ho' ((hsame.references _).mp he)

theorem SameEdges.leads (h : SameEdges s s') {edge : ReferenceEdge} (hleads : Leads s edge) :
    Leads s' edge := by
  obtain ⟨o, hfree, hget, hkind⟩ := hleads
  obtain ⟨o', ho', hsame⟩ := h.visible (visibleObject_eq_ok.mpr ⟨hfree, hget⟩)
  obtain ⟨hfree', hget'⟩ := visibleObject_eq_ok.mp ho'
  refine ⟨o', hfree', hget', fun kind hexpected => ?_⟩
  rw [← hkind kind hexpected, StoredObject.kind, StoredObject.kind, hsame.object]

theorem SameEdges.isOk (h : SameEdges s s') (hroots : ∀ edge, edge ∈ roots ↔ edge ∈ roots')
    (hok : ∃ closure, closureFrom s roots = .ok closure) :
    ∃ closure, closureFrom s' roots' = .ok closure := by
  rw [closureFrom_isOk_iff_leads] at hok ⊢
  intro edge hedge
  exact h.leads (hok edge (h.symm.visibleEdge (fun e => (hroots e).symm) hedge))

/-- What is in one closure is in the other, with its edges rearranged. -/
theorem SameEdges.closure_get (h : SameEdges s s')
    (hroots : ∀ edge, edge ∈ roots ↔ edge ∈ roots')
    {closure closure' : BTreeMap ObjectId StoredObject} (hclosure : closureFrom s roots = .ok closure)
    (hclosure' : closureFrom s' roots' = .ok closure') {id : ObjectId} {o : StoredObject}
    (hget : closure[id]? = some o) : ∃ o', closure'[id]? = some o' ∧ Rearranged o o' := by
  obtain ⟨⟨edge, hedge, hid⟩, ho⟩ := (closureFrom_get hclosure id o).mp hget
  obtain ⟨o', ho', hsame⟩ := h.visible ho
  exact ⟨o', (closureFrom_get hclosure' id o').mpr
    ⟨⟨edge, h.visibleEdge hroots hedge, hid⟩, ho'⟩, hsame⟩

theorem SameEdges.closures (h : SameEdges s s') (hroots : ∀ edge, edge ∈ roots ↔ edge ∈ roots')
    {closure closure' : BTreeMap ObjectId StoredObject} (hclosure : closureFrom s roots = .ok closure)
    (hclosure' : closureFrom s' roots' = .ok closure') (id : ObjectId) :
    Option.Rel Rearranged closure[id]? closure'[id]? := by
  cases hget : closure[id]? with
  | some o =>
      obtain ⟨o', hget', hsame⟩ := h.closure_get hroots hclosure hclosure' hget
      rw [hget']
      exact .some hsame
  | none =>
      cases hget' : closure'[id]? with
      | none => exact .none
      | some o' =>
          obtain ⟨o, hback, -⟩ := h.symm.closure_get (fun e => (hroots e).symm) hclosure' hclosure
            hget'
          rw [hget] at hback
          cases hback

theorem SameEdges.refl (s : MemorySnapshot) : SameEdges s s := by
  refine ⟨fun id => Iff.rfl, fun id => ?_⟩
  cases s.objects[id]? with
  | none => exact .none
  | some o => exact .some ⟨rfl, rfl, rfl, fun edge => Iff.rfl⟩

/-- The roots matter as a set. -/
theorem closureFrom_congr_roots (hroots : ∀ edge, edge ∈ roots ↔ edge ∈ roots')
    {closure : BTreeMap ObjectId StoredObject} (h : closureFrom s roots = .ok closure) :
    closureFrom s roots' = .ok closure := by
  obtain ⟨closure', h'⟩ := (SameEdges.refl s).isOk hroots ⟨closure, h⟩
  rw [h']
  refine congrArg _ (Std.ExtTreeMap.ext_getElem? fun id => Option.ext fun o => ?_)
  rw [closureFrom_get h', closureFrom_get h]
  refine and_congr_left fun _ => exists_congr fun edge => and_congr_left fun _ => ?_
  exact ⟨(SameEdges.refl s).visibleEdge fun e => (hroots e).symm,
    (SameEdges.refl s).visibleEdge hroots⟩

/-- **A closure is what its roots reach.**  The loop ends by itself; it succeeds
exactly when every reachable edge leads to a visible object of the expected
kind, and then returns the reachable objects; the order and the repetition
of the roots, and of the edges of any object, do not matter. -/
theorem closureFrom_spec (s : MemorySnapshot) (roots : List ReferenceEdge) :
    (∀ more, workLoop ReferenceEdge.id (closureCheck s) StoredObject.references
      (workFuel StoredObject.references s.objects roots + more) roots.reverse ∅ =
        closureFrom s roots) ∧
    ((∃ closure, closureFrom s roots = .ok closure) ↔
      ∀ edge, VisibleEdge s roots edge → Leads s edge) ∧
    (∀ closure, closureFrom s roots = .ok closure → ∀ (id : ObjectId) (o : StoredObject),
      closure[id]? = some o ↔
        (∃ edge, VisibleEdge s roots edge ∧ edge.id = id) ∧ visibleObject s id = .ok o) ∧
    (∀ roots', (∀ edge, edge ∈ roots ↔ edge ∈ roots') →
      ∀ closure, closureFrom s roots = .ok closure ↔ closureFrom s roots' = .ok closure) ∧
    ∀ s' roots', SameEdges s s' → (∀ edge, edge ∈ roots ↔ edge ∈ roots') →
      ((∃ closure, closureFrom s roots = .ok closure) ↔
        ∃ closure', closureFrom s' roots' = .ok closure') ∧
      ∀ closure closure', closureFrom s roots = .ok closure →
        closureFrom s' roots' = .ok closure' →
        ∀ id : ObjectId, Option.Rel Rearranged closure[id]? closure'[id]? := by
  refine ⟨?_, closureFrom_isOk_iff_leads, fun closure h => closureFrom_get h, ?_, ?_⟩
  · intro more
    refine workLoop_fuel (fun _ _ h => (closureCheck_eq_ok.mp h).2.1) more ?_
    rw [List.length_reverse]
    exact le_refl _
  · intro roots' hroots closure
    exact ⟨closureFrom_congr_roots hroots, closureFrom_congr_roots fun e => (hroots e).symm⟩
  · intro s' roots' hsame hroots
    refine ⟨⟨hsame.isOk hroots, hsame.symm.isOk fun e => (hroots e).symm⟩, ?_⟩
    intro closure closure' h h'
    exact hsame.closures hroots h h'


end Closures

/-! ### An object with edges to itself -/

def loopEdge : ReferenceEdge := ⟨.operationParent, some .operation, sampleId⟩

def loopObject (edges : List ReferenceEdge) : StoredObject :=
  ⟨sampleId, [], ⟨.operation, 0, .map []⟩, edges⟩

def loopStore (edges : List ReferenceEdge) : MemorySnapshot :=
  { objects := (∅ : BTreeMap ObjectId StoredObject).insert sampleId (loopObject edges) }

theorem loopStore_sameEdges : SameEdges (loopStore [loopEdge, loopEdge]) (loopStore [loopEdge]) := by
  refine ⟨fun id => Iff.rfl, fun id => ?_⟩
  by_cases hid : sampleId = id
  · subst hid
    simp only [loopStore, BTreeMap.get_insert_self]
    exact .some ⟨rfl, rfl, rfl, by simp [loopObject]⟩
  · simp only [loopStore, BTreeMap.get_insert_of_ne _ _ hid]
    rw [Std.ExtTreeMap.getElem?_empty]
    exact .none

/-- One edge to itself is as good as two. -/
theorem closureFrom_spec_loop :
    (∃ closure, closureFrom (loopStore [loopEdge, loopEdge]) [loopEdge, loopEdge] = .ok closure) ∧
      ∃ closure', closureFrom (loopStore [loopEdge]) [loopEdge] = .ok closure' := by
  have hrun : (closureFrom (loopStore [loopEdge, loopEdge]) [loopEdge, loopEdge]).isOk = true := by
    decide
  have hok := Except.isOk_iff.mp hrun
  have hsame := (closureFrom_spec (loopStore [loopEdge, loopEdge]) [loopEdge, loopEdge]).2.2.2.2
    (loopStore [loopEdge]) [loopEdge] loopStore_sameEdges (by simp)
  exact ⟨hok, hsame.1.mp hok⟩

end RGit
