/-
RGit/Store/OperationLog.lean

The operation log only moves forward.

A publication may replace the operation head only by an operation that has
the old head among its parents (`head_of_stage`), and the graph it belongs to
was checked to be acyclic.  So along every run the heads are a chain of
descendants, and no earlier head is ever a head again (`operation_log`).
-/
import RGit.Graph.Build
import RGit.Store.Lines

namespace RGit

open MemoryStore Relation

/-! ### Parents -/

/-- The operation stored as `n` names `p` as a parent. -/
def OperationParent (objects : BTreeMap ObjectId StoredObject) (p n : ObjectId) : Prop :=
  ∃ o, objects[n]? = some o ∧ o.kind = .operation ∧ p ∈ parentIds .operationParent o

section Parents

variable {objects objects' : BTreeMap ObjectId StoredObject}

theorem OperationParent.grow {p n : ObjectId} (h : OperationParent objects p n)
    (hgrow : Grows objects objects') : OperationParent objects' p n := by
  obtain ⟨o, ho, hkind, hp⟩ := h
  exact ⟨o, hgrow _ _ ho, hkind, hp⟩

/-- A parent edge is an edge of the object. -/
theorem edge_of_mem_parentIds {o : StoredObject} {role : ReferenceRole} {p : ObjectId}
    (h : p ∈ parentIds role o) : ∃ edge ∈ o.references, edge.id = p := by
  obtain ⟨edge, hedge, rfl⟩ := List.mem_map.mp h
  exact ⟨edge, (List.mem_filter.mp hedge).1, rfl⟩

/-- New objects give no new ancestors to a complete closure. -/
theorem ancestors_of_grow {roots : List ReferenceEdge} (hcomplete : Complete objects roots)
    (hgrow : Grows objects objects') {edge : ReferenceEdge}
    (hedge : ReachedEdge objects roots edge) {p : ObjectId}
    (hpath : TransGen (OperationParent objects') p edge.id) :
    TransGen (OperationParent objects) p edge.id := by
  generalize hid : edge.id = n at hpath
  induction hpath generalizing edge with
  | single hp =>
      refine .single ?_
      obtain ⟨o, ho, -⟩ := hcomplete edge hedge
      obtain ⟨o', ho', hkind, hp⟩ := hp
      rw [hid] at ho
      cases (hgrow _ _ ho).symm.trans ho'
      exact ⟨o, ho, hkind, hp⟩
  | tail _ hp ih =>
      obtain ⟨o, ho, -⟩ := hcomplete edge hedge
      obtain ⟨o', ho', hkind, hp⟩ := hp
      have hstored := storedEdge_eq_ok.mpr ho
      rw [hid] at ho
      cases (hgrow _ _ ho).symm.trans ho'
      obtain ⟨up, hup, rfl⟩ := edge_of_mem_parentIds hp
      exact .tail (ih (.step hedge hstored hup) rfl) ⟨o, ho, hkind, hp⟩

/-- A closure whose operations form a graph has no cycle of operations. -/
theorem acyclic_of_closure {s : MemorySnapshot} {roots : List ReferenceEdge}
    {closure : BTreeMap ObjectId StoredObject} (hclosure : closureFrom s roots = .ok closure)
    (hgraphs : validateAffectedGraphs closure = .ok ())
    (hids : ∀ (id : ObjectId) (o : StoredObject), s.objects[id]? = some o → o.id = id)
    {edge : ReferenceEdge} (hedge : ReachedEdge s.objects roots edge) :
    ¬ TransGen (OperationParent s.objects) edge.id edge.id := by
  simp only [validateAffectedGraphs, Except.bind_eq_ok] at hgraphs
  obtain ⟨-, -, g, hg, -⟩ := hgraphs
  simp only [graph, parentRole, Except.ofOption, Except.ok_bind, Except.mapError_eq_ok] at hg
  obtain ⟨hok, hmem⟩ := closureFrom_reached.mp hclosure
  have hcomplete := Complete.of_closureFrom hclosure
  -- the stored objects above the edge are nodes of the graph
  have hnode : ∀ {edge : ReferenceEdge} {p : ObjectId}, ReachedEdge s.objects roots edge →
      OperationParent s.objects p edge.id →
      (∃ node ∈ (closure.values.filter fun object => object.kind = .operation).map fun object =>
          (⟨object.id, parentIds .operationParent object⟩ : GraphNode ObjectId),
        node.id = edge.id ∧ p ∈ node.parents) ∧
      ∃ up, ReachedEdge s.objects roots up ∧ up.id = p := by
    intro edge p hedge hp
    obtain ⟨o, ho, hkind, hp⟩ := hp
    have hreached := Reached.of_agree hok (fun _ _ => storedEdge_of_closureCheck) hedge
    obtain ⟨o', ho'⟩ := hok edge hreached
    obtain ⟨-, hget, -⟩ := closureCheck_eq_ok.mp ho'
    cases ho.symm.trans hget
    have hin : closure[edge.id]? = some o := (hmem _ _).mpr ⟨edge, hreached, rfl, ho'⟩
    obtain ⟨up, hup, hupid⟩ := edge_of_mem_parentIds hp
    refine ⟨⟨⟨o.id, parentIds .operationParent o⟩, ?_, hids _ _ ho, hp⟩,
      up, .step hedge (storedEdge_eq_ok.mpr ho) hup, hupid⟩
    exact List.mem_map.mpr ⟨o, List.mem_filter.mpr
      ⟨BTreeMap.mem_values_iff.mpr ⟨_, hin⟩, by simpa using hkind⟩, rfl⟩
  have hlift : ∀ {edge : ReferenceEdge} {p : ObjectId}, ReachedEdge s.objects roots edge →
      TransGen (OperationParent s.objects) p edge.id →
      TransGen (fun p n => ∃ node ∈
        (closure.values.filter fun object => object.kind = .operation).map fun object =>
          (⟨object.id, parentIds .operationParent object⟩ : GraphNode ObjectId),
        node.id = n ∧ p ∈ node.parents) p edge.id := by
    intro edge p hedge hpath
    generalize hid : edge.id = n at hpath
    induction hpath generalizing edge with
    | single hp =>
        subst hid
        exact .single (hnode hedge hp).1
    | tail _ hp ih =>
        subst hid
        obtain ⟨hp, up, hup, rfl⟩ := hnode hedge hp
        exact .tail (ih hup rfl) hp
  intro hcycle
  exact build_acyclic hg _ (hlift hedge hcycle)

end Parents

/-! ### One call -/

section Calls

variable [Unicode] [Hashes] {s t : MemorySnapshot}

/-- The head is kept, or a new one is put on top of it. -/
def HeadStep (s t : MemorySnapshot) : Prop :=
  t.references[ReferenceKey.operationHead]? = s.references[ReferenceKey.operationHead]? ∨
    ∃ head o, t.references[ReferenceKey.operationHead]? = some head ∧
      t.objects[head.target]? = some o ∧ o.kind = .operation ∧
      match s.references[ReferenceKey.operationHead]? with
      | none => head.generation = 0 ∧ parentIds .operationParent o = []
      | some old => head.generation.toNat = old.generation.toNat + 1 ∧
          old.target ∈ parentIds .operationParent o

/-- No operation above the head is the head again. -/
def HeadAcyclic (s : MemorySnapshot) : Prop :=
  ∀ head, s.references[ReferenceKey.operationHead]? = some head →
    ¬ TransGen (OperationParent s.objects) head.target head.target

omit [Unicode] [Hashes] in
theorem checkOperationHead_eq_ok {publication : Publication} {operation : StoredObject}
    {update : RefUpdate} :
    checkOperationHead publication operation update = .ok () ↔
      update.target = publication.operation ∧
        match update.expected with
        | .absent => parentIds .operationParent operation = []
        | .exact state => state.target ∈ parentIds .operationParent operation := by
  rw [checkOperationHead, Except.ite_error_eq_ok, not_not]
  refine and_congr_right fun _ => ?_
  cases update.expected with
  | absent => simp [parentIds]
  | exact state => simp [parentIds, and_assoc]

/-- What an accepted publication does to the head. -/
theorem head_of_stage {publication : Publication} (hsound : SoundSnapshot s)
    (hstage : stage publication s = .ok t) :
    HeadStep s t ∧
      (t.references[ReferenceKey.operationHead]? = s.references[ReferenceKey.operationHead]? ∨
        HeadAcyclic t) := by
  obtain ⟨staged, hobjects, hcheck, hinstalls, ht⟩ := stage_eq_ok.mp hstage
  obtain ⟨operation, hoperation, hopkind, -, hupdates, hvalidate, closure, hclosure, hgraphs⟩ :=
    checkStaged_eq_ok.mp hcheck
  by_cases hkey : ReferenceKey.operationHead ∈ publication.updates.map (·.key)
  · obtain ⟨update, hupdate, hkey⟩ := List.mem_map.mp hkey
    have hhead : checkOperationHead publication operation update = .ok () := by
      simp only [validateOperation, Except.bind_eq_ok] at hvalidate
      obtain ⟨actions, -, consumed, hloop, -⟩ := hvalidate
      obtain ⟨c, c', hpass⟩ := foldlM_step_of_mem hloop hupdate
      simp only [validateUpdate, hkey, Except.bind_eq_ok, Except.exists_unit_iff] at hpass
      exact hpass.1
    obtain ⟨htarget, hparents⟩ := checkOperationHead_eq_ok.mp hhead
    obtain ⟨head, hnext, hget⟩ := hinstalls.installed update hupdate
    rw [hkey] at hget
    obtain ⟨hheadtarget, -, hcount⟩ := nextState_eq_ok.mp hnext
    rw [hkey] at hcount
    have hcurrent := (hupdates update hupdate).expected
    rw [checkExpected_eq_ok, hkey] at hcurrent
    have hstored : staged.objects[head.target]? = some operation := by
      rw [hheadtarget, htarget]
      exact (visibleObject_eq_ok.mp hoperation).2
    refine ⟨.inr ⟨head, operation, hget, ?_, hopkind, ?_⟩, .inr ?_⟩
    · rw [ht]
      exact hstored
    · cases hex : update.expected with
      | absent =>
          simp only [hex] at hcurrent hparents
          simp only [hcurrent] at hcount ⊢
          exact ⟨hcount, hparents⟩
      | exact old =>
          simp only [hex] at hcurrent hparents
          simp only [hcurrent] at hcount ⊢
          exact ⟨toNat_of_checkedAdd hcount, hparents⟩
    · -- the head is a root of the closure that was checked
      intro head' hhead'
      rw [hget, Option.some.injEq] at hhead'
      subst hhead'
      have hids : ∀ (id : ObjectId) (o : StoredObject), staged.objects[id]? = some o → o.id = id := by
        intro id o ho
        have hdecode := (hsound.stage hstage).decoded id o (by rw [ht]; exact ho)
        obtain ⟨-, -, -, hid, -⟩ := MemoryStore.decode_eq_ok.mp hdecode
        exact hid
      have hroot : ReachedEdge staged.objects (publicationRoots publication)
          ⟨.operationAfter, some .operation, publication.operation⟩ := .root List.mem_cons_self
      rw [ht, hheadtarget, htarget]
      exact acyclic_of_closure hclosure hgraphs hids hroot
  · have hkept : t.references[ReferenceKey.operationHead]? =
        s.references[ReferenceKey.operationHead]? := by
      rw [hinstalls.kept _ hkey, (StagesObjects.of_loop hobjects).references]
    exact ⟨.inl hkept, .inl hkept⟩

/-- What any call does to the head. -/
theorem StoreCall.headStep (s : MemorySnapshot) (hsound : SoundSnapshot s) (c : StoreCall) :
    HeadStep s (c.run s) ∧
      ((c.run s).references[ReferenceKey.operationHead]? =
          s.references[ReferenceKey.operationHead]? ∨ HeadAcyclic (c.run s)) := by
  obtain ⟨-, hsame | ⟨publication, t, hstage, hobjects, hreferences⟩⟩ := StoreCall.effect s c
  · exact ⟨.inl (by rw [hsame]), .inl (by rw [hsame])⟩
  · have h := head_of_stage hsound hstage
    simp only [HeadStep, HeadAcyclic] at h ⊢
    rwa [hobjects, hreferences]

/-- A call keeps the head free of cycles: what is above it is already stored. -/
theorem HeadAcyclic.run (hsound : SoundSnapshot s) (h : HeadAcyclic s) (c : StoreCall) :
    HeadAcyclic (c.run s) := by
  rcases (StoreCall.headStep s hsound c).2 with hsame | hnew
  · intro head hhead hcycle
    rw [hsame] at hhead
    refine h head hhead ?_
    have hroot : ReachedEdge s.objects (referenceRoots .operationHead head)
        ⟨.operationAfter, some ReferenceKey.operationHead.expectedKind, head.target⟩ :=
      .root List.mem_cons_self
    exact ancestors_of_grow (hsound.references _ _ hhead).complete (StoreCall.effect s c).1
      hroot hcycle
  · exact hnew

end Calls

/-! ### Runs -/

section Runs

variable [Unicode] [Hashes]

theorem headAcyclic_runs (calls : List StoreCall) {s : MemorySnapshot} (hsound : SoundSnapshot s)
    (h : HeadAcyclic s) : HeadAcyclic (calls.foldl StoreCall.run s) := by
  induction calls generalizing s with
  | nil => exact h
  | cons c calls ih => exact ih (StoreCall.sound_run hsound c) (h.run hsound c)

/-- `head'` is `head`, or a later head above it. -/
def HeadAfter (objects : BTreeMap ObjectId StoredObject) (head head' : ReferenceState) : Prop :=
  head' = head ∨ head.generation < head'.generation ∧
    TransGen (OperationParent objects) head.target head'.target

/-- Once there is a head, every later snapshot has one that descends from it. -/
theorem head_runs (calls : List StoreCall) {s : MemorySnapshot} (hsound : SoundSnapshot s)
    {head : ReferenceState} (hhead : s.references[ReferenceKey.operationHead]? = some head) :
    ∃ head', (calls.foldl StoreCall.run s).references[ReferenceKey.operationHead]? = some head' ∧
      HeadAfter (calls.foldl StoreCall.run s).objects head head' := by
  induction calls using List.reverseRecOn with
  | nil => exact ⟨head, hhead, .inl rfl⟩
  | append_singleton calls c ih =>
      obtain ⟨mid, hmid, hafter⟩ := ih
      rw [List.foldl_append, List.foldl_cons, List.foldl_nil]
      have hsound' := StoreCall.sound_runs calls hsound
      generalize calls.foldl StoreCall.run s = u at hmid hafter hsound' ⊢
      have hgrow := (StoreCall.effect u c).1
      have hafter' : HeadAfter (c.run u).objects head mid :=
        hafter.imp_right fun ⟨hlt, hpath⟩ => ⟨hlt, hpath.lift id fun _ _ h => h.grow hgrow⟩
      rcases (StoreCall.headStep u hsound' c).1 with hsame | ⟨new, o, hnew, ho, hkind, hlink⟩
      · exact ⟨mid, by rw [hsame, hmid], hafter'⟩
      · rw [hmid] at hlink
        obtain ⟨hgeneration, hparent⟩ := hlink
        have hlt : mid.generation < new.generation := by
          rw [UInt64.lt_iff_toNat_lt]
          omega
        have hstep : OperationParent (c.run u).objects mid.target new.target :=
          ⟨o, ho, hkind, hparent⟩
        refine ⟨new, hnew, .inr ?_⟩
        rcases hafter' with rfl | ⟨hlt', hpath⟩
        · exact ⟨hlt, .single hstep⟩
        · exact ⟨lt_trans hlt' hlt, .tail hpath hstep⟩

/-- **The operation log is never rewound or forked.**  In every run the head,
once set, is never removed; a call that changes it counts its generation up
by one and puts an operation with the old head among its parents on top of
it, the first time one without parents; and every later head is the same or
a descendant that no path leads back from. -/
theorem operation_log (calls later : List StoreCall) :
    let s := calls.foldl StoreCall.run {}
    let t := later.foldl StoreCall.run s
    (∀ c : StoreCall, HeadStep s (c.run s)) ∧
    ∀ head, s.references[ReferenceKey.operationHead]? = some head →
      ∃ head', t.references[ReferenceKey.operationHead]? = some head' ∧
        (head' = head ∨
          head.generation < head'.generation ∧
          TransGen (OperationParent t.objects) head.target head'.target ∧
          ¬ ReflTransGen (OperationParent t.objects) head'.target head.target) := by
  intro s t
  have hsound : SoundSnapshot s := StoreCall.sound_runs calls .initial
  have hinitial : HeadAcyclic ({} : MemorySnapshot) := by
    intro head hhead
    simp at hhead
  have hacyclic : HeadAcyclic t :=
    headAcyclic_runs later hsound (headAcyclic_runs calls .initial hinitial)
  refine ⟨fun c => (StoreCall.headStep s hsound c).1, fun head hhead => ?_⟩
  obtain ⟨head', hhead', rfl | ⟨hlt, hpath⟩⟩ := head_runs later hsound hhead
  · exact ⟨head', hhead', .inl rfl⟩
  · refine ⟨head', hhead', .inr ⟨hlt, hpath, fun hback => ?_⟩⟩
    exact hacyclic head' hhead' (TransGen.trans_right hback hpath)

end Runs

end RGit
