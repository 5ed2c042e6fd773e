/-
RGit/Store/Bootstrap.lean

Installing a bootstrap in an empty store.

`BootstrapGraph::validate` and the store check the same transaction with
rules of their own.  They agree on the line states one by one; what only the
store asks is that the line states name the operation by the algorithm of the
publication, that no line is created twice, and that the operation declares
nothing else (`installation_accepted`).
-/
import RGit.Canonical.AtOnce
import RGit.Objects.Bootstrap
import RGit.Store.Actions
import RGit.Store.Ancestry
import RGit.Store.Bound
import RGit.Store.Closures
import RGit.Store.OperationEdges
import RGit.Store.OperationLog

namespace RGit

open MemoryStore Relation

/-! ### The graphs of a closure -/

section Graphs

variable [Unicode] [Hashes] {s : MemorySnapshot} {roots : List ReferenceEdge}
  {closure : BTreeMap ObjectId StoredObject} {kind : ObjectKind} {role : ReferenceRole}

/-- A closure holds the parents of what it holds, for a parent edge expects
the kind of its source. -/
theorem closedPart_of_closureFrom (hsound : SoundSnapshot s)
    (hclosure : closureFrom s roots = .ok closure) : ClosedPart s kind closure := by
  refine ⟨fun id o ho => ((closureFrom_get hclosure id o).mp ho).2, fun p n hn hp => ?_⟩
  obtain ⟨o', ho'⟩ := BTreeMap.mem_iff_get.mp hn
  obtain ⟨⟨edge, hedge, rfl⟩, -⟩ := (closureFrom_get hclosure n o').mp ho'
  obtain ⟨o, role, hvisible, hkind, hrole, hmem⟩ := hp
  obtain ⟨up, hup, rfl⟩ := List.mem_map.mp hmem
  obtain ⟨hup, hupRole⟩ := List.mem_filter.mp hup
  have hreached : VisibleEdge s roots up := .step hedge hvisible hup
  obtain ⟨-, parent, hfree, hget, hexpected⟩ := leads_of_closureFrom hclosure hreached
  have hsame := expectedKind_of_parent (hsound.decoded _ o (visibleObject_eq_ok.mp hvisible).2)
    (hkind ▸ hrole) hup (by simpa using hupRole)
  refine ⟨parent, (closureFrom_get hclosure up.id parent).mpr
    ⟨⟨up, hreached, rfl⟩, visibleObject_eq_ok.mpr ⟨hfree, hget⟩⟩, ?_⟩
  rw [hexpected o.kind hsame, hkind]

/-- **The graph of a kind can be built** exactly when the history below the
roots has no cycle. -/
theorem graph_isOk_iff (hsound : SoundSnapshot s) (hsize : s.objects.size < 2 ^ 64)
    (hclosure : closureFrom s roots = .ok closure) (hrole : parentRole kind = some role) :
    (∃ g, graph closure kind = .ok g) ↔
      ∀ edge, VisibleEdge s roots edge → ¬ TransGen (KindParent s kind) edge.id edge.id := by
  rw [(closedPart_of_closureFrom hsound hclosure).graph_isOk_iff hsound hsize hrole]
  constructor
  · intro hacyclic edge hedge
    obtain ⟨-, o, hfree, hget, -⟩ := leads_of_closureFrom hclosure hedge
    refine hacyclic edge.id (BTreeMap.mem_iff_get.mpr ⟨o, ?_⟩)
    exact (closureFrom_get hclosure edge.id o).mpr
      ⟨⟨edge, hedge, rfl⟩, visibleObject_eq_ok.mpr ⟨hfree, hget⟩⟩
  · intro hacyclic n hn
    obtain ⟨o, ho⟩ := BTreeMap.mem_iff_get.mp hn
    obtain ⟨⟨edge, hedge, rfl⟩, -⟩ := (closureFrom_get hclosure n o).mp ho
    exact hacyclic edge hedge

end Graphs

/-! ### Installing a bootstrap -/

section Installation

variable [Unicode] [Hashes]

/-- The update that creates a line. -/
def LineState.creation (algorithm : HashAlgorithm) (line : LineState) :
    Except ObjectError RefUpdate := do
  .ok ⟨.line line.lineId, .absent, ← CanonicalObject.id line algorithm⟩

/-- The publication of a bootstrap: its operation, with one update for each of
its lines. -/
def BootstrapGraph.installation (graph : BootstrapGraph) (algorithm : HashAlgorithm) :
    Except ObjectError Publication := do
  let operation ← CanonicalObject.id graph.genesisOperation algorithm
  let updates ← graph.initialLineStates.mapM (LineState.creation algorithm)
  .ok ⟨[], updates, operation⟩

/-- The snapshot holds the operation, the line states, and everything that can
be reached from them. -/
structure HoldsBootstrap (s : MemorySnapshot) (graph : BootstrapGraph) (algorithm : HashAlgorithm)
    (publication : Publication) : Prop where
  operation : StoresTyped s publication.operation (.operation graph.genesisOperation)
  lines : ∀ line ∈ graph.initialLineStates, ∀ id, CanonicalObject.id line algorithm = .ok id →
    StoresTyped s id (.lineState line)
  reachable : ∀ edge, VisibleEdge s (publicationRoots publication) edge →
    ∃ o, visibleObject s edge.id = .ok o

/-- What the store asks of a bootstrap beyond `BootstrapGraph::validate`. -/
structure Installable (s : MemorySnapshot) (graph : BootstrapGraph) (algorithm : HashAlgorithm)
    (publication : Publication) : Prop where
  algorithm : ∀ line ∈ graph.initialLineStates, line.transactionOperation.algorithm = algorithm
  lines : (graph.initialLineStates.map (·.lineId)).Nodup
  actions : graph.genesisOperation.actions.length = graph.initialLineStates.length
  kinds : ∀ edge, VisibleEdge s (publicationRoots publication) edge →
    ∀ o, visibleObject s edge.id = .ok o → ∀ kind ∈ edge.expectedKind, o.kind = kind
  acyclic : ∀ edge, VisibleEdge s (publicationRoots publication) edge →
    ∀ kind, ¬ TransGen (KindParent s kind) edge.id edge.id
  revision : s.revision.toNat + 1 < 2 ^ 64

variable {s : MemorySnapshot} {graph : BootstrapGraph} {algorithm : HashAlgorithm}
  {publication : Publication} {line : LineState} {update : RefUpdate}

/-! ### The line states -/

omit [Unicode] [Hashes] in
theorem declaration_of_matchesState {d : LineAdvanceDeclaration} (h : d.matchesState line = true) :
    d = line.declaration := by
  obtain ⟨policyRef, lineId, displayName, headSnapshot, generation, previousState,
    integrationPolicy, approvalPolicy, releasePolicy, visibilityPolicy⟩ := d
  simp only [LineAdvanceDeclaration.matchesState, decide_eq_true_eq] at h
  simpa [LineState.declaration] using h

/-- An update that creates the line of a genesis state that is stored. -/
structure CreatesLine (s : MemorySnapshot) (operation : Operation) (line : LineState)
    (update : RefUpdate) (o : StoredObject) (m : Entries) : Prop where
  genesis : BootstrapGraph.GenesisState operation line
  key : update.key = .line line.lineId
  expected : update.expected = .absent
  visible : visibleObject s update.target = .ok o
  kind : o.kind = .lineState
  value : o.object.value = .map m
  admitted : Admitted (kindLimits .lineState) (.map m)
  record : Value.map m = (CanonicalObject.canonicalValue line).norm

/-- A stored object has the kind that its record says. -/
theorem kind_of_record {id : ObjectId} {o : StoredObject} {m : Entries} {kind : ObjectKind}
    (hdecode : decode id o.bytes = .ok o) (hvalue : o.object.value = .map m)
    (hkind : lookupKey m 0 = some (.unsigned (Discriminant.code kind))) : o.kind = kind := by
  obtain ⟨hobject, -⟩ := MemoryStore.decode_eq_ok.mp hdecode
  obtain ⟨m', hvalue', -, -, -, hvalid⟩ := RGit.decode_eq_ok.mp hobject
  obtain rfl : m = m' := Value.map.inj (hvalue.symm.trans hvalue')
  have hcode := hvalid.kind_eq.symm.trans hkind
  rw [Option.some.injEq, Value.unsigned.injEq] at hcode
  exact ObjectKind.code_inj.mp hcode

theorem createsLine_of_creation (hsound : SoundSnapshot s)
    (hgenesis : BootstrapGraph.GenesisState graph.genesisOperation line)
    (hstored : ∀ id, CanonicalObject.id line algorithm = .ok id →
      StoresTyped s id (.lineState line))
    (h : line.creation algorithm = .ok update) :
    ∃ o m, CreatesLine s graph.genesisOperation line update o m := by
  obtain ⟨id, hid, hupdate⟩ := Except.bind_eq_ok.mp h
  obtain rfl := Except.ok.inj hupdate
  obtain ⟨o, hvisible, henc⟩ := hstored id hid
  have hdecode := hsound.decoded id o (visibleObject_eq_ok.mp hvisible).2
  obtain ⟨m, hvalue, hm, heq⟩ := record_of_typed hdecode henc
  obtain ⟨⟨hkind, -⟩, -⟩ := (lineState_fields_iff hm).mp heq
  exact ⟨o, m, hgenesis, rfl, rfl, hvisible, kind_of_record hdecode hvalue hkind, hvalue, hm, heq⟩

namespace CreatesLine

variable {operation : Operation} {o : StoredObject} {m : Entries}

/-- The update passes the checks of a single update. -/
theorem updateOk (h : CreatesLine s operation line update o m) (hempty : s.references = ∅) :
    UpdateOk s s update := by
  obtain ⟨⟨-, -, -, hline, -⟩, -⟩ := (lineState_fields_iff h.admitted).mp h.record
  refine ⟨?_, o, h.visible, ?_, ?_⟩
  · rw [checkExpected_eq_ok, h.expected, hempty]
    simp
  · rw [h.kind, h.key]
    rfl
  · simp [h.key, referenceIdentityMatches, h.value, valueMap, valueField, hline, stable,
      valueBytes]

/-- The line state names the operation under the algorithm of the publication,
or the update is refused. -/
theorem updateChecks_iff (h : CreatesLine s operation line update o m)
    (hid : CanonicalObject.id operation algorithm = .ok publication.operation)
    {stored : StoredObject} :
    UpdateChecks publication stored s update ↔
      line.transactionOperation.algorithm = algorithm := by
  obtain ⟨⟨-, -, -, hline, -, -, hgeneration, -, -, -, -, hoperation, -, hprevious⟩, -⟩ :=
    (lineState_fields_iff h.admitted).mp h.record
  have hnamed : objectIdField m 12 = some line.transactionOperation := by
    rw [objectIdField, valueField, hoperation]
    exact objectId_eq_some.mpr rfl
  rw [UpdateChecks, h.key]
  constructor
  · rintro ⟨state, hstate⟩
    obtain ⟨⟨o', hvisible, hvalue⟩, -, hpublished, -⟩ := checkLineState_eq_ok hstate
    obtain rfl : o = o' := Except.ok.inj (h.visible.symm.trans hvisible)
    obtain rfl : m = state := Value.map.inj (h.value.symm.trans hvalue)
    obtain ⟨bytes, -, hname⟩ := BootstrapGraph.id_eq_ok.mp hid
    rw [Option.some.inj (hnamed.symm.trans hpublished), hname]
    rfl
  · intro halgorithm
    -- under one algorithm the operation has one name
    have hsame : line.transactionOperation = publication.operation := by
      have htransaction := h.genesis.transaction
      rw [halgorithm, hid, Except.ok.injEq] at htransaction
      exact htransaction.symm
    refine ⟨m, ?_⟩
    have hpredecessor : validateLinePredecessor m .absent = .ok () := by
      rw [validateLinePredecessor_eq_ok]
      refine ⟨0, ?_, rfl, ?_⟩
      · simp [valueField, hgeneration, h.genesis.generation, valueUnsigned]
      · simp [valueField, hprevious, h.genesis.previousState]
    simp [checkLineState, h.visible, h.value, valueMap, Except.ofOption, valueField, hline, stable,
      valueBytes, hnamed, hsame, h.expected, hpredecessor]

theorem wanted_eq (h : CreatesLine s operation line update o m) :
    wanted s update = .line (stateFields m) := by
  rw [wanted, h.key]
  simp [targetRecord, h.visible, h.value, valueMap, Except.toOption]

/-- Some action of the operation announces the line. -/
theorem announced (h : CreatesLine s operation line update o m)
    (hactions : ∀ a ∈ operation.actions, Admitted (kindLimits .operation) a.value.norm) :
    some (wanted s update) ∈
      (operation.actions.map fun a => a.value.norm).map announcement := by
  obtain ⟨action, hmem, hdeclares⟩ := h.genesis.declared
  cases action with
  | transition before after => cases hdeclares
  | lineAdvance d =>
      obtain rfl := declaration_of_matchesState hdeclares
      rw [h.wanted_eq, List.map_map]
      refine List.mem_map.mpr ⟨_, hmem, lineActionMatches_iff.mp ?_⟩
      exact lineActionMatches_declaration (hactions _ hmem) h.admitted h.record

/-- What an update asks for tells the line. -/
theorem key_of_wanted {line' : LineState} {update' : RefUpdate} {o' : StoredObject}
    {m' : Entries} (h : CreatesLine s operation line update o m)
    (h' : CreatesLine s operation line' update' o' m') (hsame : wanted s update = wanted s update') :
    update.key = update'.key := by
  rw [h.wanted_eq, h'.wanted_eq, Announcement.line.injEq] at hsame
  obtain ⟨⟨-, -, -, hline, -⟩, -⟩ := (lineState_fields_iff h.admitted).mp h.record
  obtain ⟨⟨-, -, -, hline', -⟩, -⟩ := (lineState_fields_iff h'.admitted).mp h'.record
  have hfield : valueField m 3 = valueField m' 3 := by
    simp only [stateFields, declaredFields, List.map_cons, List.cons_append, List.cons.injEq]
      at hsame
    exact hsame.2.1
  rw [valueField, valueField, hline, hline', Option.some.injEq] at hfield
  rw [h.key, h'.key, Subtype.ext (Value.bytes.inj hfield)]

end CreatesLine

/-! ### The publication -/

/-- The actions of a stored operation. -/
theorem operationActions_stored {id : ObjectId} {o : StoredObject} {op : Operation}
    (hdecode : decode id o.bytes = .ok o)
    (henc : (TypedObject.operation op).encode = .ok o.bytes) :
    o.kind = .operation ∧ operationActions o = .ok (op.actions.map fun a => a.value.norm) ∧
      ∀ a ∈ op.actions, Admitted (kindLimits .operation) a.value.norm := by
  obtain ⟨m, hvalue, hm, heq⟩ := record_of_typed hdecode henc
  obtain ⟨⟨h₀, -, -, -, -, -, -, -, h₈, -⟩, -⟩ := (operation_fields_iff hm).mp heq
  refine ⟨kind_of_record hdecode hvalue h₀, ?_,
    fun a ha => (hm.of_lookup h₈).of_mem (List.mem_map_of_mem ha)⟩
  simp [operationActions, hvalue, valueMap, valueField, h₈, valueArray, Except.ofOption]

section Updates

variable {operation : Operation} {lines : List LineState} {updates : List RefUpdate}

/-- The updates of a bootstrap, one for each line. -/
abbrev CreatesLines (s : MemorySnapshot) (operation : Operation) :
    List LineState → List RefUpdate → Prop :=
  List.Forall₂ fun line update => ∃ o m, CreatesLine s operation line update o m

theorem CreatesLines.keys (h : CreatesLines s operation lines updates) :
    updates.map (·.key) = (lines.map (·.lineId)).map .line := by
  induction h with
  | nil => rfl
  | cons hcreates _ ih =>
      obtain ⟨o, m, hcreates⟩ := hcreates
      rw [List.map_cons, hcreates.key, ih, List.map_cons, List.map_cons]

theorem CreatesLines.exists_line (h : CreatesLines s operation lines updates)
    (hupdate : update ∈ updates) :
    ∃ line ∈ lines, ∃ o m, CreatesLine s operation line update o m :=
  forall₂_exists_of_mem (List.Forall₂.flip h) hupdate

theorem CreatesLines.nodup_keys_iff (h : CreatesLines s operation lines updates) :
    (updates.map (·.key)).Nodup ↔ (lines.map (·.lineId)).Nodup := by
  rw [h.keys]
  exact List.nodup_map_iff fun a b hab => ReferenceKey.line.inj hab

/-- Every update needs an action. -/
theorem CreatesLines.requested_eq (h : CreatesLines s operation lines updates) :
    requested updates = updates := by
  refine List.filter_eq_self.mpr fun update hupdate => ?_
  obtain ⟨line, -, o, m, hcreates⟩ := h.exists_line hupdate
  simp [hcreates.key]

/-- The updates ask for different things, each of which is announced; so
nothing is left over exactly when there are as many actions as updates. -/
theorem CreatesLines.perm_iff (h : CreatesLines s operation lines updates)
    (hnodup : (updates.map (·.key)).Nodup)
    (hactions : ∀ a ∈ operation.actions, Admitted (kindLimits .operation) a.value.norm) :
    (((requested updates).map (wanted s)).map some).Perm
        ((operation.actions.map fun a => a.value.norm).map announcement) ↔
      operation.actions.length = lines.length := by
  rw [h.requested_eq]
  have hlength : lines.length = updates.length := List.Forall₂.length_eq h
  have hdistinct : ((updates.map (wanted s)).map some).Nodup := by
    refine List.Nodup.map (Option.some_injective _) ?_
    refine List.Nodup.map_on (fun a ha b hb hab => ?_) hnodup.of_map
    obtain ⟨_, -, _, _, hcreates⟩ := h.exists_line ha
    obtain ⟨_, -, _, _, hcreates'⟩ := h.exists_line hb
    exact List.inj_on_of_nodup_map hnodup ha hb (hcreates.key_of_wanted hcreates' hab)
  have hsubset : (updates.map (wanted s)).map some ⊆
      (operation.actions.map fun a => a.value.norm).map announcement := by
    intro r hr
    rw [List.map_map] at hr
    obtain ⟨update, hupdate, rfl⟩ := List.mem_map.mp hr
    obtain ⟨line, -, o, m, hcreates⟩ := h.exists_line hupdate
    exact hcreates.announced hactions
  constructor
  · intro hperm
    have hcount := hperm.length_eq
    simp only [List.length_map] at hcount
    rw [hlength, hcount]
  · intro hcount
    refine (hdistinct.subperm hsubset).perm_of_length_le ?_
    simp only [List.length_map]
    rw [hcount, hlength]

/-- **The two checks of the transaction.**  The line states of a bootstrap
pass `validate_operation` together exactly when they name the operation by
the algorithm of the publication and the operation declares nothing else. -/
theorem validateOperation_genesis_iff (h : CreatesLines s operation lines publication.updates)
    (hid : CanonicalObject.id operation algorithm = .ok publication.operation)
    (hnodup : (publication.updates.map (·.key)).Nodup) {stored : StoredObject}
    (hactions : operationActions stored = .ok (operation.actions.map fun a => a.value.norm))
    (hadmitted : ∀ a ∈ operation.actions, Admitted (kindLimits .operation) a.value.norm) :
    validateOperation publication stored s = .ok () ↔
      (∀ line ∈ lines, line.transactionOperation.algorithm = algorithm) ∧
        operation.actions.length = lines.length := by
  rw [validateOperation_iff_perm]
  simp only [hactions, Except.ok.injEq, exists_eq_left', h.perm_iff hnodup hadmitted]
  refine and_congr_left fun _ => ?_
  constructor
  · intro hchecks line hline
    obtain ⟨update, hupdate, o, m, hcreates⟩ := forall₂_exists_of_mem h hline
    exact (hcreates.updateChecks_iff hid).mp (hchecks update hupdate)
  · intro halgorithm update hupdate
    obtain ⟨line, hline, o, m, hcreates⟩ := h.exists_line hupdate
    exact (hcreates.updateChecks_iff hid).mpr (halgorithm line hline)

end Updates

omit [Unicode] [Hashes] in
theorem validateAffectedGraphs_isOk {closure : BTreeMap ObjectId StoredObject} :
    validateAffectedGraphs closure = .ok () ↔
      (∃ g, MemoryStore.graph closure .snapshot = .ok g) ∧
        ∃ g, MemoryStore.graph closure .operation = .ok g := by
  simp only [validateAffectedGraphs, Except.bind_eq_ok, and_true, exists_and_right]

/-- The closure and its graphs, when everything that can be reached is there. -/
theorem closure_isOk_iff (hsound : SoundSnapshot s) (hsize : s.objects.size < 2 ^ 64)
    {roots : List ReferenceEdge}
    (hheld : ∀ edge, VisibleEdge s roots edge → ∃ o, visibleObject s edge.id = .ok o) :
    (∃ closure, closureFrom s roots = .ok closure ∧ validateAffectedGraphs closure = .ok ()) ↔
      (∀ edge, VisibleEdge s roots edge →
        ∀ o, visibleObject s edge.id = .ok o → ∀ kind ∈ edge.expectedKind, o.kind = kind) ∧
      ∀ edge, VisibleEdge s roots edge →
        ∀ kind, ¬ TransGen (KindParent s kind) edge.id edge.id := by
  constructor
  · rintro ⟨closure, hclosure, hgraphs⟩
    obtain ⟨hsnapshots, hoperations⟩ := validateAffectedGraphs_isOk.mp hgraphs
    refine ⟨fun edge hedge o ho kind hkind => ?_, fun edge hedge kind hcycle => ?_⟩
    · obtain ⟨-, o', -, hget, hexpected⟩ := leads_of_closureFrom hclosure hedge
      obtain rfl := Option.some.inj (hget.symm.trans (visibleObject_eq_ok.mp ho).2)
      exact hexpected kind hkind
    · -- only two kinds have parents
      obtain ⟨p, -, o, role, -, -, hrole, -⟩ := TransGen.tail'_iff.mp hcycle
      cases kind with
      | snapshot => exact (graph_isOk_iff hsound hsize hclosure rfl).mp hsnapshots edge hedge hcycle
      | operation =>
          exact (graph_isOk_iff hsound hsize hclosure rfl).mp hoperations edge hedge hcycle
      | _ => cases hrole
  · rintro ⟨hkinds, hacyclic⟩
    have hleads : ∀ edge, VisibleEdge s roots edge → Leads s edge := by
      intro edge hedge
      obtain ⟨o, ho⟩ := hheld edge hedge
      obtain ⟨hfree, hget⟩ := visibleObject_eq_ok.mp ho
      exact ⟨o, hfree, hget, hkinds edge hedge o ho⟩
    obtain ⟨closure, hclosure⟩ := closureFrom_isOk_iff_leads.mpr hleads
    refine ⟨closure, hclosure, validateAffectedGraphs_isOk.mpr ⟨?_, ?_⟩⟩
    · exact (graph_isOk_iff hsound hsize hclosure rfl).mpr fun edge hedge => hacyclic edge hedge _
    · exact (graph_isOk_iff hsound hsize hclosure rfl).mpr fun edge hedge => hacyclic edge hedge _

/-- The publication of a valid bootstrap exists. -/
theorem installation_of_validate (h : graph.validate algorithm = .ok ()) :
    ∃ publication, graph.installation algorithm = .ok publication := by
  obtain ⟨⟨bytes, hbytes⟩, hlines⟩ := BootstrapGraph.genesis_of_validate h
  have hid : ∀ {α : Type} [CanonicalObject α] {o : α} {bytes : Bytes},
      CanonicalObject.encode o = .ok bytes → ∃ id, CanonicalObject.id o algorithm = .ok id :=
    fun hbytes => ⟨_, BootstrapGraph.id_eq_ok.mpr ⟨_, hbytes, rfl⟩⟩
  obtain ⟨operation, hoperation⟩ := hid hbytes
  obtain ⟨updates, hupdates⟩ : ∃ updates,
      graph.initialLineStates.mapM (LineState.creation algorithm) = .ok updates := by
    refine mapM_isOk fun line hline => ?_
    obtain ⟨bytes, hbytes⟩ := (hlines line hline).encoded
    obtain ⟨id, hid⟩ := hid hbytes
    exact ⟨⟨.line line.lineId, .absent, id⟩, Except.bind_eq_ok.mpr ⟨id, hid, rfl⟩⟩
  refine ⟨⟨[], updates, operation⟩, ?_⟩
  simp [BootstrapGraph.installation, hoperation, hupdates]

/-- The first half of `publish` accepts exactly the installable bootstraps. -/
theorem beginPublish_installation_iff (hsound : SoundSnapshot s) (hempty : s.references = ∅)
    (hsize : s.objects.size < 2 ^ 64) (hobjects : publication.objects = [])
    (hid : CanonicalObject.id graph.genesisOperation algorithm = .ok publication.operation)
    (hcreates : CreatesLines s graph.genesisOperation graph.initialLineStates publication.updates)
    (hholds : HoldsBootstrap s graph algorithm publication) :
    (∃ p, beginPublish publication s = .ok p) ↔ Installable s graph algorithm publication := by
  obtain ⟨stored, hvisible, henc⟩ := hholds.operation
  obtain ⟨hkind, hactions, hadmitted⟩ :=
    operationActions_stored (hsound.decoded _ stored (visibleObject_eq_ok.mp hvisible).2) henc
  have hclosure := closure_isOk_iff hsound hsize hholds.reachable
  have hstaged : publication.objects.foldlM stageObject s = .ok s := by
    rw [hobjects]
    rfl
  rw [beginPublish_isOk_iff, stage_isOk_iff]
  constructor
  · rintro ⟨⟨next, hnext⟩, _, hloop, hcheck, -⟩
    obtain rfl := Except.ok.inj (hstaged.symm.trans hloop)
    obtain ⟨o, ho, -, hnodup, -, hvalidate, hclosed⟩ := checkStaged_eq_ok.mp hcheck
    obtain rfl := Except.ok.inj (hvisible.symm.trans ho)
    obtain ⟨halgorithm, hcount⟩ :=
      (validateOperation_genesis_iff hcreates hid hnodup hactions hadmitted).mp hvalidate
    obtain ⟨hkinds, hacyclic⟩ := hclosure.mp hclosed
    refine ⟨halgorithm, hcreates.nodup_keys_iff.mp hnodup, hcount, hkinds, hacyclic, ?_⟩
    rw [← toNat_of_checkedAdd hnext]
    exact next.toNat_lt
  · intro h
    have hnodup := hcreates.nodup_keys_iff.mpr h.lines
    have hvalidate := (validateOperation_genesis_iff hcreates hid hnodup hactions hadmitted).mpr
      ⟨h.algorithm, h.actions⟩
    refine ⟨⟨s.revision + 1, ?_⟩, s, hstaged, checkStaged_eq_ok.mpr ⟨stored, hvisible, hkind, hnodup,
      fun update hupdate => ?_, hvalidate, hclosure.mpr ⟨h.kinds, h.acyclic⟩⟩,
      fun update hupdate => ?_⟩
    · exact if_pos h.revision
    · obtain ⟨line, -, o, m, hcreates⟩ := hcreates.exists_line hupdate
      exact hcreates.updateOk hempty
    · refine ⟨⟨update.target, 0, publication.operation⟩, nextState_eq_ok.mpr ⟨rfl, rfl, ?_⟩⟩
      rw [hempty]
      simp

/-- **When a valid bootstrap can be installed.**  In a reachable snapshot
without references that holds everything the bootstrap leads to, and for a
validator that accepts it, the publication of a bootstrap that validates is
accepted if and only if its line states name the operation by the algorithm
of the publication, its lines are different, its operation declares nothing
but them, what can be reached has the expected kinds and no history is a
cycle, and the revision can still count. -/
theorem installation_accepted (graph : BootstrapGraph) (algorithm : HashAlgorithm)
    (hvalid : graph.validate algorithm = .ok ()) :
    ∃ publication, graph.installation algorithm = .ok publication ∧
      ∀ (calls : List StoreCall) (validator : PublicationValidator),
        (calls.foldl StoreCall.run {}).references = ∅ →
        (calls.foldl StoreCall.run {}).objects.size < 2 ^ 64 →
        HoldsBootstrap (calls.foldl StoreCall.run {}) graph algorithm publication →
        (∀ staged, beginPublish publication (calls.foldl StoreCall.run {}) = .ok staged →
          validator staged.candidate = .ok ()) →
        ((publish publication validator (calls.foldl StoreCall.run {})).1.isOk = true ↔
          Installable (calls.foldl StoreCall.run {}) graph algorithm publication) := by
  obtain ⟨publication, hpublication⟩ := installation_of_validate hvalid
  refine ⟨publication, hpublication, fun calls validator hempty hsize hholds haccepts => ?_⟩
  have hsound : SoundSnapshot (calls.foldl StoreCall.run {}) := StoreCall.sound_runs calls .initial
  generalize calls.foldl StoreCall.run {} = s at *
  obtain ⟨-, hgenesis⟩ := BootstrapGraph.genesis_of_validate hvalid
  obtain ⟨operation, hid, hpublication⟩ := Except.bind_eq_ok.mp hpublication
  obtain ⟨updates, hupdates, hpublication⟩ := Except.bind_eq_ok.mp hpublication
  obtain rfl := Except.ok.inj hpublication
  have hcreates : CreatesLines s graph.genesisOperation graph.initialLineStates updates := by
    have hall : ∀ line ∈ graph.initialLineStates, ∀ update, line.creation algorithm = .ok update →
        ∃ o m, CreatesLine s graph.genesisOperation line update o m :=
      fun line hline update => createsLine_of_creation hsound (hgenesis line hline)
        (hholds.lines line hline)
    have hpairs := (List.forall₂_and_left _ _).mpr ⟨hall, mapM_eq_ok.mp hupdates⟩
    exact hpairs.imp fun line update h => h.1 update h.2
  rw [publish_isOk_iff, ← beginPublish_installation_iff hsound hempty hsize rfl hid hcreates hholds]
  constructor
  · rintro ⟨p, hbegin, -⟩
    exact ⟨p, hbegin⟩
  · rintro ⟨p, hbegin⟩
    exact ⟨p, hbegin, haccepts p hbegin⟩

end Installation

/-! ### A sample bootstrap

The sample line as the first line of a repository. -/

section Sample

local instance bootstrapUnicode : Unicode := asciiUnicode

def sampleIdentity : Identity where
  policyRef := none
  subjectKind := .actor
  subject := sampleStable
  version := 0
  previous := none
  signingKeys := [⟨.ed25519, sampleDigest 1, toBeBytes 32 1, none, none⟩]
  encryptionKeys := []
  issuer := sampleStable
  status := .active
  activationOperation := none
  notAfterOperation := none
  signatures := [sampleSignature .identity]

def genesisOperation : Operation where
  policyRef := rootPolicyRef
  parents := []
  actor := sampleStable
  device := sampleStable
  logicalTime := 0
  wallTime := sampleTime
  actions := [.lineAdvance sampleDeclaration]
  inversePayloads := []
  publicEnvelope := none
  privatePayload := none
  signature := sampleSignature .operation
  clientImplementation := "rgit"

def genesisLine : LineState where
  policyRef := rootPolicyRef
  lineId := sampleStable
  displayName := "main"
  headSnapshot := sampleSnapshotId
  generation := 0
  previousState := none
  integrationPolicy := rootPolicyRef
  approvalPolicy := rootPolicyRef
  releasePolicy := rootPolicyRef
  visibilityPolicy := rootPolicyRef
  transactionOperation := lineOperationId
  signature := sampleSignature .lineState

/-- The same line state, signed again. -/
def resignedLine : LineState :=
  { genesisLine with
    signature := { sampleSignature .lineState with
      bytes := ⟨toBeBytes 64 2, by decide⟩
      bytes_ne := by decide } }

def samplePolicyObject : Policy where
  policyRef := none
  policyId := sampleStable
  versionSequence := 0
  previousVersion := none
  principals := []
  grants := []
  redactionMode := .omitted
  derivationRule := .noDerivation
  declassificationRequirements := []
  keyEpoch := 0
  keyEnvelopeSet := sampleEnvelopesId
  administrators := []
  activationConstraints := []
  signatures := [sampleSignature .policy]

def sampleIdentityId : ObjectId :=
  ⟨.sha256, sampleDigest 0x4907ee92a3bc229af770a06eeb949e6028b3bf9a1a2df3300d586ba7cd26db97⟩

def resignedLineId : ObjectId :=
  ⟨.sha256, sampleDigest 0x52afb25311f8f414ecb22df854e43d9293578d14317378abb54e8e0d4ebe6ad8⟩

/-- What the sample store holds. -/
def bootstrapObjects : List (TypedObject × ObjectId) :=
  lineObjects ++ [(.lineState resignedLine, resignedLineId)]

local instance bootstrapHashes : Hashes :=
  objectHashes ((.identity sampleIdentity, sampleIdentityId) :: bootstrapObjects)

/-- A bootstrap with the given line states. -/
def sampleBootstrap (lines : List LineState) (lineIds : List ObjectId) : BootstrapGraph where
  root := {
    repositoryId := sampleStable
    rootPolicy := rootPolicyId
    trustedIdentities := [sampleIdentityId]
    bootstrapKeyEnvelopeSet := sampleEnvelopesId
    genesisOperation := lineOperationId
    initialLineStates := lineIds
    filesystemProfile := .portable
    signatures := [sampleSignature .repositoryRoot] }
  rootPolicy := samplePolicyObject
  identities := [sampleIdentity]
  keyEnvelopeSet :=
    ⟨none, 0, .x25519HkdfSha256Aes256Gcm, [⟨⟨.actor, [1]⟩, sampleDigest 1, [1]⟩]⟩
  genesisOperation := genesisOperation
  initialLineStates := lines

/-- The two line states of the sample, in the order of their identifiers. -/
def repeatedBootstrap : BootstrapGraph :=
  sampleBootstrap [resignedLine, genesisLine] [resignedLineId, sampleLineStateId]

/-- Creates the line once for each of the identifiers. -/
def samplePublication (lineIds : List ObjectId) : Publication where
  objects := []
  updates := lineIds.map fun id => ⟨.line sampleStable, .absent, id⟩
  operation := lineOperationId

def bootstrapCalls : List StoreCall :=
  bootstrapObjects.map fun (t, id) => .put id (objectBytes t)

/-- The object is visible, as it is encoded. -/
def storesCheck (s : MemorySnapshot) (t : TypedObject) (id : ObjectId) : Bool :=
  (visibleObject s id).toOption.any fun o => t.encode = .ok o.bytes

/-- The store holds the operation, the two line states and all they lead to. -/
def storeCheck (s : MemorySnapshot) : Bool :=
  s.references.isEmpty && s.objects.size < 2 ^ 64 && s.revision.toNat + 1 < 2 ^ 64 &&
    storesCheck s (.operation genesisOperation) lineOperationId &&
    storesCheck s (.lineState genesisLine) sampleLineStateId &&
    storesCheck s (.lineState resignedLine) resignedLineId &&
    (closureFrom s (publicationRoots (samplePublication [resignedLineId, sampleLineStateId])) >>=
      validateAffectedGraphs).isOk

theorem sampleBootstrap_checks :
    repeatedBootstrap.validate .sha256 = .ok () ∧
      (sampleBootstrap [genesisLine] [sampleLineStateId]).validate .sha256 = .ok () ∧
      CanonicalObject.id genesisOperation .sha256 = .ok lineOperationId ∧
      CanonicalObject.id genesisLine .sha256 = .ok sampleLineStateId ∧
      CanonicalObject.id resignedLine .sha256 = .ok resignedLineId ∧
      storeCheck (bootstrapCalls.foldl StoreCall.run {}) = true := by
  generalize hvalidate : @BootstrapGraph.validate _ bootstrapHashes = validate
  generalize hoperation : @CanonicalObject.id Operation _ _ bootstrapHashes = operationId
  generalize hline : @CanonicalObject.id LineState _ _ bootstrapHashes = lineId
  generalize hrun : @StoreCall.run _ bootstrapHashes = run
  generalize hcheck : @storeCheck = check
  delta BootstrapGraph.validate BootstrapGraph.checkRootLinks BootstrapGraph.identityId
    BootstrapGraph.lineStateId LineState.validateTransaction CanonicalObject.id
    CanonicalObject.encode at hvalidate
  delta CanonicalObject.id CanonicalObject.encode at hoperation hline
  delta StoreCall.run put MemoryStore.decode AnyObject.decodeVerified AnyObject.decode AnyObject.id
    at hrun
  delta storeCheck storesCheck TypedObject.encode CanonicalObject.encode at hcheck
  rw [encodeWithLimits_eq_atOnce] at hvalidate hoperation hline hcheck
  rw [decodeCanonical_eq_atOnce, encodeWithLimits_eq_atOnce] at hrun
  subst hvalidate hoperation hline hrun hcheck
  refine ⟨?_, ?_, ?_, ?_, ?_, ?_⟩ <;> decide +kernel

theorem storesTyped_of_check {s : MemorySnapshot} {t : TypedObject} {id : ObjectId}
    (h : storesCheck s t id = true) : StoresTyped s id t := by
  rw [storesCheck, Option.any_eq_true] at h
  obtain ⟨o, ho, henc⟩ := h
  refine ⟨o, ?_, by simpa using henc⟩
  cases hvisible : visibleObject s id with
  | error e => simp [hvisible, Except.toOption] at ho
  | ok o' => simpa [hvisible, Except.toOption] using ho

/-- What the checks say of one or both of the line states. -/
theorem sampleStore_holds (lines : List LineState) (ids lineIds : List ObjectId)
    (hlines : ∀ line ∈ lines, line = genesisLine ∨ line = resignedLine)
    (hids : ids ⊆ [resignedLineId, sampleLineStateId]) :
    HoldsBootstrap (bootstrapCalls.foldl StoreCall.run {}) (sampleBootstrap lines lineIds) .sha256
        (samplePublication ids) ∧
      (∀ edge, VisibleEdge (bootstrapCalls.foldl StoreCall.run {})
          (publicationRoots (samplePublication ids)) edge →
        ∀ o, visibleObject (bootstrapCalls.foldl StoreCall.run {}) edge.id = .ok o →
          ∀ kind ∈ edge.expectedKind, o.kind = kind) ∧
      (∀ edge, VisibleEdge (bootstrapCalls.foldl StoreCall.run {})
          (publicationRoots (samplePublication ids)) edge →
        ∀ kind, ¬ TransGen (KindParent (bootstrapCalls.foldl StoreCall.run {}) kind) edge.id
          edge.id) := by
  obtain ⟨-, -, -, hgenesis, hresigned, hcheck⟩ := sampleBootstrap_checks
  have hsound : SoundSnapshot (bootstrapCalls.foldl StoreCall.run {}) :=
    StoreCall.sound_runs bootstrapCalls .initial
  generalize bootstrapCalls.foldl StoreCall.run {} = s at *
  simp only [storeCheck, Bool.and_eq_true, decide_eq_true_eq, Except.isOk_iff,
    Except.bind_eq_ok] at hcheck
  obtain ⟨⟨⟨⟨⟨⟨-, hsize⟩, -⟩, hoperation⟩, hline⟩, hagain⟩, _, closure, hclosure, hgraphs⟩ := hcheck
  -- fewer roots reach fewer edges
  have hmono : ∀ {edge}, VisibleEdge s (publicationRoots (samplePublication ids)) edge →
      VisibleEdge s (publicationRoots (samplePublication [resignedLineId, sampleLineStateId]))
        edge := by
    intro edge hedge
    induction hedge with
    | root hmem =>
        refine .root (List.cons_subset_cons _ ?_ hmem)
        exact List.map_subset _ (List.map_subset _ hids)
    | step _ ho hup ih => exact .step ih ho hup
  have hheld : ∀ edge,
      VisibleEdge s (publicationRoots (samplePublication [resignedLineId, sampleLineStateId])) edge →
        ∃ o, visibleObject s edge.id = .ok o := by
    intro edge hedge
    obtain ⟨-, o, hfree, hget, -⟩ := leads_of_closureFrom hclosure hedge
    exact ⟨o, visibleObject_eq_ok.mpr ⟨hfree, hget⟩⟩
  obtain ⟨hkinds, hacyclic⟩ :=
    (closure_isOk_iff hsound hsize hheld).mp ⟨closure, hclosure, hgraphs⟩
  refine ⟨⟨storesTyped_of_check hoperation, fun line hmem id hid => ?_,
    fun edge hedge => hheld edge (hmono hedge)⟩, fun edge hedge => hkinds edge (hmono hedge),
    fun edge hedge => hacyclic edge (hmono hedge)⟩
  rcases hlines line hmem with rfl | rfl
  · obtain rfl := Except.ok.inj (hgenesis.symm.trans hid)
    exact storesTyped_of_check hline
  · obtain rfl := Except.ok.inj (hresigned.symm.trans hid)
    exact storesTyped_of_check hagain

/-- The bootstrap with one line is installed. -/
theorem installation_accepted_genesis :
    (sampleBootstrap [genesisLine] [sampleLineStateId]).validate .sha256 = .ok () ∧
      (sampleBootstrap [genesisLine] [sampleLineStateId]).installation .sha256 =
        .ok (samplePublication [sampleLineStateId]) ∧
      (publish (samplePublication [sampleLineStateId]) acceptAll
        (bootstrapCalls.foldl StoreCall.run {})).1.isOk = true := by
  obtain ⟨-, hvalid, hoperation, hline, -, hcheck⟩ := sampleBootstrap_checks
  have hinstall : (sampleBootstrap [genesisLine] [sampleLineStateId]).installation .sha256 =
      .ok (samplePublication [sampleLineStateId]) := by
    have hlineId : genesisLine.lineId = sampleStable := rfl
    simp [BootstrapGraph.installation, sampleBootstrap, LineState.creation, hoperation, hline,
      samplePublication, hlineId]
  refine ⟨hvalid, hinstall, ?_⟩
  obtain ⟨publication, hpublication, hiff⟩ := installation_accepted _ _ hvalid
  obtain rfl := Except.ok.inj (hinstall.symm.trans hpublication)
  simp only [storeCheck, Bool.and_eq_true, decide_eq_true_eq] at hcheck
  obtain ⟨⟨⟨⟨⟨⟨hempty, hsize⟩, hrevision⟩, -⟩, -⟩, -⟩, -⟩ := hcheck
  obtain ⟨hholds, hkinds, hacyclic⟩ :=
    sampleStore_holds [genesisLine] [sampleLineStateId] [sampleLineStateId] (by simp) (by simp)
  refine (hiff bootstrapCalls acceptAll ?_ hsize hholds fun _ _ => rfl).mpr ?_
  · exact Std.ExtTreeMap.isEmpty_iff.mp hempty
  · exact ⟨by simp [sampleBootstrap]; rfl, by simp [sampleBootstrap], rfl, hkinds, hacyclic, hrevision⟩

/-- The bootstrap with the same line twice validates, and everything it leads
to is there; but its publication creates the line twice. -/
theorem repeatedBootstrap_refused :
    repeatedBootstrap.validate .sha256 = .ok () ∧
      repeatedBootstrap.installation .sha256 =
        .ok (samplePublication [resignedLineId, sampleLineStateId]) ∧
      (bootstrapCalls.foldl StoreCall.run {}).references = ∅ ∧
      HoldsBootstrap (bootstrapCalls.foldl StoreCall.run {}) repeatedBootstrap .sha256
        (samplePublication [resignedLineId, sampleLineStateId]) ∧
      (publish (samplePublication [resignedLineId, sampleLineStateId]) acceptAll
        (bootstrapCalls.foldl StoreCall.run {})).1.isOk = false := by
  obtain ⟨hvalid, -, hoperation, hline, hagain, hcheck⟩ := sampleBootstrap_checks
  have hinstall : repeatedBootstrap.installation .sha256 =
      .ok (samplePublication [resignedLineId, sampleLineStateId]) := by
    have hlineId : genesisLine.lineId = sampleStable := rfl
    have hagainId : resignedLine.lineId = sampleStable := rfl
    simp [BootstrapGraph.installation, repeatedBootstrap, sampleBootstrap, LineState.creation,
      hoperation, hline, hagain, samplePublication, hlineId, hagainId]
  simp only [storeCheck, Bool.and_eq_true] at hcheck
  obtain ⟨⟨⟨⟨⟨⟨hempty, -⟩, -⟩, -⟩, -⟩, -⟩, -⟩ := hcheck
  obtain ⟨hholds, -⟩ := sampleStore_holds [resignedLine, genesisLine]
    [resignedLineId, sampleLineStateId] [resignedLineId, sampleLineStateId] (by simp) (by simp)
  refine ⟨hvalid, hinstall, Std.ExtTreeMap.isEmpty_iff.mp hempty, hholds, ?_⟩
  by_contra haccepted
  obtain ⟨p, hbegin, -⟩ := publish_isOk_iff.mp (by simpa using haccepted)
  obtain ⟨-, -, -, hstage⟩ := beginPublish_eq_ok.mp hbegin
  obtain ⟨_, -, hstaged, -⟩ := stage_eq_ok.mp hstage
  obtain ⟨-, -, -, hnodup, -⟩ := checkStaged_eq_ok.mp hstaged
  simp [samplePublication] at hnodup

end Sample

end RGit
