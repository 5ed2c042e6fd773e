/-
RGit/Merge/Conflicts.lean

Every conflict is stored once.

An unresolved conflict is looked up without the incoming snapshot and is
refreshed in place; a resolved one is matched with it.  What keeps the two
apart is that a conflict is stored only when no resolution matched it
(`applyResolutions_conflicts`), so that resolving it makes no second
resolution for the same sources (`Stored.step`).
-/
import RGit.Lib.Loops
import RGit.Merge.Integrate

namespace RGit.Cli

/-! ### Runs -/

inductive Command where
  | integrateLine (line actor : String)
  | resolveConflict (id : String) (decision : Resolution) (actor : String)
  | createSnapshot (message : String) (policy : AccessPolicy)
  | retarget (target actor : String)
  | createLine (name source actor : String)
  | resetLine (name target expected actor : String)

section Runs

variable (host : Host)

/-- The records that a command commits. -/
def Command.run (env : Env) (repo : Repo) : Command → Except CliError Repo
  | .integrateLine line actor => (·.2) <$> Cli.integrateLine host env repo line actor
  | .resolveConflict id decision actor => Cli.resolveConflict host env repo id decision actor
  | .createSnapshot message policy => Cli.createSnapshot host env repo message policy
  | .retarget target actor => Cli.retarget host repo target actor
  | .createLine name source actor => create { host with now := env.now } repo name source actor
  | .resetLine name target expected actor =>
      reset { host with now := env.now } repo name target expected actor

/-- A decision and what it was made for. -/
structure Decision where
  conflictId : String
  decision : Resolution
  line : String
  changeId : String
  base : Option String
  head : Option String
  incoming : String

/-- The decision that a command makes, with the merge base, the line head and
the incoming snapshot of that moment. -/
def Command.made (env : Env) (repo : Repo) : Command → Option Decision
  | .resolveConflict id decision actorName =>
      match readActor repo actorName, readConflict repo id,
          Cli.resolveConflict host env repo id decision actorName with
      | .ok actor, .ok conflict, .ok _ =>
          match resolutionSources repo actor conflict with
          | .ok (line, change, incoming) =>
              some ⟨id, decision, line.name, change.id, change.baseSnapshot, line.headSnapshot,
                incoming.id⟩
          | .error _ => none
      | _, _, _ => none
  | _ => none

/-- The decisions that a command applies to its plan, with the merge base, the
line head and the incoming snapshot of the plan. -/
def Command.applied (repo : Repo) : Command → List Decision
  | .integrateLine lineName actorName =>
      match integrationSources repo lineName actorName with
      | .ok s =>
          let files (snapshot : Option Snapshot) := (snapshot.map (·.files)).getD []
          let plan := planMerge (files s.base) (files s.head) s.incoming.files
          plan.conflicts.flatMap fun pending =>
            (matchingResolutions repo s.line s.change s.incoming pending).flatMap fun conflict =>
              conflict.resolution.toList.map fun decision =>
                ⟨conflict.id, decision, s.line.name, s.change.id, s.change.baseSnapshot,
                  s.line.headSnapshot, s.incoming.id⟩
      | .error _ => []
  | _ => []

/-- One command after the other, with the decisions made so far: a command
that fails commits nothing. -/
def runs : List (Env × Command) → Repo × List Decision → Repo × List Decision
  | [], state => state
  | (env, command) :: rest, (repo, log) =>
      runs rest ((command.run host env repo).toOption.getD repo,
        log ++ (command.made host env repo).toList)

end Runs

/-! ### Keys -/

/-- What an unresolved conflict is looked up by. -/
def Conflict.slot (c : Conflict) : String × String × Option String × Option String × String :=
  (c.line, c.changeId, c.baseSnapshot, c.lineSnapshot, c.path)

/-- What a resolution is matched by. -/
def Conflict.sources (c : Conflict) :
    (String × String × Option String × Option String × String) × String × ConflictKind :=
  (c.slot, c.incomingSnapshot, c.kind)

/-- A decision was made for the sources of a conflict. -/
def Decision.MadeFor (d : Decision) (c : Conflict) : Prop :=
  d.conflictId = c.id ∧ c.resolution = some d.decision ∧ d.line = c.line ∧
    d.changeId = c.changeId ∧ d.base = c.baseSnapshot ∧ d.head = c.lineSnapshot ∧
    d.incoming = c.incomingSnapshot

/-- The invariant of the stored conflicts. -/
structure Stored (repo : Repo) (log : List Decision) : Prop where
  keyed : ∀ (k : String) (c : Conflict), repo.conflicts[k]? = some c → c.id = k
  unresolved : ∀ (k k' : String) (c c' : Conflict), repo.conflicts[k]? = some c →
    repo.conflicts[k']? = some c' → c.status = .unresolved → c'.status = .unresolved →
    c.slot = c'.slot → k = k'
  resolved : ∀ (k k' : String) (c c' : Conflict), repo.conflicts[k]? = some c →
    repo.conflicts[k']? = some c' → c.status = .resolved → c'.status = .resolved →
    c.sources = c'.sources → k = k'
  apart : ∀ (k k' : String) (c c' : Conflict), repo.conflicts[k]? = some c →
    repo.conflicts[k']? = some c' → c.status = .unresolved → c'.status = .resolved →
    c.sources ≠ c'.sources
  made : ∀ (k : String) (c : Conflict), repo.conflicts[k]? = some c → c.status = .resolved →
    ∃ d ∈ log, d.MadeFor c

/-- The sources of a conflict of a plan. -/
def PendingConflict.sources (pending : PendingConflict) (line : Line) (change : Change)
    (incoming : Snapshot) :
    (String × String × Option String × Option String × String) × String × ConflictKind :=
  ((line.name, change.id, change.baseSnapshot, line.headSnapshot, pending.path), incoming.id,
    pending.kind)

theorem matches_iff_sources {c : Conflict} {line : Line} {change : Change} {incoming : Snapshot}
    {pending : PendingConflict} :
    (c.status == .resolved && c.path == pending.path && c.kind == pending.kind &&
        matchesSources c line change incoming) = true ↔
      c.status = .resolved ∧ c.sources = pending.sources line change incoming := by
  simp only [matchesSources, Bool.and_eq_true, beq_iff_eq, Conflict.sources, Conflict.slot,
    PendingConflict.sources, Prod.mk.injEq]
  constructor
  · rintro ⟨⟨⟨hstatus, hpath⟩, hkind⟩, ⟨⟨⟨hline, hchange⟩, hbase⟩, hhead⟩, hincoming⟩
    exact ⟨hstatus, ⟨hline, hchange, hbase, hhead, hpath⟩, hincoming, hkind⟩
  · rintro ⟨hstatus, ⟨hline, hchange, hbase, hhead, hpath⟩, hincoming, hkind⟩
    exact ⟨⟨⟨hstatus, hpath⟩, hkind⟩, ⟨⟨⟨hline, hchange⟩, hbase⟩, hhead⟩, hincoming⟩

theorem mem_matchingResolutions {repo : Repo} {c : Conflict} {line : Line} {change : Change}
    {incoming : Snapshot} {pending : PendingConflict} :
    c ∈ matchingResolutions repo line change incoming pending ↔
      (∃ k : String, repo.conflicts[k]? = some c) ∧ c.status = .resolved ∧
        c.sources = pending.sources line change incoming := by
  rw [matchingResolutions, List.mem_filter, BTreeMap.mem_values_iff, matches_iff_sources]

/-- No resolution is stored for a conflict of a plan. -/
def Unmatched (repo : Repo) (line : Line) (change : Change) (incoming : Snapshot)
    (pending : PendingConflict) : Prop :=
  ∀ (k : String) (c : Conflict), repo.conflicts[k]? = some c → c.status = .resolved →
    c.sources ≠ pending.sources line change incoming

theorem unmatched_of_nil {repo : Repo} {line : Line} {change : Change} {incoming : Snapshot}
    {pending : PendingConflict} (h : matchingResolutions repo line change incoming pending = []) :
    Unmatched repo line change incoming pending := by
  intro k c hget hstatus hsources
  have hmem := mem_matchingResolutions.mpr ⟨⟨k, hget⟩, hstatus, hsources⟩
  rw [h] at hmem
  cases hmem

namespace Stored

variable {repo repo' : Repo} {log : List Decision}

theorem congr (h : Stored repo log) (hconflicts : repo'.conflicts = repo.conflicts) :
    Stored repo' log := by
  obtain ⟨hkeyed, hunresolved, hresolved, hapart, hmade⟩ := h
  rw [← hconflicts] at hkeyed hunresolved hresolved hapart hmade
  exact ⟨hkeyed, hunresolved, hresolved, hapart, hmade⟩

theorem more (h : Stored repo log) (decisions : List Decision) :
    Stored repo (log ++ decisions) := by
  refine ⟨h.keyed, h.unresolved, h.resolved, h.apart, ?_⟩
  intro k c hget hstatus
  obtain ⟨d, hd, hmade⟩ := h.made k c hget hstatus
  exact ⟨d, List.mem_append_left _ hd, hmade⟩

/-- An unresolved conflict takes the place of the one with its slot, and has
no resolution. -/
theorem write_unresolved (h : Stored repo log) {c : Conflict} (hstatus : c.status = .unresolved)
    (hslot : ∀ (k : String) (c' : Conflict), repo.conflicts[k]? = some c' →
      c'.status = .unresolved → c'.slot = c.slot → k = c.id)
    (hsources : ∀ (k : String) (c' : Conflict), repo.conflicts[k]? = some c' →
      c'.status = .resolved → c'.sources ≠ c.sources) :
    Stored { repo with conflicts := repo.conflicts.insert c.id c } log := by
  have hnot : c.status ≠ .resolved := by
    rw [hstatus]
    decide
  refine ⟨?_, ?_, ?_, ?_, ?_⟩ <;> simp only [BTreeMap.get_insert_eq_some_iff]
  · rintro k c' (⟨hk, rfl⟩ | ⟨-, hget⟩)
    · exact hk
    · exact h.keyed k c' hget
  · rintro k k' a b (⟨rfl, rfl⟩ | ⟨hk, ha⟩) (⟨rfl, rfl⟩ | ⟨hk', hb⟩) hastatus hbstatus heq
    · rfl
    · exact (hslot k' b hb hbstatus heq.symm).symm
    · exact hslot k a ha hastatus heq
    · exact h.unresolved k k' a b ha hb hastatus hbstatus heq
  · rintro k k' a b (⟨rfl, rfl⟩ | ⟨hk, ha⟩) (⟨rfl, rfl⟩ | ⟨hk', hb⟩) hastatus hbstatus heq
    · rfl
    · exact absurd hastatus hnot
    · exact absurd hbstatus hnot
    · exact h.resolved k k' a b ha hb hastatus hbstatus heq
  · rintro k k' a b (⟨rfl, rfl⟩ | ⟨hk, ha⟩) (⟨rfl, rfl⟩ | ⟨hk', hb⟩) hastatus hbstatus
    · exact absurd hbstatus hnot
    · exact (hsources k' b hb hbstatus).symm
    · exact absurd hbstatus hnot
    · exact h.apart k k' a b ha hb hastatus hbstatus
  · rintro k a (⟨rfl, rfl⟩ | ⟨hk, ha⟩) hastatus
    · exact absurd hastatus hnot
    · exact h.made k a ha hastatus

/-- A conflict keeps its sources when it is resolved, for the first time or
again. -/
theorem write_resolved (h : Stored repo log) {c e : Conflict}
    (hget : repo.conflicts[c.id]? = some e) (hstatus : c.status = .resolved)
    (hsources : c.sources = e.sources) (hmade : ∃ d ∈ log, d.MadeFor c) :
    Stored { repo with conflicts := repo.conflicts.insert c.id c } log := by
  have hslot : c.slot = e.slot := congrArg (·.1) hsources
  have hnot : c.status ≠ .unresolved := by
    rw [hstatus]
    decide
  -- nothing else has the sources of the conflict
  have hunresolved : ∀ (k : String) (a : Conflict), c.id ≠ k → repo.conflicts[k]? = some a →
      a.status = .unresolved → a.sources ≠ c.sources := by
    intro k a hk ha hastatus heq
    rw [hsources] at heq
    cases hestatus : e.status with
    | unresolved =>
        exact hk (h.unresolved c.id k e a hget ha hestatus hastatus (congrArg (·.1) heq).symm)
    | resolved => exact h.apart k c.id a e ha hget hastatus hestatus heq
  have hresolved : ∀ (k : String) (a : Conflict), c.id ≠ k → repo.conflicts[k]? = some a →
      a.status = .resolved → a.sources ≠ c.sources := by
    intro k a hk ha hastatus heq
    rw [hsources] at heq
    cases hestatus : e.status with
    | unresolved => exact h.apart c.id k e a hget ha hestatus hastatus heq.symm
    | resolved => exact hk (h.resolved c.id k e a hget ha hestatus hastatus heq.symm)
  refine ⟨?_, ?_, ?_, ?_, ?_⟩ <;> simp only [BTreeMap.get_insert_eq_some_iff]
  · rintro k c' (⟨hk, rfl⟩ | ⟨-, hget⟩)
    · exact hk
    · exact h.keyed k c' hget
  · rintro k k' a b (⟨rfl, rfl⟩ | ⟨hk, ha⟩) (⟨rfl, rfl⟩ | ⟨hk', hb⟩) hastatus hbstatus heq
    · rfl
    · exact absurd hastatus hnot
    · exact absurd hbstatus hnot
    · exact h.unresolved k k' a b ha hb hastatus hbstatus heq
  · rintro k k' a b (⟨rfl, rfl⟩ | ⟨hk, ha⟩) (⟨rfl, rfl⟩ | ⟨hk', hb⟩) hastatus hbstatus heq
    · rfl
    · exact absurd heq.symm (hresolved k' b hk' hb hbstatus)
    · exact absurd heq (hresolved k a hk ha hastatus)
    · exact h.resolved k k' a b ha hb hastatus hbstatus heq
  · rintro k k' a b (⟨rfl, rfl⟩ | ⟨hk, ha⟩) (⟨rfl, rfl⟩ | ⟨hk', hb⟩) hastatus hbstatus
    · exact absurd hastatus hnot
    · exact absurd hastatus hnot
    · exact hunresolved k a hk ha hastatus
    · exact h.apart k k' a b ha hb hastatus hbstatus
  · rintro k a (⟨rfl, rfl⟩ | ⟨hk, ha⟩) hastatus
    · exact hmade
    · exact h.made k a ha hastatus

end Stored

/-! ### Storing conflicts -/

section Store

variable {host : Host} {env : Env} {repo repo' : Repo} {log : List Decision} {line : Line}
  {change : Change} {incoming : Snapshot} {sourcePolicy : AccessPolicy}

theorem writeConflict_eq_ok {c : Conflict} (h : writeConflict repo c = .ok repo') :
    repo' = { repo with conflicts := repo.conflicts.insert c.id c } := by
  obtain ⟨-, h⟩ := Except.bind_unit_eq_ok.mp h
  exact (Except.ok.inj h).symm

theorem findExisting_slot {c : Conflict} {path : String} :
    (c.status == .unresolved && c.line == line.name && c.changeId == change.id &&
        c.baseSnapshot == change.baseSnapshot && c.lineSnapshot == line.headSnapshot &&
        c.path == path) = true ↔
      c.status = .unresolved ∧
        c.slot = (line.name, change.id, change.baseSnapshot, line.headSnapshot, path) := by
  simp only [Bool.and_eq_true, beq_iff_eq, Conflict.slot, Prod.mk.injEq]
  tauto

/-- The resolutions of the second repository are resolutions of the first. -/
def NoNewResolution (repo repo' : Repo) : Prop :=
  ∀ (k : String) (c : Conflict), repo'.conflicts[k]? = some c → c.status = .resolved →
    repo.conflicts[k]? = some c

theorem noNewResolution_insert {c : Conflict} (hstatus : c.status = .unresolved)
    (hconflicts : repo'.conflicts = repo.conflicts.insert c.id c) : NoNewResolution repo repo' := by
  intro k c' hget hresolved
  rw [hconflicts, BTreeMap.get_insert_eq_some_iff] at hget
  rcases hget with ⟨-, rfl⟩ | ⟨-, hget⟩
  · rw [hstatus] at hresolved
    cases hresolved
  · exact hget

/-- One pass: a conflict without a resolution is refreshed or created. -/
theorem storeConflict_stored {pending : PendingConflict × Nat} (hstored : Stored repo log)
    (hunmatched : Unmatched repo line change incoming pending.1)
    (h : storeConflict host env line change incoming sourcePolicy repo pending = .ok repo') :
    Stored repo' log ∧ NoNewResolution repo repo' := by
  rw [storeConflict] at h
  cases hfind : findExistingUnresolvedConflict repo line change pending.1.path with
  | some existing =>
      rw [hfind] at h
      obtain ⟨hmatch, hmem⟩ := And.intro (List.find?_some hfind) (List.mem_of_find?_eq_some hfind)
      obtain ⟨hstatus, hslot⟩ := findExisting_slot.mp hmatch
      obtain ⟨key, hget⟩ := BTreeMap.mem_values_iff.mp hmem
      obtain rfl := hstored.keyed key existing hget
      obtain rfl := writeConflict_eq_ok h
      refine ⟨hstored.write_unresolved hstatus ?_ ?_, noNewResolution_insert
        (c := refreshConflict existing change incoming sourcePolicy pending.1) hstatus rfl⟩
      · intro k c' hc' hstatus' heq
        exact hstored.unresolved k existing.id c' existing hc' hget hstatus' hstatus heq
      · intro k c' hc' hstatus' heq
        refine hunmatched k c' hc' hstatus' (heq.trans ?_)
        exact congrArg (·, incoming.id, pending.1.kind) hslot
  | none =>
      rw [hfind] at h
      obtain ⟨written, hwrite, h⟩ := Except.bind_eq_ok.mp h
      obtain rfl := writeConflict_eq_ok hwrite
      obtain rfl := Except.ok.inj h
      have hnew : Stored _ log := hstored.write_unresolved
        (show (newConflict env line change incoming sourcePolicy pending.1 pending.2).status =
          .unresolved from rfl) ?_ hunmatched
      · exact ⟨hnew.congr rfl, noNewResolution_insert rfl rfl⟩
      · intro k c' hc' hstatus' heq
        have hnone := List.find?_eq_none.mp hfind c' (BTreeMap.mem_values_iff.mpr ⟨k, hc'⟩)
        exact absurd (findExisting_slot.mpr ⟨hstatus', heq⟩) hnone

/-- The loop, for conflicts none of which has a resolution. -/
theorem storeConflicts_stored {pendings : List PendingConflict} (hstored : Stored repo log)
    (hunmatched : ∀ pending ∈ pendings, Unmatched repo line change incoming pending)
    (h : storeConflicts host env repo line change incoming sourcePolicy pendings = .ok repo') :
    Stored repo' log := by
  have hloop : Stored repo' log ∧ NoNewResolution repo repo' := by
    refine foldlM_preserves (P := fun r => Stored r log ∧ NoNewResolution repo r) ?_
      ⟨hstored, fun _ _ hget _ => hget⟩ h
    rintro pending hpending r r' ⟨hr, hresolved⟩ hstep
    have hmem : pending.1 ∈ pendings := List.fst_mem_of_mem_zipIdx hpending
    have hr' := storeConflict_stored hr (fun k c hget hstatus =>
      hunmatched pending.1 hmem k c (hresolved k c hget hstatus) hstatus) hstep
    exact ⟨hr'.1, fun k c hget hstatus => hresolved k c (hr'.2 k c hget hstatus) hstatus⟩
  exact hloop.1

end Store

/-! ### Plans -/

section Plans

variable {host : Host} {env : Env} {repo : Repo} {actor : Actor} {line : Line} {change : Change}
  {incoming : Snapshot}

/-- The conflicts that are left have no resolution. -/
theorem applyResolutions_conflicts {plan plan' : MergePlan}
    (h : applyResolutions host repo actor line change incoming plan = .ok plan') :
    ∀ pending ∈ plan'.conflicts, Unmatched repo line change incoming pending := by
  rw [applyResolutions] at h
  split at h
  · next hempty =>
      obtain rfl := Except.ok.inj h
      rw [List.isEmpty_iff] at hempty
      simp [hempty]
  · obtain ⟨applied, happlied, h⟩ := Except.bind_eq_ok.mp h
    obtain rfl := Except.ok.inj h
    suffices hloop : ∀ pending ∈ applied.conflicts, Unmatched repo line change incoming pending
      from hloop
    refine foldlM_preserves (P := fun p : MergePlan =>
      ∀ pending ∈ p.conflicts, Unmatched repo line change incoming pending) ?_ ?_ happlied
    · intro pending _ p p' hp hstep
      rw [applyResolution] at hstep
      split at hstep
      · cases hstep
      · obtain ⟨-, hstep⟩ := Except.ite_error_eq_ok.mp hstep
        obtain ⟨decision, -, hstep⟩ := Except.bind_eq_ok.mp hstep
        obtain ⟨files, -, hstep⟩ := Except.bind_eq_ok.mp hstep
        obtain rfl := Except.ok.inj hstep
        exact hp
      · next hnil =>
          obtain rfl := Except.ok.inj hstep
          rw [List.forall_mem_append]
          exact ⟨hp, by simpa using unmatched_of_nil hnil⟩
    · intro pending hpending
      cases hpending

/-- Merging texts only takes conflicts away. -/
theorem textMergeApply_conflicts {plan plan' : MergePlan} {base head incoming : Option Snapshot}
    {generated : BTreeMap String Bytes}
    (h : textMergeApply host env repo plan base head incoming = .ok (plan', generated)) :
    ∀ pending ∈ plan'.conflicts, pending ∈ plan.conflicts := by
  obtain ⟨state, hstate, h⟩ := Except.bind_eq_ok.mp h
  cases h
  refine foldlM_preserves (P := fun t : TextState =>
    ∀ pending ∈ t.unresolved, pending ∈ plan.conflicts) ?_ (by simp) hstate
  intro pending hpending t t' ht hstep
  rw [applyText] at hstep
  obtain ⟨merged, -, hstep⟩ := Except.bind_eq_ok.mp hstep
  split at hstep
  · obtain rfl := Except.ok.inj hstep
    exact ht
  · obtain rfl := Except.ok.inj hstep
    rw [List.forall_mem_append]
    exact ⟨ht, by simpa using hpending⟩

theorem integrationPlan_conflicts {s : Sources} {plan : MergePlan}
    {generated : BTreeMap String Bytes} (h : integrationPlan host env repo s = .ok (plan, generated)) :
    ∀ pending ∈ plan.conflicts, Unmatched repo s.line s.change s.incoming pending := by
  obtain ⟨applied, happlied, h⟩ := Except.bind_eq_ok.mp h
  intro pending hpending
  exact applyResolutions_conflicts happlied pending (textMergeApply_conflicts h pending hpending)

end Plans

/-! ### Commands that leave the conflicts -/

section Frames

variable {host : Host} {env : Env} {repo repo' : Repo}

theorem storeBlob_conflicts {bytes : Bytes} {message : String}
    (h : storeBlob host repo bytes message = .ok repo') : repo'.conflicts = repo.conflicts := by
  rw [storeBlob] at h
  split at h
  · obtain ⟨-, h⟩ := Except.ite_error_eq_ok.mp h
    rw [← Except.ok.inj h]
  · rw [← Except.ok.inj h]

theorem scanWorkingTree_conflicts {files : List FileEntry}
    (h : scanWorkingTree host env repo = .ok (files, repo')) :
    repo'.conflicts = repo.conflicts := by
  obtain ⟨⟨scanned, r⟩, hscan, h⟩ := Except.bind_eq_ok.mp h
  cases h
  refine foldlM_preserves (P := fun t : List FileEntry × Repo => t.2.conflicts = repo.conflicts)
    ?_ rfl hscan
  rintro ⟨path, file⟩ - t t' ht hstep
  obtain ⟨stored, hstored, hstep⟩ := Except.bind_eq_ok.mp hstep
  obtain ⟨-, -, hstep⟩ := Except.bind_eq_ok.mp hstep
  cases hstep
  exact (storeBlob_conflicts hstored).trans ht

theorem writeSnapshot_conflicts {snapshot : Snapshot} (h : writeSnapshot repo snapshot = .ok repo') :
    repo'.conflicts = repo.conflicts := by
  obtain ⟨-, h⟩ := Except.bind_unit_eq_ok.mp h
  rw [← Except.ok.inj h]

theorem writeChange_conflicts {change : Change} (h : writeChange repo change = .ok repo') :
    repo'.conflicts = repo.conflicts := by
  obtain ⟨-, h⟩ := Except.bind_unit_eq_ok.mp h
  rw [← Except.ok.inj h]

theorem writeWorkspace_conflicts (repo : Repo) (workspace : Workspace) :
    (writeWorkspace repo workspace).conflicts = repo.conflicts := by
  rw [writeWorkspace]
  cases repo.workspaceId <;> rfl

theorem createSnapshot_conflicts {message : String} {policy : AccessPolicy}
    (h : createSnapshot host env repo message policy = .ok repo') :
    repo'.conflicts = repo.conflicts := by
  obtain ⟨workspace, -, h⟩ := Except.bind_eq_ok.mp h
  obtain ⟨change, -, h⟩ := Except.bind_eq_ok.mp h
  obtain ⟨⟨files, scanned⟩, hscan, h⟩ := Except.bind_eq_ok.mp h
  obtain ⟨author, -, h⟩ := Except.bind_eq_ok.mp h
  obtain ⟨r, hsnapshot, h⟩ := Except.bind_eq_ok.mp h
  obtain ⟨r', hchange, h⟩ := Except.bind_eq_ok.mp h
  obtain rfl := Except.ok.inj h
  have hchanges : r'.conflicts = r.conflicts := writeChange_conflicts hchange
  have hsnapshots := writeSnapshot_conflicts hsnapshot
  have hscanned : scanned.conflicts = repo.conflicts := scanWorkingTree_conflicts hscan
  exact hchanges.trans (hsnapshots.trans ((writeWorkspace_conflicts _ _).trans hscanned))

theorem retarget_conflicts {target actor : String} (h : retarget host repo target actor = .ok repo') :
    repo'.conflicts = repo.conflicts := by
  obtain ⟨_, -, h⟩ := Except.bind_eq_ok.mp h
  obtain ⟨change, -, h⟩ := Except.bind_eq_ok.mp h
  obtain ⟨line, -, h⟩ := Except.bind_eq_ok.mp h
  obtain ⟨-, h⟩ := Except.ite_error_eq_ok.mp h
  obtain ⟨r, hchange, h⟩ := Except.bind_eq_ok.mp h
  obtain rfl := Except.ok.inj h
  have hchanges : r.conflicts = repo.conflicts := writeChange_conflicts hchange
  exact hchanges

theorem create_conflicts {name source actor : String}
    (h : create host repo name source actor = .ok repo') : repo'.conflicts = repo.conflicts := by
  obtain ⟨_, -, h⟩ := Except.bind_eq_ok.mp h
  obtain ⟨_, -, h⟩ := Except.bind_eq_ok.mp h
  obtain ⟨-, h⟩ := Except.ite_error_eq_ok.mp h
  obtain ⟨_, -, h⟩ := Except.bind_eq_ok.mp h
  obtain ⟨-, h⟩ := Except.ite_error_eq_ok.mp h
  obtain ⟨_, -, h⟩ := Except.bind_eq_ok.mp h
  rw [← Except.ok.inj h]
  rfl

theorem reset_conflicts {name target expected actor : String}
    (h : reset host repo name target expected actor = .ok repo') :
    repo'.conflicts = repo.conflicts := by
  obtain ⟨_, -, h⟩ := Except.bind_eq_ok.mp h
  obtain ⟨_, -, h⟩ := Except.bind_eq_ok.mp h
  obtain ⟨_, -, h⟩ := Except.bind_eq_ok.mp h
  obtain ⟨_, -, h⟩ := Except.bind_eq_ok.mp h
  obtain ⟨-, h⟩ := Except.ite_error_eq_ok.mp h
  obtain ⟨_, -, h⟩ := Except.bind_eq_ok.mp h
  obtain ⟨-, h⟩ := Except.ite_error_eq_ok.mp h
  split at h
  · rw [← Except.ok.inj h]
  · obtain ⟨_, -, h⟩ := Except.bind_eq_ok.mp h
    rw [← Except.ok.inj h]
    rfl

theorem textMergePublish_conflicts {generated : BTreeMap String Bytes}
    (h : textMergePublish repo generated = .ok repo') : repo'.conflicts = repo.conflicts := by
  refine foldlM_preserves (P := fun r : Repo => r.conflicts = repo.conflicts) ?_ rfl h
  intro blob _ r r' hr hstep
  rw [publishText] at hstep
  split at hstep
  · obtain ⟨_, -, hstep⟩ := Except.bind_eq_ok.mp hstep
    obtain ⟨-, hstep⟩ := Except.ite_error_eq_ok.mp hstep
    rw [← Except.ok.inj hstep]
    exact hr
  · rw [← Except.ok.inj hstep]
    exact hr

theorem publishIntegration_conflicts {s : Sources} {plan : MergePlan}
    {generated : BTreeMap String Bytes} {policy : AccessPolicy}
    (h : publishIntegration host env repo s plan generated policy = .ok repo') :
    repo'.conflicts = repo.conflicts := by
  obtain ⟨-, -, h⟩ := Except.bind_eq_ok.mp h
  obtain ⟨published, hpublish, h⟩ := Except.bind_eq_ok.mp h
  obtain ⟨_, -, h⟩ := Except.bind_eq_ok.mp h
  obtain ⟨r, hsnapshot, h⟩ := Except.bind_eq_ok.mp h
  rw [← Except.ok.inj h]
  exact (writeSnapshot_conflicts hsnapshot).trans (textMergePublish_conflicts hpublish)

end Frames

/-! ### Commands that write conflicts -/

section Steps

variable {host : Host} {env : Env} {repo repo' : Repo} {log : List Decision}

theorem integrateLine_stored {lineName actorName : String} {outcome : Integration}
    (hstored : Stored repo log)
    (h : integrateLine host env repo lineName actorName = .ok (outcome, repo')) :
    Stored repo' log := by
  obtain ⟨s, -, h⟩ := Except.bind_eq_ok.mp h
  split at h
  · cases h
    exact hstored
  · obtain ⟨⟨plan, generated⟩, hplan, h⟩ := Except.bind_eq_ok.mp h
    dsimp only at h
    split at h
    · obtain ⟨r, hstore, h⟩ := Except.bind_eq_ok.mp h
      cases h
      exact storeConflicts_stored hstored (integrationPlan_conflicts hplan) hstore
    · obtain ⟨r, hpublish, h⟩ := Except.bind_eq_ok.mp h
      cases h
      exact hstored.congr (publishIntegration_conflicts hpublish)

theorem customReplacement_conflicts {actor : Actor} {conflict : Conflict} {file : FileEntry}
    (h : customReplacement host env repo actor conflict = .ok (file, repo')) :
    repo'.conflicts = repo.conflicts := by
  obtain ⟨-, h⟩ := Except.ite_error_eq_ok.mp h
  obtain ⟨-, -, h⟩ := Except.bind_eq_ok.mp h
  obtain ⟨working, -, h⟩ := Except.bind_eq_ok.mp h
  obtain ⟨-, -, h⟩ := Except.bind_eq_ok.mp h
  obtain ⟨r, hstore, h⟩ := Except.bind_eq_ok.mp h
  cases h
  exact storeBlob_conflicts hstore

/-- A decision is added, and the sources are kept. -/
theorem decide_eq_ok {actor : Actor} {conflict resolved : Conflict} {decision : Resolution}
    (h : decide host env repo actor conflict decision = .ok (resolved, repo')) :
    repo'.conflicts = repo.conflicts ∧ resolved.id = conflict.id ∧ resolved.status = .resolved ∧
      resolved.resolution = some decision ∧ resolved.sources = conflict.sources := by
  rw [decide] at h
  split at h
  · obtain ⟨⟨file, r⟩, hcustom, h⟩ := Except.bind_eq_ok.mp h
    obtain ⟨effective, -, h⟩ := Except.bind_eq_ok.mp h
    cases h
    exact ⟨customReplacement_conflicts hcustom, rfl, rfl, rfl, rfl⟩
  · obtain ⟨files, -, h⟩ := Except.bind_eq_ok.mp h
    cases h
    exact ⟨rfl, rfl, rfl, rfl, rfl⟩

theorem resolutionSources_eq_ok {actor : Actor} {conflict : Conflict} {line : Line}
    {change : Change} {incoming : Snapshot}
    (h : resolutionSources repo actor conflict = .ok (line, change, incoming)) :
    matchesSources conflict line change incoming = true := by
  obtain ⟨_, -, h⟩ := Except.bind_eq_ok.mp h
  obtain ⟨_, -, h⟩ := Except.bind_eq_ok.mp h
  obtain ⟨_, -, h⟩ := Except.bind_eq_ok.mp h
  obtain ⟨-, h⟩ := Except.ite_error_eq_ok.mp h
  obtain ⟨base, -, h⟩ := Except.bind_eq_ok.mp h
  obtain ⟨hsources, h⟩ := Except.ite_error_eq_ok.mp h
  cases h
  rw [not_or] at hsources
  simpa using hsources.1

/-- Resolving a conflict makes one decision, for the sources of that moment. -/
theorem resolveConflict_stored {id actorName : String} {decision : Resolution}
    (hstored : Stored repo log)
    (h : resolveConflict host env repo id decision actorName = .ok repo') :
    Stored repo' (log ++ ((Command.resolveConflict id decision actorName).made host env
      repo).toList) := by
  have hresolve := h
  obtain ⟨actor, hactor, h⟩ := Except.bind_eq_ok.mp h
  obtain ⟨conflict, hconflict, h⟩ := Except.bind_eq_ok.mp h
  rw [Except.mapError_eq_ok] at hconflict
  obtain ⟨-, h⟩ := Except.ite_error_eq_ok.mp h
  obtain ⟨⟨line, change, incoming⟩, hsources, h⟩ := Except.bind_eq_ok.mp h
  obtain ⟨_, -, h⟩ := Except.bind_eq_ok.mp h
  obtain ⟨-, h⟩ := Except.ite_error_eq_ok.mp h
  obtain ⟨⟨resolved, r⟩, hdecide, h⟩ := Except.bind_eq_ok.mp h
  obtain ⟨written, hwrite, h⟩ := Except.bind_eq_ok.mp h
  obtain rfl := writeConflict_eq_ok hwrite
  obtain rfl := Except.ok.inj h
  obtain ⟨-, hget, hid⟩ := readConflict_eq_ok.mp hconflict
  obtain ⟨hconflicts, hresolvedId, hstatus, hresolution, hkeep⟩ := decide_eq_ok hdecide
  have hmatch := resolutionSources_eq_ok hsources
  simp only [matchesSources, Bool.and_eq_true, beq_iff_eq] at hmatch
  obtain ⟨⟨⟨⟨hline, hchange⟩, hbase⟩, hhead⟩, hincoming⟩ := hmatch
  simp only [Conflict.sources, Conflict.slot, Prod.mk.injEq] at hkeep
  let d : Decision := ⟨id, decision, line.name, change.id, change.baseSnapshot,
    line.headSnapshot, incoming.id⟩
  have hmade : (Command.resolveConflict id decision actorName).made host env repo = some d := by
    simp only [Command.made, hactor, hconflict, hresolve, hsources]
    rfl
  rw [hmade]
  have hr : Stored r (log ++ [d]) := (hstored.congr hconflicts).more _
  refine (hr.write_resolved (c := resolved) (e := conflict) ?_ hstatus ?_
    ⟨d, List.mem_append_right _ (List.mem_singleton.mpr rfl), ?_⟩).congr rfl
  · rw [hconflicts, hresolvedId, hid]
    exact hget
  · simp only [Conflict.sources, Conflict.slot, Prod.mk.injEq]
    exact hkeep
  · obtain ⟨⟨hline', hchange', hbase', hhead', -⟩, hincoming', -⟩ := hkeep
    exact ⟨(hresolvedId.trans hid).symm, hresolution, (hline'.trans hline).symm,
      (hchange'.trans hchange).symm, (hbase'.trans hbase).symm, (hhead'.trans hhead).symm,
      (hincoming'.trans hincoming).symm⟩

/-- **One command keeps the invariant.** -/
theorem Stored.step (hstored : Stored repo log) (env : Env) (command : Command) :
    Stored ((command.run host env repo).toOption.getD repo)
      (log ++ (command.made host env repo).toList) := by
  cases hrun : command.run host env repo with
  | error e => exact hstored.more _
  | ok repo' =>
      show Stored repo' _
      cases command with
      | integrateLine line actor =>
          obtain ⟨⟨outcome, r⟩, hintegrate, rfl⟩ := Except.map_eq_ok.mp hrun
          exact (integrateLine_stored hstored hintegrate).more _
      | resolveConflict id decision actor => exact resolveConflict_stored hstored hrun
      | createSnapshot message policy =>
          exact (hstored.congr (createSnapshot_conflicts hrun)).more _
      | retarget target actor => exact (hstored.congr (retarget_conflicts hrun)).more _
      | createLine name source actor => exact (hstored.congr (create_conflicts hrun)).more _
      | resetLine name target expected actor =>
          exact (hstored.congr (reset_conflicts hrun)).more _

theorem Stored.runs (h : Stored repo log) (commands : List (Env × Command)) :
    Stored (runs host commands (repo, log)).1 (Cli.runs host commands (repo, log)).2 := by
  induction commands generalizing repo log with
  | nil => exact h
  | cons step rest ih => exact ih (h.step step.1 step.2)

end Steps

end RGit.Cli
