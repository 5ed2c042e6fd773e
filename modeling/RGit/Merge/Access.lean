/-
RGit/Merge/Access.lean

Merging and resolving never widens access.

Wherever two policies meet, the code keeps a policy on which all agree or
takes the one of the administrators, which admits nobody that another one
does not (`narrower_admin`).
-/
import RGit.Lib.Loops
import RGit.Merge.Records
import RGit.Merge.Rule

namespace RGit.Cli

/-! ### Narrower policies -/

/-- Whoever passes the first policy passes the second. -/
def Narrower (policy policy' : AccessPolicy) : Prop :=
  ∀ actor : Actor, canAccess actor policy = true → canAccess actor policy' = true

theorem Narrower.refl (policy : AccessPolicy) : Narrower policy policy := fun _ h => h

theorem narrower_admin (policy : AccessPolicy) : Narrower adminPolicy policy := by
  intro actor h
  rw [canAccess, Bool.or_eq_true] at h ⊢
  refine .inl (h.elim id fun hdomain => ?_)
  simpa [adminPolicy] using hdomain

/-- Policies with the same domains admit the same actors. -/
theorem Narrower.of_domains {policy policy' : AccessPolicy} (h : policy.domains = policy'.domains) :
    Narrower policy policy' := by
  intro actor hc
  rwa [canAccess, ← h]

/-- A policy that gives way when another one differs. -/
theorem narrower_ite {policy other : AccessPolicy} {differs : Prop} [Decidable differs]
    (h : ¬differs → policy = other) :
    Narrower (if differs then adminPolicy else policy) other := by
  split
  · exact narrower_admin other
  · next hsame => exact h hsame ▸ .refl policy

/-! ### Resolving a conflict -/

section Resolve

variable (host : Host) (repo : Repo) (actor : Actor)

/-- The files of a snapshot that are at or beneath a path. -/
def filesBeneath (path : String) (snapshot : Option Snapshot) : List FileEntry :=
  match snapshot with
  | none => []
  | some snapshot => snapshot.files.filter fun file => contains path file.path

/-- The file of a snapshot at a path. -/
def fileOf (path : String) (snapshot : Option Snapshot) : Option FileEntry :=
  snapshot.bind fun snapshot => fileAt snapshot.files path

/-- Some snapshot or file of the sides is out of reach. -/
def deniesSides (snapshots : List (Option Snapshot)) (files : List FileEntry) : Bool :=
  (snapshots.filterMap id).any (fun snapshot => !canAccess actor snapshot.policy) ||
    files.any fun file => !canAccess actor file.policy

/-- The file that a decision picks. -/
def chosenFile (conflict : Conflict) (base line incoming : Option Snapshot) :
    Resolution → Except CliError (Option FileEntry)
  | .base => .ok (fileOf conflict.path base)
  | .line => .ok (fileOf conflict.path line)
  | .incoming => .ok (fileOf conflict.path incoming)
  | .delete => .ok none
  | .custom => do
      let file ← Except.ofOption conflict.replacement
        (.failure "custom resolution content missing")
      verifyFile host repo file
      if file.path ≠ conflict.path then .error (.failure "custom resolution path mismatch")
      else if !canAccess actor file.policy then .error .operationUnavailable
      else .ok (some file)

/-- `resolved_file`. -/
def resolvedFile (conflict : Conflict) (decision : Resolution) :
    Except CliError (Option FileEntry) := do
  let base ← readOptionalSnapshot repo conflict.baseSnapshot
  let line ← readOptionalSnapshot repo conflict.lineSnapshot
  let incoming ← readSnapshot repo conflict.incomingSnapshot
  let sides := [base, line, some incoming].map (fileOf conflict.path)
  if deniesSides actor [base, line, some incoming] (sides.filterMap id) then
    .error .operationUnavailable
  else do
    let chosen ← chosenFile host repo actor conflict base line (some incoming) decision
    -- choosing content must not undo a concurrent access restriction
    pure (chosen.map fun file =>
      { file with
        policy := if ∃ side ∈ sides.filterMap id, side.policy ≠ file.policy then adminPolicy
          else file.policy })

/-- `tree_conflicts::resolved_files`. -/
def treeResolvedFiles (conflict : Conflict) (decision : Resolution) :
    Except CliError (List FileEntry) := do
  if decision = .custom then
    .error (.failure ("file/directory conflicts require --take base, line, incoming, or delete; " ++
      "edit and snapshot a side for custom content"))
  else do
    let base ← readOptionalSnapshot repo conflict.baseSnapshot
    let line ← readOptionalSnapshot repo conflict.lineSnapshot
    let incoming ← readSnapshot repo conflict.incomingSnapshot
    let sides := [base, line, some incoming].flatMap (filesBeneath conflict.path)
    if deniesSides actor [base, line, some incoming] sides then .error .operationUnavailable
    else do
      let chosen : List FileEntry := match decision with
        | .base => filesBeneath conflict.path base
        | .line => filesBeneath conflict.path line
        | .incoming => filesBeneath conflict.path (some incoming)
        | .delete | .custom => []
      let files := chosen.map fun file =>
        { file with
          policy := if ∃ side ∈ sides, side.policy ≠ file.policy then adminPolicy
            else file.policy }
      verifyManifest host repo files
      pure files

end Resolve

/-! ### Integrating -/

/-- `integration_metadata_policy`. -/
def integrationMetadataPolicy (policies : List AccessPolicy) : AccessPolicy :=
  if policies.all fun policy => policy.domains == [publicDomain] then publicPolicy else adminPolicy

/-- `merge_source_policy`, the policy of an integrated snapshot. -/
def mergeSourcePolicy (linePolicy changePolicy : AccessPolicy) (incoming : Snapshot)
    (baseSnapshot lineSnapshot : Option Snapshot) : AccessPolicy :=
  integrationMetadataPolicy
    [linePolicy, changePolicy, incoming.policy,
      (baseSnapshot.map (·.policy)).getD linePolicy,
      (lineSnapshot.map (·.policy)).getD linePolicy]

/-! ### Lines -/

section Lines

variable (host : Host) (repo : Repo)

/-- `write_json` of a line, and `record_operation`. -/
def writeLine (line : Line) (operation : Operation) : Repo :=
  { repo with
    lines := repo.lines.insert (fileName line.name) line
    operations := repo.operations ++ [operation] }

/-- The policy of a line at a snapshot. -/
def linePolicyAt (policy : AccessPolicy) (snapshot : Snapshot) (owner : Change) : AccessPolicy :=
  if policy ≠ snapshot.policy ∨ policy ≠ owner.policy then adminPolicy else policy

/-- The policy that a new line takes from its source. -/
def sourcePolicy (actor : Actor) (source : Line) : Except CliError AccessPolicy :=
  match source.headSnapshot with
  | none => .ok source.policy
  | some id => do
      let snapshot ← readSnapshot repo id
      let owner ← readChange repo snapshot.changeId
      if !canAccess actor snapshot.policy || !canAccess actor owner.policy then
        .error .operationUnavailable
      else do
        verifyTarget host repo snapshot
        pure (linePolicyAt source.policy snapshot owner)

/-- `lines::create`. -/
def create (name source actorName : String) : Except CliError Repo := do
  let actor ← readActor repo actorName
  let sourceLine ← readLine repo source
  if !canAccess actor sourceLine.policy then .error .operationUnavailable
  else do
    validateNamedKey name
    if repo.lines.contains (fileName name) then .error (.failure "line already exists")
    else do
      let policy ← sourcePolicy host repo actor sourceLine
      let line : Line :=
        { name := name, headSnapshot := sourceLine.headSnapshot, policy := policy,
          createdAt := host.now }
      pure (writeLine repo line
        { id := operationId host repo
          kind := .createLine name source line.headSnapshot
          policy := adminPolicy
          privateMessage := s!"created line `{name}` from `{source}`"
          publicMessage := none })

/-- `lines::reset`. -/
def reset (name target expected actorName : String) : Except CliError Repo := do
  let actor ← readActor repo actorName
  let line ← readLine repo name
  let snapshot ← readSnapshot repo target
  let owner ← readChange repo snapshot.changeId
  if !canAccess actor line.policy || !canAccess actor snapshot.policy ||
      !canAccess actor owner.policy then
    .error .operationUnavailable
  else do
    validateObjectId expected "snap_"
    if line.headSnapshot ≠ some expected then
      .error (.failure "line head changed; inspect the current head before retrying reset")
    else if expected = target then pure repo
    else do
      verifyTarget host repo snapshot
      pure (writeLine repo
        { line with
          headSnapshot := some target
          policy := linePolicyAt line.policy snapshot owner }
        { id := operationId host repo
          kind := .resetLine name expected target
          policy := adminPolicy
          privateMessage := s!"reset line `{name}` from `{expected}` to `{target}`"
          publicMessage := none })

end Lines

/-! ### What success means -/

section Success

variable {host : Host} {repo repo' : Repo} {actor : Actor}

theorem narrower_linePolicyAt (policy : AccessPolicy) (snapshot : Snapshot) (owner : Change) :
    Narrower (linePolicyAt policy snapshot owner) policy ∧
      Narrower (linePolicyAt policy snapshot owner) snapshot.policy ∧
      Narrower (linePolicyAt policy snapshot owner) owner.policy := by
  rw [linePolicyAt]
  refine ⟨narrower_ite fun _ => rfl, narrower_ite fun h => ?_, narrower_ite fun h => ?_⟩
  · exact not_not.mp (not_or.mp h).1
  · exact not_not.mp (not_or.mp h).2

/-- The three sides of a conflict. -/
structure Sides (repo : Repo) (conflict : Conflict) where
  base : Option Snapshot
  line : Option Snapshot
  incoming : Snapshot
  readBase : readOptionalSnapshot repo conflict.baseSnapshot = .ok base
  readLine : readOptionalSnapshot repo conflict.lineSnapshot = .ok line
  readIncoming : readSnapshot repo conflict.incomingSnapshot = .ok incoming

/-- The snapshots of the sides. -/
def Sides.snapshots {repo : Repo} {conflict : Conflict} (sides : Sides repo conflict) :
    List (Option Snapshot) := [sides.base, sides.line, some sides.incoming]

theorem resolvedFile_narrower {conflict : Conflict} {decision : Resolution} {file : FileEntry}
    (h : resolvedFile host repo actor conflict decision = .ok (some file)) :
    ∃ sides : Sides repo conflict, ∀ snapshot ∈ sides.snapshots,
      ∀ side ∈ fileOf conflict.path snapshot, Narrower file.policy side.policy := by
  rw [resolvedFile] at h
  simp only [Except.ite_error_eq_ok, Except.bind_eq_ok, Except.pure_eq_ok, Except.ok.injEq] at h
  obtain ⟨base, hbase, line, hline, incoming, hincoming, -, chosen, -, hfile⟩ := h
  let sides : Sides repo conflict := ⟨base, line, incoming, hbase, hline, hincoming⟩
  refine ⟨sides, fun snapshot hs side hside => ?_⟩
  obtain ⟨picked, rfl, rfl⟩ := Option.map_eq_some_iff.mp hfile
  have hmem : side ∈ (sides.snapshots.map (fileOf conflict.path)).filterMap id :=
    List.mem_filterMap.mpr ⟨some side, List.mem_map.mpr ⟨snapshot, hs, hside⟩, rfl⟩
  refine narrower_ite fun hsame => ?_
  by_contra hne
  exact hsame ⟨side, hmem, fun heq => hne heq.symm⟩

theorem treeResolvedFiles_narrower {conflict : Conflict} {decision : Resolution}
    {files : List FileEntry} (h : treeResolvedFiles host repo actor conflict decision = .ok files) :
    ∃ sides : Sides repo conflict, ∀ file ∈ files, ∀ snapshot ∈ sides.snapshots,
      ∀ side ∈ filesBeneath conflict.path snapshot, Narrower file.policy side.policy := by
  rw [treeResolvedFiles] at h
  simp only [Except.ite_error_eq_ok, Except.bind_eq_ok, Except.pure_eq_ok, Except.ok.injEq] at h
  obtain ⟨-, base, hbase, line, hline, incoming, hincoming, -, -, -, rfl⟩ := h
  let sides : Sides repo conflict := ⟨base, line, incoming, hbase, hline, hincoming⟩
  refine ⟨sides, fun file hfile snapshot hs side hside => ?_⟩
  obtain ⟨picked, -, rfl⟩ := List.mem_map.mp hfile
  have hmem : side ∈ sides.snapshots.flatMap (filesBeneath conflict.path) :=
    List.mem_flatMap.mpr ⟨snapshot, hs, hside⟩
  refine narrower_ite fun hsame => ?_
  by_contra hne
  exact hsame ⟨side, hmem, fun heq => hne heq.symm⟩

theorem integrationMetadataPolicy_narrower {policies : List AccessPolicy} {policy : AccessPolicy}
    (h : policy ∈ policies) : Narrower (integrationMetadataPolicy policies) policy := by
  rw [integrationMetadataPolicy]
  split
  · next hall =>
      have hdomains := List.all_eq_true.mp hall policy h
      rw [beq_iff_eq] at hdomains
      exact .of_domains hdomains.symm
  · exact narrower_admin policy

theorem mergeSourcePolicy_narrower (linePolicy changePolicy : AccessPolicy) (incoming : Snapshot)
    (baseSnapshot lineSnapshot : Option Snapshot) :
    let merged := mergeSourcePolicy linePolicy changePolicy incoming baseSnapshot lineSnapshot
    Narrower merged linePolicy ∧ Narrower merged changePolicy ∧ Narrower merged incoming.policy ∧
      (∀ snapshot ∈ baseSnapshot, Narrower merged snapshot.policy) ∧
      (∀ snapshot ∈ lineSnapshot, Narrower merged snapshot.policy) := by
  refine ⟨integrationMetadataPolicy_narrower (by simp), integrationMetadataPolicy_narrower (by simp),
    integrationMetadataPolicy_narrower (by simp), ?_, ?_⟩
  · rintro snapshot hs
    obtain rfl := Option.mem_def.mp hs
    exact integrationMetadataPolicy_narrower (by simp)
  · rintro snapshot hs
    obtain rfl := Option.mem_def.mp hs
    exact integrationMetadataPolicy_narrower (by simp)

theorem readLine_writeLine {line : Line} {operation : Operation}
    (h : validateNamedKey line.name = .ok ()) :
    readLine (writeLine repo line operation) line.name = .ok line :=
  readLine_eq_ok.mpr ⟨h, BTreeMap.get_insert_self _ _ _, rfl⟩

end Success

/-! ### The line commands -/

/-- A line's policy covers its head, the owner of the head, and another policy. -/
structure Covered (repo : Repo) (line : Line) (policy : AccessPolicy) : Prop where
  previous : Narrower line.policy policy
  head : ∀ id ∈ line.headSnapshot, ∃ snapshot owner,
    readSnapshot repo id = .ok snapshot ∧ readChange repo snapshot.changeId = .ok owner ∧
      Narrower line.policy snapshot.policy ∧ Narrower line.policy owner.policy

section Commands

variable {host : Host} {repo repo' : Repo}

theorem create_covered {name source actorName : String}
    (h : create host repo name source actorName = .ok repo') :
    ∃ sourceLine line, readLine repo source = .ok sourceLine ∧ readLine repo' name = .ok line ∧
      Covered repo' line sourceLine.policy := by
  rw [create] at h
  simp only [Except.bind_eq_ok, Except.ite_error_eq_ok, Except.exists_unit_iff,
    Except.pure_eq_ok, Except.ok.injEq] at h
  obtain ⟨actor, -, sourceLine, hsource, -, hname, -, policy, hpolicy, rfl⟩ := h
  refine ⟨sourceLine, _, hsource, readLine_writeLine hname, ?_⟩
  rw [sourcePolicy] at hpolicy
  cases hhead : sourceLine.headSnapshot with
  | none =>
      rw [hhead] at hpolicy
      obtain rfl := Except.ok.inj hpolicy
      exact ⟨.refl _, fun id hid => by cases hid⟩
  | some id =>
      rw [hhead] at hpolicy
      simp only [Except.bind_eq_ok, Except.ite_error_eq_ok, Except.exists_unit_iff,
        Except.pure_eq_ok, Except.ok.injEq] at hpolicy
      obtain ⟨snapshot, hsnapshot, owner, howner, -, -, rfl⟩ := hpolicy
      obtain ⟨hline, hsnap, hown⟩ := narrower_linePolicyAt sourceLine.policy snapshot owner
      refine ⟨hline, fun id' hid => ?_⟩
      obtain rfl := Option.some.inj (Option.mem_def.mp hid)
      exact ⟨snapshot, owner, hsnapshot, howner, hsnap, hown⟩

theorem reset_covered {name target expected actorName : String}
    (h : reset host repo name target expected actorName = .ok repo') :
    (expected = target ∧ repo' = repo) ∨
      ∃ previous line, readLine repo name = .ok previous ∧ readLine repo' name = .ok line ∧
        line.headSnapshot = some target ∧ Covered repo' line previous.policy := by
  rw [reset] at h
  simp only [Except.bind_eq_ok, Except.ite_error_eq_ok, Except.exists_unit_iff] at h
  obtain ⟨actor, -, line, hline, snapshot, hsnapshot, owner, howner, -, -, -, h⟩ := h
  split at h
  · next heq => exact .inl ⟨heq, (Except.ok.inj h).symm⟩
  · right
    simp only [Except.bind_eq_ok, Except.exists_unit_iff, Except.pure_eq_ok, Except.ok.injEq] at h
    obtain ⟨-, rfl⟩ := h
    obtain ⟨hname, -, rfl⟩ := readLine_eq_ok.mp hline
    obtain ⟨hprev, hsnap, hown⟩ := narrower_linePolicyAt line.policy snapshot owner
    refine ⟨line, _, hline, readLine_writeLine hname, rfl, hprev, fun id hid => ?_⟩
    obtain rfl := Option.some.inj (Option.mem_def.mp hid)
    exact ⟨snapshot, owner, hsnapshot, howner, hsnap, hown⟩

end Commands

/-! ### Access is never widened -/

/-- A repository whose public line has a restricted head, as an integration of a
restricted change leaves it. -/
def sampleRepo : Repo where
  workspaceId := none
  primaryRoot := ["home"]
  repoId := "repo_000000000000"
  git := ⟨∅, ∅⟩
  author := none
  workspace := ⟨none, none⟩
  pathPolicies := []
  actors := (∅ : BTreeMap String Actor).insert "root" ⟨"root", [adminDomain]⟩
  lines := (∅ : BTreeMap String Line).insert "main"
    ⟨"main", some "snap_000000000000", publicPolicy, 0⟩
  changes := (∅ : BTreeMap String Change).insert "chg_000000000000"
    ⟨"chg_000000000000", "secret", none, "main", some "snap_000000000000", adminPolicy, 0⟩
  snapshots := (∅ : BTreeMap String Snapshot).insert "snap_000000000000"
    ⟨none, none, "snap_000000000000", "chg_000000000000", none, [], "",
      "4f53cda18c2baa0c0354bb5f9a3ecbe5ed12ab4d8e11ba873c2f11161202b945", [], adminPolicy, 0⟩
  conflicts := ∅
  blobs := ∅
  operations := []
  registry := []
  linkedWorkspaces := ∅
  pruned := ∅

def zeroSuffix : IdSuffix := ⟨"00000000000000000000000000000000", by decide⟩

/-- The host at the empty manifest. -/
def sampleHost : Host where
  hashBytes bytes :=
    if bytes = [91, 93] then "4f53cda18c2baa0c0354bb5f9a3ecbe5ed12ab4d8e11ba873c2f11161202b945"
    else ""
  sha1 _ := ""
  encodeManifest files := if files = [] then [91, 93] else []
  now := 0
  operationSuffix _ := zeroSuffix

/-- A reset to the head the line already has leaves a public line with a restricted head. -/
theorem reset_keeps_public_line :
    ¬∀ (host : Host) (repo repo' : Repo) (name target expected actorName : String),
      reset host repo name target expected actorName = .ok repo' →
      ∃ previous line, readLine repo name = .ok previous ∧ readLine repo' name = .ok line ∧
        Covered repo' line previous.policy := by
  intro h
  obtain ⟨_, line, _, hline, hcovered⟩ := h sampleHost sampleRepo sampleRepo "main"
    "snap_000000000000" "snap_000000000000" "root" rfl
  have hsample : readLine sampleRepo "main" =
      .ok ⟨"main", some "snap_000000000000", publicPolicy, 0⟩ := rfl
  obtain rfl := Except.ok.inj (hsample.symm.trans hline)
  obtain ⟨snapshot, _, hsnapshot, _, hnarrower, _⟩ := hcovered.head "snap_000000000000" rfl
  have hread : readSnapshot sampleRepo "snap_000000000000" =
      .ok ⟨none, none, "snap_000000000000", "chg_000000000000", none, [], "",
        "4f53cda18c2baa0c0354bb5f9a3ecbe5ed12ab4d8e11ba873c2f11161202b945", [], adminPolicy, 0⟩ := rfl
  obtain rfl := Except.ok.inj (hread.symm.trans hsnapshot)
  exact absurd (hnarrower ⟨"guest", [publicDomain]⟩ (by decide)) (by decide)

/-- **Merging and resolving never widens access.**  What a resolution produces
is narrower than every side file the conflict covers, an integrated snapshot
narrower than all that went into it, and a line that is created, or reset to
another head, narrower than its head, the owner of the head and the line it
comes from; a reset to the head it already has changes nothing. -/
theorem access_never_widens (host : Host) (repo repo' : Repo) :
    (∀ actor conflict decision file,
      resolvedFile host repo actor conflict decision = .ok (some file) →
      ∃ sides : Sides repo conflict, ∀ snapshot ∈ sides.snapshots,
        ∀ side ∈ fileOf conflict.path snapshot, Narrower file.policy side.policy) ∧
    (∀ actor conflict decision files,
      treeResolvedFiles host repo actor conflict decision = .ok files →
      ∃ sides : Sides repo conflict, ∀ file ∈ files, ∀ snapshot ∈ sides.snapshots,
        ∀ side ∈ filesBeneath conflict.path snapshot, Narrower file.policy side.policy) ∧
    (∀ linePolicy changePolicy incoming baseSnapshot lineSnapshot,
      let merged := mergeSourcePolicy linePolicy changePolicy incoming baseSnapshot lineSnapshot
      Narrower merged linePolicy ∧ Narrower merged changePolicy ∧
        Narrower merged incoming.policy ∧
        (∀ snapshot ∈ baseSnapshot, Narrower merged snapshot.policy) ∧
        (∀ snapshot ∈ lineSnapshot, Narrower merged snapshot.policy)) ∧
    (∀ name source actorName, create host repo name source actorName = .ok repo' →
      ∃ sourceLine line, readLine repo source = .ok sourceLine ∧ readLine repo' name = .ok line ∧
        Covered repo' line sourceLine.policy) ∧
    (∀ name target expected actorName,
      reset host repo name target expected actorName = .ok repo' →
      (expected = target ∧ repo' = repo) ∨
        ∃ previous line, readLine repo name = .ok previous ∧ readLine repo' name = .ok line ∧
          line.headSnapshot = some target ∧ Covered repo' line previous.policy) :=
  ⟨fun _ _ _ _ => resolvedFile_narrower, fun _ _ _ _ => treeResolvedFiles_narrower,
    mergeSourcePolicy_narrower, fun _ _ _ => create_covered, fun _ _ _ _ => reset_covered⟩

/-- A line made from the public one is restricted as its head is. -/
theorem access_never_widens_sample :
    ∃ repo', create sampleHost sampleRepo "release" "main" "root" = .ok repo' ∧
      ∃ sourceLine line, readLine sampleRepo "main" = .ok sourceLine ∧
        readLine repo' "release" = .ok line ∧ Covered repo' line sourceLine.policy :=
  ⟨_, rfl, (access_never_widens sampleHost sampleRepo _).2.2.2.1 "release" "main" "root" rfl⟩

end RGit.Cli
