/-
RGit/Repository/Verify.lean

`verify`: the records of a repository agree with each other and with the
blob store.

The checks are made record kind by record kind, as the source makes them;
the maps that it builds on the way are the maps of the model.
-/
import RGit.Git.Objects
import RGit.Lib.Loops
import RGit.Merge.Integrate

namespace RGit.Cli

/-! ### The Git configuration -/

/-- `str::contains` of a text. -/
def containsText (text part : List Char) : Bool := text.tails.any part.isPrefixOf

/-- `git_remotes::validate_remote`. -/
def validateRemote (remote : String) : Except CliError Unit :=
  let text := remote.toList
  if text.isEmpty || text.head? == some '-' || text.any isControl then
    .error (.failure "invalid Git remote")
  else
    match ("https://".toList.isPrefixOf? text).or ("ssh://".toList.isPrefixOf? text) with
    | some rest =>
        let authority := rest.takeWhile (· ≠ '/')
        -- `rsplit_once('@')`
        let user := (authority.reverse.dropWhile (· ≠ '@')).drop 1
        if authority.isEmpty || text.any (fun c => c == '?' || c == '#') then
          .error (.failure "remote must use a repository URL without query credentials")
        else if authority.contains '@' &&
            ("https://".toList.isPrefixOf text || user.contains ':') then
          .error (.failure
            "use configured Git credentials instead of credentials embedded in a URL")
        else .ok ()
    | none =>
        if !"file://".toList.isPrefixOf text &&
            (containsText text "://".toList || containsText text "::".toList) then
          .error (.failure
            "remote protocol is unsupported; use HTTPS, SSH, or a local repository")
        else .ok ()

/-- `git_tracking::validate_branch`. -/
def validateBranch (branch : String) : Except CliError Unit :=
  let text := branch.toList
  let badPart (part : List Char) : Bool :=
    part.isEmpty || part.head? == some '.' || ".lock".toList.isSuffixOf part
  if text.isEmpty || text.getLast? == some '.' || containsText text "..".toList ||
      containsText text "@\x7b".toList ||
      text.any (fun c => isControl c || " ~^:?*[\\".toList.contains c) ||
      (text.splitOn '/').any badPart then
    .error (.failure "invalid Git branch name")
  else .ok ()

/-- One pass of the first loop of `Config::validate`. -/
def validateDestination (entry : String × String) : Except CliError Unit := do
  validateNamedKey entry.1
  validateRemote entry.2
  if entry.2.toList.head? != some '/' && !entry.2.toList.contains ':' then
    .error (.failure "saved Git remote must be an absolute path or URL")
  else .ok ()

/-- `Config::validate`. -/
def GitConfig.validate (config : GitConfig) : Except CliError Unit := do
  config.remotes.toList.forM validateDestination
  config.upstreams.toList.forM fun (line, upstream) => do
    validateNamedKey line
    validateBranch upstream.branch
    if !config.remotes.contains upstream.remote then
      .error (.failure "upstream refers to a missing Git remote")
    else .ok ()

/-! ### Linked worktrees -/

/-- One pass of the loop of `registry`: the identifiers and the roots are new. -/
def registerEntry (seen : List String × List (List String)) (entry : Entry) :
    Except CliError (List String × List (List String)) := do
  validateObjectId entry.id "wt_"
  if seen.1.contains entry.id || seen.2.contains entry.root ||
      entry.root.any (fun part => part == ".." || part == ".") then
    .error (.failure "invalid or duplicate worktree registration")
  else pure (entry.id :: seen.1, entry.root :: seen.2)

/-- `worktrees::registry`. -/
def readRegistry (repo : Repo) : Except CliError (List Entry) := do
  let _ ← repo.registry.foldlM registerEntry ([], [])
  pure repo.registry

/-- The workspace record of a linked worktree. -/
def readLinkedWorkspace (repo : Repo) (id : String) : Except CliError Workspace :=
  Except.ofOption repo.linkedWorkspaces[id]? (.failure "failed to read workspace")

/-- `worktrees::saved_workspaces`: every workspace, and whether it is attached. -/
def savedWorkspaces (repo : Repo) : Except CliError (List (Workspace × Bool)) := do
  let entries ← readRegistry repo
  let linked ← entries.mapM fun entry => do
    let workspace ← readLinkedWorkspace repo entry.id
    pure (workspace, !entry.detached)
  pure ((repo.workspace, true) :: linked)

/-! ### The checks -/

/-- `verify::identity`. -/
def identity (key id kind : String) : Except CliError Unit := do
  validateObjectId id kind
  if key ≠ id then .error (.failure "record filename and identifier differ") else .ok ()

section Checks

variable (host : Host) (repo : Repo)

/-- `verify::snapshot_reference`. -/
def snapshotReference (id : Option String) : Except CliError Unit :=
  Except.ifSome id fun id => require (repo.snapshots.contains id) "snapshot reference"

/-- The names that `lines` is keyed by. -/
def lineNames : List String := repo.lines.values.map (·.name)

def verifyConfig : Except CliError Unit := do
  validateObjectId repo.repoId "repo_"
  repo.git.validate
  Except.ifSome repo.author validateAuthor

def verifyLineIdentity (entry : String × Line) : Except CliError Unit := do
  validateNamedKey entry.2.name
  require (entry.1 == fileName entry.2.name) "line identity"

def verifyActorIdentity (entry : String × Actor) : Except CliError Unit := do
  validateNamedKey entry.2.name
  require (entry.1 == fileName entry.2.name) "actor identity"

def verifySnapshot (entry : String × Snapshot) : Except CliError Unit := do
  let snapshot := entry.2
  identity entry.1 snapshot.id "snap_"
  Except.ifSome snapshot.author validateAuthor
  require (repo.changes.contains snapshot.changeId) "snapshot owning change"
  require (manifestHash host snapshot.files == snapshot.manifestHash) "manifest hash"
  verifyManifest host repo snapshot.files

def verifyChange (change : Change) : Except CliError Unit := do
  require ((lineNames repo).contains change.targetLine) "change target line"
  snapshotReference repo change.baseSnapshot
  snapshotReference repo change.currentSnapshot
  Except.ifSome change.currentSnapshot fun id =>
    require (repo.snapshots[id]?.any (·.changeId == change.id)) "current snapshot ownership"

/-- One pass of the loop over the workspaces. -/
def verifyWorkspace (active : List String) (entry : Workspace × Bool) :
    Except CliError (List String) := do
  snapshotReference repo entry.1.modeSnapshot
  match entry.1.currentChange with
  | none => pure active
  | some id => do
      require (repo.changes.contains id) "workspace change"
      if !entry.2 then pure active
      else do
        require (!active.contains id) "change active in multiple worktrees"
        pure (id :: active)

/-- The Git identifier of a parent. -/
def parentProvenance (id : String) : Except CliError String := do
  let parent ← Except.ofOption repo.snapshots[id]? (.failure "missing snapshot parent")
  let metadata ← Except.ofOption parent.git (.failure "Git parent provenance missing")
  pure metadata.objectId

/-- The checks of a snapshot that is bound to a Git commit. -/
def verifyProvenance (snapshot : Snapshot) : Except CliError Unit :=
  Except.ifSome snapshot.git fun metadata => do
    let parsed ← metadata.parse host
    Except.ifSome snapshot.author fun author =>
      require (parsed.authorIdentity == some (utf8Bytes author)) "Git provenance author"
    require (snapshot.message == fromUtf8Lossy parsed.message) "Git provenance message"
    require (parsed.timestamp == snapshot.createdAt.toNat / 1000) "Git provenance timestamp"
    let tree ← treeId host repo snapshot.files metadata.objectFormat
    require (tree == parsed.tree) "Git provenance tree"
    let parentIds ← (parents snapshot).mapM (parentProvenance repo)
    require (parentIds == parsed.parents) "Git provenance parents"

def verifyConflict (entry : String × Conflict) : Except CliError Unit := do
  let conflict := entry.2
  identity entry.1 conflict.id "conf_"
  require (repo.changes.contains conflict.changeId && (lineNames repo).contains conflict.line)
    "conflict source"
  snapshotReference repo conflict.baseSnapshot
  snapshotReference repo conflict.lineSnapshot
  snapshotReference repo (some conflict.incomingSnapshot)
  require ((conflict.status == .resolved) == conflict.resolution.isSome)
    "conflict resolution state"
  require ((conflict.resolution == some .custom) == conflict.replacement.isSome)
    "custom resolution state"
  validateWorkingKey conflict.path
  require (conflict.kind != .fileDirectory || conflict.resolution != some .custom)
    "file/directory resolution kind"
  Except.ifSome conflict.replacement fun file => do
    require (file.path == conflict.path) "custom resolution path"
    verifyFile host repo file

/-- A change, a snapshot of it, and a line when there is one. -/
def verifyOwner (line : Option String) (changeId snapshotId : String) : Except CliError Unit := do
  require (repo.changes.contains changeId) "operation change"
  snapshotReference repo (some snapshotId)
  require (repo.snapshots[snapshotId]?.any (·.changeId == changeId)) "operation snapshot owner"
  Except.ifSome line fun line => require ((lineNames repo).contains line) "operation line"

def verifyOperationKind : OperationKind → Except CliError Unit
  | .createLine line sourceLine snapshotId => do
      require ((lineNames repo).contains line && (lineNames repo).contains sourceLine)
        "create line operation"
      snapshotReference repo snapshotId
  | .resetLine line previousSnapshot snapshotId => do
      require ((lineNames repo).contains line) "reset line operation"
      snapshotReference repo (some previousSnapshot)
      snapshotReference repo (some snapshotId)
  | .bindGitIdentity snapshotId objectId => do
      snapshotReference repo (some snapshotId)
      require (repo.snapshots[snapshotId]?.any fun snapshot =>
        snapshot.git.any fun metadata => metadata.objectId == objectId) "Git identity operation"
  | .retargetChange changeId line =>
      require (repo.changes.contains changeId && (lineNames repo).contains line)
        "retarget operation source"
  | .initRepo | .setIdentity | .setPathPolicy _ => .ok ()
  | .setActor actor => (readActor repo actor).map fun _ => ()
  | .createChange changeId | .switchWorkspace changeId =>
      require (repo.changes.contains changeId) "operation change"
  | .createSnapshot changeId snapshotId => verifyOwner repo none changeId snapshotId
  | .importGit line changeId snapshotId | .integrateLine line changeId snapshotId =>
      verifyOwner repo (some line) changeId snapshotId
  | .createConflict conflictId changeId =>
      require (repo.conflicts.contains conflictId && repo.changes.contains changeId)
        "operation conflict"
  | .resolveConflict conflictId =>
      require (repo.conflicts.contains conflictId) "resolution operation conflict"
  | .restoreWorkspace snapshotId => snapshotReference repo snapshotId

def verifyOperation (operation : Operation) : Except CliError Unit := do
  identity operation.id operation.id "op_"
  verifyOperationKind repo operation.kind

def verifyBlob (entry : String × Bytes) : Except CliError Unit := do
  require (entry.1.toList.length == 64 && entry.1.toList.all isHexDigit) "blob filename"
  require (host.hashBytes entry.2 == entry.1) "blob digest"

/-- The checks of the records, after the actor. -/
def verifyRecords : Except CliError Unit := do
  verifyConfig repo
  repo.changes.toList.forM fun (key, change) => identity key change.id "chg_"
  repo.lines.toList.forM verifyLineIdentity
  repo.actors.toList.forM verifyActorIdentity
  repo.snapshots.toList.forM (verifySnapshot host repo)
  repo.changes.values.forM (verifyChange repo)
  repo.lines.values.forM fun line => snapshotReference repo line.headSnapshot
  let workspaces ← savedWorkspaces repo
  let _ ← workspaces.foldlM (verifyWorkspace repo) []
  validateGraph repo.snapshots
  repo.snapshots.values.forM (verifyProvenance host repo)
  repo.conflicts.toList.forM (verifyConflict host repo)
  repo.operations.forM (verifyOperation repo)
  repo.blobs.toList.forM (verifyBlob host)

/-- `verify_with_output`; `check` is the same without the report. -/
def verify (actorName : String) : Except CliError Unit := do
  let actor ← readActor repo actorName
  if !actor.domains.any (· == adminDomain) then .error .operationUnavailable
  else verifyRecords host repo

end Checks

/-! ### What it accepts -/

theorem forM_toList_eq_ok {α : Type} {m : BTreeMap String α}
    {f : String × α → Except CliError Unit} :
    m.toList.forM f = .ok () ↔ ∀ (k : String) (a : α), m[k]? = some a → f (k, a) = .ok () := by
  have hforM : m.toList.forM f = .ok () ↔ ∀ p ∈ m.toList, f p = .ok () := forM_eq_ok
  rw [hforM]
  constructor
  · intro h k a hget
    exact h (k, a) (BTreeMap.mem_toList_iff_get.mpr hget)
  · rintro h ⟨k, a⟩ hmem
    exact h k a (BTreeMap.mem_toList_iff_get.mp hmem)

theorem forM_values_eq_ok {α : Type} {m : BTreeMap String α}
    {f : α → Except CliError Unit} :
    m.values.forM f = .ok () ↔ ∀ (k : String) (a : α), m[k]? = some a → f a = .ok () := by
  have hforM : m.values.forM f = .ok () ↔ ∀ a ∈ m.values, f a = .ok () := forM_eq_ok
  rw [hforM]
  constructor
  · intro h k a hget
    exact h a (BTreeMap.mem_values_iff.mpr ⟨k, hget⟩)
  · intro h a hmem
    obtain ⟨k, hget⟩ := BTreeMap.mem_values_iff.mp hmem
    exact h k a hget

/-- The checks of `verify`, record by record. -/
structure Verified (host : Host) (repo : Repo) : Prop where
  config : verifyConfig repo = .ok ()
  changes : ∀ (k : String) (c : Change), repo.changes[k]? = some c →
    identity k c.id "chg_" = .ok ()
  lines : ∀ (k : String) (l : Line), repo.lines[k]? = some l → verifyLineIdentity (k, l) = .ok ()
  actors : ∀ (k : String) (a : Actor), repo.actors[k]? = some a →
    verifyActorIdentity (k, a) = .ok ()
  snapshots : ∀ (k : String) (s : Snapshot), repo.snapshots[k]? = some s →
    verifySnapshot host repo (k, s) = .ok ()
  owners : ∀ (k : String) (c : Change), repo.changes[k]? = some c → verifyChange repo c = .ok ()
  heads : ∀ (k : String) (l : Line), repo.lines[k]? = some l →
    snapshotReference repo l.headSnapshot = .ok ()
  workspaces : ∃ saved active, savedWorkspaces repo = .ok saved ∧
    saved.foldlM (verifyWorkspace repo) [] = .ok active
  graph : validateGraph repo.snapshots = .ok ()
  provenance : ∀ (k : String) (s : Snapshot), repo.snapshots[k]? = some s →
    verifyProvenance host repo s = .ok ()
  conflicts : ∀ (k : String) (c : Conflict), repo.conflicts[k]? = some c →
    verifyConflict host repo (k, c) = .ok ()
  operations : ∀ o ∈ repo.operations, verifyOperation repo o = .ok ()
  blobs : ∀ (k : String) (b : Bytes), repo.blobs[k]? = some b → verifyBlob host (k, b) = .ok ()

theorem verifyRecords_eq_ok {host : Host} {repo : Repo} :
    verifyRecords host repo = .ok () ↔ Verified host repo := by
  have hoperations : repo.operations.forM (verifyOperation repo) = .ok () ↔
      ∀ o ∈ repo.operations, verifyOperation repo o = .ok () := forM_eq_ok
  rw [verifyRecords]
  simp only [Except.bind_eq_ok, Except.exists_unit_iff, forM_toList_eq_ok,
    forM_values_eq_ok, hoperations]
  constructor
  · rintro ⟨hconfig, hchanges, hlines, hactors, hsnapshots, howners, hheads, saved, hsaved, active,
      hactive, hgraph, hprovenance, hconflicts, hops, hblobs⟩
    exact ⟨hconfig, hchanges, hlines, hactors, hsnapshots, howners, hheads,
      ⟨saved, active, hsaved, hactive⟩, hgraph, hprovenance, hconflicts, hops, hblobs⟩
  · rintro ⟨hconfig, hchanges, hlines, hactors, hsnapshots, howners, hheads,
      ⟨saved, active, hsaved, hactive⟩, hgraph, hprovenance, hconflicts, hops, hblobs⟩
    exact ⟨hconfig, hchanges, hlines, hactors, hsnapshots, howners, hheads, saved, hsaved, active,
      hactive, hgraph, hprovenance, hconflicts, hops, hblobs⟩

/-- `verify` is for an actor of the admin domain, and depends on the records alone. -/
theorem verify_eq_ok {host : Host} {repo : Repo} {actorName : String} :
    verify host repo actorName = .ok () ↔
      (∃ actor, readActor repo actorName = .ok actor ∧
        actor.domains.any (· == adminDomain) = true) ∧ Verified host repo := by
  rw [verify, Except.bind_eq_ok]
  simp only [Except.ite_error_eq_ok, verifyRecords_eq_ok, Bool.not_eq_true', Bool.not_eq_false]
  constructor
  · rintro ⟨actor, hactor, hadmin, hverified⟩
    exact ⟨⟨actor, hactor, hadmin⟩, hverified⟩
  · rintro ⟨⟨actor, hactor, hadmin⟩, hverified⟩
    exact ⟨actor, hactor, hadmin, hverified⟩

end RGit.Cli
