/-
RGit/Merge/Records.lean

The records of the command-line repository, how they are read, and how
files are verified against the blob store.

`sha2` and `serde_json` are parameters (`Host`).
-/
import RGit.Canonical.Value
import RGit.Lib.Result
import RGit.Merge.Plan

namespace RGit.Cli

/-! ### Records -/

/-- `CliFailure::OperationUnavailable`, or a failure with its message. -/
inductive CliError where
  | operationUnavailable
  | failure (message : String)
  deriving DecidableEq

structure Change where
  id : String
  name : String
  baseSnapshot : Option String
  targetLine : String
  currentSnapshot : Option String
  policy : AccessPolicy
  createdAt : UInt64
  deriving DecidableEq

/-- `workspace_base_snapshot_id`. -/
def Change.workspaceBaseSnapshotId (change : Change) : Option String :=
  change.currentSnapshot.or change.baseSnapshot

/-- `git_objects::CommitMetadata`: the Git commit that a snapshot is bound to. -/
structure CommitMetadata where
  objectId : String
  objectFormat : String
  rawCommit : Bytes
  deriving DecidableEq

structure Snapshot where
  author : Option String
  git : Option CommitMetadata
  id : String
  changeId : String
  parentSnapshot : Option String
  mergeParents : List String
  message : String
  manifestHash : String
  files : List FileEntry
  policy : AccessPolicy
  createdAt : UInt64
  deriving DecidableEq

structure Line where
  name : String
  headSnapshot : Option String
  policy : AccessPolicy
  createdAt : UInt64
  deriving DecidableEq

inductive Resolution where
  | custom
  | base
  | line
  | incoming
  | delete
  deriving DecidableEq

inductive ConflictStatus where
  | unresolved
  | resolved
  deriving DecidableEq

structure Conflict where
  id : String
  line : String
  changeId : String
  baseSnapshot : Option String
  lineSnapshot : Option String
  incomingSnapshot : String
  path : String
  kind : ConflictKind
  policy : AccessPolicy
  linePolicy : AccessPolicy
  changePolicy : AccessPolicy
  filePolicy : AccessPolicy
  filePolicies : List AccessPolicy
  sourcePolicy : AccessPolicy
  status : ConflictStatus
  resolution : Option Resolution
  replacement : Option FileEntry
  createdAt : UInt64
  deriving DecidableEq

structure Workspace where
  currentChange : Option String
  modeSnapshot : Option String
  deriving DecidableEq

structure PathPolicy where
  pathPrefix : String
  policy : AccessPolicy
  deriving DecidableEq

/-- `worktrees::Entry`: a linked directory, by the components of its root. -/
structure Entry where
  id : String
  root : List String
  name : String
  line : String
  snapshot : Option String
  detached : Bool
  deriving DecidableEq

/-- `git_tracking::Upstream`. -/
structure Upstream where
  remote : String
  branch : String
  deriving DecidableEq

/-- `git_tracking::Config`. -/
structure GitConfig where
  remotes : BTreeMap String String
  upstreams : BTreeMap String Upstream

inductive OperationKind where
  | setIdentity
  | createLine (line sourceLine : String) (snapshotId : Option String)
  | resetLine (line previousSnapshot snapshotId : String)
  | bindGitIdentity (snapshotId objectId : String)
  | retargetChange (changeId line : String)
  | importGit (line changeId snapshotId : String)
  | switchWorkspace (changeId : String)
  | restoreWorkspace (snapshotId : Option String)
  | resolveConflict (conflictId : String)
  | initRepo
  | setActor (actor : String)
  | setPathPolicy (pathPrefix : String)
  | createChange (changeId : String)
  | createSnapshot (changeId snapshotId : String)
  | integrateLine (line changeId snapshotId : String)
  | createConflict (conflictId changeId : String)
  deriving DecidableEq

structure Operation where
  id : String
  kind : OperationKind
  policy : AccessPolicy
  privateMessage : String
  publicMessage : Option String
  deriving DecidableEq

/-- The repository as a command sees it: the worktree it runs in (`none` for the
primary one), the configuration, the records by file name, the blobs by hash,
and the linked worktrees with their workspaces and retirement receipts. -/
structure Repo where
  workspaceId : Option String
  primaryRoot : List String
  repoId : String
  git : GitConfig
  author : Option String
  workspace : Workspace
  pathPolicies : List PathPolicy
  actors : BTreeMap String Actor
  lines : BTreeMap String Line
  changes : BTreeMap String Change
  snapshots : BTreeMap String Snapshot
  conflicts : BTreeMap String Conflict
  blobs : BTreeMap String Bytes
  operations : List Operation
  registry : List Entry
  linkedWorkspaces : BTreeMap String Workspace
  pruned : BTreeMap String Entry

/-- `is_ascii_digit() || (b'a'..=b'f').contains(&b)`. -/
def isHexDigit (c : Char) : Bool := ('0' ≤ c && c ≤ '9') || ('a' ≤ c && c ≤ 'f')

/-- What `Uuid::simple` prints. -/
abbrev IdSuffix := { suffix : String // suffix.toList.length = 32 ∧ suffix.toList.all isHexDigit }

/-- What comes from outside: the hashes, the encoding of manifests, the clock and
the identifier of each operation. -/
structure Host where
  hashBytes : Bytes → String
  sha1 : Bytes → String
  encodeManifest : List FileEntry → Bytes
  now : UInt64
  operationSuffix : Nat → IdSuffix

/-! ### Names -/

/-- `file_name`: `name.replace('/', "__")`. -/
def fileName (name : String) : String :=
  String.ofList (name.toList.flatMap fun c => if c = '/' then ['_', '_'] else [c])

/-- `char::is_control`. -/
def isControl (c : Char) : Bool := c.toNat ≤ 0x1f || (0x7f ≤ c.toNat && c.toNat ≤ 0x9f)

/-- The part before the first dot, in capitals and with plain digits. -/
def stem (component : List Char) : List Char :=
  (component.takeWhile (· ≠ '.')).map fun c =>
    let c := c.toUpper
    if c = '¹' then '1' else if c = '²' then '2' else if c = '³' then '3' else c

/-- Device names. -/
def reserved (stem : List Char) : Bool :=
  stem ∈ ["CON".toList, "PRN".toList, "AUX".toList, "NUL".toList] ||
    (stem.length == 4 && (stem.take 3 == "COM".toList || stem.take 3 == "LPT".toList) &&
      (stem.drop 3).all fun c => '1' ≤ c && c ≤ '9')

/-- One component of a name is not allowed. -/
def badComponent (component : List Char) : Bool :=
  component.isEmpty || component.getLast? == some '.' || component.getLast? == some ' ' ||
    reserved (stem component) ||
    component.any fun c => isControl c || c ∈ ['\\', ':', '<', '>', '"', '|', '?', '*']

/-- `validate_named_key`. -/
def validateNamedKey (name : String) : Except CliError Unit :=
  if name.isEmpty || (utf8Bytes (fileName name)).length > 200 then
    .error (.failure "invalid actor or line name")
  else if (name.toList.splitOn '/').any badComponent then
    .error (.failure "invalid actor or line name")
  else .ok ()

/-- `validate_object_id`. -/
def validateObjectId (id kind : String) : Except CliError Unit :=
  let suffix := (kind.toList.isPrefixOf? id.toList).getD []
  if !(suffix.length == 12 || suffix.length == 32) || !suffix.all isHexDigit then
    .error (.failure "invalid object identifier")
  else .ok ()

/-! ### Reading -/

/-- The record under a key, whose identity is the one asked for. -/
def readRecord {α : Type} (records : BTreeMap String α) (identity : α → String)
    (what key name : String) : Except CliError α :=
  match records[key]? with
  | none => .error (.failure s!"{what} `{name}` not found")
  | some value =>
      if identity value ≠ name then
        .error (.failure s!"stored {what} identity does not match requested identity")
      else .ok value

def readActor (repo : Repo) (name : String) : Except CliError Actor := do
  validateNamedKey name
  readRecord repo.actors (·.name) "actor" (fileName name) name

def readLine (repo : Repo) (name : String) : Except CliError Line := do
  validateNamedKey name
  readRecord repo.lines (·.name) "line" (fileName name) name

def readChange (repo : Repo) (id : String) : Except CliError Change := do
  validateObjectId id "chg_"
  readRecord repo.changes (·.id) "change" id id

def readSnapshot (repo : Repo) (id : String) : Except CliError Snapshot := do
  validateObjectId id "snap_"
  readRecord repo.snapshots (·.id) "snapshot" id id

def readConflict (repo : Repo) (id : String) : Except CliError Conflict := do
  validateObjectId id "conf_"
  readRecord repo.conflicts (·.id) "conflict" id id

/-- `read_optional_snapshot`. -/
def readOptionalSnapshot (repo : Repo) (id : Option String) : Except CliError (Option Snapshot) :=
  match id with
  | none => .ok none
  | some id => (readSnapshot repo id).map some

/-- `read_workspace`: the record of the worktree that the command runs in. -/
def readWorkspace (repo : Repo) : Except CliError Workspace :=
  match repo.workspaceId with
  | none => .ok repo.workspace
  | some id => Except.ofOption repo.linkedWorkspaces[id]? (.failure "failed to read workspace")

/-! ### Writing -/

/-- `write_json` at `workspace.json`. -/
def writeWorkspace (repo : Repo) (workspace : Workspace) : Repo :=
  match repo.workspaceId with
  | none => { repo with workspace := workspace }
  | some id => { repo with linkedWorkspaces := repo.linkedWorkspaces.insert id workspace }

/-- The identifier of the next operation. -/
def operationId (host : Host) (repo : Repo) : String :=
  s!"op_{(host.operationSuffix repo.operations.length).1}"

/-- `record_operation`. -/
def recordOperation (host : Host) (repo : Repo) (kind : OperationKind) (policy : AccessPolicy)
    (privateMessage : String) (publicMessage : Option String) : Repo :=
  { repo with
    operations := repo.operations ++
      [⟨operationId host repo, kind, policy, privateMessage, publicMessage⟩] }

section Reads

variable {repo : Repo}

theorem readRecord_eq_ok {α : Type} {records : BTreeMap String α} {identity : α → String}
    {what key name : String} {value : α} :
    readRecord records identity what key name = .ok value ↔
      records[key]? = some value ∧ identity value = name := by
  rw [readRecord]
  cases records[key]? with
  | none => simp
  | some stored =>
      simp only [Except.ite_error_eq_ok, Except.ok.injEq, Option.some.injEq, not_not]
      constructor
      · rintro ⟨hid, rfl⟩
        exact ⟨rfl, hid⟩
      · rintro ⟨rfl, hid⟩
        exact ⟨hid, rfl⟩

theorem readActor_eq_ok {name : String} {actor : Actor} :
    readActor repo name = .ok actor ↔
      validateNamedKey name = .ok () ∧ repo.actors[fileName name]? = some actor ∧
        actor.name = name := by
  rw [readActor, Except.bind_unit_eq_ok, readRecord_eq_ok]

theorem readLine_eq_ok {name : String} {line : Line} :
    readLine repo name = .ok line ↔
      validateNamedKey name = .ok () ∧ repo.lines[fileName name]? = some line ∧
        line.name = name := by
  rw [readLine, Except.bind_unit_eq_ok, readRecord_eq_ok]

theorem readChange_eq_ok {id : String} {change : Change} :
    readChange repo id = .ok change ↔
      validateObjectId id "chg_" = .ok () ∧ repo.changes[id]? = some change ∧ change.id = id := by
  rw [readChange, Except.bind_unit_eq_ok, readRecord_eq_ok]

theorem readSnapshot_eq_ok {id : String} {snapshot : Snapshot} :
    readSnapshot repo id = .ok snapshot ↔
      validateObjectId id "snap_" = .ok () ∧ repo.snapshots[id]? = some snapshot ∧
        snapshot.id = id := by
  rw [readSnapshot, Except.bind_unit_eq_ok, readRecord_eq_ok]

theorem readConflict_eq_ok {id : String} {conflict : Conflict} :
    readConflict repo id = .ok conflict ↔
      validateObjectId id "conf_" = .ok () ∧ repo.conflicts[id]? = some conflict ∧
        conflict.id = id := by
  rw [readConflict, Except.bind_unit_eq_ok, readRecord_eq_ok]

end Reads

/-! ### Verifying -/

/-- `verify::require`. -/
def require (present : Bool) (description : String) : Except CliError Unit :=
  if !present then .error (.failure s!"missing or inconsistent {description}") else .ok ()

theorem require_eq_ok {present : Bool} {description : String} :
    require present description = .ok () ↔ present = true := by
  rw [require]
  cases present <;> simp

/-- `transaction::validate_working_key`. -/
def validateWorkingKey (key : String) : Except CliError Unit :=
  let badPart (part : List Char) : Bool :=
    part.isEmpty || part == ['.'] || part == ['.', '.'] ||
      part.map Char.toLower ∈ [".git".toList, ".rgit".toList]
  if key.isEmpty || (key.toList.splitOn '/').any badPart then
    .error (.failure "unsafe snapshot path")
  else .ok ()

/-- `transaction::validate_link`. -/
def validateLink (bytes : Bytes) : Except CliError Unit :=
  if bytes.isEmpty || bytes.contains 0 then
    .error (.failure "symlink target must be nonempty and contain no NUL")
  else .ok ()

section Verify

variable (host : Host) (repo : Repo)

/-- `verify::verify_file`: both branches compare the length and the hash of the blob. -/
def verifyFile (file : FileEntry) : Except CliError Unit := do
  validateWorkingKey file.path
  require (file.hash.toList.length == 64 && file.hash.toList.all isHexDigit) "blob identifier"
  let bytes ← Except.ofOption repo.blobs[file.hash]? (.failure "failed to open blob")
  require (bytes.length == file.bytes.toNat && host.hashBytes bytes == file.hash)
    "blob digest or length"
  if file.symlink then do
    validateLink bytes
    require (!file.executable) "symlink mode"
  else .ok ()

/-- `verify::verify_manifest_paths`. -/
def verifyManifestPaths (files : List FileEntry) : Except CliError Unit := do
  let paths ← files.foldlM (fun (paths : BTreeSet String) file => do
    validateWorkingKey file.path
    require (!paths.contains file.path) "unique snapshot path"
    pure (paths.insert file.path)) ∅
  paths.toList.forM fun path =>
    (ancestors path).reverse.forM fun parent =>
      require (!paths.contains parent) "noncolliding snapshot paths (file/directory collision)"

/-- `verify::verify_manifest`. -/
def verifyManifest (files : List FileEntry) : Except CliError Unit := do
  verifyManifestPaths files
  files.forM (verifyFile host repo)

/-- `verify_target`. -/
def verifyTarget (snapshot : Snapshot) : Except CliError Unit := do
  if host.hashBytes (host.encodeManifest snapshot.files) ≠ snapshot.manifestHash then
    .error (.failure "line target manifest failed verification")
  else snapshot.files.forM (verifyFile host repo)

end Verify

end RGit.Cli
