/-
RGit/Git/Import.lean

Importing a Git history.

The commits of the history are visited parents first.  A commit whose
identifier some snapshot carries already is skipped; a commit that was
written from a native snapshot is bound to it; every other commit becomes a
new change with one snapshot.

The Git repository is a parameter (`GitSource`), by what the commands that
read it print.
-/
import RGit.Repository.Verify

namespace RGit.Cli

/-- What the Git commands answer; `none` where they fail. -/
structure GitSource where
  /-- `fsck --full --strict` succeeds. -/
  fsck : Bool
  /-- `rev-parse --show-object-format`. -/
  objectFormat : Option String
  /-- `rev-parse --verify` of a revision as a commit. -/
  revParse : String → Option String
  /-- The lines of `rev-list --reverse --topo-order`. -/
  revList : String → Option (List String)
  /-- The bytes of an object of a kind, from `cat-file --batch`. -/
  catFile : String → String → Option Bytes
  /-- `ls-tree -r -z --full-tree`. -/
  lsTree : String → Option Bytes

/-- The failure of a Git command. -/
def gitFailed : CliError := .failure "Git command failed"

/-- `GitObjectReader::read`. -/
def GitSource.read (source : GitSource) (oid kind : String) : Except CliError Bytes :=
  let isHexText := oid.toList.all fun c => isHexDigit c || ('A' ≤ c && c ≤ 'F')
  if !(oid.toList.length == 40 || oid.toList.length == 64) || !isHexText then
    .error (.failure "invalid Git batch object request")
  else Except.ofOption (source.catFile oid kind)
    (.failure "Git object response is missing or malformed")

/-! ### The files of a commit -/

structure ImportedBlob where
  hash : String
  bytes : UInt64
  validLink : Bool

/-- The blobs that were read, by their Git identifiers. -/
abbrev BlobCache := BTreeMap String ImportedBlob

section Files

variable (host : Host) (source : GitSource) (format : String) (policy : AccessPolicy)

/-- The blob of a Git identifier, read and stored when it is met for the first time. -/
def importBlob (repo : Repo) (blobs : BlobCache) (oid : String) :
    Except CliError (ImportedBlob × Repo × BlobCache) :=
  match blobs[oid]? with
  | some blob => .ok (blob, repo, blobs)
  | none => do
      let bytes ← source.read oid "blob"
      let id ← objectId host "blob" bytes format
      if id ≠ oid then .error (.failure "Git blob identity mismatch")
      else do
        let repo ← storeBlob host repo bytes "stored blob failed verification"
        let blob := ⟨host.hashBytes bytes, bytes.length.toUInt64, (validateLink bytes).isOk⟩
        pure (blob, repo, blobs.insert oid blob)

/-- The mode, the identifier and the path of a record of `ls-tree`. -/
def treeRecord (record : Bytes) : Except CliError (String × String × String) := do
  let tab := record.takeWhile (· ≠ 9)
  if tab.length = record.length then .error (.failure "invalid Git tree record")
  else do
    let fields ← Except.ofOption (fromUtf8 tab) (.failure "invalid utf-8 sequence")
    match (fields.toList.splitOn ' ').map String.ofList with
    | [mode, "blob", oid] =>
        if mode ≠ "100644" ∧ mode ≠ "100755" ∧ mode ≠ "120000" then
          .error (.failure ("Git import supports regular files and symlinks; " ++
            "submodules and other tree modes are unsupported"))
        else do
          let path ← Except.ofOption (fromUtf8 (record.drop (tab.length + 1)))
            (.failure "Git filename is not representable as UTF-8")
          pure (mode, oid, path)
    | _ => .error (.failure ("Git import supports regular files and symlinks; " ++
        "submodules and other tree modes are unsupported"))

/-- One pass of the loop of `import_files`. -/
def importRecord (state : List FileEntry × Repo × BlobCache) (record : Bytes) :
    Except CliError (List FileEntry × Repo × BlobCache) := do
  let (mode, oid, path) ← treeRecord record
  validateWorkingKey path
  let oid ← parseId (utf8Bytes oid) format
  let (blob, repo, blobs) ← importBlob host source format state.2.1 state.2.2 oid
  if mode = "120000" ∧ !blob.validLink then
    .error (.failure "symlink target must be nonempty and contain no NUL")
  else
    let file : FileEntry := {
      symlink := mode == "120000"
      path := path
      executable := mode == "100755"
      hash := blob.hash
      bytes := blob.bytes
      policy := policy }
    pure (state.1 ++ [file], repo, blobs)

/-- `import_files`. -/
def importFiles (repo : Repo) (blobs : BlobCache) (commit : String) :
    Except CliError (List FileEntry × Repo × BlobCache) := do
  let listing ← Except.ofOption (source.lsTree commit) gitFailed
  let records := (listing.splitOn 0).filter fun record => !record.isEmpty
  let (files, repo, blobs) ← records.foldlM (importRecord host source format policy)
    ([], repo, blobs)
  pure (sortByPath (·.path) files, repo, blobs)

end Files

/-! ### One commit -/

/-- What the loop of `import_history` has so far: the snapshots by the commits
they carry, and the change of the tip. -/
structure ImportState where
  repo : Repo
  mapped : BTreeMap String String
  blobs : BlobCache
  imported : Nat
  tipChange : Option String

/-- `message.lines().next().unwrap_or("Git import")`. -/
def firstLine (message : String) : String :=
  if message.isEmpty then "Git import"
  else
    let line := message.toList.takeWhile (· ≠ '\n')
    if line.length < message.toList.length ∧ line.getLast? = some '\r' then
      String.ofList line.dropLast
    else String.ofList line

/-- `parsed.timestamp.checked_mul(1000)`. -/
def milliseconds (timestamp : Nat) : Except CliError UInt64 :=
  if timestamp * 1000 < 2 ^ 64 then .ok (timestamp * 1000).toUInt64
  else .error (.failure "Git timestamp exceeds native range")

section Commits

variable (host : Host) (env : Env) (source : GitSource) (format tip into : String)
  (policy : AccessPolicy)

/-- The native snapshot that a commit was written from. -/
def reconciled (repo : Repo) (parsed : ParsedCommit) (parentIds : List String) :
    Except CliError (Option Snapshot) :=
  match parsed.nativeSnapshot.bind fun id => (readSnapshot repo id).toOption with
  | none => .ok none
  | some candidate =>
      if candidate.git.isNone && parents candidate == parentIds &&
          utf8Bytes candidate.message == parsed.message &&
          candidate.author.all (fun author => parsed.authorIdentity == some (utf8Bytes author)) &&
          candidate.createdAt.toNat / 1000 == parsed.timestamp then do
        let (tree, _) ← gitTree host repo candidate.files format
        pure (if tree = parsed.tree then some candidate else none)
      else .ok none

/-- A commit is bound to the native snapshot that it was written from. -/
def bindCommit (state : ImportState) (metadata : CommitMetadata) (candidate : Snapshot) :
    Except CliError ImportState := do
  let repo ← writeSnapshot state.repo { candidate with git := some metadata }
  let repo := recordOperation host repo
    (.bindGitIdentity candidate.id metadata.objectId) adminPolicy
    s!"reconciled Git identity for `{candidate.id}`" none
  pure { state with
    repo := repo
    mapped := state.mapped.insert metadata.objectId candidate.id
    tipChange := if metadata.objectId = tip then some candidate.changeId else state.tipChange }

/-- The change of a new commit. -/
def importedChange (parsed : ParsedCommit) (parentIds : List String) (index : Nat)
    (createdAt : UInt64) : Change where
  id := s!"chg_{env.newIdSuffix (2 * index)}"
  name := firstLine (fromUtf8Lossy parsed.message)
  baseSnapshot := parentIds.head?
  targetLine := into
  currentSnapshot := some s!"snap_{env.newIdSuffix (2 * index + 1)}"
  policy := policy
  createdAt := createdAt

/-- The snapshot of a new commit. -/
def importedSnapshot (metadata : CommitMetadata) (parsed : ParsedCommit) (parentIds : List String)
    (files : List FileEntry) (index : Nat) (createdAt : UInt64) : Snapshot where
  author := none
  git := some metadata
  id := s!"snap_{env.newIdSuffix (2 * index + 1)}"
  changeId := s!"chg_{env.newIdSuffix (2 * index)}"
  parentSnapshot := parentIds.head?
  mergeParents := parentIds.drop 1
  message := fromUtf8Lossy parsed.message
  manifestHash := manifestHash host files
  files := files
  policy := policy
  createdAt := createdAt

/-- A commit becomes a new change with one snapshot. -/
def createCommit (state : ImportState) (metadata : CommitMetadata) (parsed : ParsedCommit)
    (parentIds : List String) : Except CliError ImportState := do
  let (files, repo, blobs) ← importFiles host source format policy state.repo state.blobs
    metadata.objectId
  let (tree, _) ← gitTree host repo files format
  if tree ≠ parsed.tree then
    .error (.failure "Git tree cannot be represented without changing its identity")
  else do
    let createdAt ← milliseconds parsed.timestamp
    let change := importedChange env into policy parsed parentIds state.imported createdAt
    let snapshot := importedSnapshot host env policy metadata parsed parentIds files
      state.imported createdAt
    let repo ← writeChange repo change
    let repo ← writeSnapshot repo snapshot
    pure {
      repo := repo
      mapped := state.mapped.insert metadata.objectId snapshot.id
      blobs := blobs
      imported := state.imported + 1
      tipChange := if metadata.objectId = tip then some change.id else state.tipChange }

/-- The change of a commit that is mapped already, where it is the tip. -/
def knownCommit (state : ImportState) (oid id : String) : Except CliError ImportState :=
  if oid = tip then do
    let snapshot ← readSnapshot state.repo id
    pure { state with tipChange := some snapshot.changeId }
  else pure state

/-- A commit that is not mapped. -/
def newCommit (state : ImportState) (oid : String) : Except CliError ImportState := do
  let raw ← source.read oid "commit"
  let metadata : CommitMetadata := ⟨oid, format, raw⟩
  let parsed ← metadata.parse host
  let parentIds ← parsed.parents.mapM fun id =>
    Except.ofOption state.mapped[id]? (.failure "Git history is incomplete or shallow")
  let candidate ← reconciled host format state.repo parsed parentIds
  match candidate with
  | some candidate => bindCommit host tip state metadata candidate
  | none => createCommit host env source format tip into policy state metadata parsed parentIds

/-- One pass of the loop of `import_history`. -/
def importCommit (state : ImportState) (oid : String) : Except CliError ImportState := do
  let _ ← parseId (utf8Bytes oid) format
  match state.mapped[oid]? with
  | some id => knownCommit tip state oid id
  | none => newCommit host env source format tip into policy state oid

end Commits

/-! ### The whole history -/

section History

variable (host : Host) (env : Env) (repo : Repo) (source : GitSource)

/-- The line that a history is imported into. -/
def importLine (into : String) (policy : AccessPolicy) : Except CliError Line :=
  if repo.lines.contains (fileName into) then readLine repo into
  else .ok ⟨into, none, policy, env.now⟩

/-- A line with a head is only moved forward. -/
def checkFastForward (line : Line) (format : String) (revisions : List String) :
    Except CliError Unit :=
  Except.ifSome line.headSnapshot fun id => do
    let previous ← readSnapshot repo id
    let provenance ← Except.ofOption previous.git
      (.failure "fetch target contains native work; use a separate tracking line")
    if provenance.objectFormat ≠ format ∨ provenance.objectId ∉ revisions then
      .error (.failure ("remote branch is not a fast-forward of the tracking line; " ++
        "fetch into a new line to inspect it"))
    else .ok ()

/-- One pass of the loop that collects the commits that snapshots carry. -/
def mapSnapshot (format : String) (mapped : BTreeMap String String) (snapshot : Snapshot) :
    Except CliError (BTreeMap String String) :=
  match snapshot.git with
  | none => .ok mapped
  | some metadata =>
      if metadata.objectFormat ≠ format then .ok mapped
      else if mapped.contains metadata.objectId then
        .error (.failure "duplicate Git provenance requires reconciliation before import")
      else .ok (mapped.insert metadata.objectId snapshot.id)

/-- The commits that snapshots carry. -/
def mappedSnapshots (format : String) : Except CliError (BTreeMap String String) :=
  repo.snapshots.values.foldlM (mapSnapshot format) ∅

/-- The workspace is put at a change when it is at none. -/
def adoptChange (repo : Repo) (changeId : String) : Except CliError Repo := do
  let workspace ← readWorkspace repo
  pure (if workspace.currentChange.isNone then
    writeWorkspace repo { workspace with currentChange := some changeId } else repo)

/-- The last part of `import_history`: the line is moved to the tip. -/
def publishImport (line : Line) (into tip actorName : String) (policy : AccessPolicy)
    (state : ImportState) : Except CliError (Nat × Repo) := do
  let snapshotId ← Except.ofOption state.mapped[tip]? (.failure "Git import contained no tip")
  let changeId ← Except.ofOption state.tipChange (.failure "Git import tip change missing")
  let repo := { state.repo with
    lines := state.repo.lines.insert (fileName into)
      { line with headSnapshot := some snapshotId, policy := policy } }
  let repo ← adoptChange repo changeId
  let repo := recordOperation host repo (.importGit into changeId snapshotId) adminPolicy
    s!"imported Git revision into `{into}`" none
  verify host repo actorName
  pure (state.imported, repo)

/-- The checks that `import_history` starts with, and what it is to import: the
object format, the tip, the line and the commits. -/
def importRequest (revision into actorName : String) (policy : AccessPolicy) (allowUpdate : Bool) :
    Except CliError (String × String × Line × List String) := do
  verify host repo actorName
  validateNamedKey into
  if !source.fsck then .error gitFailed
  else do
    let format ← Except.ofOption source.objectFormat gitFailed
    let _ ← idLength format
    let tip ← Except.ofOption (source.revParse revision) gitFailed
    let _ ← parseId (utf8Bytes tip) format
    let line ← importLine env repo into policy
    if line.headSnapshot.isSome && !allowUpdate then
      .error (.failure "Git import target line must be empty")
    else do
      let revisions ← Except.ofOption (source.revList tip) gitFailed
      checkFastForward repo line format revisions
      pure (format, tip, line, revisions)

/-- `import_history`. -/
def importHistory (revision into actorName : String) (policy : AccessPolicy) (allowUpdate : Bool) :
    Except CliError (Nat × Repo) := do
  let (format, tip, line, revisions) ←
    importRequest host env repo source revision into actorName policy allowUpdate
  let mapped ← mappedSnapshots repo format
  let state ← revisions.foldlM (importCommit host env source format tip into policy)
    ⟨repo, mapped, ∅, 0, none⟩
  publishImport host line into tip actorName policy state

end History

end RGit.Cli
