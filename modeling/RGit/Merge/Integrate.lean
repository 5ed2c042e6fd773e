/-
RGit/Merge/Integrate.lean

The commands that merge a change into a line, and those around them.

A command reads the records it needs, and what it writes is committed when
it succeeds or when it stored conflicts; a command that fails otherwise
leaves the records as they were.
-/
import RGit.Merge.Access
import RGit.Merge.Ancestry
import RGit.Merge.Text

namespace RGit.Cli

/-- A leaf of the working tree, with the execute bits of its mode. -/
structure WorkingFile where
  content : Bytes
  mode : Bool
  symlink : Bool
  deriving DecidableEq

/-- `transaction::is_executable`. -/
def WorkingFile.isExecutable (file : WorkingFile) : Bool := !file.symlink && file.mode

/-- What one command gets from outside: the clock, the suffixes of the new
identifiers in order, the line differ, and the working tree, as the scan
lists it and by path. -/
structure Env where
  now : UInt64
  newIdSuffix : Nat → String
  diff : TextDiff
  entries : List (String × WorkingFile)
  working : String → Option WorkingFile

/-! ### Conflicts -/

/-- `combined_access_policy`. -/
def combinedAccessPolicy (policies : List AccessPolicy) : AccessPolicy :=
  match sortedDomains policies with
  | [] => publicPolicy
  | domains => ⟨domains, .placeholder⟩

/-- `can_access_conflict`. -/
def canAccessConflict (actor : Actor) (conflict : Conflict) : Bool :=
  let filePolicies :=
    if conflict.filePolicies.isEmpty then [conflict.filePolicy] else conflict.filePolicies
  canAccess actor conflict.linePolicy && canAccess actor conflict.changePolicy &&
    canAccess actor conflict.sourcePolicy && filePolicies.all (canAccess actor ·)

/-- `can_access_merge_sources`. -/
def canAccessMergeSources (actor : Actor) (snapshots : List (Option Snapshot))
    (fileSets : List (List FileEntry)) : Bool :=
  (snapshots.filterMap id).all (fun snapshot => canAccess actor snapshot.policy) &&
    fileSets.flatten.all fun file => canAccess actor file.policy

/-- `matches_sources`. -/
def matchesSources (conflict : Conflict) (line : Line) (change : Change) (incoming : Snapshot) :
    Bool :=
  conflict.line == line.name && conflict.changeId == change.id &&
    conflict.baseSnapshot == change.baseSnapshot && conflict.lineSnapshot == line.headSnapshot &&
    conflict.incomingSnapshot == incoming.id

/-- `refresh_conflict`. -/
def refreshConflict (conflict : Conflict) (change : Change) (incoming : Snapshot)
    (sourcePolicy : AccessPolicy) (pending : PendingConflict) : Conflict :=
  { conflict with
    incomingSnapshot := incoming.id
    kind := pending.kind
    policy := combinedAccessPolicy [pending.policy, change.policy, conflict.linePolicy]
    changePolicy := change.policy
    filePolicy := pending.policy
    filePolicies := pending.filePolicies
    sourcePolicy := sourcePolicy }

/-- `find_existing_unresolved_conflict`. -/
def findExistingUnresolvedConflict (repo : Repo) (line : Line) (change : Change) (path : String) :
    Option Conflict :=
  repo.conflicts.values.find? fun conflict =>
    conflict.status == .unresolved && conflict.line == line.name &&
      conflict.changeId == change.id && conflict.baseSnapshot == change.baseSnapshot &&
      conflict.lineSnapshot == line.headSnapshot && conflict.path == path

/-- `write_json` of a conflict. -/
def writeConflict (repo : Repo) (conflict : Conflict) : Except CliError Repo := do
  validateObjectId conflict.id "conf_"
  pure { repo with conflicts := repo.conflicts.insert conflict.id conflict }

/-- The record of a conflict that is met for the first time. -/
def newConflict (env : Env) (line : Line) (change : Change) (incoming : Snapshot)
    (sourcePolicy : AccessPolicy) (pending : PendingConflict) (index : Nat) : Conflict where
  id := s!"conf_{env.newIdSuffix index}"
  line := line.name
  changeId := change.id
  baseSnapshot := change.baseSnapshot
  lineSnapshot := line.headSnapshot
  incomingSnapshot := incoming.id
  path := pending.path
  kind := pending.kind
  policy := combinedAccessPolicy [pending.policy, change.policy, line.policy]
  linePolicy := line.policy
  changePolicy := change.policy
  filePolicy := pending.policy
  filePolicies := pending.filePolicies
  sourcePolicy := sourcePolicy
  status := .unresolved
  resolution := none
  replacement := none
  createdAt := env.now

/-- One pass of the loop of `store_conflicts`. -/
def storeConflict (host : Host) (env : Env) (line : Line) (change : Change) (incoming : Snapshot)
    (sourcePolicy : AccessPolicy) (repo : Repo) (pending : PendingConflict × Nat) :
    Except CliError Repo :=
  match findExistingUnresolvedConflict repo line change pending.1.path with
  | some existing =>
      writeConflict repo (refreshConflict existing change incoming sourcePolicy pending.1)
  | none => do
      let conflict := newConflict env line change incoming sourcePolicy pending.1 pending.2
      let repo ← writeConflict repo conflict
      pure (recordOperation host repo (.createConflict conflict.id change.id) adminPolicy
        s!"created merge conflict `{conflict.id}`" none)

/-- `store_conflicts`. -/
def storeConflicts (host : Host) (env : Env) (repo : Repo) (line : Line) (change : Change) (incoming : Snapshot)
    (sourcePolicy : AccessPolicy) (conflicts : List PendingConflict) : Except CliError Repo :=
  conflicts.zipIdx.foldlM (storeConflict host env line change incoming sourcePolicy) repo

/-! ### Resolutions -/

section Resolutions

variable (host : Host) (repo : Repo) (actor : Actor)

/-- `resolved_files`. -/
def resolvedFiles (conflict : Conflict) (decision : Resolution) :
    Except CliError (List FileEntry) :=
  if conflict.kind = .fileDirectory then treeResolvedFiles host repo actor conflict decision
  else do
    let file ← resolvedFile host repo actor conflict decision
    pure file.toList

/-- The stored resolutions for a conflict of a plan. -/
def matchingResolutions (line : Line) (change : Change) (incoming : Snapshot)
    (pending : PendingConflict) : List Conflict :=
  repo.conflicts.values.filter fun conflict =>
    conflict.status == .resolved && conflict.path == pending.path &&
      conflict.kind == pending.kind && matchesSources conflict line change incoming

/-- One pass of the loop of `apply_resolutions`. -/
def applyResolution (line : Line) (change : Change) (incoming : Snapshot) (plan : MergePlan)
    (pending : PendingConflict) : Except CliError MergePlan :=
  match matchingResolutions repo line change incoming pending with
  | _ :: _ :: _ => .error (.failure "multiple resolutions match the same conflict sources")
  | [conflict] =>
      if !canAccessConflict actor conflict then .error .operationUnavailable
      else do
        let decision ← Except.ofOption conflict.resolution
          (.failure "resolved conflict has no decision")
        let files ← resolvedFiles host repo actor conflict decision
        pure { plan with mergedFiles := plan.mergedFiles ++ files }
  | [] => pure { plan with conflicts := plan.conflicts ++ [pending] }

/-- `apply_resolutions`. -/
def applyResolutions (line : Line) (change : Change) (incoming : Snapshot) (plan : MergePlan) :
    Except CliError MergePlan :=
  if plan.conflicts.isEmpty then .ok plan
  else do
    let plan ← plan.conflicts.foldlM (applyResolution host repo actor line change incoming)
      { plan with conflicts := [] }
    pure { plan with mergedFiles := sortByPath (·.path) plan.mergedFiles }

end Resolutions

/-! ### Merging texts -/

section Texts

variable (host : Host) (env : Env) (repo : Repo)

/-- `text_merge::TOTAL_LIMIT`. -/
def totalLimit : Nat := 64 * 1048576

/-- `verify::open_blob`, read to its end. -/
def openBlob (hash : String) : Except CliError Bytes := do
  require (hash.toList.length == 64 && hash.toList.all isHexDigit) "blob identifier"
  Except.ofOption repo.blobs[hash]? (.failure "failed to open blob")

/-- `read_text`. -/
def readText (file : FileEntry) : Except CliError (Option String) := do
  let bytes := (← openBlob repo file.hash).take (fileLimit + 1)
  if bytes.length ≠ file.bytes.toNat ∨ host.hashBytes bytes ≠ file.hash then
    .error (.failure "text merge source blob failed verification")
  else
    pure ((fromUtf8 bytes).filter fun text =>
      !text.toList.any fun c => isControl c && !(c == '\n' || c == '\r' || c == '\t'))

/-- What `text_merge::apply` has so far. -/
structure TextState where
  mergedFiles : List FileEntry
  unresolved : List PendingConflict
  generated : BTreeMap String Bytes
  total : Nat

/-- The files of a conflict can be merged as texts. -/
def eligible (pending : PendingConflict) (sides : List FileEntry) (total : Nat) : Bool :=
  pending.kind == .bothModified && sides.length == 3 &&
    (sides.all fun file => !file.symlink && file.bytes.toNat ≤ fileLimit &&
      sides.head?.any fun first => file.executable == first.executable &&
        file.symlink == first.symlink && file.policy == first.policy) &&
    total + fileLimit ≤ totalLimit

/-- The merged text of three files. -/
def mergeTexts (sides : List FileEntry) : Except CliError (Option Bytes) := do
  match ← sides.mapM (readText host repo) with
  | [some base, some line, some incoming] => pure (merge env.diff base line incoming)
  | _ => pure none

/-- The merged text of the files of a conflict, where they can be merged. -/
def mergeEligible (pending : PendingConflict) (sides : List FileEntry) (total : Nat) :
    Except CliError (Option Bytes) :=
  if eligible pending sides total then mergeTexts host env repo sides else .ok none

/-- One pass of the loop of `text_merge::apply`. -/
def applyText (maps : List (BTreeMap String FileEntry)) (state : TextState)
    (pending : PendingConflict) : Except CliError TextState := do
  let sides := maps.filterMap fun map => map[pending.path]?
  let merged ← mergeEligible host env repo pending sides state.total
  match merged, sides with
  | some bytes, side :: _ =>
      let file := { side with hash := host.hashBytes bytes, bytes := bytes.length.toUInt64 }
      pure {
        mergedFiles := state.mergedFiles ++ [file]
        unresolved := state.unresolved
        generated := state.generated.insert file.hash bytes
        total := state.total + bytes.length }
  | _, _ => pure { state with unresolved := state.unresolved ++ [pending] }

/-- `text_merge::apply`. -/
def textMergeApply (plan : MergePlan) (base line incoming : Option Snapshot) :
    Except CliError (MergePlan × BTreeMap String Bytes) := do
  let maps := [base, line, incoming].map fun snapshot =>
    manifestMap ((snapshot.map (·.files)).getD [])
  let state ← plan.conflicts.foldlM (applyText host env repo maps)
    ⟨plan.mergedFiles, [], ∅, 0⟩
  pure (⟨sortByPath (·.path) state.mergedFiles, state.unresolved⟩, state.generated)

/-- `text_merge::verify`. -/
def textMergeVerify (plan : MergePlan) (generated : BTreeMap String Bytes) :
    Except CliError Unit := do
  verifyManifestPaths plan.mergedFiles
  plan.mergedFiles.forM fun file =>
    match generated[file.hash]? with
    | some bytes =>
        if file.symlink || bytes.length != file.bytes.toNat ||
            host.hashBytes bytes != file.hash then
          .error (.failure "generated merge content failed verification")
        else .ok ()
    | none => verifyFile host repo file

/-- One pass of the loop of `text_merge::publish`. -/
def publishText (repo : Repo) (blob : String × Bytes) : Except CliError Repo :=
  if repo.blobs.contains blob.1 then do
    let stored := (← openBlob repo blob.1).take (fileLimit + 1)
    if stored ≠ blob.2 then .error (.failure "existing merge blob failed verification")
    else pure repo
  else pure { repo with blobs := repo.blobs.insert blob.1 blob.2 }

/-- `text_merge::publish`. -/
def textMergePublish (generated : BTreeMap String Bytes) : Except CliError Repo :=
  generated.toList.foldlM publishText repo

end Texts

/-! ### Commands -/

section Commands

variable (host : Host) (env : Env) (repo : Repo)

/-- `validate_author`: a name and an address in angle brackets. -/
def validateAuthor (author : String) : Except CliError Unit :=
  -- `rsplit_once(" <")`
  match (List.range (author.toList.length + 1)).reverse.find? fun index =>
      (author.toList.drop index).take 2 == [' ', '<'] with
  | none => .error (.failure "author must be Name <email>")
  | some index =>
      let name := author.toList.take index
      let email := author.toList.drop (index + 2)
      if name.isEmpty || email.getLast? != some '>' || !email.contains '@' ||
          author.toList.any isControl || name.any (fun c => c == '<' || c == '>') ||
          email.dropLast.any fun c => c == '<' || c == '>' then
        .error (.failure "invalid export author identity")
      else .ok ()

/-- `identity::configured`. -/
def configured : Except CliError (Option String) := do
  Except.ifSome repo.author validateAuthor
  pure repo.author

/-- `policy_for_path`: the policy of the longest prefix. -/
def policyForPath (path : String) (policies : List PathPolicy) : AccessPolicy :=
  let matching := policies.filter fun policy => contains policy.pathPrefix path
  -- `max_by_key` takes the last of the longest
  let longest := matching.foldl (fun (best : Option PathPolicy) policy =>
    match best with
    | some best =>
        if (utf8Bytes policy.pathPrefix).length < (utf8Bytes best.pathPrefix).length then some best
        else some policy
    | none => some policy) none
  (longest.map (·.policy)).getD publicPolicy

/-- Storing a blob under its hash, where other bytes are refused. -/
def storeBlob (repo : Repo) (bytes : Bytes) (message : String) : Except CliError Repo :=
  let hash := host.hashBytes bytes
  match repo.blobs[hash]? with
  | some stored => if stored ≠ bytes then .error (.failure message) else .ok repo
  | none => .ok { repo with blobs := repo.blobs.insert hash bytes }

/-- The target of a link is checked before it is kept. -/
def checkLink (file : WorkingFile) : Except CliError Unit :=
  if file.symlink then validateLink file.content else .ok ()

/-- One pass of the loop of `scan_working_tree`. -/
def scanEntry (state : List FileEntry × Repo) (entry : String × WorkingFile) :
    Except CliError (List FileEntry × Repo) := do
  let (path, file) := entry
  let repo ← storeBlob host state.2 file.content
    "stored blob failed verification; snapshot was not published"
  checkLink file
  let captured : FileEntry := {
    symlink := file.symlink
    path := path
    executable := file.isExecutable
    hash := host.hashBytes file.content
    bytes := file.content.length.toUInt64
    policy := policyForPath path repo.pathPolicies }
  pure (state.1 ++ [captured], repo)

/-- `scan_working_tree`, storing the blobs. -/
def scanWorkingTree : Except CliError (List FileEntry × Repo) := do
  let (files, repo) ← env.entries.foldlM (scanEntry host) ([], repo)
  pure (sortByPath (·.path) files, repo)

/-- `manifest_hash`. -/
def manifestHash (files : List FileEntry) : String := host.hashBytes (host.encodeManifest files)

/-- `write_json` of a change. -/
def writeChange (repo : Repo) (change : Change) : Except CliError Repo := do
  validateObjectId change.id "chg_"
  pure { repo with changes := repo.changes.insert change.id change }

/-- `write_json` of a snapshot. -/
def writeSnapshot (repo : Repo) (snapshot : Snapshot) : Except CliError Repo := do
  validateObjectId snapshot.id "snap_"
  pure { repo with snapshots := repo.snapshots.insert snapshot.id snapshot }

/-- The change the workspace is at. -/
def currentChange (message : String) : Except CliError Change := do
  let workspace ← readWorkspace repo
  let id ← Except.ofOption workspace.currentChange (.failure message)
  readChange repo id

def noCurrentChange : String :=
  "workspace has no current change; run `rgit change new <name>` first"

/-- `create_snapshot`. -/
def createSnapshot (message : String) (requestedPolicy : AccessPolicy) : Except CliError Repo := do
  let workspace ← readWorkspace repo
  let change ← currentChange repo noCurrentChange
  let policy := if requestedPolicy.domains = [publicDomain] then change.policy else requestedPolicy
  let (files, repo) ← scanWorkingTree host env repo
  let snapshot : Snapshot := {
    author := ← configured repo
    git := none
    id := s!"snap_{env.newIdSuffix 0}"
    changeId := change.id
    parentSnapshot := change.workspaceBaseSnapshotId
    mergeParents := []
    message := message
    manifestHash := manifestHash host files
    files := files
    policy := policy
    createdAt := env.now }
  let repo := writeWorkspace repo { workspace with modeSnapshot := some snapshot.id }
  let repo ← writeSnapshot repo snapshot
  let repo ← writeChange repo { change with currentSnapshot := some snapshot.id }
  pure (recordOperation host repo (.createSnapshot change.id snapshot.id) policy
    s!"created snapshot for `{change.name}`" none)

/-- `git_remotes::retarget`. -/
def retarget (target actorName : String) : Except CliError Repo := do
  let actor ← readActor repo actorName
  let change ← currentChange repo "workspace has no current change"
  let line ← readLine repo target
  if !canAccess actor change.policy || !canAccess actor line.policy then
    .error .operationUnavailable
  else do
    let repo ← writeChange repo { change with targetLine := target }
    pure (recordOperation host repo (.retargetChange change.id target) adminPolicy
      s!"retargeted change `{change.id}` to `{target}`" none)

/-- The replacement that a custom resolution takes from the working tree. -/
def customReplacement (actor : Actor) (conflict : Conflict) :
    Except CliError (FileEntry × Repo) := do
  let policy := policyForPath conflict.path repo.pathPolicies
  if !canAccess actor policy then .error .operationUnavailable
  else do
    validateWorkingKey conflict.path
    let file ← Except.ofOption (env.working conflict.path) (.failure
      "custom resolution file is missing; use --take delete to resolve a deletion")
    checkLink file
    let repo ← storeBlob host repo file.content "custom resolution blob failed verification"
    pure ({
      path := conflict.path
      hash := host.hashBytes file.content
      bytes := file.content.length.toUInt64
      executable := file.isExecutable
      symlink := file.symlink
      policy := policy }, repo)

/-- What a conflict is at when it is resolved: its line, its change with the
base that a merge would have now, and the incoming snapshot. -/
def resolutionSources (actor : Actor) (conflict : Conflict) :
    Except CliError (Line × Change × Snapshot) := do
  let change ← readChange repo conflict.changeId
  let line ← readLine repo conflict.line
  let incoming ← readSnapshot repo conflict.incomingSnapshot
  if !canAccess actor change.policy || !canAccess actor line.policy then
    .error .operationUnavailable
  else do
    let base ← mergeBase repo line.headSnapshot incoming change.baseSnapshot
    let change := { change with baseSnapshot := base.map (·.id) }
    if !matchesSources conflict line change incoming ∨
        change.currentSnapshot ≠ some incoming.id then
      .error (.failure "conflict sources changed; integrate again to obtain current conflicts")
    else pure (line, change, incoming)

/-- The conflict with its decision, and the repository with its content. -/
def decide (actor : Actor) (conflict : Conflict) (decision : Resolution) :
    Except CliError (Conflict × Repo) :=
  if decision = .custom then do
    let (file, repo) ← customReplacement host env repo actor conflict
    -- the effective policy is kept with the content
    let effective ← resolvedFile host repo actor { conflict with replacement := some file } decision
    pure ({ conflict with
      replacement := effective
      status := .resolved
      resolution := some decision }, repo)
  else do
    let conflict := { conflict with replacement := none }
    let _ ← resolvedFiles host repo actor conflict decision
    pure ({ conflict with status := .resolved, resolution := some decision }, repo)

/-- `resolve_conflict`. -/
def resolveConflict (id : String) (decision : Resolution) (actorName : String) :
    Except CliError Repo := do
  let actor ← readActor repo actorName
  let conflict ← (readConflict repo id).mapError fun _ => .operationUnavailable
  if !canAccessConflict actor conflict then .error .operationUnavailable
  else do
    let _ ← resolutionSources repo actor conflict
    -- every source grant is checked before any working content is read
    let _ ← resolvedFiles host repo actor conflict .incoming
    if conflict.kind = .fileDirectory ∧ decision = .custom then
      .error (.failure ("file/directory conflicts require --take base, line, incoming, or delete; "
        ++ "edit and snapshot a side for custom content"))
    else do
      let (resolved, repo) ← decide host env repo actor conflict decision
      let repo ← writeConflict repo resolved
      pure (recordOperation host repo (.resolveConflict id) adminPolicy s!"resolved conflict `{id}`" none)

/-- What an integration found. -/
inductive Integration where
  | unchanged
  | conflicted
  | integrated
  deriving DecidableEq

/-- The sources of an integration: the actor, the line, the change with its
merge base, and the three snapshots. -/
structure Sources where
  actor : Actor
  line : Line
  change : Change
  base : Option Snapshot
  head : Option Snapshot
  incoming : Snapshot

/-- The part of `integrate_line` that reads the sources and checks access. -/
def integrationSources (lineName actorName : String) : Except CliError Sources := do
  let actor ← readActor repo actorName
  let change ← currentChange repo noCurrentChange
  let line ← readLine repo lineName
  if !canAccess actor line.policy || !canAccess actor change.policy then
    .error .operationUnavailable
  else do
    let id ← Except.ofOption change.currentSnapshot
      (.failure "change has no snapshot; run `rgit snapshot` first")
    let incoming ← readSnapshot repo id
    if change.targetLine ≠ line.name then
      .error (.failure (s!"change targets `{change.targetLine}`, not `{line.name}`; " ++
        "use `change retarget` to change its target first"))
    else do
      let base ← mergeBase repo line.headSnapshot incoming change.baseSnapshot
      let head ← readOptionalSnapshot repo line.headSnapshot
      let files (snapshot : Option Snapshot) := (snapshot.map (·.files)).getD []
      if !canAccessMergeSources actor [base, head, some incoming]
          [files base, files head, incoming.files] then
        .error .operationUnavailable
      else
        pure ⟨actor, line, { change with baseSnapshot := base.map (·.id) }, base, head, incoming⟩

/-- The plan of an integration, after the stored resolutions and the text merge. -/
def integrationPlan (s : Sources) : Except CliError (MergePlan × BTreeMap String Bytes) := do
  let files (snapshot : Option Snapshot) := (snapshot.map (·.files)).getD []
  let plan := planMerge (files s.base) (files s.head) s.incoming.files
  let plan ← applyResolutions host repo s.actor s.line s.change s.incoming plan
  textMergeApply host env repo plan s.base s.head (some s.incoming)

/-- The snapshot that an integration publishes. -/
def integratedSnapshot (s : Sources) (author : Option String) (files : List FileEntry)
    (policy : AccessPolicy) : Snapshot where
  author := author
  git := none
  id := s!"snap_{env.newIdSuffix 0}"
  changeId := s.change.id
  parentSnapshot := s.line.headSnapshot
  mergeParents := if s.line.headSnapshot = some s.incoming.id then [] else [s.incoming.id]
  message := s!"merge {s.change.name} into {s.line.name}"
  manifestHash := manifestHash host files
  files := files
  policy := policy
  createdAt := env.now

/-- The part of `integrate_line` that publishes a plan without conflicts. -/
def publishIntegration (s : Sources) (plan : MergePlan) (generated : BTreeMap String Bytes)
    (policy : AccessPolicy) : Except CliError Repo := do
  textMergeVerify host repo plan generated
  let repo ← textMergePublish repo generated
  let snapshot := integratedSnapshot host env s (← configured repo) plan.mergedFiles policy
  let repo ← writeSnapshot repo snapshot
  let message := if policy.domains = [publicDomain] then
    some s!"integrated change into `{s.line.name}`" else none
  pure (writeLine repo { s.line with headSnapshot := some snapshot.id }
    { id := operationId host repo
      kind := .integrateLine s.line.name s.change.id snapshot.id
      policy := policy
      privateMessage := s!"integrated change `{s.change.name}` ({s.change.id}) into `{s.line.name}`"
      publicMessage := message })

/-- `integrate_line`. -/
def integrateLine (lineName actorName : String) : Except CliError (Integration × Repo) := do
  let s ← integrationSources repo lineName actorName
  if s.base.any fun base => base.id = s.incoming.id then pure (.unchanged, repo)
  else do
    let policy := mergeSourcePolicy s.line.policy s.change.policy s.incoming s.base s.head
    let (plan, generated) ← integrationPlan host env repo s
    if plan.conflicts ≠ [] then do
      let repo ← storeConflicts host env repo s.line s.change s.incoming policy plan.conflicts
      pure (.conflicted, repo)
    else do
      let repo ← publishIntegration host env repo s plan generated policy
      pure (.integrated, repo)

end Commands

end RGit.Cli
