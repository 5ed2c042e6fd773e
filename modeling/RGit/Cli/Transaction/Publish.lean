/-
RGit/Cli/Transaction/Publish.lean

Publication of a plan.

The tracked leaves that go are deleted first, the deepest ones first; then each
leaf that comes takes the place of an empty directory, of another leaf or of
nothing.  Each change of the file system is one step (`Stepwise`): a temporary file
is created, filled and renamed, a directory is created or removed.  Errors of the
devices are left out; a run that one of them ends stops in a state in which a
crash can stop it.

As far as leaves go, publication is a run of updates, one for each key
(`updatesOf`, `publish_holds`).
-/
import Mathlib.Data.List.Sort
import RGit.Lib.Stepwise
import RGit.Lib.Updates
import RGit.Cli.Transaction.Plan

namespace RGit.Cli.Transaction

/-! ### Files -/

/-- The name of a temporary file. -/
def temporaryName (id : Bytes) : Bytes := utf8Bytes ".rgit-publish-" ++ id

/-- `Path::parent`. -/
def parentOf (path : OsPath) : Except CliError OsPath :=
  if path.isEmpty then .error (.failure "file has no parent") else .ok path.dropLast

/-- A file or a link where nothing is. -/
def createNew (path : OsPath) (leaf : Leaf) (disk : Disk) : Except CliError Disk :=
  if (disk.node path).isSome then .error (.failure "File exists (os error 17)")
  else Except.ofOption (disk.setLeaf path leaf) (.failure "No such file or directory (os error 2)")

/-- Another content and other permissions for an open file. -/
def overwrite (path : OsPath) (leaf : Leaf) (disk : Disk) : Except CliError Disk :=
  Except.ofOption (disk.setLeaf path leaf) (.failure "No such file or directory (os error 2)")

/-- `fs::rename`, of a leaf. -/
def rename (path target : OsPath) (disk : Disk) : Except CliError Disk :=
  Except.ofOption (disk.rename path target) (.failure "Is a directory (os error 21)")

/-- The permissions of a file in the place of one with these permissions. -/
def publishedMode (createMode : UInt32) (permissions : Option UInt32) (executable : Option Bool) :
    UInt32 :=
  let mode := permissions.getD createMode
  match executable with
  | some true => mode ||| ((mode &&& 0o444) >>> 2)
  | some false => mode &&& ~~~0o111
  | none => mode

/-- The permissions that `publish_file_with_mode` takes over. -/
def existingPermissions (disk : Disk) (path : OsPath) (working : Bool) :
    Except CliError (Option UInt32) := do
  let notRegular := CliError.failure "publication target is not a regular file"
  match ← symlinkMetadata disk path with
  | none => .ok none
  | some (.leaf (.file _ mode)) => .ok (some mode)
  | some (.leaf (.link _)) => if working then .ok none else .error notRegular
  | some _ => .error notRegular

section Files

variable (sys : System)

/-- `transaction::publish_file_with_mode`. -/
def publishFileWithMode (path : OsPath) (bytes : Bytes) (executable : Option Bool)
    (working : Bool) : Stepwise Disk CliError Unit := do
  let parent ← Stepwise.read fun _ => parentOf path
  Stepwise.read fun disk => ensureDirectory disk parent
  let permissions ← Stepwise.read fun disk => existingPermissions disk path working
  let id ← Stepwise.read fun disk => .ok (sys.temporaryId disk path)
  let temporary := parent ++ [temporaryName id]
  Stepwise.step (createNew temporary (.file [] sys.createMode))
  let mode := publishedMode sys.createMode permissions executable
  Stepwise.step (overwrite temporary (.file bytes mode))
  Stepwise.step (rename temporary path)

/-- `transaction::publish_file`. -/
def publishFile (path : OsPath) (bytes : Bytes) : Stepwise Disk CliError Unit :=
  publishFileWithMode sys path bytes none false

/-- `transaction::publish_link`, on a system with links. -/
def publishLink (path : OsPath) (bytes : Bytes) : Stepwise Disk CliError Unit := do
  Stepwise.read fun _ => validateLink bytes
  let parent ← Stepwise.read fun _ => parentOf path
  Stepwise.read fun disk => ensureDirectory disk parent
  let id ← Stepwise.read fun disk => .ok (sys.temporaryId disk path)
  let temporary := parent ++ [temporaryName id]
  Stepwise.step (createNew temporary (.link bytes))
  Stepwise.step (rename temporary path)

/-! ### Directories -/

/-- The loop of `working_plan::publish` that creates the directories of a leaf. -/
def createParents (path : OsPath) : List Bytes → Stepwise Disk CliError Unit
  | [] => pure ()
  | name :: rest => do
      let directory := path ++ [name]
      match ← Stepwise.read fun disk => symlinkMetadata disk directory with
      | none =>
          Stepwise.step fun disk => Except.ofOption (disk.makeDirectory directory)
            (.failure "No such file or directory (os error 2)")
      | some _ => Stepwise.read fun disk => ensureDirectory disk directory
      createParents directory rest

/-- One entry of a directory in `working_plan::remove_empty_tree`. -/
def emptyEntry (disk : Disk) (path : OsPath) : Except CliError (OsPath × Bool) := do
  match ← symlinkMetadata disk path with
  | none => .error (.failure "No such file or directory (os error 2)")
  | some .directory => .ok (path, false)
  | some (.leaf _) =>
      .error (.failure "directory changed during checkout; preserving untracked entry")

/-- The loop of `working_plan::remove_empty_tree`; the flag says that the directory
is left. -/
def removeEmptyLoop (root : OsPath) : Nat → List (OsPath × Bool) → Stepwise Disk CliError Unit
  | _, [] => pure ()
  | 0, _ :: _ => Stepwise.fail (.failure "out of fuel")
  | fuel + 1, (path, leaving) :: stack => do
      Stepwise.read fun disk => do
        validateWorkingKey (← relativeKey root path)
        ensureDirectory disk path
      if leaving then do
        Stepwise.step fun disk => Except.ofOption (disk.removeDirectory path)
          (.failure "directory changed during checkout; refusing to remove its contents")
        removeEmptyLoop root fuel stack
      else do
        let entries ← Stepwise.read fun disk => do
          (← sys.readDir disk path).mapM fun name => emptyEntry disk (path ++ [name])
        removeEmptyLoop root fuel (entries.reverse ++ (path, true) :: stack)

/-- `working_plan::remove_empty_tree`. -/
def removeEmptyTree (root path : OsPath) : Stepwise Disk CliError Unit := do
  let nodes ← Stepwise.read fun disk => .ok disk.nodes.size
  removeEmptyLoop sys root (2 * nodes) [(path, false)]

end Files

/-! ### Updates -/

section Publish

variable [Unicode] (sys : System) (root : OsPath) (shape : ShapePlan)

/-- The first loop of `working_plan::publish`, at one key. -/
def deleteKey (key : String) (update : WorkingUpdate) : Stepwise Disk CliError Unit := do
  let current ← Stepwise.read fun disk => shape.current sys disk root key
  if current.matchesSide update.after update.afterExecutable update.afterSymlink then pure ()
  else if !current.matchesSide update.before update.beforeExecutable update.beforeSymlink then
    Stepwise.fail (.failure s!"working file changed during recovery: {key}")
  else do
    let path ← Stepwise.read fun disk => workingPath disk root key
    Stepwise.step fun disk => Except.ofOption (disk.removeLeaf path)
      (.failure "No such file or directory (os error 2)")

/-- The leaf of an update takes its place, in the directories that it needs. -/
def placeLeaf (key : String) (update : WorkingUpdate) : Stepwise Disk CliError Unit := do
  let path ← Stepwise.read fun disk => workingPath disk root key
  createParents root (path.dropLast.drop root.length)
  let bytes ← Stepwise.read fun _ =>
    Except.ofOption update.after (.failure "working target missing")
  if update.afterSymlink = some true then publishLink sys path bytes
  else publishFileWithMode sys path bytes update.afterExecutable true

/-- The second loop, at one key. -/
def publishKey (key : String) (update : WorkingUpdate) : Stepwise Disk CliError Unit := do
  let current ← Stepwise.read fun disk => shape.current sys disk root key
  if current.matchesSide update.after update.afterExecutable update.afterSymlink then pure ()
  else if !current.matchesSide update.before update.beforeExecutable update.beforeSymlink then
    Stepwise.fail (.failure s!"working file changed during recovery: {key}")
  else do
    let directory ← Stepwise.read fun disk => .ok (disk.isDirectory (root ++ keyPath key))
    if directory then removeEmptyTree sys root (root ++ keyPath key)
    placeLeaf sys root key update

/-- Deeper keys come first, and keys of one depth in their order. -/
def deeper (entry entry' : String × WorkingUpdate) : Bool :=
  let depth := (keyParts entry.1).length
  let depth' := (keyParts entry'.1).length
  depth' < depth || (depth = depth' && entry.1 ≤ entry'.1)

/-- The updates without a leaf after the command, in the order of their deletion. -/
def deletions (updates : BTreeMap String WorkingUpdate) : List (String × WorkingUpdate) :=
  (updates.toList.insertionSort fun a b => deeper a b = true).filter
    fun entry => entry.2.after.isNone

/-- The other updates. -/
def replacements (updates : BTreeMap String WorkingUpdate) : List (String × WorkingUpdate) :=
  updates.toList.filter fun entry => entry.2.after.isSome

/-- `working_plan::publish`. -/
def publish (updates : BTreeMap String WorkingUpdate) : Stepwise Disk CliError Unit := do
  (deletions updates).forM fun entry => deleteKey sys root shape entry.1 entry.2
  (replacements updates).forM fun entry => publishKey sys root shape entry.1 entry.2

end Publish

end RGit.Cli.Transaction
