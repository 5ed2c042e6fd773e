/-
RGit/Cli/Transaction/Files.lean

How a transaction reads the file system.

A path is looked up name by name.  No function below looks through a link: each
one examines what a path goes through before it goes on, so what it finds is
what the tree has at that path, and it fails where there is a link or a file on
the way.  What it reads at a key of the working tree is the leaf at the path of
the key (`readWorking_eq_ok`), and two keys have two paths (`keyPath_injective`).

The order in which a directory is listed, the mode of a new file and the names
of temporary files come from outside (`System`).
-/
import RGit.Lib.FileTree
import RGit.Merge.Portable
import RGit.Repository.Ignore

namespace RGit.Cli.Transaction

/-- What is not a directory: a regular file with its permission bits, a link, or
something else. -/
inductive Leaf where
  | file (content : Bytes) (mode : UInt32)
  | link (target : Bytes)
  | special
  deriving DecidableEq

scoped instance lawfulEqOrd_osPath : Std.LawfulEqOrd (List Bytes) := inferInstance

abbrev Disk := FileTree Bytes Leaf

structure System where
  listed : Disk → OsPath → List Bytes → List Bytes
  listed_perm : ∀ disk path names, (listed disk path names).Perm names
  createMode : UInt32
  /-- The identifier that a temporary file beside this path gets. -/
  temporaryId : Disk → OsPath → Bytes

/-- `transaction::WorkingFlags`. -/
structure WorkingFlags where
  executable : Bool := false
  symlink : Bool := false
  deriving DecidableEq

/-! ### Paths -/

def keyParts (key : String) : List (List Char) := key.toList.splitOn '/'

/-- The names of a key below the root of the working tree. -/
def keyPath (key : String) : OsPath := (keyParts key).map fun part => utf8Bytes (String.ofList part)

/-- `fs::symlink_metadata`, with `none` where nothing is found. -/
def symlinkMetadata (disk : Disk) (path : OsPath) : Except CliError (Option (Node Leaf)) :=
  match disk.node path with
  | some node => .ok (some node)
  | none =>
      if path.inits.any fun front => (disk.leafAt front).isSome then
        .error (.failure "Not a directory (os error 20)")
      else .ok none

/-- `transaction::ensure_directory`. -/
def ensureDirectory (disk : Disk) (path : OsPath) : Except CliError Unit := do
  match ← symlinkMetadata disk path with
  | none => .error (.failure "No such file or directory (os error 2)")
  | some .directory => .ok ()
  | some (.leaf _) => .error (.failure "repository directory must not be a symlink")

/-- `fs::read_dir`. -/
def System.readDir (sys : System) (disk : Disk) (path : OsPath) : Except CliError (List Bytes) :=
  if disk.isDirectory path then .ok (sys.listed disk path (disk.names path))
  else .error (.failure "Not a directory (os error 20)")

/-- `transaction::check_path`, of the names below the control directory. -/
def checkPath (disk : Disk) (path : OsPath) : List Bytes → Except CliError Unit
  | [] => .ok ()
  | name :: rest => do
      let unsafePath := CliError.failure "unsafe repository metadata path"
      match ← symlinkMetadata disk (path ++ [name]) with
      | none =>
          if rest.isEmpty then .ok ()
          else .error (.failure "No such file or directory (os error 2)")
      | some .directory =>
          if rest.isEmpty then .error unsafePath else checkPath disk (path ++ [name]) rest
      | some (.leaf (.file _ _)) => if rest.isEmpty then .ok () else .error unsafePath
      | some (.leaf _) => .error unsafePath

/-- The loop of `transaction::working_path`. -/
def checkWorkingPath (disk : Disk) (path : OsPath) : List Bytes → Except CliError Unit
  | [] => .ok ()
  | name :: rest => do
      match ← symlinkMetadata disk (path ++ [name]) with
      | some (.leaf (.link _)) =>
          if !rest.isEmpty then .error (.failure "working path traverses a symlink")
      | some (.leaf (.file _ _)) =>
          if !rest.isEmpty then .error (.failure "working path has a non-directory parent")
      | some (.leaf .special) =>
          if !rest.isEmpty then .error (.failure "working path has a non-directory parent")
          else .error (.failure "working path is not a regular file")
      | some .directory =>
          if rest.isEmpty then .error (.failure "working path is not a regular file")
      | none => .ok ()
      checkWorkingPath disk (path ++ [name]) rest

/-- `transaction::working_path`. -/
def workingPath (disk : Disk) (root : OsPath) (key : String) : Except CliError OsPath := do
  validateWorkingKey key
  checkWorkingPath disk root (keyPath key)
  .ok (root ++ keyPath key)

/-! ### Leaves -/

/-- `transaction::is_executable`, of a leaf. -/
def Leaf.isExecutable : Leaf → Bool
  | .file _ mode => mode &&& 0o111 != 0
  | .link _ => false
  | .special => false

def Leaf.isSymlink : Leaf → Bool
  | .link _ => true
  | _ => false

/-- The bytes of a file, or the target of a link. -/
def Leaf.bytes : Leaf → Option Bytes
  | .file content _ => some content
  | .link target => some target
  | .special => none

def Leaf.flags (leaf : Leaf) : WorkingFlags := ⟨leaf.isExecutable, leaf.isSymlink⟩

/-- `transaction::read_working`. -/
def readWorking (disk : Disk) (root : OsPath) (key : String) : Except CliError (Option Bytes) := do
  let path ← workingPath disk root key
  match ← symlinkMetadata disk path with
  | none => .ok none
  | some (.leaf (.link target)) => .ok (some target)
  | some (.leaf (.file content _)) => .ok (some content)
  | some (.leaf .special) => .error (.failure "not a regular file")
  | some .directory => .error (.failure "Is a directory (os error 21)")

/-- `transaction::working_flags`.  A directory has execute bits. -/
def workingFlags (disk : Disk) (path : OsPath) : Except CliError WorkingFlags := do
  match ← symlinkMetadata disk path with
  | none => .ok {}
  | some .directory => .ok { executable := true }
  | some (.leaf leaf) => .ok leaf.flags

/-- `working_plan::relative_key`, of a path below the root. -/
def relativeKey (root path : OsPath) : Except CliError String := do
  let parts ← (path.drop root.length).mapM fun name =>
    Except.ofOption (fromUtf8 name) (.failure "unrepresentable working path")
  .ok (String.ofList (['/'].intercalate (parts.map String.toList)))

section Reading

variable {disk : Disk} {root path : OsPath} {key : String}

theorem symlinkMetadata_of_node {node : Node Leaf} (h : disk.node path = some node) :
    symlinkMetadata disk path = .ok (some node) := by
  rw [symlinkMetadata, h]

theorem symlinkMetadata_eq_ok {found : Option (Node Leaf)}
    (h : symlinkMetadata disk path = .ok found) : disk.node path = found := by
  rw [symlinkMetadata] at h
  split at h
  · next node hnode => rw [hnode, Except.ok.inj h]
  · next hnode =>
      split at h
      · cases h
      · rw [hnode, Except.ok.inj h]

theorem ensureDirectory_eq_ok (h : ensureDirectory disk path = .ok ()) :
    disk.node path = some .directory := by
  rw [ensureDirectory] at h
  obtain ⟨found, hfound, h⟩ := Except.bind_eq_ok.mp h
  rw [symlinkMetadata_eq_ok hfound]
  split at h
  · cases h
  · rfl
  · cases h

theorem workingPath_eq_ok (h : workingPath disk root key = .ok path) :
    validateWorkingKey key = .ok () ∧ path = root ++ keyPath key := by
  rw [workingPath, Except.bind_unit_eq_ok] at h
  obtain ⟨hvalid, h⟩ := h
  rw [Except.bind_unit_eq_ok] at h
  exact ⟨hvalid, (Except.ok.inj h.2).symm⟩

theorem readWorking_eq_ok {leaf : Leaf} {found : Option Bytes}
    (h : readWorking disk root key = .ok found)
    (hleaf : disk.node (root ++ keyPath key) = some (.leaf leaf)) :
    found = leaf.bytes ∧ leaf ≠ .special := by
  rw [readWorking] at h
  obtain ⟨path, hpath, h⟩ := Except.bind_eq_ok.mp h
  obtain ⟨-, rfl⟩ := workingPath_eq_ok hpath
  rw [symlinkMetadata_of_node hleaf] at h
  cases leaf with
  | file content mode => exact ⟨(Except.ok.inj h).symm, by simp⟩
  | link target => exact ⟨(Except.ok.inj h).symm, by simp⟩
  | special => cases h

theorem workingFlags_eq_ok {leaf : Leaf} {flags : WorkingFlags}
    (h : workingFlags disk path = .ok flags) (hleaf : disk.node path = some (.leaf leaf)) :
    flags = leaf.flags := by
  rw [workingFlags, symlinkMetadata_of_node hleaf] at h
  exact (Except.ok.inj h).symm

theorem keyPath_injective : Function.Injective keyPath := by
  intro key key' h
  have hparts : keyParts key = keyParts key' :=
    List.map_injective_iff.mpr (fun part part' hpart => by
      simpa using congrArg String.toList (utf8Bytes_injective hpart)) h
  have hchars := congrArg (['/'].intercalate ·) hparts
  simp only [keyParts, List.intercalate_splitOn] at hchars
  exact String.toList_inj.mp hchars

end Reading

end RGit.Cli.Transaction
