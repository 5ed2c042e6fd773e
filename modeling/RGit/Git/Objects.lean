/-
RGit/Git/Objects.lean

Git objects: the identifiers of blobs, trees and commits, how a commit is
parsed, and the tree that the files of a snapshot make.

The two hash functions are parameters (`Host`).
-/
import Mathlib.Algebra.Group.Int.Defs
import RGit.Merge.Records

namespace RGit.Cli

/-! ### Identifiers -/

/-- `b.is_ascii_digit() || (b'a'..=b'f').contains(&b)`. -/
def isHexByte (b : UInt8) : Bool := (48 ≤ b && b ≤ 57) || (97 ≤ b && b ≤ 102)

/-- The digits of an identifier in an object format. -/
def idLength (format : String) : Except CliError Nat :=
  match format with
  | "sha1" => .ok 40
  | "sha256" => .ok 64
  | _ => .error (.failure "unsupported Git object format")

/-- `git_objects::parse_id`. -/
def parseId (bytes : Bytes) (format : String) : Except CliError String := do
  let length ← idLength format
  if bytes.length ≠ length ∨ ¬ bytes.all isHexByte then
    .error (.failure "invalid Git object identifier")
  else Except.ofOption (fromUtf8 bytes) (.failure "invalid utf-8 sequence")

/-- `git_objects::object_id`. -/
def objectId (host : Host) (kind : String) (bytes : Bytes) (format : String) :
    Except CliError String :=
  let preimage := utf8Bytes s!"{kind} {bytes.length}\x00" ++ bytes
  match format with
  | "sha1" => .ok (host.sha1 preimage)
  | "sha256" => .ok (host.hashBytes preimage)
  | _ => .error (.failure "unsupported Git object format")

/-! ### Commits -/

/-- The bytes before the first empty line, and those after it. -/
def splitHeader : Bytes → Option (Bytes × Bytes)
  | [] => none
  | 10 :: 10 :: message => some ([], message)
  | b :: rest => (splitHeader rest).map fun (header, message) => (b :: header, message)

/-- What comes before the last of a byte. -/
def beforeLast (b : UInt8) (bytes : Bytes) : Option Bytes :=
  match bytes.reverse.dropWhile (· ≠ b) with
  | [] => none
  | _ :: rest => some rest.reverse

/-- The bytes that may follow a first byte of UTF-8 text, one range for each. -/
def continuations (b : UInt8) : Option (List (UInt8 × UInt8)) :=
  if b < 0x80 then some []
  else if 0xc2 ≤ b ∧ b ≤ 0xdf then some [(0x80, 0xbf)]
  else if b = 0xe0 then some [(0xa0, 0xbf), (0x80, 0xbf)]
  else if b = 0xed then some [(0x80, 0x9f), (0x80, 0xbf)]
  else if 0xe1 ≤ b ∧ b ≤ 0xef then some [(0x80, 0xbf), (0x80, 0xbf)]
  else if b = 0xf0 then some [(0x90, 0xbf), (0x80, 0xbf), (0x80, 0xbf)]
  else if 0xf1 ≤ b ∧ b ≤ 0xf3 then some [(0x80, 0xbf), (0x80, 0xbf), (0x80, 0xbf)]
  else if b = 0xf4 then some [(0x80, 0x8f), (0x80, 0xbf), (0x80, 0xbf)]
  else none

/-- How many of the bytes are within the ranges. -/
def matching : List (UInt8 × UInt8) → Bytes → Nat
  | (low, high) :: ranges, b :: rest =>
      if low ≤ b ∧ b ≤ high then matching ranges rest + 1 else 0
  | _, _ => 0

/-- The characters of a text, with U+FFFD for each longest part of a sequence
that does not go on. -/
def lossyChars : Nat → Bytes → List Char
  | 0, _ => []
  | _, [] => []
  | fuel + 1, b :: rest =>
      match continuations b with
      | none => '\uFFFD' :: lossyChars fuel rest
      | some ranges =>
          let taken := matching ranges rest
          let chunk :=
            if taken = ranges.length then ((fromUtf8 (b :: rest.take taken)).map (·.toList)).getD []
            else ['\uFFFD']
          chunk ++ lossyChars fuel (rest.drop taken)

/-- `String::from_utf8_lossy`. -/
def fromUtf8Lossy (bytes : Bytes) : String :=
  match fromUtf8 bytes with
  | some text => text
  | none => String.ofList (lossyChars bytes.length bytes)

/-- The digits of a decimal number. -/
def parseDigits (digits : List Char) : Option Nat :=
  if digits.isEmpty || !digits.all Char.isDigit then none
  else some (digits.foldl (fun n c => 10 * n + (c.toNat - 48)) 0)

/-- `str::parse::<i64>`. -/
def parseI64 (text : String) : Option Int :=
  let value : Option Int :=
    match text.toList with
    | '-' :: digits => (parseDigits digits).map fun n => -(n : Int)
    | '+' :: digits => (parseDigits digits).map fun n => (n : Int)
    | digits => (parseDigits digits).map fun n => (n : Int)
  value.filter fun n => -2 ^ 63 ≤ n ∧ n < 2 ^ 63

structure ParsedCommit where
  tree : String
  parents : List String
  message : Bytes
  timestamp : Nat
  nativeSnapshot : Option String
  authorIdentity : Option Bytes

/-- What the loop over the header has found so far. -/
structure Headers where
  tree : Option String
  parents : List String
  timestamp : Option Nat
  nativeSnapshot : Option String
  authorIdentity : Option Bytes

/-- `line.strip_prefix(key)` and what is done with the rest. -/
def onHeader (key : String) (line : Bytes) (found : Headers)
    (f : Bytes → Except CliError Headers) : Except CliError Headers :=
  match (utf8Bytes key).isPrefixOf? line with
  | some value => f value
  | none => .ok found

def authorHeader (found : Headers) (line : Bytes) : Except CliError Headers :=
  onHeader "author " line found fun author => do
    -- `rsplitn(3, ' ').nth(2)`
    let identity ← Except.ofOption ((beforeLast 32 author).bind (beforeLast 32))
      (.failure "Git author timestamp missing")
    if found.authorIdentity.isSome then .error (.failure "duplicate Git author header")
    else .ok { found with authorIdentity := some identity }

def treeHeader (format : String) (found : Headers) (line : Bytes) : Except CliError Headers :=
  onHeader "tree " line found fun id =>
    if found.tree.isSome then .error (.failure "duplicate Git tree header")
    else do
      let tree ← parseId id format
      pure { found with tree := some tree }

def snapshotHeader (found : Headers) (line : Bytes) : Except CliError Headers :=
  onHeader "rgit-snapshot " line found fun id => do
    let id ← Except.ofOption (fromUtf8 id) (.failure "invalid utf-8 sequence")
    validateObjectId id "snap_"
    if found.nativeSnapshot.isSome then .error (.failure "duplicate native snapshot header")
    else pure { found with nativeSnapshot := some id }

def parentHeader (format : String) (found : Headers) (line : Bytes) : Except CliError Headers :=
  onHeader "parent " line found fun id => do
    let parent ← parseId id format
    pure { found with parents := found.parents ++ [parent] }

def committerHeader (found : Headers) (line : Bytes) : Except CliError Headers :=
  onHeader "committer " line found fun committer => do
    -- `rsplit(' ').nth(1)`
    let stamp ← Except.ofOption (committer.splitOn 32).reverse[1]?
      (.failure "Git committer timestamp missing")
    let stamp ← Except.ofOption (fromUtf8 stamp) (.failure "invalid utf-8 sequence")
    let stamp ← Except.ofOption (parseI64 stamp) (.failure "invalid digit found in string")
    pure { found with timestamp := some (max stamp 0).toNat }

/-- One pass of the loop over the header. -/
def headerLine (format : String) (found : Headers) (line : Bytes) : Except CliError Headers := do
  let found ← authorHeader found line
  let found ← treeHeader format found line
  let found ← snapshotHeader found line
  let found ← parentHeader format found line
  committerHeader found line

/-- `CommitMetadata::parse`. -/
def CommitMetadata.parse (host : Host) (m : CommitMetadata) : Except CliError ParsedCommit := do
  let id ← Cli.objectId host "commit" m.rawCommit m.objectFormat
  if id ≠ m.objectId then .error (.failure "Git commit provenance digest mismatch")
  else do
    let (header, message) ← Except.ofOption (splitHeader m.rawCommit)
      (.failure "Git commit has no header terminator")
    let found ← (header.splitOn 10).foldlM (headerLine m.objectFormat) ⟨none, [], none, none, none⟩
    let tree ← Except.ofOption found.tree (.failure "Git tree header missing")
    let timestamp ← Except.ofOption found.timestamp (.failure "Git committer missing")
    pure ⟨tree, found.parents, message, timestamp, found.nativeSnapshot, found.authorIdentity⟩

/-! ### Trees -/

structure GitObject where
  id : String
  kind : String
  bytes : Bytes
  deriving DecidableEq

/-- `git_objects::Entry`, a directory as its entries in the order of their names. -/
inductive TreeEntry where
  | file (id mode : String)
  | directory (entries : List (String × TreeEntry))

/-- `BTreeMap::insert` of a directory entry, in the place of one with the name. -/
def putEntry (entries : List (String × TreeEntry)) (name : String) (entry : TreeEntry) :
    List (String × TreeEntry) :=
  match entries with
  | [] => [(name, entry)]
  | (other, e) :: rest =>
      match compare name other with
      | .lt => (name, entry) :: (other, e) :: rest
      | .eq => (name, entry) :: rest
      | .gt => (other, e) :: putEntry rest name entry

/-- `git_objects::insert`. -/
def insertEntry (entries : List (String × TreeEntry)) (parts : List String) (id mode : String) :
    Except CliError (List (String × TreeEntry)) :=
  match parts with
  | [] => .ok entries
  | [name] =>
      if (entries.find? (·.1 == name)).isSome then .error (.failure "duplicate Git tree path")
      else .ok (putEntry entries name (.file id mode))
  | name :: rest =>
      match entries.find? (·.1 == name) with
      | some (_, .file _ _) => .error (.failure "Git tree path collision")
      | some (_, .directory child) => do
          let child ← insertEntry child rest id mode
          pure (putEntry entries name (.directory child))
      | none => do
          let child ← insertEntry [] rest id mode
          pure (putEntry entries name (.directory child))

theorem insertEntry_cons_cons (entries : List (String × TreeEntry)) (name next : String)
    (rest : List String) (id mode : String) :
    insertEntry entries (name :: next :: rest) id mode =
      match entries.find? (·.1 == name) with
      | some (_, .file _ _) => .error (.failure "Git tree path collision")
      | some (_, .directory child) => insertEntry child (next :: rest) id mode >>=
          fun child => .ok (putEntry entries name (.directory child))
      | none => insertEntry [] (next :: rest) id mode >>=
          fun child => .ok (putEntry entries name (.directory child)) := by
  rw [insertEntry]
  · rfl
  · exact List.cons_ne_nil _ _

/-- The value of a hexadecimal digit. -/
def hexValue (c : Char) : Option UInt8 :=
  if '0' ≤ c ∧ c ≤ '9' then some (c.toNat - 48).toUInt8
  else if 'a' ≤ c ∧ c ≤ 'f' then some (c.toNat - 87).toUInt8
  else if 'A' ≤ c ∧ c ≤ 'F' then some (c.toNat - 55).toUInt8
  else none

/-- The digits of `hex::decode`, two for each byte. -/
def hexBytes : List Char → Option Bytes
  | [] => some []
  | [_] => none
  | high :: low :: rest => do
      let high ← hexValue high
      let low ← hexValue low
      let rest ← hexBytes rest
      pure ((16 * high + low) :: rest)

/-- `hex::decode`. -/
def hexDecode (id : String) : Except CliError Bytes :=
  Except.ofOption (hexBytes id.toList) (.failure "invalid hexadecimal text")

/-- An entry of a tree object before it is written: its sort key, name, mode and identifier. -/
structure EncodedEntry where
  sortKey : Bytes
  name : String
  mode : String
  id : String

/-- The bytes of one entry of a tree object. -/
def EncodedEntry.bytes (e : EncodedEntry) : Except CliError Bytes := do
  let id ← hexDecode e.id
  pure (utf8Bytes e.mode ++ 32 :: utf8Bytes e.name ++ 0 :: id)

/-- The last part of `encode_tree`: the entries are sorted, written and hashed. -/
def finishTree (host : Host) (format : String) (entries : List EncodedEntry)
    (objects : List GitObject) : Except CliError (String × List GitObject) := do
  let sorted := entries.insertionSort fun a b => (compare a.sortKey b.sortKey).isLE = true
  let bytes := (← sorted.mapM EncodedEntry.bytes).flatten
  let id ← objectId host "tree" bytes format
  pure (id, objects ++ [⟨id, "tree", bytes⟩])

mutual

/-- One pass of the loop of `encode_tree`, with the objects written so far. -/
def encodeEntry (host : Host) (format : String) (name : String) (objects : List GitObject) :
    TreeEntry → Except CliError (EncodedEntry × List GitObject)
  | .file id mode => .ok (⟨utf8Bytes name, name, mode, id⟩, objects)
  | .directory child => do
      let (entries, objects) ← encodeEntries host format objects child
      let (id, objects) ← finishTree host format entries objects
      pure (⟨utf8Bytes name ++ [47], name, "40000", id⟩, objects)

/-- The loop of `encode_tree`. -/
def encodeEntries (host : Host) (format : String) (objects : List GitObject) :
    List (String × TreeEntry) → Except CliError (List EncodedEntry × List GitObject)
  | [] => .ok ([], objects)
  | (name, entry) :: rest => do
      let (encoded, objects) ← encodeEntry host format name objects entry
      let (entries, objects) ← encodeEntries host format objects rest
      pure (encoded :: entries, objects)

end

/-- `git_objects::encode_tree`. -/
def encodeTree (host : Host) (format : String) (directory : List (String × TreeEntry))
    (objects : List GitObject) : Except CliError (String × List GitObject) := do
  let (entries, objects) ← encodeEntries host format objects directory
  finishTree host format entries objects

section Trees

variable (host : Host) (repo : Repo)

/-- `verify::read_blob`. -/
def readBlob (hash : String) : Except CliError Bytes := do
  require (hash.toList.length == 64 && hash.toList.all isHexDigit) "blob identifier"
  Except.ofOption repo.blobs[hash]? (.failure "failed to open blob")

/-- The blob of a file, as `tree` stores it. -/
def fileBlob (format : String) (file : FileEntry) : Except CliError (String × List GitObject) := do
  let bytes ← readBlob repo file.hash
  if host.hashBytes bytes ≠ file.hash ∨ bytes.length ≠ file.bytes.toNat then
    .error (.failure "blob changed while building Git tree")
  else do
    let id ← objectId host "blob" bytes format
    pure (id, [⟨id, "blob", bytes⟩])

/-- `git_objects::blob_id`: the header has the length that the manifest records. -/
def blobId (format : String) (file : FileEntry) : Except CliError String := do
  let _ ← idLength format
  let bytes ← readBlob repo file.hash
  if host.hashBytes bytes ≠ file.hash ∨ bytes.length ≠ file.bytes.toNat then
    .error (.failure "blob changed while verifying Git tree")
  else objectId host "blob" bytes format

/-- The identifier of a file, with its blob when that is asked for. -/
def fileObject (format : String) (includeBlobs : Bool) (file : FileEntry) :
    Except CliError (String × List GitObject) :=
  if includeBlobs then fileBlob host repo format file
  else (blobId host repo format file).map fun id => (id, [])

def FileEntry.mode (file : FileEntry) : String :=
  if file.symlink then "120000" else if file.executable then "100755" else "100644"

/-- One pass of the loop of `build_tree`. -/
def buildStep (format : String) (includeBlobs : Bool)
    (state : List (String × TreeEntry) × List GitObject) (file : FileEntry) :
    Except CliError (List (String × TreeEntry) × List GitObject) := do
  validateWorkingKey file.path
  let parts := (file.path.toList.splitOn '/').map String.ofList
  if parts.length > 256 then .error (.failure "Git path nesting exceeds supported depth")
  else do
    let (id, blobs) ← fileObject host repo format includeBlobs file
    let directory ← insertEntry state.1 parts id file.mode
    pure (directory, state.2 ++ blobs)

/-- `git_objects::build_tree`. -/
def buildTree (files : List FileEntry) (format : String) (includeBlobs : Bool) :
    Except CliError (String × List GitObject) := do
  let (directory, objects) ← files.foldlM (buildStep host repo format includeBlobs) ([], [])
  encodeTree host format directory objects

/-- `git_objects::tree`. -/
def gitTree (files : List FileEntry) (format : String) :
    Except CliError (String × List GitObject) :=
  buildTree host repo files format true

/-- `git_objects::tree_id`. -/
def treeId (files : List FileEntry) (format : String) : Except CliError String :=
  (buildTree host repo files format false).map (·.1)

end Trees

end RGit.Cli
