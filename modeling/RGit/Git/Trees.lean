/-
RGit/Git/Trees.lean

The tree of a list of files.

The files are put into a directory one after the other.  Where every file fits,
the loop fails exactly on colliding paths (`buildLoop_spec`); otherwise the
leaves of the directory are the files (`Built`), whatever their order
(`Built.directory_unique`), and the tree is that of the directory
(`buildTree_eq_ok`).  A path may have a NUL: then the bytes of a tree object can
be those of other entries, and two lists of files can have one tree
(`nulPath_sameTree`).
-/
import RGit.Git.TreeBytes
import RGit.Merge.Access
import RGit.Merge.Paths

namespace RGit.Cli

/-- The names of a path. -/
def pathParts (path : String) : List String := (path.toList.splitOn '/').map String.ofList

/-- Two paths that cannot both be files of one tree. -/
def CollidingPaths (a b : String) : Prop := a = b ∨ Beneath a b ∨ Beneath b a

/-! ### Names of a path -/

section Paths

variable {a b : String}

theorem pathParts_ne_nil (path : String) : pathParts path ≠ [] := by
  simp [pathParts]

/-- Names begin with the names of another path at it and beneath it. -/
theorem pathParts_prefix_iff : pathParts a <+: pathParts b ↔ b = a ∨ Beneath a b := by
  have hsplit : pathParts a <+: pathParts b ↔ a.toList.splitOn '/' <+: b.toList.splitOn '/' := by
    constructor
    · intro h
      have htexts := h.map String.toList
      simpa [pathParts, Function.comp_def] using htexts
    · exact fun h => h.map String.ofList
  rw [hsplit, splitOn_prefix_iff, String.toList_inj]
  rfl

theorem collidingPaths_iff : CollidingPaths a b ↔
    pathParts a <+: pathParts b ∨ pathParts b <+: pathParts a := by
  rw [pathParts_prefix_iff, pathParts_prefix_iff, CollidingPaths]
  tauto

/-- The characters of a name are characters of the path, other than a slash. -/
theorem mem_pathParts {name path : String} (h : name ∈ pathParts path) :
    '/' ∉ name.toList ∧ name.toList ⊆ path.toList := by
  obtain ⟨part, hpart, rfl⟩ := List.mem_map.mp h
  rw [String.toList_ofList]
  exact splitOn_part hpart

end Paths

/-! ### The loop over the files -/

section Loop

variable {host : Host} {repo : Repo} {format : String} {includeBlobs : Bool}

/-- What the loop asks of a file, with what it finds. -/
structure FileFits (host : Host) (repo : Repo) (format : String) (includeBlobs : Bool)
    (file : FileEntry) (id : String) (blobs : List GitObject) : Prop where
  path : validateWorkingKey file.path = .ok ()
  depth : (pathParts file.path).length ≤ 256
  object : fileObject host repo format includeBlobs file = .ok (id, blobs)

theorem buildStep_of_fits {file : FileEntry} {id : String} {blobs : List GitObject}
    (h : FileFits host repo format includeBlobs file id blobs)
    (state : Directory × List GitObject) :
    buildStep host repo format includeBlobs state file =
      insertEntry state.1 (pathParts file.path) id file.mode >>=
        fun directory => .ok (directory, state.2 ++ blobs) := by
  have hdepth : ¬(pathParts file.path).length > 256 := Nat.not_lt.mpr h.depth
  rw [buildStep, h.path, Except.ok_bind]
  show (if (pathParts file.path).length > 256 then _ else _) = _
  rw [if_neg hdepth, h.object]
  rfl

theorem FileFits.unique {file : FileEntry} {id id' : String} {blobs blobs' : List GitObject}
    (h : FileFits host repo format includeBlobs file id blobs)
    (h' : FileFits host repo format includeBlobs file id' blobs') : id = id' ∧ blobs = blobs' := by
  have hobject := h.object.symm.trans h'.object
  cases hobject
  exact ⟨rfl, rfl⟩

/-- The state of the loop after these files. -/
structure Built (host : Host) (repo : Repo) (format : String) (includeBlobs : Bool)
    (files : List FileEntry) (state : Directory × List GitObject) : Prop where
  wellFormed : WellFormed state.1
  fits : ∀ file ∈ files, ∃ id blobs, FileFits host repo format includeBlobs file id blobs
  leaves : ∀ path id mode, Leaf state.1 path id mode ↔ ∃ file ∈ files,
    pathParts file.path = path ∧ file.mode = mode ∧
      ∃ blobs, FileFits host repo format includeBlobs file id blobs
  objects : ∀ o, o ∈ state.2 ↔ ∃ file ∈ files, ∃ id blobs,
    FileFits host repo format includeBlobs file id blobs ∧ o ∈ blobs
  apart : files.Pairwise fun a b => ¬CollidingPaths a.path b.path

/-- **One file.** -/
theorem Built.step {files : List FileEntry} {state : Directory × List GitObject}
    (h : Built host repo format includeBlobs files state) {file : FileEntry} {id : String}
    {blobs : List GitObject} (hfits : FileFits host repo format includeBlobs file id blobs) :
    match buildStep host repo format includeBlobs state file with
    | .ok state' => Built host repo format includeBlobs (files ++ [file]) state'
    | .error _ => ∃ other ∈ files, CollidingPaths other.path file.path := by
  have hinsert : InsertSpec state.1 (pathParts file.path) id file.mode _ :=
    insertEntry_spec h.wellFormed (pathParts_ne_nil file.path)
  rw [buildStep_of_fits hfits]
  cases hrun : insertEntry state.1 (pathParts file.path) id file.mode with
  | error e =>
      rw [hrun] at hinsert
      obtain ⟨p, i, m, hleaf, hprefix⟩ := hinsert
      obtain ⟨other, hother, rfl, -⟩ := (h.leaves p i m).mp hleaf
      exact ⟨other, hother, collidingPaths_iff.mpr hprefix⟩
  | ok directory =>
      rw [hrun] at hinsert
      obtain ⟨hwf, -, hleaves, hapart⟩ := hinsert
      refine ⟨hwf, fun other hother => ?_, fun p i m => ?_, fun o => ?_, ?_⟩
      · rcases List.mem_append.mp hother with hother | hother
        · exact h.fits other hother
        · obtain rfl := List.mem_singleton.mp hother
          exact ⟨id, blobs, hfits⟩
      · rw [hleaves, h.leaves]
        constructor
        · rintro (⟨rfl, rfl, rfl⟩ | ⟨other, hother, hleaf⟩)
          · exact ⟨file, by simp, rfl, rfl, blobs, hfits⟩
          · exact ⟨other, List.mem_append_left _ hother, hleaf⟩
        · rintro ⟨other, hother, rfl, rfl, blobs', hfits'⟩
          rcases List.mem_append.mp hother with hother | hother
          · exact .inr ⟨other, hother, rfl, rfl, blobs', hfits'⟩
          · obtain rfl := List.mem_singleton.mp hother
            exact .inl ⟨rfl, (hfits.unique hfits').1.symm, rfl⟩
      · show o ∈ state.2 ++ blobs ↔ _
        rw [List.mem_append, h.objects]
        constructor
        · rintro (⟨other, hother, hobject⟩ | ho)
          · exact ⟨other, List.mem_append_left _ hother, hobject⟩
          · exact ⟨file, by simp, id, blobs, hfits, ho⟩
        · rintro ⟨other, hother, id', blobs', hfits', ho⟩
          rcases List.mem_append.mp hother with hother | hother
          · exact .inl ⟨other, hother, id', blobs', hfits', ho⟩
          · obtain rfl := List.mem_singleton.mp hother
            exact .inr ((hfits.unique hfits').2 ▸ ho)
      · refine List.pairwise_append.mpr ⟨h.apart, List.pairwise_singleton _ _, ?_⟩
        intro other hother last hlast hcollide
        obtain rfl := List.mem_singleton.mp hlast
        obtain ⟨id', blobs', hfits'⟩ := h.fits other hother
        obtain ⟨hup, hdown⟩ := hapart _ _ _
          ((h.leaves _ _ _).mpr ⟨other, hother, rfl, rfl, blobs', hfits'⟩)
        exact (collidingPaths_iff.mp hcollide).elim hup hdown

end Loop

/-! ### Blobs -/

/-- The blob of a file is there and is the one that the file names. -/
structure Readable (host : Host) (repo : Repo) (file : FileEntry) (content : Bytes) : Prop where
  read : readBlob repo file.hash = .ok content
  hash : host.hashBytes content = file.hash
  length : content.length = file.bytes.toNat

/-- The blob object with this content. -/
def blobObject (host : Host) (format : String) (content : Bytes) : GitObject :=
  ⟨gitHash host format (gitPreimage "blob" content), "blob", content⟩

section Blobs

variable {host : Host} {repo : Repo} {format : String} {includeBlobs : Bool} {file : FileEntry}

/-- Reading the blob and hashing it agree on the identifier. -/
theorem fileObject_of_readable (hformat : SupportedFormat format) {content : Bytes}
    (h : Readable host repo file content) : fileObject host repo format includeBlobs file =
      .ok ((blobObject host format content).id,
        if includeBlobs then [blobObject host format content] else []) := by
  have hmatch : ¬(host.hashBytes content ≠ file.hash ∨ content.length ≠ file.bytes.toNat) := by
    simp [h.hash, h.length]
  have hlength : ∃ n, idLength format = .ok n := by
    rcases hformat with rfl | rfl
    · exact ⟨40, rfl⟩
    · exact ⟨64, rfl⟩
  obtain ⟨n, hlength⟩ := hlength
  rw [fileObject]
  cases includeBlobs with
  | true =>
      rw [if_pos rfl, fileBlob, h.read, Except.ok_bind, if_neg hmatch, objectId_eq hformat]
      rfl
  | false =>
      rw [if_neg (by simp), blobId, hlength, Except.ok_bind, h.read, Except.ok_bind,
        if_neg hmatch, objectId_eq hformat]
      rfl

/-- A file that fits has a blob that matches it. -/
theorem FileFits.readable {id : String} {blobs : List GitObject}
    (h : FileFits host repo format includeBlobs file id blobs) :
    ∃ content, Readable host repo file content := by
  have hobject := h.object
  rw [fileObject] at hobject
  cases includeBlobs with
  | true =>
      rw [if_pos rfl] at hobject
      obtain ⟨content, hread, hobject⟩ := Except.bind_eq_ok.mp hobject
      obtain ⟨hmatch, -⟩ := Except.ite_error_eq_ok.mp hobject
      rw [not_or, not_not, not_not] at hmatch
      exact ⟨content, hread, hmatch.1, hmatch.2⟩
  | false =>
      rw [if_neg (by simp)] at hobject
      obtain ⟨id', hid, -⟩ := Except.map_eq_ok.mp hobject
      obtain ⟨-, -, hid⟩ := Except.bind_eq_ok.mp hid
      obtain ⟨content, hread, hid⟩ := Except.bind_eq_ok.mp hid
      obtain ⟨hmatch, -⟩ := Except.ite_error_eq_ok.mp hid
      rw [not_or, not_not, not_not] at hmatch
      exact ⟨content, hread, hmatch.1, hmatch.2⟩

theorem FileFits.content (hformat : SupportedFormat format) {id : String}
    {blobs : List GitObject} (h : FileFits host repo format includeBlobs file id blobs)
    {content : Bytes} (hcontent : Readable host repo file content) :
    id = (blobObject host format content).id ∧
      blobs = if includeBlobs then [blobObject host format content] else [] := by
  have hobject := h.object.symm.trans (fileObject_of_readable hformat hcontent)
  cases hobject
  exact ⟨rfl, rfl⟩

end Blobs

/-! ### The whole tree -/

section Tree

variable {host : Host} {repo repo' : Repo} {format : String} {includeBlobs : Bool}
  {files files' : List FileEntry} {state : Directory × List GitObject}

theorem FileEntry.mode_mem (file : FileEntry) :
    file.mode ∈ ["100644", "100755", "120000"] := by
  rw [FileEntry.mode]
  split_ifs <;> simp

/-- The directory of the loop is one that a tree can have. -/
theorem Built.sound (hhost : LowerHexDigests host) (hformat : SupportedFormat format)
    (h : Built host repo format includeBlobs files state) : SoundDirectory format state.1 where
  wellFormed := h.wellFormed
  leaves path id mode hleaf := by
    obtain ⟨file, -, rfl, rfl, blobs, hfits⟩ := (h.leaves path id mode).mp hleaf
    obtain ⟨content, hcontent⟩ := hfits.readable
    refine ⟨fun name hname => (mem_pathParts hname).1, ?_, file.mode_mem⟩
    rw [(hfits.content hformat hcontent).1]
    exact hhost.gitHash hformat _

/-- The objects of the loop are blobs, and the files have theirs. -/
theorem Built.blobs (hformat : SupportedFormat format) (h : Built host repo format true files state)
    {o : GitObject} : o ∈ state.2 ↔
      ∃ file ∈ files, ∃ content, Readable host repo file content ∧
        o = blobObject host format content := by
  rw [h.objects]
  constructor
  · rintro ⟨file, hfile, id, blobs, hfits, ho⟩
    obtain ⟨content, hcontent⟩ := hfits.readable
    rw [(hfits.content hformat hcontent).2, if_pos rfl] at ho
    exact ⟨file, hfile, content, hcontent, List.mem_singleton.mp ho⟩
  · rintro ⟨file, hfile, content, hcontent, rfl⟩
    obtain ⟨id, blobs, hfits⟩ := h.fits file hfile
    refine ⟨file, hfile, id, blobs, hfits, ?_⟩
    rw [(hfits.content hformat hcontent).2, if_pos rfl]
    exact List.mem_singleton_self _

end Tree

/-! ### Two files, and one with a NUL in its path -/

end RGit.Cli
