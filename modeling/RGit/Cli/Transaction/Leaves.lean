/-
RGit/Cli/Transaction/Leaves.lean

What a publication does to the leaves.

The leaves of a disk are a map from paths, and a publication is a run of updates
of it (`updatesOf`).  Directories come and go without a leaf changing, and a
temporary file is where nothing was; so in every state of a publication some keys
are through, the others have what they had, and every other path has what it had
but for one temporary file (`publish_holds`).

A file that is to be executable is so for whoever may read it.  What is published
is exact where every file has a permission to read, and `readable` is the
assumption that they have.
-/
import RGit.Cli.Transaction.Publish

namespace RGit.Cli.Transaction

/-! ### Permissions -/

theorem readBits_eq_shiftLeft (mode : BitVec 32) :
    mode &&& 0o444#32 = ((mode &&& 0o444#32) >>> 2) <<< 2 := by
  ext i hi
  rw [BitVec.getElem_shiftLeft]
  by_cases hlow : i < 2
  · have hread : (0o444#32)[i] = false := by
      rcases (by omega : i = 0 ∨ i = 1) with rfl | rfl <;> revert hi <;> decide
    simp [hlow, hread]
  · rw [BitVec.getElem_ushiftRight, BitVec.getLsbD_eq_getElem (by omega)]
    simp [hlow, show 2 + (i - 2) = i by omega]

theorem readBits_executable (mode : UInt32) :
    (mode ||| (mode &&& 0o444) >>> 2) &&& 0o444 = mode &&& 0o444 := by
  apply UInt32.eq_of_toBitVec_eq
  show (mode.toBitVec ||| (mode.toBitVec &&& 0o444#32) >>> 2) &&& 0o444#32
    = mode.toBitVec &&& 0o444#32
  rw [BitVec.ushiftRight_and_distrib, BitVec.and_or_distrib_right, BitVec.and_assoc]
  show _ ||| mode.toBitVec >>> 2 &&& 0#32 = _
  rw [BitVec.and_zero, BitVec.or_zero]

/-- Whoever may read the file may execute it. -/
theorem executable_of_readBits {mode : UInt32} (h : mode &&& 0o444 ≠ 0) :
    (mode ||| (mode &&& 0o444) >>> 2) &&& 0o111 ≠ 0 := by
  intro hzero
  apply h
  apply UInt32.eq_of_toBitVec_eq
  have hbits : (mode.toBitVec ||| (mode.toBitVec &&& 0o444#32) >>> 2) &&& 0o111#32 = 0#32 :=
    congrArg UInt32.toBitVec hzero
  show mode.toBitVec &&& 0o444#32 = 0#32
  have hread : (mode.toBitVec &&& 0o444#32) >>> 2 = 0#32 := by
    rw [BitVec.and_or_distrib_right, BitVec.or_eq_zero_iff, BitVec.ushiftRight_and_distrib,
      BitVec.and_assoc] at hbits
    rw [BitVec.ushiftRight_and_distrib]
    exact hbits.2
  rw [readBits_eq_shiftLeft, hread]
  rfl

/-- Somebody may read the file. -/
def Leaf.Readable : Leaf → Prop
  | .file _ mode => mode &&& 0o444 ≠ 0
  | _ => True

def AllReadable (leaves : OsPath → Option Leaf) : Prop :=
  ∀ path leaf, leaves path = some leaf → leaf.Readable

theorem publishedMode_readBits (createMode : UInt32) (permissions : Option UInt32)
    (executable : Option Bool) :
    publishedMode createMode permissions executable &&& 0o444
      = permissions.getD createMode &&& 0o444 := by
  rcases executable with - | - | -
  · rfl
  · show (permissions.getD createMode &&& ~~~0o111) &&& 0o444 = _
    rw [UInt32.and_assoc]
    rfl
  · exact readBits_executable _

theorem publishedMode_executable {createMode : UInt32} {permissions : Option UInt32}
    {executable : Bool} (h : permissions.getD createMode &&& 0o444 ≠ 0) :
    (publishedMode createMode permissions (some executable) &&& 0o111 != 0) = executable := by
  cases executable
  · show ((permissions.getD createMode &&& ~~~0o111) &&& 0o111 != 0) = false
    rw [UInt32.and_assoc]
    simp
  · show (_ &&& 0o111 != 0) = true
    exact bne_iff_ne.mpr (executable_of_readBits h)

/-! ### A temporary file beside -/

section Beside

variable {readable : Prop} {f : OsPath → Option Leaf} {disk disk' : Disk} {path : OsPath}
  {leaf : Leaf}

/-- The leaves of the disk are these, but for one temporary file. -/
def Beside (readable : Prop) (f : OsPath → Option Leaf) (disk : Disk) : Prop :=
  disk.leafAt = f ∨ ∃ directory id leaf, f (directory ++ [temporaryName id]) = none ∧
    (readable → leaf.Readable) ∧
    disk.leafAt = Function.update f (directory ++ [temporaryName id]) (some leaf)

theorem createNew_eq_ok (h : createNew path leaf disk = .ok disk') :
    disk.leafAt path = none ∧ disk'.leafAt = Function.update disk.leafAt path (some leaf) := by
  rw [createNew] at h
  split at h
  · cases h
  · next hnode =>
      rw [Bool.not_eq_true, Option.isSome_eq_false_iff, Option.isNone_iff_eq_none] at hnode
      exact ⟨FileTree.leafAt_eq_none.mpr (.inl hnode),
        FileTree.setLeaf_leafAt (Except.ofOption_eq_ok.mp h)⟩

theorem overwrite_eq_ok (h : overwrite path leaf disk = .ok disk') :
    disk'.leafAt = Function.update disk.leafAt path (some leaf) :=
  FileTree.setLeaf_leafAt (Except.ofOption_eq_ok.mp h)

/-- The temporary file takes its place, and its own path is as before. -/
theorem rename_eq_ok {target : OsPath} (h : rename path target disk = .ok disk')
    (hdisk : disk.leafAt = Function.update f path (some leaf)) (hpath : f path = none) :
    disk'.leafAt = Function.update f target (some leaf) := by
  obtain ⟨v, hv, hleaves⟩ := FileTree.rename_leafAt (Except.ofOption_eq_ok.mp h)
  rw [hdisk, Function.update_self] at hv
  obtain rfl := Option.some.inj hv
  rw [hleaves, hdisk, Function.update_idem, ← hpath, Function.update_eq_self]

theorem existingPermissions_eq_ok {working : Bool} {permissions : Option UInt32} {mode : UInt32}
    (h : existingPermissions disk path working = .ok permissions)
    (hmode : permissions = some mode) :
    ∃ content, disk.leafAt path = some (.file content mode) := by
  subst hmode
  rw [existingPermissions] at h
  obtain ⟨node, hnode, h⟩ := Except.bind_eq_ok.mp h
  replace hnode := symlinkMetadata_eq_ok hnode
  split at h
  · cases h
  · next content mode =>
      obtain rfl := Option.some.inj (Except.ok.inj h)
      exact ⟨content, FileTree.leafAt_eq_some.mpr hnode⟩
  · split at h <;> cases h
  · cases h

end Beside

/-! ### One file -/

section Placed

variable {sys : System} {readable : Prop} {disk : Disk} {path : OsPath} {bytes : Bytes}

/-- A leaf like this is at the path, and the other leaves are these. -/
def Placed (f : OsPath → Option Leaf) (path : OsPath) (like : Leaf → Prop) (disk : Disk) : Prop :=
  ∃ leaf, like leaf ∧ disk.leafAt = Function.update f path (some leaf)

/-- A regular file with these bytes. -/
def Written (readable : Prop) (bytes : Bytes) (executable : Option Bool) (leaf : Leaf) : Prop :=
  ∃ mode, leaf = .file bytes mode ∧ (readable → leaf.Readable ∧
    ∀ e, executable = some e → leaf.isExecutable = e)

theorem publishFileWithMode_holds {executable : Option Bool} {working : Bool}
    (hmode : readable → sys.createMode &&& 0o444 ≠ 0)
    (hleaf : readable → ∀ leaf, disk.leafAt path = some leaf → leaf.Readable) :
    Stepwise.Holds
      (fun t => Beside readable disk.leafAt t ∨
        Placed disk.leafAt path (Written readable bytes executable) t)
      (fun _ => Placed disk.leafAt path (Written readable bytes executable))
      (publishFileWithMode sys path bytes executable working) disk := by
  refine Stepwise.holds_bind (Stepwise.holds_read fun parent _ => ?_)
  refine Stepwise.holds_bind (Stepwise.holds_read fun _ _ => ?_)
  refine Stepwise.holds_bind (Stepwise.holds_read fun permissions hpermissions => ?_)
  refine Stepwise.holds_bind (Stepwise.holds_read fun id _ => ?_)
  refine Stepwise.holds_bind (Stepwise.holds_step fun created hcreated => ?_)
  obtain ⟨hnone, hcreated⟩ := createNew_eq_ok hcreated
  refine ⟨.inl (.inr ⟨parent, id, .file [] sys.createMode, hnone, hmode, hcreated⟩), ?_⟩
  refine Stepwise.holds_bind (Stepwise.holds_step fun written hwritten => ?_)
  replace hwritten := overwrite_eq_ok hwritten
  rw [hcreated, Function.update_idem] at hwritten
  -- The permissions are those of the file in the way, or those of a new file.
  have hread : readable → permissions.getD sys.createMode &&& 0o444 ≠ 0 := by
    intro hreadable
    cases hold : permissions with
    | none => exact hmode hreadable
    | some mode =>
        obtain ⟨content, hfile⟩ := existingPermissions_eq_ok hpermissions hold
        exact hleaf hreadable _ hfile
  have hleaf' : readable →
      (Leaf.file bytes (publishedMode sys.createMode permissions executable)).Readable := by
    intro hreadable
    show publishedMode _ _ _ &&& 0o444 ≠ 0
    rw [publishedMode_readBits]
    exact hread hreadable
  have hlike : Written readable bytes executable
      (.file bytes (publishedMode sys.createMode permissions executable)) := by
    refine ⟨_, rfl, fun hreadable => ⟨hleaf' hreadable, ?_⟩⟩
    rintro e rfl
    exact publishedMode_executable (hread hreadable)
  refine ⟨.inl (.inr ⟨parent, id, _, hnone, hleaf', hwritten⟩), ?_⟩
  refine Stepwise.holds_step fun renamed hrenamed => ?_
  have hplaced := rename_eq_ok hrenamed hwritten hnone
  exact ⟨.inr ⟨_, hlike, hplaced⟩, ⟨_, hlike, hplaced⟩⟩

theorem publishLink_holds :
    Stepwise.Holds
      (fun t => Beside readable disk.leafAt t ∨ Placed disk.leafAt path (· = .link bytes) t)
      (fun _ => Placed disk.leafAt path (· = .link bytes)) (publishLink sys path bytes) disk := by
  refine Stepwise.holds_bind (Stepwise.holds_read fun _ _ => ?_)
  refine Stepwise.holds_bind (Stepwise.holds_read fun parent _ => ?_)
  refine Stepwise.holds_bind (Stepwise.holds_read fun _ _ => ?_)
  refine Stepwise.holds_bind (Stepwise.holds_read fun id _ => ?_)
  refine Stepwise.holds_bind (Stepwise.holds_step fun created hcreated => ?_)
  obtain ⟨hnone, hcreated⟩ := createNew_eq_ok hcreated
  refine ⟨.inl (.inr ⟨parent, id, .link bytes, hnone, fun _ => trivial, hcreated⟩), ?_⟩
  refine Stepwise.holds_step fun renamed hrenamed => ?_
  have hplaced := rename_eq_ok hrenamed hcreated hnone
  exact ⟨.inr ⟨_, rfl, hplaced⟩, ⟨_, rfl, hplaced⟩⟩

end Placed

/-! ### Directories -/

section Directories

variable {sys : System} {root path : OsPath}

theorem createParents_holds (names : List Bytes) (disk : Disk) :
    Stepwise.Holds (fun t => t.leafAt = disk.leafAt) (fun _ t => t.leafAt = disk.leafAt)
      (createParents path names) disk := by
  induction names generalizing path disk with
  | nil => exact Stepwise.holds_pure rfl
  | cons name rest ih =>
      refine Stepwise.holds_bind (Stepwise.holds_read fun node _ => ?_)
      cases node with
      | none =>
          refine Stepwise.holds_bind (Stepwise.holds_step fun made hmade => ?_)
          have hleaves := FileTree.makeDirectory_leafAt (Except.ofOption_eq_ok.mp hmade)
          refine ⟨hleaves, (ih made).mono (fun t ht => ?_) fun _ t ht => ?_⟩
          · exact ht.trans hleaves
          · exact ht.trans hleaves
      | some node => exact Stepwise.holds_bind (Stepwise.holds_read fun _ _ => ih disk)

theorem removeEmptyLoop_holds (fuel : Nat) (stack : List (OsPath × Bool)) (disk : Disk) :
    Stepwise.Holds (fun t => t.leafAt = disk.leafAt) (fun _ t => t.leafAt = disk.leafAt)
      (removeEmptyLoop sys root fuel stack) disk := by
  induction fuel generalizing stack disk with
  | zero =>
      cases stack with
      | nil => exact Stepwise.holds_pure rfl
      | cons entry stack => exact Stepwise.holds_fail
  | succ fuel ih =>
      cases stack with
      | nil => exact Stepwise.holds_pure rfl
      | cons entry stack =>
          obtain ⟨path, leaving⟩ := entry
          refine Stepwise.holds_bind (Stepwise.holds_read fun _ _ => ?_)
          cases leaving with
          | false => exact Stepwise.holds_bind (Stepwise.holds_read fun entries _ => ih _ disk)
          | true =>
              refine Stepwise.holds_bind (Stepwise.holds_step fun removed hremoved => ?_)
              have hleaves := FileTree.removeDirectory_leafAt (Except.ofOption_eq_ok.mp hremoved)
              refine ⟨hleaves, (ih stack removed).mono (fun t ht => ?_) fun _ t ht => ?_⟩
              · exact ht.trans hleaves
              · exact ht.trans hleaves

theorem removeEmptyTree_holds (disk : Disk) :
    Stepwise.Holds (fun t => t.leafAt = disk.leafAt) (fun _ t => t.leafAt = disk.leafAt)
      (removeEmptyTree sys root path) disk :=
  Stepwise.holds_bind (Stepwise.holds_read fun _ _ => removeEmptyLoop_holds _ _ disk)

end Directories

/-! ### The updates of a plan -/

section Updating

variable {sys : System} {readable : Prop} {root : OsPath}
  {working : BTreeMap String WorkingUpdate}

/-- The updates below a root. -/
def updatesOf (readable : Prop) (root : OsPath) (working : BTreeMap String WorkingUpdate) :
    Updates String OsPath Leaf where
  keys := working.toList.map (·.1)
  place key := root ++ keyPath key
  before key leaf := ∃ update, working[key]? = some update ∧ update.Before leaf
  after key leaf := ∃ update, working[key]? = some update ∧ leaf.isSome = update.after.isSome ∧
    (readable → update.After leaf ∧ ∀ l, leaf = some l → l.Readable)

theorem mem_updatesOf_keys {key : String} :
    key ∈ (updatesOf readable root working).keys ↔ ∃ update, working[key]? = some update := by
  simp only [updatesOf, List.mem_map, Prod.exists, BTreeMap.mem_toList_iff_get, exists_and_right,
    exists_eq_right]

/-- A state of a publication: some updates are through, and there is at most one
temporary file. -/
def Midway (readable : Prop) (root : OsPath) (working : BTreeMap String WorkingUpdate)
    (first : OsPath → Option Leaf) (disk : Disk) : Prop :=
  ∃ rest f, (updatesOf readable root working).Left first rest f ∧ Beside readable f disk

/-- What the loops of a publication keep: these keys are left. -/
structure Pending (readable : Prop) (root : OsPath) (working : BTreeMap String WorkingUpdate)
    (first : OsPath → Option Leaf) (rest : List String) (disk : Disk) : Prop where
  left : (updatesOf readable root working).Left first rest disk.leafAt
  keys : ∀ key ∈ rest, key ∈ (updatesOf readable root working).keys
  nodup : rest.Nodup

variable {first : OsPath → Option Leaf} {rest : List String} {key : String}
  {update : WorkingUpdate} {disk disk' : Disk}

theorem Pending.midway (h : Pending readable root working first rest disk) :
    Midway readable root working first disk := ⟨rest, _, h.left, .inl rfl⟩

theorem Pending.skip (h : Pending readable root working first (key :: rest) disk)
    (hfirst : readable → AllReadable first)
    (hkey : working[key]? = some update)
    (hafter : update.After (disk.leafAt (root ++ keyPath key))) :
    Pending readable root working first rest disk where
  left := by
    refine h.left.skip ⟨update, hkey, ShowsSide.isSome_eq hafter, fun hreadable => ⟨hafter, ?_⟩⟩
    intro leaf hleaf
    have hold := h.left.pending key List.mem_cons_self
    exact hfirst hreadable _ leaf (hold ▸ hleaf)
  keys key' hkey' := h.keys key' (List.mem_cons_of_mem key hkey')
  nodup := (List.nodup_cons.mp h.nodup).2

theorem Pending.set (h : Pending readable root working first (key :: rest) disk)
    (hkey : working[key]? = some update)
    (hbefore : update.Before (disk.leafAt (root ++ keyPath key))) (leaf : Option Leaf)
    (hsome : leaf.isSome = update.after.isSome)
    (hafter : readable → update.After leaf ∧ ∀ l, leaf = some l → l.Readable)
    (hdisk : disk'.leafAt = Function.update disk.leafAt (root ++ keyPath key) leaf) :
    Pending readable root working first rest disk' where
  left := by
    rw [hdisk]
    exact h.left.set (fun _ _ _ _ hplace => keyPath_injective (List.append_cancel_left hplace))
      h.keys (List.nodup_cons.mp h.nodup).1 ⟨update, hkey, hbefore⟩
      ⟨update, hkey, hsome, hafter⟩
  keys key' hkey' := h.keys key' (List.mem_cons_of_mem key hkey')
  nodup := (List.nodup_cons.mp h.nodup).2

/-- The leaf that an update leaves behind. -/
def Comes (readable : Prop) (update : WorkingUpdate) (leaf : Leaf) : Prop :=
  readable → update.After (some leaf) ∧ leaf.Readable

theorem comes_of_written {bytes : Bytes} {leaf : Leaf} (hbytes : update.after = some bytes)
    (hlink : update.afterSymlink ≠ some true)
    (h : Written readable bytes update.afterExecutable leaf) : Comes readable update leaf := by
  intro hreadable
  obtain ⟨mode, rfl, hread⟩ := h
  obtain ⟨hmode, hexecutable⟩ := hread hreadable
  refine ⟨⟨by simp, hbytes.symm, hexecutable, ?_⟩, hmode⟩
  intro l hl
  cases l with
  | false => rfl
  | true => exact absurd hl hlink

theorem comes_of_link {bytes : Bytes} (hbytes : update.after = some bytes)
    (hlink : update.afterSymlink = some true) (hexecutable : update.afterExecutable ≠ some true) :
    Comes readable update (.link bytes) := by
  intro _
  refine ⟨⟨by simp, hbytes.symm, ?_, ?_⟩, trivial⟩
  · intro e he
    cases e with
    | false => rfl
    | true => exact absurd he hexecutable
  · intro l hl
    exact Option.some.inj (hlink.symm.trans hl)

theorem placeLeaf_holds (hmode : readable → sys.createMode &&& 0o444 ≠ 0)
    (hleaf : readable → ∀ leaf, disk.leafAt (root ++ keyPath key) = some leaf → leaf.Readable)
    (hvalid : update.afterSymlink = some true → update.afterExecutable ≠ some true) :
    Stepwise.Holds
      (fun t => Beside readable disk.leafAt t ∨
        Placed disk.leafAt (root ++ keyPath key) (Comes readable update) t)
      (fun _ => Placed disk.leafAt (root ++ keyPath key) (Comes readable update))
      (placeLeaf sys root key update) disk := by
  refine Stepwise.holds_bind (Stepwise.holds_read fun path hpath => ?_)
  obtain ⟨-, rfl⟩ := workingPath_eq_ok hpath
  refine Stepwise.holds_bind ((createParents_holds _ disk).mono (fun t ht => .inl (.inl ht)) ?_)
  intro _ made hmade
  refine Stepwise.holds_bind (Stepwise.holds_read fun bytes hbytes => ?_)
  replace hbytes := Except.ofOption_eq_ok.mp hbytes
  rw [← hmade] at hleaf ⊢
  split
  · next hlink =>
      have hcomes : ∀ t, Placed made.leafAt (root ++ keyPath key) (· = .link bytes) t →
          Placed made.leafAt (root ++ keyPath key) (Comes readable update) t := by
        rintro t ⟨leaf, rfl, ht⟩
        exact ⟨_, comes_of_link hbytes hlink (hvalid hlink), ht⟩
      exact publishLink_holds.mono (fun t ht => ht.imp_right (hcomes t)) fun _ => hcomes
  · next hlink =>
      have hcomes : ∀ t, Placed made.leafAt (root ++ keyPath key)
          (Written readable bytes update.afterExecutable) t →
          Placed made.leafAt (root ++ keyPath key) (Comes readable update) t := by
        rintro t ⟨leaf, hwritten, ht⟩
        exact ⟨leaf, comes_of_written hbytes hlink hwritten, ht⟩
      exact (publishFileWithMode_holds hmode hleaf).mono (fun t ht => ht.imp_right (hcomes t))
        fun _ => hcomes

variable [Unicode] {shape : ShapePlan}

/-- One pass of the first loop. -/
theorem deleteKey_holds (h : Pending readable root working first (key :: rest) disk)
    (hfirst : readable → AllReadable first)
    (hkey : working[key]? = some update) (hafter : update.after = none) :
    Stepwise.Holds (Midway readable root working first)
      (fun _ => Pending readable root working first rest) (deleteKey sys root shape key update)
      disk := by
  refine Stepwise.holds_bind (Stepwise.holds_read fun current hcurrent => ?_)
  split
  · next hmatches =>
      rw [ShapePlan.current_matches_iff hcurrent] at hmatches
      exact Stepwise.holds_pure (h.skip hfirst hkey hmatches)
  split
  · exact Stepwise.holds_fail
  · next hmatches =>
      rw [Bool.not_eq_true, Bool.not_eq_false', ShapePlan.current_matches_iff hcurrent] at hmatches
      refine Stepwise.holds_bind (Stepwise.holds_read fun path hpath => ?_)
      obtain ⟨-, rfl⟩ := workingPath_eq_ok hpath
      refine Stepwise.holds_step fun removed hremoved => ?_
      have hleaves := FileTree.removeLeaf_leafAt (Except.ofOption_eq_ok.mp hremoved)
      have hgone : update.After none := hafter
      have hpending := h.set hkey hmatches none hgone.isSome_eq (fun _ => ⟨hgone, by simp⟩) hleaves
      exact ⟨hpending.midway, hpending⟩

/-- One pass of the second loop. -/
theorem publishKey_holds (h : Pending readable root working first (key :: rest) disk)
    (hmode : readable → sys.createMode &&& 0o444 ≠ 0)
    (hfirst : readable → AllReadable first)
    (hkey : working[key]? = some update) (hafter : update.after.isSome = true)
    (hvalid : update.afterSymlink = some true → update.afterExecutable ≠ some true) :
    Stepwise.Holds (Midway readable root working first)
      (fun _ => Pending readable root working first rest) (publishKey sys root shape key update)
      disk := by
  refine Stepwise.holds_bind (Stepwise.holds_read fun current hcurrent => ?_)
  split
  · next hmatches =>
      rw [ShapePlan.current_matches_iff hcurrent] at hmatches
      exact Stepwise.holds_pure (h.skip hfirst hkey hmatches)
  split
  · exact Stepwise.holds_fail
  · next hmatches =>
      rw [Bool.not_eq_true, Bool.not_eq_false', ShapePlan.current_matches_iff hcurrent] at hmatches
      -- With the empty directory out of the way or not, the leaves are the same.
      have hplace (t : Disk) (ht : t.leafAt = disk.leafAt) :
          Stepwise.Holds (Midway readable root working first)
            (fun _ => Pending readable root working first rest)
            (placeLeaf sys root key update) t := by
        have hleaf : readable → ∀ leaf, t.leafAt (root ++ keyPath key) = some leaf →
            leaf.Readable := by
          intro hreadable leaf hleaf
          rw [ht] at hleaf
          exact hfirst hreadable _ leaf ((h.left.pending key List.mem_cons_self) ▸ hleaf)
        have hplaced : ∀ t', Placed t.leafAt (root ++ keyPath key) (Comes readable update) t' →
            Pending readable root working first rest t' := by
          rintro t' ⟨leaf, hcomes, ht'⟩
          rw [ht] at ht'
          refine h.set hkey hmatches (some leaf) hafter.symm (fun hreadable => ?_) ht'
          obtain ⟨hcome, hread⟩ := hcomes hreadable
          exact ⟨hcome, fun l hl => Option.some.inj hl ▸ hread⟩
        refine (placeLeaf_holds hmode hleaf hvalid).mono (fun t' ht' => ?_) fun _ => hplaced
        rcases ht' with hbeside | hdone
        · exact ⟨key :: rest, t.leafAt, ht ▸ h.left, hbeside⟩
        · exact (hplaced t' hdone).midway
      refine Stepwise.holds_bind (Stepwise.holds_read fun directory _ => ?_)
      cases directory with
      | false => exact hplace disk rfl
      | true =>
          refine Stepwise.holds_bind ((removeEmptyTree_holds disk).mono (fun t ht => ?_) ?_)
          · exact ⟨key :: rest, disk.leafAt, h.left, .inl ht⟩
          · exact fun _ t ht => hplace t ht

end Updating

/-! ### The publication -/

section Publishing

variable {sys : System} {readable : Prop} {root : OsPath}
  {working : BTreeMap String WorkingUpdate}

/-- The keys in the order in which they are published. -/
def publicationOrder (working : BTreeMap String WorkingUpdate) : List String :=
  (deletions working).map (·.1) ++ (replacements working).map (·.1)

theorem mem_deletions {entry : String × WorkingUpdate} :
    entry ∈ deletions working ↔ working[entry.1]? = some entry.2 ∧ entry.2.after = none := by
  rw [deletions, List.mem_filter, (List.perm_insertionSort _ _).mem_iff,
    BTreeMap.mem_toList_iff_get, Option.isNone_iff_eq_none]

theorem mem_replacements {entry : String × WorkingUpdate} :
    entry ∈ replacements working ↔
      working[entry.1]? = some entry.2 ∧ entry.2.after.isSome = true := by
  rw [replacements, List.mem_filter, BTreeMap.mem_toList_iff_get]

theorem perm_publicationOrder :
    (publicationOrder working).Perm (working.toList.map (·.1)) := by
  have hsplit : (deletions working ++ replacements working).Perm working.toList := by
    have hdeletions : (deletions working).Perm
        (working.toList.filter fun entry => entry.2.after.isNone) :=
      (List.perm_insertionSort _ _).filter _
    have hreplacements : replacements working =
        working.toList.filter fun entry => !entry.2.after.isNone :=
      List.filter_congr fun entry _ => by simp
    rw [hreplacements]
    exact (hdeletions.append_right _).trans (List.filter_append_perm _ _)
  rw [publicationOrder, ← List.map_append]
  exact hsplit.map _

theorem pending_init (first : Disk) :
    Pending readable root working first.leafAt (publicationOrder working) first where
  left := Updates.left_all fun _ hkey => (perm_publicationOrder.mem_iff).mpr hkey
  keys _ hkey := (perm_publicationOrder.mem_iff).mp hkey
  nodup := (perm_publicationOrder.nodup_iff).mpr (BTreeMap.nodup_keys working)

variable [Unicode] {shape : ShapePlan}

theorem deletions_holds {first : OsPath → Option Leaf} {later : List String}
    (hfirst : readable → AllReadable first) :
    ∀ (entries : List (String × WorkingUpdate)) (disk : Disk),
      (∀ entry ∈ entries, entry ∈ deletions working) ∧
        Pending readable root working first (entries.map (·.1) ++ later) disk →
      Stepwise.Holds (Midway readable root working first)
        (fun _ t => (∀ entry ∈ [], entry ∈ deletions working) ∧
          Pending readable root working first
            (([] : List (String × WorkingUpdate)).map (·.1) ++ later) t)
        (entries.forM fun entry => deleteKey sys root shape entry.1 entry.2) disk :=
  Stepwise.holds_forM fun entry rest disk h => by
    obtain ⟨hmem, hpending⟩ := h
    obtain ⟨hkey, hafter⟩ := mem_deletions.mp (hmem entry List.mem_cons_self)
    refine (deleteKey_holds hpending hfirst hkey hafter).mono (fun _ h => h) fun _ t ht => ?_
    exact ⟨fun entry' hentry' => hmem entry' (List.mem_cons_of_mem _ hentry'), ht⟩

theorem replacements_holds {first : OsPath → Option Leaf}
    (hmode : readable → sys.createMode &&& 0o444 ≠ 0)
    (hfirst : readable → AllReadable first)
    (hvalid : ∀ (key : String) (update : WorkingUpdate), working[key]? = some update →
      update.afterSymlink = some true → update.afterExecutable ≠ some true) :
    ∀ (entries : List (String × WorkingUpdate)) (disk : Disk),
      (∀ entry ∈ entries, entry ∈ replacements working) ∧
        Pending readable root working first (entries.map (·.1)) disk →
      Stepwise.Holds (Midway readable root working first)
        (fun _ t => (∀ entry ∈ [], entry ∈ replacements working) ∧
          Pending readable root working first
            (([] : List (String × WorkingUpdate)).map (·.1)) t)
        (entries.forM fun entry => publishKey sys root shape entry.1 entry.2) disk :=
  Stepwise.holds_forM fun entry rest disk h => by
    obtain ⟨hmem, hpending⟩ := h
    obtain ⟨hkey, hafter⟩ := mem_replacements.mp (hmem entry List.mem_cons_self)
    refine (publishKey_holds hpending hmode hfirst hkey hafter (hvalid _ _ hkey)).mono
      (fun _ h => h) fun _ t ht => ?_
    exact ⟨fun entry' hentry' => hmem entry' (List.mem_cons_of_mem _ hentry'), ht⟩

/-- A publication goes through updates of the leaves, and ends when none is left. -/
theorem publish_holds {first : Disk} (hmode : readable → sys.createMode &&& 0o444 ≠ 0)
    (hfirst : readable → AllReadable first.leafAt)
    (hvalid : ∀ (key : String) (update : WorkingUpdate), working[key]? = some update →
      update.afterSymlink = some true → update.afterExecutable ≠ some true) :
    Stepwise.Holds (Midway readable root working first.leafAt)
      (fun _ => Pending readable root working first.leafAt [])
      (publish sys root shape working) first := by
  refine Stepwise.holds_bind ((deletions_holds hfirst (deletions working) first
    ⟨fun _ h => h, pending_init first⟩).mono (fun _ h => h) fun _ t ht => ?_)
  exact (replacements_holds hmode hfirst hvalid (replacements working) t
    ⟨fun _ h => h, ht.2⟩).mono (fun _ h => h) fun _ t' ht' => ht'.2

end Publishing

end RGit.Cli.Transaction
