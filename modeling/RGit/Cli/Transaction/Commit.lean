/-
RGit/Cli/Transaction/Commit.lean

A command is all or nothing.

A crash at any step of a commit, and any number of recoveries that are cut short
after it, leave a repository in which the next recovery that ends well has
changed nothing at all or has completed the command (`commit_all_or_nothing`): the
journal decides, which is written in one step.  What the invariant says of the
states between is little: the journal is whole, and every path that the command is
not about has the leaf that it had, but for temporary files.
-/
import RGit.Cli.Transaction.Recovery

namespace RGit.Cli.Transaction

/-! ### The paths of a command -/

section Paths

variable {root control path : OsPath} {journal : Journal} {first middle : OsPath → Option Leaf}
  {disk : Disk}

/-- A path of no key and of no record. -/
def Apart (root control : OsPath) (journal : Journal) (path : OsPath) : Prop :=
  (∀ key : String, journal.working[key]? ≠ none → path ≠ root ++ keyPath key) ∧
    ∀ key : String, journal.pending[key]? ≠ none → path ≠ control ++ recordParts key

/-- The path of a temporary file. -/
def Temporary (path : OsPath) : Prop := ∃ directory id, path = directory ++ [temporaryName id]

/-- Paths apart have what they had, but for temporary files. -/
def Untouched (root control : OsPath) (journal : Journal) (first leaves : OsPath → Option Leaf) :
    Prop :=
  ∀ path, Apart root control journal path →
    leaves path = first path ∨ first path = none ∧ Temporary path

theorem Untouched.trans (h : Untouched root control journal first middle)
    (h' : Untouched root control journal middle disk.leafAt) :
    Untouched root control journal first disk.leafAt := by
  intro path hpath
  rcases h path hpath with hsame | htemporary
  · rw [← hsame]
    exact h' path hpath
  · exact .inr htemporary

/-- The updates of a journal leave alone what is apart from it. -/
theorem Apart.leaf_eq {readable : Prop} {rest : List String} {f g : OsPath → Option Leaf}
    (hpath : Apart root control journal path)
    (hleft : (updatesOf readable root journal.working).Left first rest f)
    (htouched : (recordUpdates readable control journal.pending).Touched f g) :
    g path = first path := by
  have hf : f path = first path := by
    refine hleft.elsewhere path fun key hkey => ?_
    obtain ⟨update, hupdate⟩ := mem_updatesOf_keys.mp hkey
    exact hpath.1 key (by rw [hupdate]; simp)
  rcases htouched path with hsame | ⟨key, hkey, hplace, -⟩
  · rw [hsame, hf]
  · obtain ⟨bytes, hbytes⟩ := mem_recordUpdates_keys.mp hkey
    exact absurd hplace (hpath.2 key (by rw [hbytes]; simp))

theorem Recovering.untouched {readable : Prop}
    (h : Recovering readable root control journal first disk) :
    Untouched root control journal first disk.leafAt := by
  intro path hpath
  obtain ⟨rest, f, g, hleft, htouched, hbeside⟩ := h
  have hg : g path = first path := hpath.leaf_eq hleft htouched
  rcases hbeside with hsame | ⟨directory, id, leaf, hnone, -, hdisk⟩
  · left
    rw [hsame, hg]
  · by_cases hplace : path = directory ++ [temporaryName id]
    · subst hplace
      exact .inr ⟨by rw [← hg, hnone], directory, id, rfl⟩
    · left
      rw [hdisk, Function.update_of_ne hplace, hg]

theorem Recovering.readable (h : Recovering True root control journal first disk)
    (hfirst : AllReadable first) : AllReadable disk.leafAt := by
  obtain ⟨rest, f, g, hleft, htouched, hbeside⟩ := h
  have hg : AllReadable g := touched_readable (left_readable hfirst trivial hleft) trivial htouched
  rcases hbeside with hsame | ⟨directory, id, leaf, -, hleaf, hdisk⟩
  · rwa [hsame]
  · intro path leaf' hleaf'
    rw [hdisk] at hleaf'
    by_cases hplace : path = directory ++ [temporaryName id]
    · subst hplace
      rw [Function.update_self] at hleaf'
      obtain rfl := Option.some.inj hleaf'
      exact hleaf trivial
    · rw [Function.update_of_ne hplace] at hleaf'
      exact hg path leaf' hleaf'

/-- At its end a recovery has left no temporary file. -/
theorem Recovered.leafAt {readable : Prop}
    (h : Recovered readable root control journal first disk)
    (hpath : Apart root control journal path) : disk.leafAt path = first path := by
  obtain ⟨f, hleft, htouched, -⟩ := h
  exact hpath.leaf_eq hleft htouched

/-- The command is through. -/
structure Complete (root control : OsPath) (journal : Journal)
    (first leaves : OsPath → Option Leaf) : Prop where
  untouched : Untouched root control journal first leaves
  updates : ∀ (key : String) (update : WorkingUpdate), journal.working[key]? = some update →
    update.After (leaves (root ++ keyPath key))
  records : ∀ key ∈ (recordUpdates True control journal.pending).keys,
    (recordUpdates True control journal.pending).Done leaves key

/-- No record is at the path of a key. -/
def Disjoint (root control : OsPath) (journal : Journal) : Prop :=
  ∀ key key' : String, journal.working[key]? ≠ none → journal.pending[key']? ≠ none →
    root ++ keyPath key ≠ control ++ recordParts key'

theorem Recovered.complete (h : Recovered True root control journal first disk)
    (hdisjoint : Disjoint root control journal) :
    Complete root control journal first disk.leafAt where
  untouched := h.recovering.untouched
  updates key update hupdate := by
    obtain ⟨f, hleft, htouched, -⟩ := h
    obtain ⟨⟨update', hupdate', -, hafter⟩, -⟩ :=
      hleft.finished key (mem_updatesOf_keys.mpr ⟨update, hupdate⟩) (List.not_mem_nil)
    obtain rfl := Option.some.inj (hupdate.symm.trans hupdate')
    rcases htouched (root ++ keyPath key) with hsame | ⟨key', hkey', hplace, -⟩
    · rw [hsame]
      exact (hafter trivial).1
    · obtain ⟨bytes, hbytes⟩ := mem_recordUpdates_keys.mp hkey'
      exact absurd hplace (hdisjoint key key' (by rw [hupdate]; simp) (by rw [hbytes]; simp))
  records := by
    obtain ⟨f, -, -, hdone⟩ := h
    exact hdone

end Paths

section Runs

variable [Unicode] (sys : System) (resolveRoot : ResolveRoot) (control : OsPath)

/-- Recoveries one after the other, each cut short after some step. -/
inductive Interrupted : World → World → Prop
  | refl (world : World) : Interrupted world world
  | again {world world' world'' : World} : Interrupted world world' →
      (recover sys resolveRoot control).Stops world' world'' → Interrupted world world''

variable {sys resolveRoot control} {world world' : World} {root : OsPath} {journal : Journal}
  {first : OsPath → Option Leaf}

/-- There is nothing to recover. -/
theorem recover_empty (h : world.journal = {}) :
    Stepwise.Holds (fun _ => False) (fun _ t => t = world) (recover sys resolveRoot control)
      world := by
  obtain ⟨disk, journal⟩ := world
  obtain rfl : journal = {} := h
  refine Stepwise.holds_bind (Stepwise.holds_read fun journal hjournal => ?_)
  obtain rfl := Except.ok.inj hjournal
  refine Stepwise.holds_bind (Stepwise.holds_read fun plan _ => ?_)
  have hdeletions : deletions (∅ : BTreeMap String WorkingUpdate) = [] := by simp [deletions]
  have hreplacements : replacements (∅ : BTreeMap String WorkingUpdate) = [] := by
    simp [replacements]
  refine Stepwise.holds_bind (Stepwise.holds_within ?_)
  rw [publish, hdeletions, hreplacements]
  refine Stepwise.holds_bind (Stepwise.holds_pure (Stepwise.holds_pure ?_))
  have hrecords : (∅ : BTreeMap String Bytes).toList = [] := by simp
  refine Stepwise.holds_bind (Stepwise.holds_within ?_)
  rw [publishRecords, hrecords]
  refine Stepwise.holds_pure ?_
  rw [if_neg (by simp)]
  exact Stepwise.holds_pure rfl

/-- The journal is written, and what a recovery needs is still there. -/
structure Committed (root control : OsPath) (journal : Journal) (first : OsPath → Option Leaf)
    (world : World) : Prop where
  journal_eq : world.journal = journal
  untouched : Untouched root control journal first world.disk.leafAt
  readable : AllReadable world.disk.leafAt

/-- The journal is written, or the command is through and the journal empty. -/
def Settled (root control : OsPath) (journal : Journal) (first : OsPath → Option Leaf)
    (world : World) : Prop :=
  Committed root control journal first world ∨
    world.journal = {} ∧ Complete root control journal first world.disk.leafAt

variable (hmode : sys.createMode &&& 0o444 ≠ 0)
  (hstable : ∀ world root', world.journal = journal →
    journalRoot resolveRoot control world = .ok root' → root' = root)
  (hdisjoint : Disjoint root control journal)

include hmode hstable hdisjoint in
theorem Committed.recover (h : Committed root control journal first world) :
    Stepwise.Holds (Settled root control journal first)
      (fun _ t => t.journal = {} ∧ Complete root control journal first t.disk.leafAt)
      (recover sys resolveRoot control) world := by
  obtain ⟨rfl, huntouched, hreadable⟩ := h
  have hcomplete : ∀ t : World,
      Recovered True root control world.journal world.disk.leafAt t.disk →
      Complete root control world.journal first t.disk.leafAt := by
    intro t ht
    have hthis := ht.complete hdisjoint
    exact ⟨huntouched.trans hthis.untouched, hthis.updates, hthis.records⟩
  refine (recover_holds (fun _ : True => hmode) fun _ => hreadable).mono
    (fun t ht => ?_) fun _ t ht => ?_
  · obtain ⟨root', hroot, hstate⟩ := ht
    obtain rfl := hstable world root' rfl hroot
    rcases hstate with ⟨hjournal, hrecovering⟩ | ⟨hjournal, hrecovered⟩
    · exact .inl ⟨hjournal, huntouched.trans hrecovering.untouched, hrecovering.readable hreadable⟩
    · exact .inr ⟨hjournal, hcomplete t hrecovered⟩
  · obtain ⟨root', hroot, hjournal, hrecovered⟩ := ht
    obtain rfl := hstable world root' rfl hroot
    exact ⟨hjournal, hcomplete t hrecovered⟩

include hmode hstable hdisjoint in
theorem Settled.recover (h : Settled root control journal first world) :
    Stepwise.Holds (Settled root control journal first)
      (fun _ t => t.journal = {} ∧ Complete root control journal first t.disk.leafAt)
      (recover sys resolveRoot control) world := by
  rcases h with hcommitted | ⟨hjournal, hcomplete⟩
  · exact hcommitted.recover hmode hstable hdisjoint
  · refine (recover_empty hjournal).mono (fun _ h => h.elim) fun _ t ht => ?_
    rw [ht]
    exact ⟨hjournal, hcomplete⟩

include hmode hstable hdisjoint in
theorem Settled.interrupted (hagain : Interrupted sys resolveRoot control world world')
    (h : Settled root control journal first world) : Settled root control journal first world' := by
  induction hagain with
  | refl => exact h
  | again _ hstop ih =>
      rcases hstop with rfl | hvisited
      · exact ih
      · exact (ih.recover hmode hstable hdisjoint).1 _ hvisited

end Runs

/-! ### Commands -/

section Commands

variable {sys : System} {resolveRoot : ResolveRoot} {control root : OsPath}
  {command : Command} {world : World} {journal : Journal}

/-- The journal of a command that has passed its checks. -/
structure Belongs (resolveRoot : ResolveRoot) (control : OsPath) (command : Command) (disk : Disk)
    (root : OsPath) (journal : Journal) : Prop where
  rows : ({} : Journal).insertCommand command = .ok journal
  root_eq : ∀ key : String, command.working[key]? ≠ none →
    workspaceRoot resolveRoot control command disk = .ok root
  stable : ∀ world root', World.journal world = journal →
    journalRoot resolveRoot control world = .ok root' → root' = root
  disjoint : Disjoint root control journal

/-- A path of no update of the command, and of none of its records. -/
def Command.Apart (resolveRoot : ResolveRoot) (control : OsPath) (command : Command) (disk : Disk)
    (path : OsPath) : Prop :=
  (∀ root, workspaceRoot resolveRoot control command disk = .ok root →
    ∀ key : String, command.working[key]? ≠ none → path ≠ root ++ keyPath key) ∧
  ∀ record : OsPath, command.pending.entries[record]? ≠ none → path ≠ control ++ record

/-- The leaves are those that the command leaves behind. -/
structure Carried (resolveRoot : ResolveRoot) (control : OsPath) (command : Command)
    (disk : Disk) (leaves : OsPath → Option Leaf) : Prop where
  updates : ∀ root (key : String) (update : WorkingUpdate),
    workspaceRoot resolveRoot control command disk = .ok root →
    command.working[key]? = some update → update.After (leaves (root ++ keyPath key))
  records : ∀ (path : OsPath) (bytes : Bytes), command.pending.entries[path]? = some bytes →
    ∃ mode, leaves (control ++ path) = some (.file bytes mode)
  untouched : ∀ path, command.Apart resolveRoot control disk path →
    leaves path = disk.leafAt path ∨ disk.leafAt path = none ∧ Temporary path

theorem Belongs.apart {disk : Disk} {path : OsPath}
    (h : Belongs resolveRoot control command disk root journal)
    (hpath : command.Apart resolveRoot control disk path) : Apart root control journal path := by
  obtain ⟨hworking, hpending, -⟩ := insertCommand_eq_ok h.rows
  constructor
  · intro key hkey
    rw [hworking] at hkey
    exact hpath.1 root (h.root_eq key hkey) key hkey
  · intro key hkey
    obtain ⟨bytes, hbytes⟩ := Option.ne_none_iff_exists'.mp hkey
    obtain ⟨path', hpath', hkey'⟩ := (hpending key bytes).mp hbytes
    have hsome : command.pending.entries[path']? ≠ none := by simp [hpath']
    rw [recordParts_metadataKey hkey' (command.pending.names path' hsome)]
    exact hpath.2 path' hsome

theorem Belongs.carried {leaves : OsPath → Option Leaf}
    (h : Belongs resolveRoot control command world.disk root journal)
    (hcomplete : Complete root control journal world.disk.leafAt leaves) :
    Carried resolveRoot control command world.disk leaves := by
  obtain ⟨hworking, hpending, -⟩ := insertCommand_eq_ok h.rows
  constructor
  case updates =>
    intro root' key update hroot hupdate
    have hsome : command.working[key]? ≠ none := by simp [hupdate]
    obtain rfl := Except.ok.inj (hroot.symm.trans (h.root_eq key hsome))
    exact hcomplete.updates key update (by rw [hworking, hupdate])
  case records =>
    intro path bytes hbytes
    have hsome : command.pending.entries[path]? ≠ none := by simp [hbytes]
    obtain ⟨key, hkey⟩ := Except.isOk_iff.mp (command.pending.keys path hsome)
    have hparts := recordParts_metadataKey hkey (command.pending.names path hsome)
    have hrow := (hpending key bytes).mpr ⟨path, hbytes, hkey⟩
    obtain ⟨key', -, hplace, bytes', mode, hrow', hfile, -⟩ :=
      hcomplete.records key (mem_recordUpdates_keys.mpr ⟨bytes, hrow⟩)
    -- Two records at one place are one record.
    obtain ⟨path', hbytes', hkey'⟩ := (hpending key' bytes').mp hrow'
    have hsome' : command.pending.entries[path']? ≠ none := by simp [hbytes']
    have hparts' := recordParts_metadataKey hkey' (command.pending.names path' hsome')
    have hpath : path' = path := by
      rw [← hparts, ← hparts']
      exact List.append_cancel_left hplace
    subst hpath
    obtain rfl := Option.some.inj (hbytes.symm.trans hbytes')
    refine ⟨mode, ?_⟩
    rw [← hparts]
    exact hfile
  case untouched =>
    intro path hpath
    exact hcomplete.untouched path (h.apart hpath)

variable [Unicode]

section Guarded

variable {parent : OsPath} (hcontrol : control = parent ++ [utf8Bytes ".rgit"])
  (hresolve : ∀ id disk disk' root root', resolveRoot disk id = .ok root →
    resolveRoot disk' id = .ok root' → root' = root)
  (hinside : ∀ root, workspaceRoot resolveRoot control command world.disk = .ok root →
    ¬control <+: root)

end Guarded

end Commands

/-! ### A command that is interrupted twice -/

section Sample

local instance commitUnicode : Unicode := asciiUnicode

end Sample

end RGit.Cli.Transaction
