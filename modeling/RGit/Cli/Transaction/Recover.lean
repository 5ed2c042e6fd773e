/-
RGit/Cli/Transaction/Recover.lean

Commands and their recovery.

A command stages records and updates of the working tree, writes both into the
journal in one step and then recovers: `recover` publishes what the journal
holds and clears it in one last step.  A command that was interrupted is recovered
by the next one.  The journal database is its three tables, and its transactions
are steps; locking and the format of the databases are left out.

`recover_holds` says what every state of a recovery is: the journal is as it was,
the updates of the working tree come first, one after the other, and then the
records; or the recovery is complete and the journal empty.
-/
import RGit.Lib.Loops
import RGit.Cli.Transaction.Leaves

namespace RGit.Cli.Transaction

/-! ### Records -/

/-- The file name ends in `.json`, after something. -/
def isJson (name : List Char) : Bool := ".json".toList.isSuffixOf name && 5 < name.length

/-- `CommandTransaction::key`, of the names below the control directory. -/
def metadataKey (path : OsPath) : Except CliError String := do
  if path.any (fun name => name = utf8Bytes "..") || path.isEmpty then
    .error (.failure "invalid metadata path")
  let names ← path.mapM fun name =>
    Except.ofOption (fromUtf8 name) (.failure "metadata path is not UTF-8")
  if !(names.getLast?.any fun name => isJson name.toList) then
    .error (.failure "transaction target must be a JSON record")
  .ok (String.ofList (['/'].intercalate (names.map String.toList)))

/-- The names of a path that was joined with this key. -/
def recordParts (key : String) : OsPath :=
  ((keyParts key).filter fun part => part ≠ [] ∧ part ≠ ['.']).map
    fun part => utf8Bytes (String.ofList part)

/-- The check of a journaled path in `recover_with_hook`: the path below the control
directory has this key. -/
def checkRecordKey (key : String) : Except CliError Unit := do
  if key.toList.head? = some '/' then
    .error (.failure "metadata path escaped repository")
  let _ ← metadataKey (recordParts key)
  -- Separators and `.` parts are dropped at both ends of a path, not inside it.
  let dropped (part : Option (List Char)) : Bool := part = some [] || part = some ['.']
  if dropped (keyParts key).head? || dropped (keyParts key).getLast? then
    .error (.failure "invalid journal path")

/-! ### The state of a repository -/

structure Journal where
  pending : BTreeMap String Bytes := ∅
  working : BTreeMap String WorkingUpdate := ∅
  context : Option String := none

theorem Journal.eq_empty {journal : Journal}
    (h : (!journal.pending.isEmpty || !journal.working.isEmpty || journal.context.isSome)
      = false) : journal = {} := by
  obtain ⟨pending, working, context⟩ := journal
  simp only [Bool.or_eq_false_iff, Bool.not_eq_false', Std.ExtTreeMap.isEmpty_iff,
    Option.isSome_eq_false_iff, Option.isNone_iff_eq_none] at h
  obtain ⟨⟨rfl, rfl⟩, rfl⟩ := h
  rfl

structure World where
  disk : Disk
  journal : Journal

/-- `worktrees::resolve_root`, of the identifier of a worktree. -/
abbrev ResolveRoot := Disk → String → Except CliError OsPath

/-- The root of the working tree that the journal is about. -/
def journalRoot (resolveRoot : ResolveRoot) (control : OsPath) (world : World) :
    Except CliError OsPath :=
  let parent : Except CliError OsPath :=
    if control.isEmpty then .error (.failure "control directory has no parent")
    else .ok control.dropLast
  if !world.journal.working.isEmpty then
    match world.journal.context.filter fun id => !id.isEmpty with
    | some id => resolveRoot world.disk id
    | none => parent
  else parent

section Recovery

variable [Unicode] (sys : System) (resolveRoot : ResolveRoot) (control : OsPath)

/-- The check of an update before anything is published. -/
def checkUpdate (shape : ShapePlan) (disk : Disk) (root : OsPath)
    (entry : String × WorkingUpdate) : Except CliError Unit := do
  let update := entry.2
  let current ← shape.current sys disk root entry.1
  if !current.matchesSide update.before update.beforeExecutable update.beforeSymlink &&
      !current.matchesSide update.after update.afterExecutable update.afterSymlink then
    .error (.failure
      s!"recovery stopped: working file was edited after interrupted command: {entry.1}")

/-- Everything that is checked before the first change. -/
def checkJournal (world : World) : Except CliError (OsPath × ShapePlan) := do
  let journal := world.journal
  let root ← journalRoot resolveRoot control world
  let shape ← ShapePlan.fromUpdates journal.working
  shape.validateAliases sys world.disk root
  validateUpdates journal.working
  journal.working.toList.forM (checkUpdate sys shape world.disk root)
  journal.pending.toList.forM fun entry => do
    checkRecordKey entry.1
    checkPath world.disk control (recordParts entry.1)
  .ok (root, shape)

/-- A program of the file system, on the state of the repository. -/
def onDisk {α : Type} (x : Stepwise Disk CliError α) : Stepwise World CliError α :=
  Stepwise.within (fun world => world.disk) (fun world disk => { world with disk }) x

/-- The records of a journal, in the order of their keys. -/
def publishRecords (pending : BTreeMap String Bytes) : Stepwise Disk CliError Unit :=
  pending.toList.forM fun entry => publishFile sys (control ++ recordParts entry.1) entry.2

/-- `CommandTransaction::recover_with_hook`. -/
def recover : Stepwise World CliError Unit := do
  let journal ← Stepwise.read fun world => .ok world.journal
  let plan ← Stepwise.read (checkJournal sys resolveRoot control)
  onDisk (publish sys plan.1 plan.2 journal.working)
  onDisk (publishRecords sys control journal.pending)
  if !journal.pending.isEmpty || !journal.working.isEmpty || journal.context.isSome then
    Stepwise.step fun world => .ok { world with journal := {} }

end Recovery

/-! ### The states of a recovery -/

section States

variable {sys : System} {readable : Prop} {root control : OsPath} {pending : BTreeMap String Bytes}

/-- The records of a journal, as updates of the leaves. -/
def recordUpdates (readable : Prop) (control : OsPath) (pending : BTreeMap String Bytes) :
    Updates String OsPath Leaf where
  keys := pending.toList.map (·.1)
  place key := control ++ recordParts key
  before _ _ := True
  after key leaf := ∃ bytes mode, pending[key]? = some bytes ∧ leaf = some (.file bytes mode) ∧
    (readable → mode &&& 0o444 ≠ 0)

theorem mem_recordUpdates_keys {key : String} :
    key ∈ (recordUpdates readable control pending).keys ↔ ∃ bytes, pending[key]? = some bytes := by
  simp only [recordUpdates, List.mem_map, Prod.exists, BTreeMap.mem_toList_iff_get,
    exists_and_right, exists_eq_right]

theorem touched_readable {first f : OsPath → Option Leaf} (hfirst : AllReadable first)
    (hreadable : readable) (h : (recordUpdates readable control pending).Touched first f) :
    AllReadable f := by
  intro path leaf hleaf
  rcases h path with hsame | hafter
  · exact hfirst path leaf (hsame ▸ hleaf)
  · obtain ⟨key, -, -, bytes, mode, -, hfile, hmode⟩ := hafter
    obtain rfl := Option.some.inj (hfile.symm.trans hleaf)
    exact hmode hreadable

theorem publishRecords_holds {first : Disk} (hmode : readable → sys.createMode &&& 0o444 ≠ 0)
    (hfirst : readable → AllReadable first.leafAt) :
    Stepwise.Holds
      (fun t => ∃ f, (recordUpdates readable control pending).Touched first.leafAt f ∧
        Beside readable f t)
      (fun _ t => (recordUpdates readable control pending).Touched first.leafAt t.leafAt ∧
        ∀ key ∈ (recordUpdates readable control pending).keys,
          (recordUpdates readable control pending).Done t.leafAt key)
      (publishRecords sys control pending) first := by
  let u := recordUpdates readable control pending
  have hloop : ∀ (entries : List (String × Bytes)) (disk : Disk),
      (∀ entry ∈ entries, pending[entry.1]? = some entry.2) ∧ u.Touched first.leafAt disk.leafAt ∧
        (∀ key ∈ u.keys, key ∉ entries.map (·.1) → u.Done disk.leafAt key) →
      Stepwise.Holds (fun t => ∃ f, u.Touched first.leafAt f ∧ Beside readable f t)
        (fun _ t => (∀ entry ∈ ([] : List (String × Bytes)), pending[entry.1]? = some entry.2) ∧
          u.Touched first.leafAt t.leafAt ∧
          ∀ key ∈ u.keys, key ∉ ([] : List (String × Bytes)).map (·.1) → u.Done t.leafAt key)
        (entries.forM fun entry => publishFile sys (control ++ recordParts entry.1) entry.2) disk :=
    Stepwise.holds_forM fun entry rest disk h => by
      obtain ⟨hmem, htouched, hdone⟩ := h
      have hentry := hmem entry List.mem_cons_self
      have hkey : entry.1 ∈ u.keys := mem_recordUpdates_keys.mpr ⟨entry.2, hentry⟩
      have hplaced : ∀ t, Placed disk.leafAt (control ++ recordParts entry.1)
          (Written readable entry.2 none) t →
          u.Touched first.leafAt t.leafAt ∧
            ∀ key ∈ u.keys, key ∉ rest.map (·.1) → u.Done t.leafAt key := by
        rintro t ⟨leaf, ⟨mode, rfl, hread⟩, ht⟩
        have hafter : u.after entry.1 (some (.file entry.2 mode)) :=
          ⟨entry.2, mode, hentry, rfl, fun h => (hread h).1⟩
        rw [ht]
        refine ⟨htouched.set hkey hafter, fun key hkey' hrest => ?_⟩
        by_cases heq : key = entry.1
        · subst heq
          exact Updates.done_set_self hkey hafter
        · refine (hdone key hkey' ?_).set hkey hafter
          rw [List.map_cons]
          exact List.not_mem_cons_of_ne_of_not_mem heq hrest
      have hleaf : readable → ∀ leaf,
          disk.leafAt (control ++ recordParts entry.1) = some leaf → leaf.Readable :=
        fun hreadable leaf => touched_readable (hfirst hreadable) hreadable htouched _ leaf
      refine (publishFileWithMode_holds hmode hleaf).mono (fun t ht => ?_) fun _ t ht => ?_
      · rcases ht with hbeside | ht
        · exact ⟨disk.leafAt, htouched, hbeside⟩
        · exact ⟨t.leafAt, (hplaced t ht).1, .inl rfl⟩
      · exact ⟨fun entry' hentry' => hmem entry' (List.mem_cons_of_mem _ hentry'), hplaced t ht⟩
  refine (hloop pending.toList first ⟨fun entry hentry => BTreeMap.mem_toList_iff_get.mp hentry,
    Updates.touched_refl, fun key hkey hrest => absurd hkey hrest⟩).mono (fun _ h => h) ?_
  exact fun _ t ht => ⟨ht.2.1, fun key hkey => ht.2.2 key hkey (by simp)⟩

/-- A state of a recovery: first the updates of the working tree, then the records. -/
def Recovering (readable : Prop) (root control : OsPath) (journal : Journal)
    (first : OsPath → Option Leaf) (disk : Disk) : Prop :=
  ∃ rest f g, (updatesOf readable root journal.working).Left first rest f ∧
    (recordUpdates readable control journal.pending).Touched f g ∧ Beside readable g disk

/-- The end of a recovery: all updates and all records are through. -/
def Recovered (readable : Prop) (root control : OsPath) (journal : Journal)
    (first : OsPath → Option Leaf) (disk : Disk) : Prop :=
  ∃ f, (updatesOf readable root journal.working).Left first [] f ∧
    (recordUpdates readable control journal.pending).Touched f disk.leafAt ∧
    ∀ key ∈ (recordUpdates readable control journal.pending).keys,
      (recordUpdates readable control journal.pending).Done disk.leafAt key

theorem left_readable {working : BTreeMap String WorkingUpdate} {first f : OsPath → Option Leaf}
    {rest : List String} (hfirst : AllReadable first) (hreadable : readable)
    (h : (updatesOf readable root working).Left first rest f) : AllReadable f := by
  intro path leaf hleaf
  rcases h.touched path with hsame | hafter
  · exact hfirst path leaf (hsame ▸ hleaf)
  · obtain ⟨key, -, -, update, -, -, hafter⟩ := hafter
    exact (hafter hreadable).2 leaf hleaf

theorem validateUpdates_eq_ok {working : BTreeMap String WorkingUpdate}
    (h : validateUpdates working = .ok ()) (key : String) (update : WorkingUpdate)
    (hupdate : working[key]? = some update) (hlink : update.afterSymlink = some true) :
    update.afterExecutable ≠ some true := by
  have hmem : update ∈ working.values := BTreeMap.mem_values_iff.mpr ⟨key, hupdate⟩
  have hsides := forM_eq_ok.mp h update hmem
  rw [Except.bind_unit_eq_ok] at hsides
  have hside := hsides.2
  rw [validateSide, if_pos hlink] at hside
  obtain ⟨bytes, -, hside⟩ := Except.bind_eq_ok.mp hside
  rw [Except.bind_unit_eq_ok] at hside
  intro hexecutable
  rw [if_pos hexecutable] at hside
  cases hside.2

variable [Unicode] {resolveRoot : ResolveRoot} {world : World}

/-- What has been checked before the first change. -/
theorem checkJournal_eq_ok {plan : OsPath × ShapePlan}
    (h : checkJournal sys resolveRoot control world = .ok plan) :
    journalRoot resolveRoot control world = .ok plan.1 ∧
      ShapePlan.fromUpdates world.journal.working = .ok plan.2 ∧
      validateUpdates world.journal.working = .ok () ∧
      ∀ entry ∈ world.journal.working.toList,
        checkUpdate sys plan.2 world.disk plan.1 entry = .ok () := by
  rw [checkJournal] at h
  obtain ⟨root, hroot, h⟩ := Except.bind_eq_ok.mp h
  obtain ⟨shape, hshape, h⟩ := Except.bind_eq_ok.mp h
  rw [Except.bind_unit_eq_ok, Except.bind_unit_eq_ok, Except.bind_unit_eq_ok,
    Except.bind_unit_eq_ok] at h
  obtain ⟨-, hvalid, hchecked, -, h⟩ := h
  obtain rfl := Except.ok.inj h
  exact ⟨hroot, hshape, hvalid, forM_eq_ok.mp hchecked⟩

theorem recover_holds (hmode : readable → sys.createMode &&& 0o444 ≠ 0)
    (hfirst : readable → AllReadable world.disk.leafAt) :
    Stepwise.Holds
      (fun t => ∃ root, journalRoot resolveRoot control world = .ok root ∧
        (t.journal = world.journal ∧
            Recovering readable root control world.journal world.disk.leafAt t.disk ∨
          t.journal = {} ∧
            Recovered readable root control world.journal world.disk.leafAt t.disk))
      (fun _ t => ∃ root, journalRoot resolveRoot control world = .ok root ∧ t.journal = {} ∧
        Recovered readable root control world.journal world.disk.leafAt t.disk)
      (recover sys resolveRoot control) world := by
  refine Stepwise.holds_bind (Stepwise.holds_read fun journal hjournal => ?_)
  obtain rfl := Except.ok.inj hjournal
  refine Stepwise.holds_bind (Stepwise.holds_read fun plan hplan => ?_)
  obtain ⟨hroot, -, hvalid, -⟩ := checkJournal_eq_ok hplan
  refine Stepwise.holds_bind (Stepwise.holds_within ((publish_holds hmode hfirst
    (validateUpdates_eq_ok hvalid)).mono (fun t ht => ?_) fun _ t ht => ?_))
  · obtain ⟨rest, f, hleft, hbeside⟩ := ht
    exact ⟨plan.1, hroot, .inl ⟨rfl, rest, f, f, hleft, Updates.touched_refl, hbeside⟩⟩
  have hreadable : readable → AllReadable t.leafAt :=
    fun hreadable => left_readable (hfirst hreadable) hreadable ht.left
  refine Stepwise.holds_bind (Stepwise.holds_within ((publishRecords_holds hmode hreadable).mono
    (fun t' ht' => ?_) fun _ t' ht' => ?_))
  · obtain ⟨f, htouched, hbeside⟩ := ht'
    exact ⟨plan.1, hroot, .inl ⟨rfl, [], t.leafAt, f, ht.left, htouched, hbeside⟩⟩
  have hend : Recovered readable plan.1 control world.journal world.disk.leafAt t' :=
    ⟨t.leafAt, ht.left, ht'⟩
  split
  · refine Stepwise.holds_step fun cleared hcleared => ?_
    obtain rfl := Except.ok.inj hcleared
    exact ⟨⟨plan.1, hroot, .inr ⟨rfl, hend⟩⟩, plan.1, hroot, rfl, hend⟩
  · next hempty =>
      rw [Bool.not_eq_true] at hempty
      exact Stepwise.holds_pure ⟨plan.1, hroot, Journal.eq_empty hempty, hend⟩

end States

/-! ### Commands -/

/-- The records that a command has staged, by their names below the control
directory. -/
structure Records where
  entries : BTreeMap OsPath Bytes
  /-- The names are those of a path. -/
  names : ∀ path : OsPath, entries[path]? ≠ none → ∀ name ∈ path,
    name ≠ [] ∧ name ≠ utf8Bytes "." ∧ 47 ∉ name
  keys : ∀ path : OsPath, entries[path]? ≠ none → (metadataKey path).isOk = true

structure Command where
  workspaceId : Option String
  /-- The identifier of a worktree is not empty. -/
  workspaceId_ne : workspaceId ≠ some ""
  pending : Records
  working : BTreeMap String WorkingUpdate

section Commit

variable [Unicode] (sys : System) (resolveRoot : ResolveRoot) (control : OsPath)

/-- `CommandTransaction::workspace_root`. -/
def workspaceRoot (command : Command) (disk : Disk) : Except CliError OsPath :=
  match command.workspaceId with
  | some id => resolveRoot disk id
  | none =>
      if control.isEmpty then .error (.failure "control directory has no parent")
      else .ok control.dropLast

/-- The check of an update in `CommandTransaction::commit`. -/
def checkBefore (shape : ShapePlan) (disk : Disk) (root : OsPath)
    (entry : String × WorkingUpdate) : Except CliError Unit := do
  let update := entry.2
  let current ← shape.current sys disk root entry.1
  if !current.matchesSide update.before update.beforeExecutable update.beforeSymlink then
    .error (.failure s!"working file changed during command: {entry.1}")

/-- What `commit` checks before it writes the journal. -/
def checkCommand (command : Command) (world : World) : Except CliError Unit := do
  let shape ← ShapePlan.fromUpdates command.working
  let root ← workspaceRoot resolveRoot control command world.disk
  shape.validateAliases sys world.disk root
  validateUpdates command.working
  command.working.toList.forM (checkBefore sys shape world.disk root)

/-- The journal with the rows of a command; a row that is there stops it. -/
def Journal.insertCommand (journal : Journal) (command : Command) : Except CliError Journal := do
  let constraint := CliError.failure "UNIQUE constraint failed"
  if journal.context.isSome then .error constraint
  let working ← insertUnique (·.1) (·.2) (fun _ => constraint) command.working.toList
    journal.working
  let rows ← command.pending.entries.toList.mapM fun entry => do
    .ok (← metadataKey entry.1, entry.2)
  let pending ← insertUnique (·.1) (·.2) (fun _ => constraint) rows journal.pending
  .ok ⟨pending, working, some (command.workspaceId.getD "")⟩

/-- `CommandTransaction::commit`. -/
def commit (command : Command) : Stepwise World CliError Unit := do
  if command.pending.entries.isEmpty && command.working.isEmpty then pure ()
  else do
    Stepwise.read (checkCommand sys resolveRoot control command)
    Stepwise.step fun world => do
      let journal ← world.journal.insertCommand command
      .ok { world with journal }
    recover sys resolveRoot control

end Commit

/-! ### What a command writes into the journal -/

section Rows

variable {path : OsPath} {key : String} {bytes : Bytes} {command : Command} {journal : Journal}

theorem utf8_names {names : List String} {e : CliError}
    (h : List.Forall₂ (fun name part => Except.ofOption (fromUtf8 name) e = .ok part) path names) :
    path = names.map utf8Bytes := by
  induction h with
  | nil => rfl
  | cons hname _ ih =>
      rw [List.map_cons, utf8Bytes_of_fromUtf8 (Except.ofOption_eq_ok.mp hname), ← ih]

theorem metadataKey_eq_ok (h : metadataKey path = .ok key) :
    ∃ names : List String, names ≠ [] ∧ path = names.map utf8Bytes ∧
      key = String.ofList (['/'].intercalate (names.map String.toList)) := by
  rw [metadataKey] at h
  split at h
  · cases h
  next hparts =>
  obtain ⟨names, hnames, h⟩ := Except.bind_eq_ok.mp h
  split at h
  · cases h
  have hpath := utf8_names (mapM_eq_ok.mp hnames)
  refine ⟨names, ?_, hpath, (Except.ok.inj h).symm⟩
  rintro rfl
  rw [hpath] at hparts
  exact hparts rfl

/-- The key of a record leads back to its names. -/
theorem recordParts_metadataKey (h : metadataKey path = .ok key)
    (hnames : ∀ name ∈ path, name ≠ [] ∧ name ≠ utf8Bytes "." ∧ 47 ∉ name) :
    recordParts key = path := by
  obtain ⟨names, hne, rfl, rfl⟩ := metadataKey_eq_ok h
  have hparts : keyParts (String.ofList (['/'].intercalate (names.map String.toList)))
      = names.map String.toList := by
    rw [keyParts, String.toList_ofList]
    apply List.splitOn_intercalate
    · intro part hpart
      obtain ⟨name, hname, rfl⟩ := List.mem_map.mp hpart
      exact slash_notMem_of_utf8Bytes (hnames _ (List.mem_map_of_mem hname)).2.2
    · rwa [Ne, List.map_eq_nil_iff]
  rw [recordParts, hparts, List.filter_eq_self.mpr]
  · rw [List.map_map]
    exact List.map_congr_left fun name _ => by simp
  · intro part hpart
    obtain ⟨name, hname, rfl⟩ := List.mem_map.mp hpart
    obtain ⟨hempty, hdot, -⟩ := hnames _ (List.mem_map_of_mem hname)
    rw [decide_eq_true_eq]
    constructor
    · intro hnil
      rw [String.toList_eq_nil_iff.mp hnil] at hempty
      exact hempty rfl
    · intro hpoint
      apply hdot
      rw [← String.ofList_toList (s := name), hpoint]

theorem insertCommand_eq_ok (h : ({} : Journal).insertCommand command = .ok journal) :
    journal.working = command.working ∧
      (∀ (key : String) (bytes : Bytes), journal.pending[key]? = some bytes ↔
        ∃ path, command.pending.entries[path]? = some bytes ∧ metadataKey path = .ok key) ∧
      journal.context = some (command.workspaceId.getD "") := by
  rw [Journal.insertCommand] at h
  split at h
  · cases h
  obtain ⟨working, hworking, h⟩ := Except.bind_eq_ok.mp h
  obtain ⟨rows, hrows, h⟩ := Except.bind_eq_ok.mp h
  obtain ⟨pending, hpending, h⟩ := Except.bind_eq_ok.mp h
  obtain rfl := Except.ok.inj h
  refine ⟨?_, fun key bytes => ?_, rfl⟩
  · apply Std.ExtTreeMap.ext_getElem?
    intro key
    ext update
    rw [insertUnique_get hworking]
    simp
  · have hread := mapM_eq_ok.mp hrows
    have hrow : ∀ row : String × Bytes, row ∈ rows ↔ ∃ path : OsPath,
        command.pending.entries[path]? = some row.2 ∧ metadataKey path = .ok row.1 := by
      intro row
      constructor
      · intro hmem
        obtain ⟨entry, hentry, hrow⟩ := forall₂_exists_of_mem hread.flip hmem
        obtain ⟨key, hkey, heq⟩ := Except.bind_eq_ok.mp hrow
        obtain rfl := Except.ok.inj heq
        exact ⟨entry.1, BTreeMap.mem_toList_iff_get.mp hentry, hkey⟩
      · rintro ⟨path, hpath, hkey⟩
        obtain ⟨row', hrow', heq⟩ :=
          forall₂_exists_of_mem hread (BTreeMap.mem_toList_iff_get.mpr hpath)
        rw [hkey] at heq
        obtain rfl := Except.ok.inj heq
        exact hrow'
    rw [insertUnique_get hpending]
    simp only [Std.ExtTreeMap.getElem?_empty, reduceCtorEq, false_or, Prod.exists, hrow,
      exists_eq_right_right, exists_eq_right]

end Rows

end RGit.Cli.Transaction
