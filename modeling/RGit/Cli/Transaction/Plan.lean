/-
RGit/Cli/Transaction/Plan.lean

The plan of a command for the working tree.

A plan says of every key whether it has a leaf before the command and after it.
It is built only from keys that no file system confuses, with no leaf of one
side inside another one (`ShapePlan`).  What `current` finds at a key is the leaf
at its path, also where a directory or a tracked leaf of the other side stands in
the way (`current_eq_ok`).

The directories are walked with a stack.  Its fuel is the number of nodes of the
tree, which a walk of a tree does not use up.
-/
import Mathlib.Data.List.ReduceOption
import RGit.Lib.Loops
import RGit.Cli.Transaction.Files

namespace RGit.Cli.Transaction

/-! ### Updates -/

structure WorkingUpdate where
  before : Option Bytes
  after : Option Bytes
  beforeExecutable : Option Bool
  afterExecutable : Option Bool
  beforeSymlink : Option Bool
  afterSymlink : Option Bool
  deriving DecidableEq

/-- `working_plan::Current`. -/
structure Current where
  bytes : Option Bytes
  flags : WorkingFlags

namespace Current

def absent : Current := ⟨none, {}⟩

/-- `Current::matches`, on a system whose files have an executable bit. -/
def matchesSide (current : Current) (bytes : Option Bytes) (executable symlink : Option Bool) :
    Bool :=
  if current.bytes ≠ bytes then false
  else if current.bytes.isNone then true
  else executable.all (· == current.flags.executable) && symlink.all (· == current.flags.symlink)

/-- What is at a key that has this leaf at its path. -/
def ofLeaf : Option Leaf → Current
  | none => absent
  | some leaf => ⟨leaf.bytes, leaf.flags⟩

end Current

/-- A leaf with these bytes, and with these flags where they are recorded; no leaf
where there are no bytes. -/
def ShowsSide (bytes : Option Bytes) (executable symlink : Option Bool) : Option Leaf → Prop
  | none => bytes = none
  | some leaf => leaf ≠ .special ∧ leaf.bytes = bytes ∧
      (∀ e, executable = some e → leaf.isExecutable = e) ∧
      (∀ l, symlink = some l → leaf.isSymlink = l)

namespace WorkingUpdate

def Before (update : WorkingUpdate) : Option Leaf → Prop :=
  ShowsSide update.before update.beforeExecutable update.beforeSymlink

def After (update : WorkingUpdate) : Option Leaf → Prop :=
  ShowsSide update.after update.afterExecutable update.afterSymlink

end WorkingUpdate

theorem ShowsSide.isSome_eq {leaf : Option Leaf} {bytes : Option Bytes}
    {executable symlink : Option Bool} (h : ShowsSide bytes executable symlink leaf) :
    leaf.isSome = bytes.isSome := by
  rcases leaf with _ | content | target | _
  · rw [show bytes = none from h]
    rfl
  · rw [← h.2.1]
    rfl
  · rw [← h.2.1]
    rfl
  · exact absurd rfl h.1

theorem matchesSide_ofLeaf {leaf : Option Leaf} {bytes : Option Bytes}
    {executable symlink : Option Bool} (hleaf : leaf ≠ some .special) :
    (Current.ofLeaf leaf).matchesSide bytes executable symlink = true ↔
      ShowsSide bytes executable symlink leaf := by
  cases leaf with
  | none =>
      rw [Current.matchesSide]
      show (if none ≠ bytes then false else true) = true ↔ bytes = none
      cases bytes <;> simp
  | some leaf =>
      have hspecial : leaf ≠ .special := fun h => hleaf (congrArg some h)
      have hsome : leaf.bytes.isNone = false := by
        cases leaf with
        | special => exact absurd rfl hspecial
        | file content mode => rfl
        | link target => rfl
      rw [Current.matchesSide]
      show (if leaf.bytes ≠ bytes then false else if leaf.bytes.isNone then true else
        executable.all (· == leaf.isExecutable) && symlink.all (· == leaf.isSymlink)) = true ↔
          leaf ≠ .special ∧ leaf.bytes = bytes ∧ _
      simp only [hsome, Bool.false_eq_true, if_false]
      by_cases hbytes : leaf.bytes = bytes
      · rw [if_neg (not_not_intro hbytes), Bool.and_eq_true, Option.all_eq_true,
          Option.all_eq_true]
        simp only [beq_iff_eq, hspecial, hbytes, ne_eq, not_false_eq_true, true_and]
        simp only [eq_comm]
      · rw [if_pos hbytes]
        constructor
        · intro h
          cases h
        · intro h
          exact absurd h.2.1 hbytes

/-- One side of an update in `working_plan::validate_updates`. -/
def validateSide (bytes : Option Bytes) (executable symlink : Option Bool) :
    Except CliError Unit := do
  if symlink = some true then
    validateLink (← Except.ofOption bytes (.failure "symlink journal target missing"))
    if executable = some true then
      .error (.failure "symlink journal mode is invalid")

/-- `working_plan::validate_updates`. -/
def validateUpdates (updates : BTreeMap String WorkingUpdate) : Except CliError Unit :=
  updates.values.forM fun update => do
    validateSide update.before update.beforeExecutable update.beforeSymlink
    validateSide update.after update.afterExecutable update.afterSymlink

/-! ### The plan -/

section Plan

variable [Unicode]

/-- The keys with a leaf on one side. -/
def filesOf (plan : BTreeMap String (Bool × Bool)) (after : Bool) : List String :=
  (plan.toList.filter fun entry => if after then entry.2.2 else entry.2.1).map (·.1)

/-- A leaf of one side is inside another one. -/
def collision (plan : BTreeMap String (Bool × Bool)) (after : Bool) : Bool :=
  (filesOf plan after).any fun key =>
    (pathPrefixes key).dropLast.any fun front => front ∈ filesOf plan after

/-- `working_plan::ShapePlan`. -/
structure ShapePlan where
  plan : BTreeMap String (Bool × Bool)
  portable : validate (plan.toList.map (·.1)) = .ok ()
  separate : ∀ after, collision plan after = false

namespace ShapePlan

/-- `ShapePlan::new`. -/
def new (paths : List (String × Bool × Bool)) : Except CliError ShapePlan :=
  let plan : BTreeMap String (Bool × Bool) :=
    paths.foldl (fun plan entry => plan.insert entry.1 entry.2) ∅
  match hportable : validate (plan.toList.map (·.1)) with
  | .error e => .error e
  | .ok () =>
      if h : collision plan false = false ∧ collision plan true = false then
        .ok ⟨plan, hportable, Bool.rec h.1 h.2⟩
      else .error (.failure "working plan contains a file/directory collision")

/-- `ShapePlan::from_updates`. -/
def fromUpdates (updates : BTreeMap String WorkingUpdate) : Except CliError ShapePlan :=
  new (updates.toList.map fun entry => (entry.1, entry.2.before.isSome, entry.2.after.isSome))

variable (sys : System) (shape : ShapePlan) (disk : Disk) (root : OsPath)

/-! ### A directory in the way -/

/-- One entry of a directory in `ShapePlan::directory_can_be_replaced`: the entry
if it is a directory. -/
def replaceableEntry (path : OsPath) : Except CliError (Option OsPath) := do
  let key ← relativeKey root path
  validateWorkingKey key
  match ← symlinkMetadata disk path with
  | none => .error (.failure "No such file or directory (os error 2)")
  | some .directory => .ok (some path)
  | some (.leaf _) =>
      if shape.plan[key]? = some (true, false) then .ok none
      else .error (.failure "checkout would replace a directory containing untracked files")

/-- The loop of `ShapePlan::directory_can_be_replaced`. -/
def replaceableLoop : Nat → List OsPath → Except CliError Unit
  | _, [] => .ok ()
  | 0, _ :: _ => .error (.failure "out of fuel")
  | fuel + 1, directory :: pending => do
      ensureDirectory disk directory
      let entries ← (← sys.readDir disk directory).mapM fun name =>
        shape.replaceableEntry disk root (directory ++ [name])
      replaceableLoop fuel (entries.reduceOption.reverse ++ pending)

/-- `ShapePlan::directory_can_be_replaced`. -/
def directoryCanBeReplaced (path : OsPath) : Except CliError Unit :=
  shape.replaceableLoop sys disk root (disk.nodes.size + 1) [path]

/-! ### What is at a key -/

/-- The loop of `ShapePlan::current`. -/
def currentFrom (key : String) (side : Bool × Bool) (path : OsPath) (front : List Char) :
    List (List Char) → Except CliError Current
  | [] => .error (.failure "empty working path")
  | part :: rest => do
      let path := path ++ [utf8Bytes (String.ofList part)]
      let front := pushPart front part
      match ← symlinkMetadata disk path with
      | none => .ok Current.absent
      | some .directory =>
          if !rest.isEmpty then currentFrom key side path front rest
          else do
            if side.2 then shape.directoryCanBeReplaced sys disk root path
            .ok Current.absent
      | some (.leaf _) =>
          if !rest.isEmpty then
            -- A tracked leaf of one side stands where the other side has a directory.
            let blocked := shape.plan[String.ofList front]?.any fun parent =>
              (parent.1 && !side.1) || (parent.2 && !side.2)
            if blocked then .ok Current.absent
            else .error (.failure "working path has an unsafe parent")
          else do
            let bytes ← readWorking disk root key
            let flags ← workingFlags disk path
            .ok ⟨bytes, flags⟩

/-- `ShapePlan::current`. -/
def current (key : String) : Except CliError Current := do
  validateWorkingKey key
  let side ← Except.ofOption shape.plan[key]? (.failure "working path missing from plan")
  shape.currentFrom sys disk root key side root [] (keyParts key)

section Reading

variable {sys : System} {shape : ShapePlan} {disk : Disk} {root : OsPath} {key : String}
  {found : Current}

theorem currentFrom_eq_ok {side : Bool × Bool} {parts : List (List Char)} {path : OsPath}
    {front : List Char}
    (h : shape.currentFrom sys disk root key side path front parts = .ok found)
    (hpath : path ++ parts.map (fun part => utf8Bytes (String.ofList part)) = root ++ keyPath key) :
    found = Current.ofLeaf (disk.leafAt (root ++ keyPath key)) ∧
      disk.leafAt (root ++ keyPath key) ≠ some .special := by
  induction parts generalizing path front with
  | nil => cases h
  | cons part rest ih =>
      rw [List.map_cons, List.append_cons] at hpath
      rw [currentFrom] at h
      obtain ⟨node, hnode, h⟩ := Except.bind_eq_ok.mp h
      replace hnode := symlinkMetadata_eq_ok hnode
      -- Nothing is below what is not a directory.
      have hbelow (hne : node ≠ some .directory) (hrest : rest ≠ []) :
          disk.leafAt (root ++ keyPath key) = none := by
        rw [← hpath, FileTree.leafAt_eq_none]
        exact .inl (FileTree.node_append_eq_none (hnode ▸ hne) (by simpa using hrest))
      cases rest with
      | nil =>
          rw [List.map_nil, List.append_nil] at hpath
          rw [hpath] at hnode
          rcases node with - | - | leaf
          · obtain rfl := Except.ok.inj h
            rw [FileTree.leafAt_eq_none.mpr (.inl hnode)]
            exact ⟨rfl, by simp⟩
          · rw [FileTree.leafAt_eq_none.mpr (.inr hnode)]
            simp only [List.isEmpty_nil, Bool.not_true, Bool.false_eq_true, if_false] at h
            split at h
            · obtain ⟨-, -, h⟩ := Except.bind_eq_ok.mp h
              exact ⟨(Except.ok.inj h).symm, by simp⟩
            · exact ⟨(Except.ok.inj h).symm, by simp⟩
          · simp only [List.isEmpty_nil, Bool.not_true, Bool.false_eq_true, if_false] at h
            obtain ⟨bytes, hbytes, h⟩ := Except.bind_eq_ok.mp h
            obtain ⟨flags, hflags, h⟩ := Except.bind_eq_ok.mp h
            obtain ⟨rfl, hspecial⟩ := readWorking_eq_ok hbytes hnode
            obtain rfl := workingFlags_eq_ok hflags (hpath ▸ hnode)
            rw [FileTree.leafAt_eq_some.mpr hnode]
            exact ⟨(Except.ok.inj h).symm, fun heq => hspecial (Option.some.inj heq)⟩
      | cons part' rest =>
          rcases node with - | - | leaf
          · obtain rfl := Except.ok.inj h
            rw [hbelow (by simp) (by simp)]
            exact ⟨rfl, by simp⟩
          · exact ih h hpath
          · rw [hbelow (by simp) (by simp)]
            simp only [List.isEmpty_cons, Bool.not_false, if_true] at h
            split at h
            · exact ⟨(Except.ok.inj h).symm, by simp⟩
            · cases h

theorem current_eq_ok (h : shape.current sys disk root key = .ok found) :
    found = Current.ofLeaf (disk.leafAt (root ++ keyPath key)) ∧
      disk.leafAt (root ++ keyPath key) ≠ some .special := by
  rw [current, Except.bind_unit_eq_ok] at h
  obtain ⟨side, -, h⟩ := Except.bind_eq_ok.mp h.2
  exact currentFrom_eq_ok h rfl

/-- What `current` finds matches a side if and only if the leaf at the path does. -/
theorem current_matches_iff (h : shape.current sys disk root key = .ok found)
    {bytes : Option Bytes} {executable symlink : Option Bool} :
    found.matchesSide bytes executable symlink = true ↔
      ShowsSide bytes executable symlink (disk.leafAt (root ++ keyPath key)) := by
  obtain ⟨rfl, hspecial⟩ := current_eq_ok h
  exact matchesSide_ofLeaf hspecial

/-- A directory that may be replaced has only leaves that the plan deletes. -/
theorem replaceableLoop_eq_ok {fuel : Nat} {pending : List OsPath}
    (h : shape.replaceableLoop sys disk root fuel pending = .ok ()) {directory : OsPath}
    (hmem : directory ∈ pending) {rest : OsPath} {leaf : Leaf}
    (hleaf : disk.leafAt (directory ++ rest) = some leaf) :
    ∃ key, relativeKey root (directory ++ rest) = .ok key ∧
      shape.plan[key]? = some (true, false) := by
  induction fuel generalizing pending directory rest with
  | zero =>
      cases pending with
      | nil => cases hmem
      | cons first pending => cases h
  | succ fuel ih =>
      cases pending with
      | nil => cases hmem
      | cons first pending =>
          rw [replaceableLoop, Except.bind_unit_eq_ok] at h
          obtain ⟨hfirst, h⟩ := h
          replace hfirst := ensureDirectory_eq_ok hfirst
          obtain ⟨listed, hlisted, h⟩ := Except.bind_eq_ok.mp h
          obtain ⟨entries, hentries, hrun⟩ := Except.bind_eq_ok.mp h
          rcases List.mem_cons.mp hmem with rfl | hmem
          · have hnode := FileTree.leafAt_eq_some.mp hleaf
            cases rest with
            | nil =>
                rw [List.append_nil, hfirst] at hnode
                cases hnode
            | cons name rest =>
                -- The entry of the directory that the leaf is at or below.
                have hname : name ∈ listed := by
                  rw [System.readDir, if_pos (FileTree.isDirectory_iff.mpr hfirst)] at hlisted
                  obtain rfl := Except.ok.inj hlisted
                  rw [(sys.listed_perm _ _ _).mem_iff, FileTree.mem_names]
                  cases rest with
                  | nil => simp [hnode]
                  | cons name' rest =>
                      have hbelow : disk.node ((directory ++ [name]) ++ name' :: rest) ≠ none := by
                        simp [hnode]
                      simp [FileTree.node_of_append hbelow (List.cons_ne_nil name' rest)]
                obtain ⟨entry, hentry, hread⟩ :=
                  forall₂_exists_of_mem (mapM_eq_ok.mp hentries) hname
                rw [replaceableEntry] at hread
                obtain ⟨key, hkey, hread⟩ := Except.bind_eq_ok.mp hread
                rw [Except.bind_unit_eq_ok] at hread
                obtain ⟨node, hfound, hread⟩ := Except.bind_eq_ok.mp hread.2
                replace hfound := symlinkMetadata_eq_ok hfound
                cases rest with
                | nil =>
                    rw [hnode] at hfound
                    obtain rfl := hfound
                    simp only at hread
                    split at hread
                    · next hplan => exact ⟨key, hkey, hplan⟩
                    · cases hread
                | cons name' rest =>
                    have hsplit : directory ++ name :: name' :: rest
                        = (directory ++ [name]) ++ (name' :: rest) := by simp
                    rw [hsplit] at hnode hleaf ⊢
                    rw [FileTree.node_of_append (by rw [hnode]; simp) (by simp)] at hfound
                    obtain rfl := hfound
                    obtain rfl := Except.ok.inj hread
                    refine ih hrun (List.mem_append_left _ ?_) hleaf
                    rw [List.mem_reverse, List.reduceOption_mem_iff]
                    exact hentry
          · exact ih hrun (List.mem_append_right _ hmem) hleaf

/-- A directory where the plan has a leaf afterwards has been examined. -/
theorem currentFrom_replaceable {side : Bool × Bool} {parts : List (List Char)} {path : OsPath}
    {front : List Char}
    (h : shape.currentFrom sys disk root key side path front parts = .ok found)
    (hparts : parts ≠ [])
    (hnode : disk.node (path ++ parts.map fun part => utf8Bytes (String.ofList part))
      = some .directory) (hafter : side.2 = true) :
    shape.directoryCanBeReplaced sys disk root
      (path ++ parts.map fun part => utf8Bytes (String.ofList part)) = .ok () := by
  induction parts generalizing path front with
  | nil => exact absurd rfl hparts
  | cons part rest ih =>
      rw [List.map_cons, List.append_cons] at hnode ⊢
      rw [currentFrom] at h
      obtain ⟨node, hfound, h⟩ := Except.bind_eq_ok.mp h
      replace hfound := symlinkMetadata_eq_ok hfound
      cases rest with
      | nil =>
          rw [List.map_nil, List.append_nil] at hnode ⊢
          rw [hnode] at hfound
          obtain rfl := hfound
          simp only [List.isEmpty_nil, Bool.not_true, Bool.false_eq_true, if_false, if_pos hafter]
            at h
          rw [Except.bind_unit_eq_ok] at h
          exact h.1
      | cons part' rest =>
          rw [FileTree.node_of_append (by rw [hnode]; simp) (by simp)] at hfound
          obtain rfl := hfound
          exact ih h (by simp) hnode

omit [Unicode] in
theorem fold_insert_get {entries : List (String × Bool × Bool)}
    {plan : BTreeMap String (Bool × Bool)} {side : Bool × Bool}
    (h : (entries.foldl (fun plan entry => plan.insert entry.1 entry.2) plan)[key]? = some side) :
    plan[key]? = some side ∨ (key, side) ∈ entries := by
  induction entries generalizing plan with
  | nil => exact .inl h
  | cons entry entries ih =>
      rcases ih h with hplan | hmem
      · rcases BTreeMap.get_insert_eq_some_iff.mp hplan with ⟨rfl, rfl⟩ | ⟨-, hplan⟩
        · exact .inr List.mem_cons_self
        · exact .inl hplan
      · exact .inr (List.mem_cons_of_mem _ hmem)

theorem fromUpdates_get {updates : BTreeMap String WorkingUpdate}
    (h : fromUpdates updates = .ok shape) {side : Bool × Bool}
    (hkey : shape.plan[key]? = some side) :
    ∃ update, updates[key]? = some update ∧
      side = (update.before.isSome, update.after.isSome) := by
  rw [fromUpdates, new] at h
  split at h
  · cases h
  split at h
  · obtain rfl := Except.ok.inj h
    rcases fold_insert_get hkey with hempty | hmem
    · simp at hempty
    · obtain ⟨entry, hentry, heq⟩ := List.mem_map.mp hmem
      obtain ⟨rfl, rfl⟩ := Prod.mk.inj heq
      exact ⟨entry.2, BTreeMap.mem_toList_iff_get.mp hentry, rfl⟩
  · cases h

end Reading

end ShapePlan

/-! ### Names that are taken -/

/-- The names of a directory, by what they fold to. -/
def spellings (sys : System) (disk : Disk) (directory : OsPath) :
    Except CliError (BTreeMap String (List String)) := do
  let listed ← sys.readDir disk directory
  .ok (listed.foldl (fun names name =>
    match fromUtf8 name with
    | some name =>
        let folded := portableCaseFold name
        names.insert folded (names[folded]?.getD [] ++ [name])
    | none => names) ∅)

abbrev Directories := BTreeMap OsPath (BTreeMap String (List String))

/-- The names of a directory, read when they are needed for the first time. -/
def readSpellings (sys : System) (disk : Disk) (directories : Directories) (parent : OsPath) :
    Except CliError (BTreeMap String (List String) × Directories) :=
  match directories[parent]? with
  | some names => .ok (names, directories)
  | none => do
      let names ← spellings sys disk parent
      .ok (names, directories.insert parent names)

/-- The inner loop of `checkout_paths::validate_existing`. -/
def checkParts (sys : System) (disk : Disk) (blocking : List String) (parent : OsPath)
    (front : List Char) (directories : Directories) :
    List (List Char) → Except CliError Directories
  | [] => .ok directories
  | part :: rest => do
      let name := String.ofList part
      let (names, directories) ← readSpellings sys disk directories parent
      if names[portableCaseFold name]?.any fun known => known.any (· != name) then
        .error (.failure "checkout path aliases an existing filesystem entry")
      else
        let parent := parent ++ [utf8Bytes name]
        let front := pushPart front part
        if rest.isEmpty then .ok directories
        else
          match ← symlinkMetadata disk parent with
          | some .directory => checkParts sys disk blocking parent front directories rest
          | some (.leaf _) =>
              if String.ofList front ∈ blocking then .ok directories
              else .error (.failure "checkout path has an unsafe parent")
          | none => .ok directories

/-- `checkout_paths::validate_existing`. -/
def validateExisting (sys : System) (disk : Disk) (root : OsPath) (paths blocking : List String) :
    Except CliError Unit := do
  let _ ← paths.foldlM (fun directories path => do
    validateWorkingKey path
    checkParts sys disk blocking root [] directories (keyParts path)) (∅ : Directories)
  .ok ()

/-- `ShapePlan::validate_aliases`. -/
def ShapePlan.validateAliases (sys : System) (shape : ShapePlan) (disk : Disk) (root : OsPath) :
    Except CliError Unit :=
  let blockers := (shape.plan.toList.filter fun entry => entry.2.1 || entry.2.2).map (·.1)
  validateExisting sys disk root (shape.plan.toList.map (·.1)) blockers

end Plan

end RGit.Cli.Transaction
