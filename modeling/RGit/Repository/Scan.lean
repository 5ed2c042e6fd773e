/-
RGit/Repository/Scan.lean

What `scan_working_tree` finds.

The walk visits a directory before what is in it.  It keeps the matchers that it
has loaded and the directories that it has found ignored; when it is in a
directory, that one is kept exactly if it is ignored (`Walking`).  A directory
that is not entered has no leaf to capture (`selected_eq_nil`), so a walk that
ends captures the selected leaves in their order (`scan_eq_ok`).

The items of a directory come in the order of the system, and an item that
cannot be read ends the walk.
-/
import RGit.Merge.Grouped
import RGit.Merge.Integrate
import RGit.Merge.Portable
import RGit.Repository.Ignore

namespace RGit.Cli

/-! ### The working tree -/

/-- The items of a directory, in the order in which the system lists them. -/
inductive Listing where
  | done
  | failed (rest : Listing)
  | file (name : Bytes) (file : WorkingFile) (rest : Listing)
  | special (name : Bytes) (rest : Listing)
  | directory (name : Bytes) (children rest : Listing)

/-- What a path leads to. -/
inductive Item where
  | file (file : WorkingFile)
  | special
  | directory (children : Listing)

namespace Listing

/-- The names of a directory. -/
def names : Listing → List Bytes
  | .done => []
  | .failed rest => rest.names
  | .file name _ rest | .special name rest | .directory name _ rest => name :: rest.names

/-- The names of a directory are distinct, and have no separator. -/
def WellNamed : Listing → Prop
  | .done => True
  | .failed rest => rest.WellNamed
  | .file name _ rest | .special name rest => 47 ∉ name ∧ name ∉ rest.names ∧ rest.WellNamed
  | .directory name children rest =>
      47 ∉ name ∧ name ∉ rest.names ∧ children.WellNamed ∧ rest.WellNamed

/-- The item of a name. -/
def item : Listing → Bytes → Option Item
  | .done, _ => none
  | .failed rest, name => rest.item name
  | .file name' leaf rest, name => if name' = name then some (.file leaf) else rest.item name
  | .special name' rest, name => if name' = name then some .special else rest.item name
  | .directory name' children rest, name =>
      if name' = name then some (.directory children) else rest.item name

/-- The items of the directory at a path. -/
def directoryAt : Listing → OsPath → Option Listing
  | listing, [] => some listing
  | listing, name :: path =>
      match listing.item name with
      | some (.directory children) => children.directoryAt path
      | _ => none

/-- The regular files and the links below a directory. -/
def leaves (path : OsPath) : Listing → List (OsPath × WorkingFile)
  | .done => []
  | .failed rest => leaves path rest
  | .file name leaf rest => (path ++ [name], leaf) :: leaves path rest
  | .special _ rest => leaves path rest
  | .directory name children rest => leaves (path ++ [name]) children ++ leaves path rest

end Listing

structure WorkingTree where
  root : Listing
  wellNamed : root.WellNamed

/-- The regular files and the links of a working tree. -/
def WorkingTree.leaves (tree : WorkingTree) : List (OsPath × WorkingFile) := tree.root.leaves []

/-! ### The walk -/

/-- The matcher that `includes` builds for a directory.  `gitignore` is the crate:
the matcher of a directory with some rules, or without any. -/
def loadMatcher (gitignore : OsPath → Option Bytes → Except CliError Matcher)
    (tree : WorkingTree) (directory : OsPath) : Except CliError Matcher :=
  match (tree.root.directoryAt directory).bind (·.item (utf8Bytes ".gitignore")) with
  | none => gitignore directory none
  | some (.file file) =>
      if file.symlink then .error (.failure ".gitignore must be a regular file")
      else gitignore directory (some file.content)
  | some _ => .error (.failure ".gitignore must be a regular file")

/-- `should_scan`, of the last name of a path. -/
def shouldScan (name : Bytes) : Bool :=
  !(fromUtf8 name).any fun name =>
    name.toList.map Char.toLower ∈ [".git".toList, ".rgit".toList]

/-- The tracked paths, of the snapshot that the current change starts from and of
the one that the workspace was materialized from. -/
def trackedPaths (repo : Repo) : Except CliError (BTreeSet String) := do
  let workspace ← readWorkspace repo
  let change ← match workspace.currentChange with
    | none => pure none
    | some id => (readChange repo id).map some
  let baseline ← match change with
    | none => pure none
    | some change => readOptionalSnapshot repo change.workspaceBaseSnapshotId
  let materialized ← readOptionalSnapshot repo workspace.modeSnapshot
  .ok (Std.ExtTreeSet.ofList
    ((baseline.toList ++ materialized.toList).flatMap fun snapshot =>
      snapshot.files.map (·.path)) compare)

section Walk

variable (load : OsPath → Except CliError Matcher) (host : Host) (storeBlobs : Bool)
  (policies : List PathPolicy)

/-- The entry of a leaf. -/
def capturedFile (relative : String) (file : WorkingFile) : FileEntry where
  symlink := file.symlink
  executable := file.isExecutable
  policy := policyForPath relative policies
  path := relative
  hash := host.hashBytes file.content
  bytes := file.content.length.toUInt64

/-- What the loop does with a leaf that it does not skip. -/
def captureLeaf (state : List FileEntry × Repo) (leaf : OsPath × WorkingFile) :
    Except CliError (List FileEntry × Repo) := do
  let relative ← repositoryRelativePath leaf.1
  let repo ← (if storeBlobs then
      storeBlob host state.2 leaf.2.content
        "stored blob failed verification; snapshot was not published"
    else .ok state.2)
  checkLink leaf.2
  .ok (state.1 ++ [capturedFile host policies relative leaf.2], repo)

/-- Whether an entry is not skipped: `should_scan` is asked first. -/
def admits (rules : Rules) (directory : OsPath) (name : Bytes) (isDirectory : Bool) :
    Except CliError (Bool × Rules) :=
  if shouldScan name then rules.includes load (directory ++ [name]) isDirectory
  else .ok (false, rules)

/-- The walk of what is left of a directory. -/
def scan (path : OsPath) :
    Listing → Rules × List FileEntry × Repo → Except CliError (Rules × List FileEntry × Repo)
  | .done, state => .ok state
  | .failed _, _ => .error (.failure "failed to read directory entry")
  | .file name file rest, (rules, captured) => do
      let (included, rules) ← admits load rules path name false
      let captured ←
        (if included then captureLeaf host storeBlobs policies captured (path ++ [name], file)
        else .ok captured)
      scan path rest (rules, captured)
  | .special name rest, (rules, captured) => do
      let (included, rules) ← admits load rules path name false
      if included then .error (.failure "unsupported special filesystem entry")
      else scan path rest (rules, captured)
  | .directory name children rest, (rules, captured) => do
      let (included, rules) ← admits load rules path name true
      let state ←
        (if included then scan (path ++ [name]) children (rules, captured)
        else .ok (rules, captured))
      scan path rest state

end Walk

namespace Scan

/-- `scan_working_tree`, from the walk on; `RGit.Cli.scanWorkingTree` starts with the
leaves that are captured. -/
def scanWorkingTree (gitignore : OsPath → Option Bytes → Except CliError Matcher) (host : Host)
    (tree : WorkingTree) (repo : Repo) (storeBlobs : Bool) :
    Except CliError (List FileEntry × Repo) := do
  let tracked ← trackedPaths repo
  let (_, files, repo) ← scan (loadMatcher gitignore tree) host storeBlobs repo.pathPolicies []
    tree.root (Rules.new tracked, [], repo)
  .ok (sortByPath (·.path) files, repo)

end Scan

/-! ### Leaves and names -/

namespace Listing

variable {listing : Listing} {path : OsPath}

/-- A leaf is below one of the names. -/
theorem mem_leaves {p : OsPath} {file : WorkingFile} (h : (p, file) ∈ listing.leaves path) :
    ∃ name ∈ listing.names, ∃ rest, p = path ++ name :: rest := by
  induction listing generalizing path with
  | done => cases h
  | failed rest ih => exact ih h
  | file name leaf rest ih =>
      rcases List.mem_cons.mp h with heq | h
      · cases heq
        exact ⟨name, List.mem_cons_self, [], rfl⟩
      · obtain ⟨name', hname, below, rfl⟩ := ih h
        exact ⟨name', List.mem_cons_of_mem _ hname, below, rfl⟩
  | special name rest ih =>
      obtain ⟨name', hname, below, rfl⟩ := ih h
      exact ⟨name', List.mem_cons_of_mem _ hname, below, rfl⟩
  | directory name children rest ihChildren ih =>
      rcases List.mem_append.mp h with h | h
      · obtain ⟨name', -, below, rfl⟩ := ihChildren h
        exact ⟨name, List.mem_cons_self, name' :: below, by simp⟩
      · obtain ⟨name', hname, below, rfl⟩ := ih h
        exact ⟨name', List.mem_cons_of_mem _ hname, below, rfl⟩

theorem slash_notMem (h : listing.WellNamed) (hpath : ∀ name ∈ path, 47 ∉ name) {p : OsPath}
    {file : WorkingFile} (hmem : (p, file) ∈ listing.leaves path) : ∀ name ∈ p, 47 ∉ name := by
  induction listing generalizing path with
  | done => cases hmem
  | failed rest ih => exact ih h hpath hmem
  | file name leaf rest ih =>
      obtain ⟨hname, -, h⟩ := h
      rcases List.mem_cons.mp hmem with heq | hmem
      · cases heq
        exact List.forall_mem_append.mpr ⟨hpath, by simpa using hname⟩
      · exact ih h hpath hmem
  | special name rest ih => exact ih h.2.2 hpath hmem
  | directory name children rest ihChildren ih =>
      obtain ⟨hname, -, hchildren, h⟩ := h
      rcases List.mem_append.mp hmem with hmem | hmem
      · exact ihChildren hchildren (List.forall_mem_append.mpr ⟨hpath, by simpa using hname⟩) hmem
      · exact ih h hpath hmem

/-- What is below a name is not beside it. -/
theorem notMem_leaves {name : Bytes} {below : OsPath} {file : WorkingFile}
    (hname : name ∉ listing.names) : (path ++ name :: below, file) ∉ listing.leaves path := by
  intro hmem
  obtain ⟨name', hname', below', heq⟩ := mem_leaves hmem
  obtain ⟨rfl, -⟩ := List.cons.inj (List.append_cancel_left heq)
  exact hname hname'

/-- No two leaves have one path. -/
theorem nodup_leaves (h : listing.WellNamed) : ((listing.leaves path).map (·.1)).Nodup := by
  induction listing generalizing path with
  | done => exact List.nodup_nil
  | failed rest ih => exact ih h
  | file name leaf rest ih =>
      obtain ⟨-, hname, h⟩ := h
      refine List.nodup_cons.mpr ⟨fun hmem => ?_, ih h⟩
      obtain ⟨⟨p, file⟩, hmem, rfl⟩ := List.mem_map.mp hmem
      exact notMem_leaves hname hmem
  | special name rest ih => exact ih h.2.2
  | directory name children rest ihChildren ih =>
      obtain ⟨-, hname, hchildren, h⟩ := h
      rw [leaves, List.map_append]
      refine List.nodup_append.mpr ⟨ihChildren hchildren, ih h, ?_⟩
      intro a ha b hb heq
      obtain ⟨⟨p, file⟩, hmem, rfl⟩ := List.mem_map.mp ha
      obtain ⟨⟨p', file'⟩, hmem', rfl⟩ := List.mem_map.mp hb
      obtain ⟨name', -, below, rfl⟩ := mem_leaves hmem
      dsimp only at heq
      rw [← heq, List.append_assoc, List.singleton_append] at hmem'
      exact notMem_leaves hname hmem'

end Listing

/-! ### The walk keeps the rules faithful -/

section Walking

variable {load : OsPath → Except CliError Matcher} {tracked : BTreeSet String}
  {path : OsPath} {name : Bytes} {rules rules' : Rules}

/-- The rules in a directory: the matchers are those of their directories, what is
kept is ignored, and the directory itself is kept if it is. -/
structure Walking (load : OsPath → Except CliError Matcher) (tracked : BTreeSet String)
    (path : OsPath) (rules : Rules) : Prop where
  consistent : rules.Consistent load
  tracked : rules.tracked = tracked
  sound : ∀ q ∈ rules.ignoredDirectories, IgnoredDirectory (matcherAt load) q
  complete : IgnoredDirectory (matcherAt load) path → path ∈ rules.ignoredDirectories

/-- Nothing that was kept is lost. -/
def Keeps (rules rules' : Rules) : Prop :=
  ∀ q ∈ rules.ignoredDirectories, q ∈ rules'.ignoredDirectories

/-- Back from a directory, the one above it is still kept. -/
theorem Walking.back {inner : OsPath} (h : Walking load tracked path rules)
    (hinner : Walking load tracked inner rules') (hkeeps : Keeps rules rules') :
    Walking load tracked path rules' :=
  ⟨hinner.consistent, hinner.tracked, hinner.sound, fun hpath => hkeeps _ (h.complete hpath)⟩

theorem Walking.ignored_iff (h : Walking load tracked path rules) {directory : Bool} :
    IgnoredByInnermost (matcherAt load) (path ++ [name]) directory ∨
        (path ++ [name]).dropLast ∈ rules.ignoredDirectories ↔
      Ignored (matcherAt load) (path ++ [name]) directory := by
  rw [Ignored, List.dropLast_concat]
  exact or_congr_right ⟨h.sound path, h.complete⟩

/-- What `includes` answers in a directory. -/
theorem Walking.includes (h : Walking load tracked path rules) {answer directory : Bool}
    (hrun : rules.includes load (path ++ [name]) directory = .ok (answer, rules')) :
    ∃ relative, repositoryRelativePath (path ++ [name]) = .ok relative ∧
      Walking load tracked path rules' ∧ Keeps rules rules' ∧
      (directory = true → Walking load tracked (path ++ [name]) rules') ∧
      (answer = true ↔ ¬Ignored (matcherAt load) (path ++ [name]) directory ∨
        if directory then ∃ t ∈ tracked, (relative ++ "/").toList <+: t.toList
        else relative ∈ tracked) := by
  obtain ⟨relative, hrelative, hconsistent, htracked, hmemo, hanswer⟩ :=
    Rules.includes_eq_ok h.consistent hrun
  rw [h.ignored_iff, h.tracked] at hanswer
  simp only [h.ignored_iff] at hmemo
  have hkeeps : Keeps rules rules' := fun q hq => (hmemo q).mpr (.inl hq)
  have hsound : ∀ q ∈ rules'.ignoredDirectories, IgnoredDirectory (matcherAt load) q := by
    intro q hq
    rcases (hmemo q).mp hq with hq | ⟨rfl, rfl, hignored⟩
    · exact h.sound q hq
    · exact (ignoredDirectory_iff (by simp)).mpr hignored
  refine ⟨relative, hrelative,
    ⟨hconsistent, htracked.trans h.tracked, hsound, fun hpath => hkeeps _ (h.complete hpath)⟩,
    hkeeps, ?_, hanswer⟩
  rintro rfl
  refine ⟨hconsistent, htracked.trans h.tracked, hsound, fun hpath => ?_⟩
  exact (hmemo _).mpr (.inr ⟨rfl, rfl, (ignoredDirectory_iff (by simp)).mp hpath⟩)

/-! ### The selected leaves -/

/-- A leaf that the scan captures: no name on its path is excluded, and it is tracked
or neither it nor a directory above it is ignored. -/
def Selected (load : OsPath → Except CliError Matcher) (tracked : BTreeSet String)
    (path : OsPath) : Prop :=
  (∀ name ∈ path, shouldScan name = true) ∧
    ((∃ relative ∈ tracked, repositoryRelativePath path = .ok relative) ∨
      ¬Ignored (matcherAt load) path false)

open Classical in
/-- The leaves that are selected, in their order. -/
noncomputable def selectedLeaves (load : OsPath → Except CliError Matcher)
    (tracked : BTreeSet String) (leaves : List (OsPath × WorkingFile)) :
    List (OsPath × WorkingFile) :=
  leaves.filter fun leaf => Selected load tracked leaf.1

theorem mem_selectedLeaves {leaves : List (OsPath × WorkingFile)}
    {leaf : OsPath × WorkingFile} :
    leaf ∈ selectedLeaves load tracked leaves ↔ leaf ∈ leaves ∧ Selected load tracked leaf.1 := by
  simp [selectedLeaves]

theorem selectedLeaves_append (leaves leaves' : List (OsPath × WorkingFile)) :
    selectedLeaves load tracked (leaves ++ leaves') =
      selectedLeaves load tracked leaves ++ selectedLeaves load tracked leaves' :=
  List.filter_append _ _

/-- A leaf of a directory whose names are not excluded. -/
theorem admits_file (h : Walking load tracked path rules)
    (hpath : ∀ name ∈ path, shouldScan name = true) {answer : Bool}
    (hrun : admits load rules path name false = .ok (answer, rules')) :
    Walking load tracked path rules' ∧ Keeps rules rules' ∧
      (answer = true ↔ Selected load tracked (path ++ [name])) := by
  rw [admits] at hrun
  have hnames : (∀ name' ∈ path ++ [name], shouldScan name' = true) ↔ shouldScan name = true := by
    rw [List.forall_mem_append, List.forall_mem_singleton]
    exact and_iff_right hpath
  rw [Selected, hnames]
  split at hrun
  · next hscan =>
      obtain ⟨relative, hrelative, hwalking, hkeeps, -, hanswer⟩ := h.includes hrun
      refine ⟨hwalking, hkeeps, ?_⟩
      simp only [hanswer, hscan, true_and, Bool.false_eq_true, if_false, hrelative, Except.ok.injEq,
        exists_eq_right', or_comm]
  · next hscan =>
      cases hrun
      exact ⟨h, fun _ hq => hq, by simp [hscan]⟩

/-- A directory that is not entered has no leaf to capture. -/
theorem admits_directory (h : Walking load tracked path rules)
    (hpath : ∀ name ∈ path, shouldScan name = true) {answer : Bool} (children : Listing)
    (hrun : admits load rules path name true = .ok (answer, rules')) :
    Walking load tracked path rules' ∧ Keeps rules rules' ∧
      (answer = true → Walking load tracked (path ++ [name]) rules' ∧
        ∀ name' ∈ path ++ [name], shouldScan name' = true) ∧
      (answer = false →
        selectedLeaves load tracked (children.leaves (path ++ [name])) = []) := by
  have hnone : (∀ below, below ≠ [] → ¬Selected load tracked (path ++ [name] ++ below)) →
      selectedLeaves load tracked (children.leaves (path ++ [name])) = [] := by
    intro hbelow
    refine List.eq_nil_iff_forall_not_mem.mpr fun ⟨p, file⟩ hleaf => ?_
    obtain ⟨hmem, hselected⟩ := mem_selectedLeaves.mp hleaf
    obtain ⟨name', -, below, rfl⟩ := Listing.mem_leaves hmem
    exact hbelow (name' :: below) (List.cons_ne_nil _ _) hselected
  rw [admits] at hrun
  split at hrun
  · next hscan =>
      obtain ⟨relative, hrelative, hwalking, hkeeps, hinner, hanswer⟩ := h.includes hrun
      have hnames : ∀ name' ∈ path ++ [name], shouldScan name' = true :=
        List.forall_mem_append.mpr ⟨hpath, by simpa using hscan⟩
      refine ⟨hwalking, hkeeps, fun _ => ⟨hinner rfl, hnames⟩, fun hno => hnone ?_⟩
      rw [hno, if_pos rfl] at hanswer
      simp only [Bool.false_eq_true, false_iff, not_or, not_not] at hanswer
      obtain ⟨hignored, hprobe⟩ := hanswer
      have hdirectory := (ignoredDirectory_iff (by simp)).mpr hignored
      rintro below hbelow ⟨-, ⟨tracked', htracked, hrelative'⟩ | hfree⟩
      · exact hprobe ⟨tracked', htracked, relative_append hrelative hrelative' hbelow⟩
      · exact hfree (hdirectory.inside hbelow false)
  · next hscan =>
      cases hrun
      refine ⟨h, fun _ hq => hq, nofun, fun _ => hnone fun below _ hselected => ?_⟩
      exact hscan (hselected.1 name (by simp))

end Walking

/-! ### The run -/

section Run

variable {load : OsPath → Except CliError Matcher} {host : Host} {storeBlobs : Bool}
  {policies : List PathPolicy} {tracked : BTreeSet String}

/-- **A walk that ends captures the selected leaves**, in their order. -/
theorem scan_eq_ok {listing : Listing} {path : OsPath} {rules rules' : Rules}
    {captured captured' : List FileEntry × Repo}
    (h : scan load host storeBlobs policies path listing (rules, captured) =
      .ok (rules', captured'))
    (hwalking : Walking load tracked path rules)
    (hpath : ∀ name ∈ path, shouldScan name = true) :
    Walking load tracked path rules' ∧ Keeps rules rules' ∧
      (selectedLeaves load tracked (listing.leaves path)).foldlM
        (captureLeaf host storeBlobs policies) captured = .ok captured' := by
  induction listing generalizing path rules rules' captured captured' with
  | done =>
      cases h
      exact ⟨hwalking, fun _ hq => hq, rfl⟩
  | failed rest ih => cases h
  | file name leaf rest ih =>
      obtain ⟨⟨included, rules₁⟩, hadmits, h⟩ := Except.bind_eq_ok.mp h
      obtain ⟨captured₁, hcapture, h⟩ := Except.bind_eq_ok.mp h
      obtain ⟨hwalking₁, hkeeps₁, hincluded⟩ := admits_file hwalking hpath hadmits
      obtain ⟨hwalking', hkeeps', hrun⟩ := ih h hwalking₁ hpath
      refine ⟨hwalking', fun q hq => hkeeps' q (hkeeps₁ q hq), ?_⟩
      rw [Listing.leaves, ← List.singleton_append, selectedLeaves_append, List.foldlM_append,
        selectedLeaves]
      cases included with
      | true =>
          rw [List.filter_cons_of_pos (by simpa using hincluded.mp rfl), List.filter_nil,
            List.foldlM_cons, show captureLeaf host storeBlobs policies captured
              (path ++ [name], leaf) = .ok captured₁ from hcapture]
          exact hrun
      | false =>
          cases hcapture
          have hnot : ¬Selected load tracked (path ++ [name]) := fun hselected =>
            Bool.false_ne_true (hincluded.mpr hselected)
          rw [List.filter_cons_of_neg (by simpa using hnot), List.filter_nil]
          exact hrun
  | special name rest ih =>
      obtain ⟨⟨included, rules₁⟩, hadmits, h⟩ := Except.bind_eq_ok.mp h
      obtain ⟨-, h⟩ := Except.ite_error_eq_ok.mp h
      obtain ⟨hwalking₁, hkeeps₁, -⟩ := admits_file hwalking hpath hadmits
      obtain ⟨hwalking', hkeeps', hrun⟩ := ih h hwalking₁ hpath
      exact ⟨hwalking', fun q hq => hkeeps' q (hkeeps₁ q hq), hrun⟩
  | directory name children rest ihChildren ih =>
      obtain ⟨⟨included, rules₁⟩, hadmits, h⟩ := Except.bind_eq_ok.mp h
      obtain ⟨⟨rules₂, captured₂⟩, hchildren, h⟩ := Except.bind_eq_ok.mp h
      obtain ⟨hwalking₁, hkeeps₁, hinside, hnone⟩ :=
        admits_directory hwalking hpath children hadmits
      have hentered : Walking load tracked path rules₂ ∧ Keeps rules₁ rules₂ ∧
          (selectedLeaves load tracked (children.leaves (path ++ [name]))).foldlM
            (captureLeaf host storeBlobs policies) captured = .ok captured₂ := by
        cases included with
        | true =>
            obtain ⟨hinner, hnames⟩ := hinside rfl
            obtain ⟨hinner', hkeeps₂, hrun⟩ := ihChildren hchildren hinner hnames
            exact ⟨hwalking₁.back hinner' hkeeps₂, hkeeps₂, hrun⟩
        | false =>
            cases hchildren
            rw [hnone rfl]
            exact ⟨hwalking₁, fun _ hq => hq, rfl⟩
      obtain ⟨hwalking₂, hkeeps₂, hrun⟩ := hentered
      obtain ⟨hwalking', hkeeps', hrest⟩ := ih h hwalking₂ hpath
      refine ⟨hwalking', fun q hq => hkeeps' q (hkeeps₂ q (hkeeps₁ q hq)), ?_⟩
      rw [Listing.leaves, selectedLeaves_append, List.foldlM_append, hrun]
      exact hrest

/-- The walk starts with nothing kept. -/
theorem Walking.start (load : OsPath → Except CliError Matcher) (tracked : BTreeSet String) :
    Walking load tracked [] (Rules.new tracked) where
  consistent d m h := by simp [Rules.new] at h
  tracked := rfl
  sound q h := by simp [Rules.new] at h
  complete h := absurd h (not_ignoredDirectory_nil _)

/-- The entry of a leaf, under its relative path. -/
def Captures (host : Host) (policies : List PathPolicy) (leaf : OsPath × WorkingFile)
    (e : FileEntry) : Prop :=
  ∃ relative, repositoryRelativePath leaf.1 = .ok relative ∧
    e = capturedFile host policies relative leaf.2

/-- What is captured are the entries of the leaves. -/
theorem captureLeaves_eq_ok {leaves : List (OsPath × WorkingFile)}
    {captured captured' : List FileEntry × Repo}
    (h : leaves.foldlM (captureLeaf host storeBlobs policies) captured = .ok captured') :
    ∃ entries, captured'.1 = captured.1 ++ entries ∧
      List.Forall₂ (Captures host policies) leaves entries := by
  induction leaves generalizing captured with
  | nil =>
      cases h
      exact ⟨[], (List.append_nil _).symm, .nil⟩
  | cons leaf leaves ih =>
      rw [List.foldlM_cons] at h
      obtain ⟨captured₁, hleaf, h⟩ := Except.bind_eq_ok.mp h
      obtain ⟨entries, hentries, hcaptures⟩ := ih h
      obtain ⟨relative, hrelative, hleaf⟩ := Except.bind_eq_ok.mp hleaf
      obtain ⟨repo, -, hleaf⟩ := Except.bind_eq_ok.mp hleaf
      obtain ⟨⟨⟩, -, hleaf⟩ := Except.bind_eq_ok.mp hleaf
      cases hleaf
      refine ⟨_ :: entries, ?_, .cons ⟨relative, hrelative, rfl⟩ hcaptures⟩
      rw [hentries, List.append_assoc]
      rfl

/-- A leaf under its relative path, as the commands get it. -/
def IsEntry (leaf : OsPath × WorkingFile) (entry : String × WorkingFile) : Prop :=
  repositoryRelativePath leaf.1 = .ok entry.1 ∧ leaf.2 = entry.2

/-- A scan that stores the blobs is the scan of the entries that it captures. -/
theorem captureLeaves_scanEntry {leaves : List (OsPath × WorkingFile)}
    {captured captured' : List FileEntry × Repo}
    (hpolicies : captured.2.pathPolicies = policies)
    (h : leaves.foldlM (captureLeaf host true policies) captured = .ok captured') :
    ∃ entries : List (String × WorkingFile),
      List.Forall₂ IsEntry leaves entries ∧
      entries.foldlM (scanEntry host) captured = .ok captured' := by
  induction leaves generalizing captured with
  | nil =>
      cases h
      exact ⟨[], .nil, rfl⟩
  | cons leaf leaves ih =>
      rw [List.foldlM_cons] at h
      obtain ⟨captured₁, hleaf, h⟩ := Except.bind_eq_ok.mp h
      obtain ⟨relative, hrelative, hleaf⟩ := Except.bind_eq_ok.mp hleaf
      obtain ⟨repo, hstore, hleaf⟩ := Except.bind_eq_ok.mp hleaf
      obtain ⟨⟨⟩, hlink, hleaf⟩ := Except.bind_eq_ok.mp hleaf
      cases hleaf
      rw [if_pos rfl] at hstore
      have hsame : repo.pathPolicies = policies := by
        rw [← hpolicies]
        rw [storeBlob] at hstore
        split at hstore
        · obtain ⟨-, hstore⟩ := Except.ite_error_eq_ok.mp hstore
          cases hstore
          rfl
        · cases hstore
          rfl
      obtain ⟨entries, hentries, hrun⟩ := ih hsame h
      have hentry : IsEntry leaf (relative, leaf.2) := ⟨hrelative, rfl⟩
      have hscan : scanEntry host captured (relative, leaf.2) =
          .ok (captured.1 ++ [capturedFile host policies relative leaf.2], repo) := by
        rw [scanEntry]
        dsimp only
        rw [hstore, Except.ok_bind, hlink, Except.ok_bind, Except.pure_eq_ok, hsame]
        rfl
      refine ⟨(relative, leaf.2) :: entries, .cons hentry hentries, ?_⟩
      rw [List.foldlM_cons, hscan]
      exact hrun

end Run

namespace Scan

variable {gitignore : OsPath → Option Bytes → Except CliError Matcher} {host : Host}
  {tree : WorkingTree} {repo repo' : Repo} {storeBlobs : Bool} {files : List FileEntry}

/-- A scan captures the selected leaves of the tree. -/
theorem scanWorkingTree_eq_ok
    (h : scanWorkingTree gitignore host tree repo storeBlobs = .ok (files, repo')) :
    ∃ tracked captured, trackedPaths repo = .ok tracked ∧
      (selectedLeaves (loadMatcher gitignore tree) tracked tree.leaves).foldlM
        (captureLeaf host storeBlobs repo.pathPolicies) ([], repo) = .ok (captured, repo') ∧
      files = sortByPath (·.path) captured := by
  obtain ⟨tracked, htracked, h⟩ := Except.bind_eq_ok.mp h
  obtain ⟨⟨rules, captured, repo₁⟩, hscan, h⟩ := Except.bind_eq_ok.mp h
  cases h
  obtain ⟨-, -, hrun⟩ := scan_eq_ok hscan (Walking.start _ tracked) nofun
  exact ⟨tracked, captured, htracked, hrun, rfl⟩

/-- The commands that store a snapshot work on what the scan captures. -/
theorem scanWorkingTree_refines
    (h : scanWorkingTree gitignore host tree repo true = .ok (files, repo')) :
    ∃ tracked entries, trackedPaths repo = .ok tracked ∧
      List.Forall₂ IsEntry
        (selectedLeaves (loadMatcher gitignore tree) tracked tree.leaves) entries ∧
      ∀ env : Env, env.entries = entries →
        RGit.Cli.scanWorkingTree host env repo = .ok (files, repo') := by
  obtain ⟨tracked, captured, htracked, hrun, rfl⟩ := scanWorkingTree_eq_ok h
  obtain ⟨entries, hentries, hrun⟩ :=
    captureLeaves_scanEntry (show (([] : List FileEntry), repo).2.pathPolicies = _ from rfl) hrun
  refine ⟨tracked, entries, htracked, hentries, fun env henv => ?_⟩
  rw [RGit.Cli.scanWorkingTree, henv, hrun, Except.ok_bind]
  exact Except.pure_eq_ok _

/-- What a scan returns is, once each, the leaves with no excluded name on their path
that are tracked or that neither they nor a directory above them are ignored; so no
tracked leaf outside the excluded names is left out. -/
theorem scanWorkingTree_spec
    (h : scanWorkingTree gitignore host tree repo storeBlobs = .ok (files, repo')) :
    ∃ tracked, trackedPaths repo = .ok tracked ∧
      (files.map (·.path)).Nodup ∧
      (∀ e ∈ files, ∃ leaf ∈ tree.leaves,
        Selected (loadMatcher gitignore tree) tracked leaf.1 ∧
          Captures host repo.pathPolicies leaf e) ∧
      (∀ leaf ∈ tree.leaves, Selected (loadMatcher gitignore tree) tracked leaf.1 →
        ∃ e ∈ files, Captures host repo.pathPolicies leaf e) ∧
      ∀ leaf ∈ tree.leaves, ∀ relative ∈ tracked,
        repositoryRelativePath leaf.1 = .ok relative →
        (∀ name ∈ leaf.1, shouldScan name = true) →
          capturedFile host repo.pathPolicies relative leaf.2 ∈ files := by
  obtain ⟨tracked, captured, htracked, hrun, rfl⟩ := scanWorkingTree_eq_ok h
  obtain ⟨entries, hentries, hcaptures⟩ := captureLeaves_eq_ok hrun
  obtain rfl : captured = entries := hentries
  have hselected : ∀ leaf ∈ tree.leaves, Selected (loadMatcher gitignore tree) tracked leaf.1 →
      ∃ e ∈ sortByPath (·.path) captured, Captures host repo.pathPolicies leaf e := by
    intro leaf hleaf hselected
    obtain ⟨e, he, hcapture⟩ :=
      forall₂_exists_of_mem hcaptures (mem_selectedLeaves.mpr ⟨hleaf, hselected⟩)
    exact ⟨e, mem_sortByPath.mpr he, hcapture⟩
  refine ⟨tracked, htracked, ?_, fun e he => ?_, hselected, ?_⟩
  · refine ((sortByPath_perm _ captured).map _).nodup_iff.mpr ?_
    refine nodup_map_of_forall₂ (f := (·.1)) hcaptures ?_ ?_
    · exact tree.root.nodup_leaves tree.wellNamed |>.sublist (List.filter_sublist.map _)
    · rintro leaf hleaf leaf' hleaf' e e' ⟨relative, hpath, rfl⟩ ⟨relative', hpath', rfl⟩ heq
      obtain rfl : relative = relative' := heq
      have hslash : ∀ leaf ∈ selectedLeaves (loadMatcher gitignore tree) tracked tree.leaves,
          ∀ name ∈ leaf.1, 47 ∉ name := fun leaf hleaf =>
        Listing.slash_notMem tree.wellNamed (List.forall_mem_nil _) (mem_selectedLeaves.mp hleaf).1
      exact relative_injective hpath hpath' (hslash leaf hleaf) (hslash leaf' hleaf')
  · obtain ⟨leaf, hleaf, hcapture⟩ :=
      forall₂_exists_of_mem hcaptures.flip (mem_sortByPath.mp he)
    obtain ⟨hleaf, hselected⟩ := mem_selectedLeaves.mp hleaf
    exact ⟨leaf, hleaf, hselected, hcapture⟩
  · intro leaf hleaf relative hrelative hpath hnames
    obtain ⟨e, he, relative', hpath', rfl⟩ :=
      hselected leaf hleaf ⟨hnames, .inl ⟨relative, hrelative, hpath⟩⟩
    obtain rfl := Except.ok.inj (hpath.symm.trans hpath')
    exact he

/-- A directory with a tracked file, and a name that begins like it. -/
def scannedTree : WorkingTree where
  root := .directory (utf8Bytes "d")
    (.file (utf8Bytes "x") ⟨[1], false, false⟩ (.file (utf8Bytes "y") ⟨[2], false, false⟩ .done))
    (.file (utf8Bytes "d-x") ⟨[3], false, false⟩ .done)
  wellNamed := by
    simp only [Listing.WellNamed, Listing.names]
    decide

/-- Rules that ignore the directory. -/
def ignoresDirectory : OsPath → Option Bytes → Except CliError Matcher := fun _ _ =>
  .ok fun path _ => if path = [utf8Bytes "d"] then .ignore else .none

/-- The tracked file of an ignored directory is captured, and the one beside it is not. -/
theorem scanWorkingTree_spec_tracked : ∃ files repo',
    scanWorkingTree ignoresDirectory portableHost scannedTree (portableRepo "a" "d/x") false =
      .ok (files, repo') ∧
    files.map (·.path) = ["d-x", "d/x"] ∧ (files.map (·.path)).Nodup := by
  have hpaths : (scanWorkingTree ignoresDirectory portableHost scannedTree
      (portableRepo "a" "d/x") false).map (fun result => result.1.map (·.path)) =
        .ok ["d-x", "d/x"] := by decide
  obtain ⟨⟨files, repo'⟩, hscan, hfiles⟩ := Except.map_eq_ok.mp hpaths
  obtain ⟨-, -, hnodup, -⟩ := scanWorkingTree_spec hscan
  exact ⟨files, repo', hscan, hfiles, hnodup⟩

end Scan

end RGit.Cli
