/-
RGit/Repository/Ignore.lean

Which entries of the working tree the ignore rules let through.

A path is ignored when the innermost matcher that decides it says so, or when
a directory above it is ignored.  `Rules` keeps the matchers that it has loaded
and the directories that it has found ignored; an ignored directory is still
entered when a tracked path is inside, and that is asked with one probe into the
sorted set (`probe_iff`).  `includes_eq_ok` says what `includes` answers and what
it keeps.

The matcher of a directory is a parameter.
-/
import Mathlib.Data.List.Infix
import Mathlib.Data.String.Basic
import RGit.Canonical.RoundTrip
import RGit.Lib.Lists
import RGit.Lib.Loops
import RGit.Lib.Maps
import RGit.Merge.Records

namespace RGit.Cli

/-- A path below the root of the working tree, with the names as the system has
them. -/
abbrev OsPath := List Bytes

/-- `ignore::Match`. -/
inductive Matched where
  | none
  | ignore
  | whitelist
  deriving DecidableEq

/-- `Gitignore::matched`, of a path and of whether it is a directory. -/
abbrev Matcher := OsPath → Bool → Matched

structure Rules where
  tracked : BTreeSet String
  matchers : BTreeMap OsPath Matcher
  ignoredDirectories : BTreeSet OsPath

/-- `repository_relative_path`. -/
def repositoryRelativePath (path : OsPath) : Except CliError String := do
  let segments ← path.mapM fun name =>
    Except.ofOption (fromUtf8 name) (.failure "non-UTF-8 paths are not supported")
  if segments.isEmpty then
    .error (.failure "path must be a nonempty repository-relative path without parent traversal")
  else .ok (String.ofList (['/'].intercalate (segments.map String.toList)))

namespace Rules

/-- `Rules::new`. -/
def new (tracked : BTreeSet String) : Rules := ⟨tracked, ∅, ∅⟩

variable (load : OsPath → Except CliError Matcher)

/-- The matcher of a directory, loaded when it is needed for the first time. -/
def matcher (rules : Rules) (directory : OsPath) : Except CliError (Matcher × Rules) :=
  match rules.matchers[directory]? with
  | some matcher => .ok (matcher, rules)
  | none => do
      let matcher ← load directory
      .ok (matcher, { rules with matchers := rules.matchers.insert directory matcher })

/-- One pass of the loop of `includes`: a matcher that decides overrides those
above it. -/
def consult (path : OsPath) (directory : Bool) (state : Bool × Rules) (ancestor : OsPath) :
    Except CliError (Bool × Rules) := do
  let (matcher, rules) ← state.2.matcher load ancestor
  match matcher path directory with
  | .none => .ok (state.1, rules)
  | .ignore => .ok (true, rules)
  | .whitelist => .ok (false, rules)

/-- The first tracked path from `probe` on begins with it. -/
def probes (tracked : BTreeSet String) (probe : String) : Bool :=
  (tracked.toList.find? fun path => (compare probe path).isLE).any
    fun path => probe.toList.isPrefixOf path.toList

/-- `Rules::includes`. -/
def includes (rules : Rules) (path : OsPath) (directory : Bool) :
    Except CliError (Bool × Rules) := do
  let relative ← repositoryRelativePath path
  let parent := path.dropLast
  let inherited := rules.ignoredDirectories.contains parent
  let (ignored, rules) ← parent.inits.foldlM (consult load path directory) (false, rules)
  let ignored := ignored || inherited
  let rules :=
    if directory && ignored then
      { rules with ignoredDirectories := rules.ignoredDirectories.insert path }
    else rules
  if !ignored then .ok (true, rules)
  else if directory then .ok (probes rules.tracked (relative ++ "/"), rules)
  else .ok (rules.tracked.contains relative, rules)

end Rules

/-! ### What it means to be ignored -/

section Meaning

variable (matcher : OsPath → Matcher)

/-- The innermost matcher that decides a path ignores it. -/
def IgnoredByInnermost (path : OsPath) (directory : Bool) : Prop :=
  ∃ d, d <+: path.dropLast ∧ matcher d path directory = .ignore ∧
    ∀ d', d' <+: path.dropLast → d.length < d'.length → matcher d' path directory = .none

/-- A directory, or one above it, is ignored. -/
def IgnoredDirectory (path : OsPath) : Prop :=
  ∃ q, q ≠ [] ∧ q <+: path ∧ IgnoredByInnermost matcher q true

/-- A path is ignored, itself or by a directory above it. -/
def Ignored (path : OsPath) (directory : Bool) : Prop :=
  IgnoredByInnermost matcher path directory ∨ IgnoredDirectory matcher path.dropLast

end Meaning

/-- The matcher that is loaded for a directory, where one can be. -/
def matcherAt (load : OsPath → Except CliError Matcher) (directory : OsPath) : Matcher :=
  match load directory with
  | .ok matcher => matcher
  | .error _ => fun _ _ => .none

/-! ### Relative paths -/

section Relative

variable {path path' : OsPath} {relative relative' : String}

theorem repositoryRelativePath_eq_ok :
    repositoryRelativePath path = .ok relative ↔ ∃ segments : List String, segments ≠ [] ∧
      path = segments.map utf8Bytes ∧
        relative = String.ofList (['/'].intercalate (segments.map String.toList)) := by
  have hutf : ∀ {name : Bytes} {segment : String},
      fromUtf8 name = some segment ↔ name = utf8Bytes segment := by
    intro name segment
    constructor
    · intro h
      exact (utf8Bytes_of_fromUtf8 h).symm
    · rintro rfl
      exact fromUtf8_utf8Bytes segment
  simp only [repositoryRelativePath, Except.bind_eq_ok, mapM_eq_ok, Except.ofOption_eq_ok, hutf,
    ← List.forall₂_map_right_iff, List.forall₂_eq_eq_eq, Except.ite_error_eq_ok, Except.ok.injEq,
    List.isEmpty_iff]
  refine exists_congr fun segments => ?_
  rw [and_left_comm, eq_comm (a := relative)]

/-- The path of what is inside a directory begins with that of the directory and a
separator. -/
theorem relative_append {rest : OsPath} (h : repositoryRelativePath path = .ok relative)
    (h' : repositoryRelativePath (path ++ rest) = .ok relative') (hrest : rest ≠ []) :
    (relative ++ "/").toList <+: relative'.toList := by
  obtain ⟨segments, hne, rfl, rfl⟩ := repositoryRelativePath_eq_ok.mp h
  obtain ⟨segments', -, hsplit, rfl⟩ := repositoryRelativePath_eq_ok.mp h'
  obtain ⟨front, back, rfl, hfront, hback⟩ := List.append_eq_map_iff.mp hsplit
  obtain rfl := List.map_injective_iff.mpr utf8Bytes_injective hfront
  have hbackNe : back.map String.toList ≠ [] := by
    rw [Ne, List.map_eq_nil_iff]
    rintro rfl
    exact hrest hback.symm
  have hfrontNe : front.map String.toList ≠ [] := by
    rwa [Ne, List.map_eq_nil_iff]
  refine ⟨['/'].intercalate (back.map String.toList), ?_⟩
  rw [List.map_append, String.toList_ofList, intercalate_append hfrontNe hbackNe,
    String.toList_append, String.toList_ofList]
  rfl

theorem slash_notMem_of_utf8Bytes {segment : String} (h : 47 ∉ utf8Bytes segment) :
    '/' ∉ segment.toList := by
  intro hmem
  obtain ⟨front, back, hsplit⟩ := List.append_of_mem hmem
  have hsegment : segment = String.ofList front ++ "/" ++ String.ofList back := by
    apply String.toList_inj.mp
    rw [hsplit, String.toList_append, String.toList_append]
    simp
  have hslash : utf8Bytes "/" = [47] := rfl
  apply h
  rw [hsegment, utf8Bytes_append, utf8Bytes_append, hslash]
  simp

/-- Paths whose names have no separator are told apart by their relative paths. -/
theorem relative_injective (h : repositoryRelativePath path = .ok relative)
    (h' : repositoryRelativePath path' = .ok relative) (hpath : ∀ name ∈ path, 47 ∉ name)
    (hpath' : ∀ name ∈ path', 47 ∉ name) : path = path' := by
  obtain ⟨segments, hne, rfl, rfl⟩ := repositoryRelativePath_eq_ok.mp h
  obtain ⟨segments', hne', rfl, heq⟩ := repositoryRelativePath_eq_ok.mp h'
  have hparts : ∀ segments : List String, segments ≠ [] →
      (∀ name ∈ segments.map utf8Bytes, 47 ∉ name) →
      (['/'].intercalate (segments.map String.toList)).splitOn '/' =
        segments.map String.toList := by
    intro segments hne hnames
    apply List.splitOn_intercalate
    · intro part hpart
      obtain ⟨segment, hsegment, rfl⟩ := List.mem_map.mp hpart
      exact slash_notMem_of_utf8Bytes (hnames _ (List.mem_map_of_mem hsegment))
    · rwa [Ne, List.map_eq_nil_iff]
  have hsplit := congrArg (fun s => s.splitOn '/') (String.ofList_injective heq)
  rw [hparts segments hne hpath, hparts segments' hne' hpath'] at hsplit
  rw [List.map_injective_iff.mpr (fun _ _ h => String.toList_inj.mp h) hsplit]

end Relative

/-! ### Inherited ignores -/

theorem not_ignoredDirectory_nil (matcher : OsPath → Matcher) : ¬IgnoredDirectory matcher [] := by
  rintro ⟨q, hne, hq, -⟩
  exact hne (List.prefix_nil.mp hq)

/-- A directory is ignored by itself, or inherits it. -/
theorem ignoredDirectory_iff {matcher : OsPath → Matcher} {path : OsPath} (hne : path ≠ []) :
    IgnoredDirectory matcher path ↔ Ignored matcher path true := by
  have hlast : path.dropLast ++ [path.getLast hne] = path := List.dropLast_append_getLast hne
  have hbelow : ∀ q, q <+: path ↔ q = path ∨ q <+: path.dropLast := by
    intro q
    rw [← hlast, List.prefix_concat_iff, List.dropLast_concat]
  constructor
  · rintro ⟨q, hq, hprefix, hignored⟩
    rcases (hbelow q).mp hprefix with rfl | hprefix
    · exact .inl hignored
    · exact .inr ⟨q, hq, hprefix, hignored⟩
  · rintro (hignored | ⟨q, hq, hprefix, hignored⟩)
    · exact ⟨path, hne, List.prefix_refl _, hignored⟩
    · exact ⟨q, hq, (hbelow q).mpr (.inr hprefix), hignored⟩

/-- What is inside an ignored directory is ignored. -/
theorem IgnoredDirectory.inside {matcher : OsPath → Matcher} {path rest : OsPath}
    (h : IgnoredDirectory matcher path) (hrest : rest ≠ []) (directory : Bool) :
    Ignored matcher (path ++ rest) directory := by
  obtain ⟨q, hq, hprefix, hignored⟩ := h
  refine .inr ⟨q, hq, hprefix.trans ?_, hignored⟩
  rw [List.dropLast_append_of_ne_nil hrest]
  exact List.prefix_append _ _

/-! ### The innermost matcher -/

/-- What the loop finds among the directories, with the matcher of each known. -/
def lastDecision (decide : OsPath → Matched) (ignored : Bool) (directories : List OsPath) : Bool :=
  directories.foldl (fun ignored d =>
    match decide d with
    | .none => ignored
    | .ignore => true
    | .whitelist => false) ignored

theorem lastDecision_append (decide : OsPath → Matched) (directories : List OsPath) (d : OsPath) :
    lastDecision decide false (directories ++ [d]) =
      match decide d with
      | .none => lastDecision decide false directories
      | .ignore => true
      | .whitelist => false := by
  rw [lastDecision, List.foldl_append]
  rfl

/-- The last directory that decides is the first one from the end. -/
theorem lastDecision_iff {decide : OsPath → Matched} {directories : List OsPath} :
    lastDecision decide false directories = true ↔
      ∃ d, directories.reverse.find? (decide · ≠ .none) = some d ∧ decide d = .ignore := by
  induction directories using List.reverseRecOn with
  | nil => simp [lastDecision]
  | append_singleton directories last ih =>
      rw [lastDecision_append, List.reverse_append, List.reverse_singleton, List.singleton_append,
        List.find?_cons]
      cases hlast : decide last with
      | none => simpa using ih
      | ignore => simp [hlast]
      | whitelist => simp [hlast]

/-- The ancestors of a path, from the innermost on. -/
theorem pairwise_inits (path : OsPath) :
    path.inits.reverse.Pairwise fun a b => b.length < a.length := by
  rw [List.pairwise_reverse]
  induction path with
  | nil => simp
  | cons name path ih =>
      rw [List.inits_cons, List.pairwise_cons, List.pairwise_map]
      refine ⟨fun q hq => ?_, ih.imp fun h => by simpa using h⟩
      obtain ⟨q, -, rfl⟩ := List.mem_map.mp hq
      simp

theorem lastDecision_inits (matcher : OsPath → Matcher) (path : OsPath) (directory : Bool) :
    lastDecision (matcher · path directory) false path.dropLast.inits = true ↔
      IgnoredByInnermost matcher path directory := by
  rw [lastDecision_iff, IgnoredByInnermost]
  refine exists_congr fun d => ?_
  rw [find?_pairwise (pairwise_inits _) (fun _ _ => Nat.lt_asymm)]
  simp only [List.mem_reverse, List.mem_inits, decide_eq_true_eq, decide_eq_false_iff_not, not_not]
  constructor
  · rintro ⟨⟨hmem, -, hnone⟩, hignore⟩
    exact ⟨hmem, hignore, hnone⟩
  · rintro ⟨hmem, hignore, hnone⟩
    exact ⟨⟨hmem, by simp [hignore], hnone⟩, hignore⟩

/-! ### The loaded matchers -/

namespace Rules

variable {load : OsPath → Except CliError Matcher} {rules rules' : Rules} {path : OsPath}
  {directory : Bool}

/-- The matchers that are kept are those of their directories. -/
def Consistent (load : OsPath → Except CliError Matcher) (rules : Rules) : Prop :=
  ∀ d m, rules.matchers[d]? = some m → load d = .ok m

theorem matcher_eq_ok {d : OsPath} {m : Matcher} (hrules : rules.Consistent load)
    (h : rules.matcher load d = .ok (m, rules')) :
    load d = .ok m ∧ rules'.Consistent load ∧
      rules' = { rules with matchers := rules'.matchers } := by
  unfold matcher at h
  split at h
  · next kept hkept =>
      cases h
      exact ⟨hrules d m hkept, hrules, rfl⟩
  · obtain ⟨loaded, hloaded, h⟩ := Except.bind_eq_ok.mp h
    cases h
    refine ⟨hloaded, ?_, rfl⟩
    intro d' m' hm'
    rcases BTreeMap.get_insert_eq_some_iff.mp hm' with ⟨rfl, rfl⟩ | ⟨-, hm'⟩
    · exact hloaded
    · exact hrules d' m' hm'

/-- The loop of `includes` finds the last decision, and only loads matchers. -/
theorem consults_eq_ok {directories : List OsPath} {ignored ignored' : Bool}
    (hrules : rules.Consistent load)
    (h : directories.foldlM (consult load path directory) (ignored, rules) =
      .ok (ignored', rules')) :
    ignored' = lastDecision (matcherAt load · path directory) ignored directories ∧
      rules'.Consistent load ∧ rules' = { rules with matchers := rules'.matchers } := by
  induction directories generalizing ignored rules with
  | nil =>
      cases h
      exact ⟨rfl, hrules, rfl⟩
  | cons d directories ih =>
      rw [List.foldlM_cons] at h
      obtain ⟨⟨next, loaded⟩, hstep, h⟩ := Except.bind_eq_ok.mp h
      obtain ⟨⟨m, loaded'⟩, hm, hstep⟩ := Except.bind_eq_ok.mp hstep
      obtain ⟨hload, hloaded, hframe⟩ := matcher_eq_ok hrules hm
      have hat : matcherAt load d path directory = m path directory := by
        rw [matcherAt, hload]
      have hnext : loaded = loaded' ∧ next = match matcherAt load d path directory with
          | .none => ignored
          | .ignore => true
          | .whitelist => false := by
        rw [hat]
        dsimp only at hstep
        split at hstep <;> cases hstep <;> exact ⟨rfl, rfl⟩
      obtain ⟨rfl, rfl⟩ := hnext
      obtain ⟨hlast, hconsistent, heq⟩ := ih hloaded h
      exact ⟨hlast, hconsistent, heq.trans (by rw [hframe])⟩

/-! ### The probe -/

/-- The first path from `probe` on begins with it where any tracked path does. -/
theorem probe_iff {tracked : BTreeSet String} {probe : String} :
    probes tracked probe = true ↔ ∃ path ∈ tracked, probe.toList <+: path.toList := by
  have hsorted : tracked.toList.Pairwise (· < ·) :=
    Std.ExtTreeSet.ordered_toList.imp fun h => compare_lt_iff_lt.mp h
  have hfind : ∀ path, (tracked.toList.find? fun path => (compare probe path).isLE) = some path ↔
      path ∈ tracked ∧ probe ≤ path ∧ ∀ other ∈ tracked, other < path → other < probe := by
    intro path
    rw [find?_pairwise hsorted fun _ _ => lt_asymm]
    simp only [Std.ExtTreeSet.mem_toList, ← Bool.not_eq_true, ← Ordering.ne_gt_iff_isLE,
      compare_le_iff_le, not_le]
  rw [probes, Option.any_eq_true]
  constructor
  · rintro ⟨path, hpath, hbegins⟩
    exact ⟨path, ((hfind path).mp hpath).1, List.isPrefixOf_iff_prefix.mp hbegins⟩
  · rintro ⟨path, hpath, hbegins⟩
    obtain ⟨rest, hrest⟩ := hbegins
    have hle : probe ≤ path := by
      rw [← not_lt, String.lt_iff_toList_lt, ← hrest]
      exact List.le_append_left
    cases hfirst : tracked.toList.find? fun path => (compare probe path).isLE with
    | none =>
        have hnone := List.find?_eq_none.mp hfirst path (Std.ExtTreeSet.mem_toList.mpr hpath)
        exact absurd (Ordering.ne_gt_iff_isLE.mp (compare_le_iff_le.mpr hle)) hnone
    | some first =>
        obtain ⟨-, hprobe, hbelow⟩ := (hfind first).mp hfirst
        have hfirstLe : first ≤ path :=
          not_lt.mp fun hlt => absurd hle (not_le.mpr (hbelow path hpath hlt))
        refine ⟨first, rfl, List.isPrefixOf_iff_prefix.mpr ?_⟩
        rw [← not_lt, String.lt_iff_toList_lt] at hprobe hfirstLe
        rw [← hrest] at hfirstLe
        exact prefix_of_not_lt hprobe hfirstLe

/-! ### Includes -/

/-- A path is let through when it is not ignored, when it is a tracked file, and
when it is a directory with a tracked path inside; a directory that is ignored is
kept. -/
theorem includes_eq_ok {answer : Bool} (hrules : rules.Consistent load)
    (h : rules.includes load path directory = .ok (answer, rules')) :
    ∃ relative, repositoryRelativePath path = .ok relative ∧ rules'.Consistent load ∧
      rules'.tracked = rules.tracked ∧
      (∀ q, q ∈ rules'.ignoredDirectories ↔ q ∈ rules.ignoredDirectories ∨ q = path ∧
        directory = true ∧ (IgnoredByInnermost (matcherAt load) path directory ∨
          path.dropLast ∈ rules.ignoredDirectories)) ∧
      (answer = true ↔ ¬(IgnoredByInnermost (matcherAt load) path directory ∨
          path.dropLast ∈ rules.ignoredDirectories) ∨
        if directory then ∃ t ∈ rules.tracked, (relative ++ "/").toList <+: t.toList
        else relative ∈ rules.tracked) := by
  obtain ⟨relative, hrelative, h⟩ := Except.bind_eq_ok.mp h
  obtain ⟨⟨ignored, loaded⟩, hloop, h⟩ := Except.bind_eq_ok.mp h
  obtain ⟨hlast, hconsistent, hframe⟩ := consults_eq_ok hrules hloop
  refine ⟨relative, hrelative, ?_⟩
  have htracked : loaded.tracked = rules.tracked := by rw [hframe]
  have hmemo : loaded.ignoredDirectories = rules.ignoredDirectories := by rw [hframe]
  have hignored : (ignored || rules.ignoredDirectories.contains path.dropLast) = true ↔
      IgnoredByInnermost (matcherAt load) path directory ∨
        path.dropLast ∈ rules.ignoredDirectories := by
    rw [Bool.or_eq_true, hlast, lastDecision_inits, Std.ExtTreeSet.contains_iff_mem]
  rw [← hignored]
  dsimp only at h
  generalize (ignored || rules.ignoredDirectories.contains path.dropLast) = verdict at h ⊢
  cases verdict <;> cases directory <;> cases h
  · exact ⟨hconsistent, htracked, by simp [hmemo], by simp⟩
  · exact ⟨hconsistent, htracked, by simp [hmemo], by simp⟩
  · refine ⟨hconsistent, htracked, by simp [hmemo], ?_⟩
    simp [htracked]
  · refine ⟨hconsistent, htracked, fun q => ?_, by simp [htracked, probe_iff]⟩
    rw [if_pos (by rfl), BTreeSet.mem_insert_iff, hmemo]
    simp [or_comm, eq_comm]

end Rules

end RGit.Cli
