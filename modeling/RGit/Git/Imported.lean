/-
RGit/Git/Imported.lean

An import is faithful to the history it imports.

Three kinds of snapshots end up in one map: those that carried a commit
before, native ones that a commit was written from, and new ones.  The loop
keeps the map and the snapshots in step (`Mapping.step`); what the commits
and the snapshots have to do with each other is then read off the check that
the import ends with.
-/
import RGit.Canonical.RoundTrip
import RGit.Git.Import
import RGit.Merge.Access
import RGit.Merge.Effects

namespace RGit.Cli

/-! ### One commit -/

section Commits

variable {host : Host} {env : Env} {source : GitSource} {format tip into : String}
  {policy : AccessPolicy}

theorem importBlob_onlyBlobs {repo repo' : Repo} {blobs blobs' : BlobCache} {oid : String}
    {blob : ImportedBlob}
    (h : importBlob host source format repo blobs oid = .ok (blob, repo', blobs')) :
    OnlyBlobs repo repo' := by
  rw [importBlob] at h
  split at h
  · cases h
    exact .refl repo
  · obtain ⟨bytes, -, h⟩ := Except.bind_eq_ok.mp h
    obtain ⟨id, -, h⟩ := Except.bind_eq_ok.mp h
    obtain ⟨-, h⟩ := Except.ite_error_eq_ok.mp h
    obtain ⟨stored, hstored, h⟩ := Except.bind_eq_ok.mp h
    cases h
    exact (storeBlob_onlyBlobs hstored).1

theorem importFiles_onlyBlobs {repo repo' : Repo} {blobs blobs' : BlobCache} {commit : String}
    {files : List FileEntry}
    (h : importFiles host source format policy repo blobs commit = .ok (files, repo', blobs')) :
    OnlyBlobs repo repo' := by
  obtain ⟨listing, -, h⟩ := Except.bind_eq_ok.mp h
  obtain ⟨⟨scanned, r, cache⟩, hloop, h⟩ := Except.bind_eq_ok.mp h
  cases h
  refine foldlM_preserves (P := fun state : List FileEntry × Repo × BlobCache =>
    OnlyBlobs repo state.2.1) ?_ (.refl repo) hloop
  rintro record - state state' hstate hstep
  obtain ⟨⟨mode, oid, path⟩, -, hstep⟩ := Except.bind_eq_ok.mp hstep
  obtain ⟨-, hstep⟩ := Except.bind_unit_eq_ok.mp hstep
  obtain ⟨id, -, hstep⟩ := Except.bind_eq_ok.mp hstep
  obtain ⟨⟨blob, r', cache'⟩, hblob, hstep⟩ := Except.bind_eq_ok.mp hstep
  obtain ⟨-, hstep⟩ := Except.ite_error_eq_ok.mp hstep
  cases hstep
  exact hstate.trans (importBlob_onlyBlobs hblob)

theorem reconciled_eq_some {repo : Repo} {parsed : ParsedCommit} {parentIds : List String}
    {candidate : Snapshot}
    (h : reconciled host format repo parsed parentIds = .ok (some candidate)) :
    repo.snapshots[candidate.id]? = some candidate ∧ candidate.git = none := by
  rw [reconciled] at h
  split at h
  · cases h
  · next found hfound =>
      split at h
      · next hsame =>
          obtain ⟨⟨tree, objects⟩, -, h⟩ := Except.bind_eq_ok.mp h
          have hpick := Except.ok.inj h
          split at hpick
          · obtain rfl := Option.some.inj hpick
            obtain ⟨id, -, hread⟩ := Option.bind_eq_some_iff.mp hfound
            have hok : readSnapshot repo id = .ok found := by
              cases hresult : readSnapshot repo id with
              | error e =>
                  rw [hresult] at hread
                  cases hread
              | ok value =>
                  rw [hresult] at hread
                  rw [Option.some.inj hread]
            obtain ⟨-, hget, rfl⟩ := readSnapshot_eq_ok.mp hok
            simp only [Bool.and_eq_true, Option.isNone_iff_eq_none] at hsame
            exact ⟨hget, hsame.1.1.1.1⟩
          · cases hpick
      · cases h

/-- What one pass does to the snapshots and to the map. -/
inductive Visit (env : Env) (source : GitSource) (host : Host) (format : String)
    (state state' : ImportState) (oid : String) : Prop
  /-- The commit is carried already. -/
  | known (id : String) (hmapped : state.mapped[oid]? = some id) (hrepo : state'.repo = state.repo)
      (hsame : state'.mapped = state.mapped) (hcount : state'.imported = state.imported)
  /-- A snapshot gets the commit: a native one that had none, or a new one. -/
  | carried (raw : Bytes) (parsed : ParsedCommit) (snapshot : Snapshot)
      (hmapped : state.mapped[oid]? = none)
      (hraw : source.catFile oid "commit" = some raw)
      (hparsed : (CommitMetadata.mk oid format raw).parse host = .ok parsed)
      (hgit : snapshot.git = some ⟨oid, format, raw⟩)
      (hmap : state'.mapped = state.mapped.insert oid snapshot.id)
      (hsnapshots : state'.repo.snapshots = state.repo.snapshots.insert snapshot.id snapshot)
      (horigin : (∃ native, state.repo.snapshots[snapshot.id]? = some native ∧
          native.git = none ∧ state'.imported = state.imported) ∨
        (snapshot.id = s!"snap_{env.newIdSuffix (2 * state.imported + 1)}" ∧
          state'.imported = state.imported + 1))

theorem importCommit_visit {state state' : ImportState} {oid : String}
    (h : importCommit host env source format tip into policy state oid = .ok state') :
    Visit env source host format state state' oid := by
  obtain ⟨_, -, h⟩ := Except.bind_eq_ok.mp h
  split at h
  · next id hmapped =>
      rw [knownCommit] at h
      split at h
      · obtain ⟨snapshot, -, h⟩ := Except.bind_eq_ok.mp h
        obtain rfl := Except.ok.inj h
        exact .known id hmapped rfl rfl rfl
      · obtain rfl := Except.ok.inj h
        exact .known id hmapped rfl rfl rfl
  · next hmapped =>
      obtain ⟨raw, hread, h⟩ := Except.bind_eq_ok.mp h
      obtain ⟨parsed, hparsed, h⟩ := Except.bind_eq_ok.mp h
      obtain ⟨parentIds, -, h⟩ := Except.bind_eq_ok.mp h
      obtain ⟨candidate, hcandidate, h⟩ := Except.bind_eq_ok.mp h
      rw [GitSource.read, Except.ite_error_eq_ok, Except.ofOption_eq_ok] at hread
      cases candidate with
      | some candidate =>
          obtain ⟨hget, hnone⟩ := reconciled_eq_some hcandidate
          obtain ⟨repo, hrepo, h⟩ := Except.bind_eq_ok.mp h
          obtain ⟨-, rfl⟩ := writeSnapshot_eq_ok.mp hrepo
          obtain rfl := Except.ok.inj h
          exact .carried raw parsed { candidate with git := some ⟨oid, format, raw⟩ } hmapped
            hread.2 hparsed rfl rfl rfl (.inl ⟨candidate, hget, hnone, rfl⟩)
      | none =>
          obtain ⟨⟨files, r, blobs⟩, hfiles, h⟩ := Except.bind_eq_ok.mp h
          obtain ⟨⟨tree, objects⟩, -, h⟩ := Except.bind_eq_ok.mp h
          obtain ⟨-, h⟩ := Except.ite_error_eq_ok.mp h
          obtain ⟨createdAt, -, h⟩ := Except.bind_eq_ok.mp h
          obtain ⟨r₁, hr₁, h⟩ := Except.bind_eq_ok.mp h
          obtain ⟨-, rfl⟩ := writeChange_eq_ok.mp hr₁
          obtain ⟨r₂, hr₂, h⟩ := Except.bind_eq_ok.mp h
          obtain ⟨-, rfl⟩ := writeSnapshot_eq_ok.mp hr₂
          obtain rfl := Except.ok.inj h
          have hsame : r.snapshots = state.repo.snapshots := by
            rw [(importFiles_onlyBlobs hfiles).same]
          exact .carried raw parsed (importedSnapshot host env policy ⟨oid, format, raw⟩ parsed
            parentIds files state.imported createdAt) hmapped hread.2 hparsed rfl rfl
            (by rw [← hsame]) (.inr ⟨rfl, rfl⟩)

end Commits

/-! ### The loop -/

/-- A snapshot carries a commit. -/
def Carries (repo : Repo) (format oid id : String) : Prop :=
  ∃ snapshot metadata, repo.snapshots[id]? = some snapshot ∧ snapshot.git = some metadata ∧
    metadata.objectId = oid ∧ metadata.objectFormat = format

/-- The first snapshot identifiers that a command draws are new, and differ. -/
structure FreshSnapshots (env : Env) (repo : Repo) (count : Nat) : Prop where
  absent : ∀ i < count, repo.snapshots[s!"snap_{env.newIdSuffix i}"]? = none
  distinct : ∀ i < count, ∀ j < count, env.newIdSuffix i = env.newIdSuffix j → i = j

section Loop

variable (env : Env) (source : GitSource) (format : String) (repo : Repo)

/-- The map and the snapshots are in step, and every commit that was bound since
the start has the bytes that Git has. -/
structure Mapping (state : ImportState) : Prop where
  sound : ∀ oid id, state.mapped[oid]? = some id → Carries state.repo format oid id
  complete : ∀ oid id, Carries state.repo format oid id → state.mapped[oid]? = some id
  kept : ∀ (k : String) (s : Snapshot), repo.snapshots[k]? = some s →
    state.repo.snapshots[k]? = some s ∨ s.git = none
  origin : ∀ (k : String) (s : Snapshot), state.repo.snapshots[k]? = some s →
    repo.snapshots[k]?.isSome ∨
      ∃ i < state.imported, k = s!"snap_{env.newIdSuffix (2 * i + 1)}"
  bytes : ∀ (k : String) (s : Snapshot) (m : CommitMetadata), state.repo.snapshots[k]? = some s →
    s.git = some m → repo.snapshots[k]? = some s ∨
      source.catFile m.objectId "commit" = some m.rawCommit

variable {env source format repo} {host : Host} {state state' : ImportState} {oid : String}
  {count : Nat}

/-- The snapshots with one that gets a commit that none carried. -/
theorem carries_insert {r r' : Repo} {snapshot : Snapshot} {raw : Bytes} {id oid' : String}
    (hgit : snapshot.git = some ⟨oid, format, raw⟩)
    (hbefore : ∀ old, r.snapshots[snapshot.id]? = some old → old.git = none)
    (hsnapshots : r'.snapshots = r.snapshots.insert snapshot.id snapshot) :
    Carries r' format oid' id ↔
      (oid' = oid ∧ id = snapshot.id) ∨ Carries r format oid' id := by
  simp only [Carries, hsnapshots, BTreeMap.get_insert_eq_some_iff]
  constructor
  · rintro ⟨s, m, ⟨rfl, rfl⟩ | ⟨-, hget⟩, hm, hoid, hformat⟩
    · rw [hgit] at hm
      obtain rfl := Option.some.inj hm
      exact .inl ⟨hoid.symm, rfl⟩
    · exact .inr ⟨s, m, hget, hm, hoid, hformat⟩
  · rintro (⟨rfl, rfl⟩ | ⟨s, m, hget, hm, hoid, hformat⟩)
    · exact ⟨snapshot, _, .inl ⟨rfl, rfl⟩, hgit, rfl, rfl⟩
    · refine ⟨s, m, .inr ⟨?_, hget⟩, hm, hoid, hformat⟩
      rintro rfl
      rw [hbefore s hget] at hm
      cases hm

theorem idSuffix_ne {kind a b : String} (h : a ≠ b) : s!"{kind}{a}" ≠ s!"{kind}{b}" := by
  intro heq
  have happend : kind ++ a = kind ++ b := heq
  refine h (String.toList_inj.mp ?_)
  have hlist := congrArg String.toList happend
  rwa [String.toList_append, String.toList_append, List.append_cancel_left_eq] at hlist

/-- A new identifier is not in use. -/
theorem Mapping.fresh (hfresh : FreshSnapshots env repo count)
    (hroom : 2 * state.imported + 1 < count) (h : Mapping env source format repo state) :
    state.repo.snapshots[s!"snap_{env.newIdSuffix (2 * state.imported + 1)}"]? = none := by
  cases hget : state.repo.snapshots[s!"snap_{env.newIdSuffix (2 * state.imported + 1)}"]? with
  | none => rfl
  | some s =>
      rcases h.origin _ s hget with hold | ⟨i, hi, heq⟩
      · rw [hfresh.absent _ hroom] at hold
        cases hold
      · have hsuffix : env.newIdSuffix (2 * state.imported + 1) = env.newIdSuffix (2 * i + 1) := by
          by_contra hne
          exact idSuffix_ne hne heq
        have hindex := hfresh.distinct _ hroom _ (by omega) hsuffix
        omega

/-- **One pass keeps the map and the snapshots in step.** -/
theorem Mapping.step (hfresh : FreshSnapshots env repo count)
    (hroom : 2 * state.imported + 1 < count) (h : Mapping env source format repo state)
    (hvisit : Visit env source host format state state' oid) :
    Mapping env source format repo state' := by
  cases hvisit with
  | known id hmapped hrepo hsame hcount =>
      obtain ⟨hsound, hcomplete, hkept, horigin, hbytes⟩ := h
      rw [← hrepo] at hsound hcomplete hkept horigin hbytes
      rw [← hsame] at hsound hcomplete
      rw [← hcount] at horigin
      exact ⟨hsound, hcomplete, hkept, horigin, hbytes⟩
  | carried raw parsed snapshot hmapped hraw hparsed hgit hmap hsnapshots horigin =>
      have hbefore : ∀ old, state.repo.snapshots[snapshot.id]? = some old → old.git = none := by
        intro old hold
        rcases horigin with ⟨native, hnative, hnone, -⟩ | ⟨hid, -⟩
        · obtain rfl := Option.some.inj (hold.symm.trans hnative)
          exact hnone
        · rw [hid, h.fresh hfresh hroom] at hold
          cases hold
      have hcarries : ∀ {oid' id : String}, Carries state'.repo format oid' id ↔
          (oid' = oid ∧ id = snapshot.id) ∨ Carries state.repo format oid' id :=
        carries_insert hgit hbefore hsnapshots
      have hcount : state.imported ≤ state'.imported := by
        rcases horigin with ⟨_, _, _, hcount⟩ | ⟨_, hcount⟩ <;> omega
      refine ⟨?_, ?_, ?_, ?_, ?_⟩
      · intro oid' id hget
        rw [hmap, BTreeMap.get_insert_eq_some_iff] at hget
        refine hcarries.mpr ?_
        rcases hget with ⟨rfl, rfl⟩ | ⟨-, hget⟩
        · exact .inl ⟨rfl, rfl⟩
        · exact .inr (h.sound oid' id hget)
      · intro oid' id hid
        rw [hmap, BTreeMap.get_insert_eq_some_iff]
        rcases hcarries.mp hid with ⟨rfl, rfl⟩ | hid
        · exact .inl ⟨rfl, rfl⟩
        · have hget := h.complete oid' id hid
          refine .inr ⟨?_, hget⟩
          rintro rfl
          rw [hmapped] at hget
          cases hget
      · intro k s hget
        rcases h.kept k s hget with hold | hnone
        · by_cases hk : snapshot.id = k
          · subst hk
            exact .inr (hbefore s hold)
          · rw [hsnapshots, BTreeMap.get_insert_of_ne _ _ hk]
            exact .inl hold
        · exact .inr hnone
      · intro k s hget
        rw [hsnapshots, BTreeMap.get_insert_eq_some_iff] at hget
        rcases hget with ⟨rfl, rfl⟩ | ⟨-, hget⟩
        · rcases horigin with ⟨native, hnative, -, -⟩ | ⟨hid, hnew⟩
          · rcases h.origin _ native hnative with hold | ⟨i, hi, heq⟩
            · exact .inl hold
            · exact .inr ⟨i, by omega, heq⟩
          · exact .inr ⟨state.imported, by omega, hid⟩
        · rcases h.origin k s hget with hold | ⟨i, hi, heq⟩
          · exact .inl hold
          · exact .inr ⟨i, by omega, heq⟩
      · intro k s m hget hm
        rw [hsnapshots, BTreeMap.get_insert_eq_some_iff] at hget
        rcases hget with ⟨rfl, rfl⟩ | ⟨-, hget⟩
        · rw [hgit] at hm
          obtain rfl := Option.some.inj hm
          exact .inr hraw
        · exact h.bytes k s m hget hm

/-- The loop over the snapshots collects the commits that they carry. -/
theorem mapSnapshot_loop {l : List Snapshot} {m m' : BTreeMap String String}
    (h : l.foldlM (mapSnapshot format) m = .ok m') {id : String} :
    m'[oid]? = some id ↔ m[oid]? = some id ∨ ∃ s ∈ l, ∃ metadata, s.git = some metadata ∧
      metadata.objectId = oid ∧ metadata.objectFormat = format ∧ s.id = id := by
  induction l generalizing m with
  | nil =>
      obtain rfl := Except.ok.inj h
      simp
  | cons s l ih =>
      rw [List.foldlM_cons] at h
      obtain ⟨m₁, hstep, h⟩ := Except.bind_eq_ok.mp h
      rw [ih h, mapSnapshot] at *
      simp only [List.mem_cons, exists_eq_or_imp]
      split at hstep
      · next hnone =>
          obtain rfl := Except.ok.inj hstep
          simp [hnone]
      · next metadata hgit =>
          split at hstep
          · next hformat =>
              obtain rfl := Except.ok.inj hstep
              have hskip : ¬∃ metadata, s.git = some metadata ∧ metadata.objectId = oid ∧
                  metadata.objectFormat = format ∧ s.id = id := by
                rintro ⟨other, hother, -, hsame, -⟩
                obtain rfl := Option.some.inj (hgit.symm.trans hother)
                exact hformat hsame
              rw [or_iff_right hskip]
          · next hformat =>
              obtain ⟨hnew, hstep⟩ := Except.ite_error_eq_ok.mp hstep
              obtain rfl := Except.ok.inj hstep
              rw [not_not] at hformat
              have hhere : (∃ metadata, s.git = some metadata ∧ metadata.objectId = oid ∧
                  metadata.objectFormat = format ∧ s.id = id) ↔
                  metadata.objectId = oid ∧ s.id = id := by
                simp [hgit, hformat]
              have hgets : (m.insert metadata.objectId s.id)[oid]? = some id ↔
                  (metadata.objectId = oid ∧ s.id = id) ∨ m[oid]? = some id := by
                rw [BTreeMap.get_insert_eq_some_iff]
                refine or_congr_right ⟨fun hget => hget.2, fun hget => ⟨?_, hget⟩⟩
                rintro rfl
                exact hnew (BTreeMap.contains_iff_get.mpr ⟨id, hget⟩)
              rw [hhere, hgets, or_assoc, or_left_comm]

/-- The map that the loop starts with. -/
theorem Mapping.start {mapped : BTreeMap String String}
    (hkeyed : ∀ (k : String) (s : Snapshot), repo.snapshots[k]? = some s → s.id = k)
    (h : mappedSnapshots repo format = .ok mapped) :
    Mapping env source format repo ⟨repo, mapped, ∅, 0, none⟩ := by
  have hmapped : ∀ oid id, mapped[oid]? = some id ↔ Carries repo format oid id := by
    intro oid id
    rw [mapSnapshot_loop h]
    constructor
    · rintro (hget | ⟨s, hs, metadata, hgit, hoid, hformat, rfl⟩)
      · simp at hget
      · obtain ⟨k, hget⟩ := BTreeMap.mem_values_iff.mp hs
        exact ⟨s, metadata, hkeyed k s hget ▸ hget, hgit, hoid, hformat⟩
    · rintro ⟨s, metadata, hget, hgit, hoid, hformat⟩
      exact .inr ⟨s, BTreeMap.mem_values_iff.mpr ⟨id, hget⟩, metadata, hgit, hoid, hformat,
        hkeyed id s hget⟩
  exact ⟨fun oid id => (hmapped oid id).mp, fun oid id => (hmapped oid id).mpr,
    fun k s hget => .inl hget, fun k s hget => .inl (by rw [hget]; rfl),
    fun k s m hget _ => .inl hget⟩

end Loop

section Runs

variable {host : Host} {env : Env} {source : GitSource} {format tip into : String}
  {policy : AccessPolicy} {repo : Repo} {revisions : List String} {state state' : ImportState}

/-- A pass draws the identifiers of at most one commit. -/
theorem Visit.imported_le {oid : String} (h : Visit env source host format state state' oid) :
    state'.imported ≤ state.imported + 1 := by
  cases h with
  | known id _ _ _ hcount => omega
  | carried raw parsed snapshot _ _ _ _ _ _ horigin =>
      rcases horigin with ⟨_, _, _, hcount⟩ | ⟨_, hcount⟩ <;> omega

theorem Mapping.run {count : Nat} (hfresh : FreshSnapshots env repo count)
    (hroom : 2 * (state.imported + revisions.length) ≤ count)
    (h : Mapping env source format repo state)
    (hloop : revisions.foldlM (importCommit host env source format tip into policy) state =
      .ok state') : Mapping env source format repo state' := by
  induction revisions generalizing state with
  | nil =>
      obtain rfl := Except.ok.inj hloop
      exact h
  | cons oid rest ih =>
      rw [List.foldlM_cons] at hloop
      obtain ⟨next, hstep, hloop⟩ := Except.bind_eq_ok.mp hloop
      rw [List.length_cons] at hroom
      have hvisit := importCommit_visit hstep
      have hcount := hvisit.imported_le
      exact ih (by omega) (h.step hfresh (by omega) hvisit) hloop

/-- Every commit of the list is carried at the end. -/
theorem mapped_of_mem
    (hloop : revisions.foldlM (importCommit host env source format tip into policy) state =
      .ok state') : ∀ oid ∈ revisions, ∃ id, state'.mapped[oid]? = some id := by
  refine foldlM_establishes (Q := fun oid st => ∃ id, st.mapped[oid]? = some id) ?_ ?_ hloop
  · intro st oid st' hstep
    cases importCommit_visit hstep with
    | known id hmapped _ hsame _ =>
        rw [hsame]
        exact ⟨id, hmapped⟩
    | carried raw parsed snapshot _ _ _ _ hmap _ _ =>
        rw [hmap]
        exact ⟨snapshot.id, BTreeMap.get_insert_self _ _ _⟩
  · rintro oid other st st' ⟨id, hget⟩ hstep
    cases importCommit_visit hstep with
    | known _ _ _ hsame _ =>
        rw [hsame]
        exact ⟨id, hget⟩
    | carried raw parsed snapshot _ _ _ _ hmap _ _ =>
        rw [hmap]
        by_cases heq : other = oid
        · subst heq
          exact ⟨snapshot.id, BTreeMap.get_insert_self _ _ _⟩
        · exact ⟨id, by rw [BTreeMap.get_insert_of_ne _ _ heq]; exact hget⟩

end Runs

/-! ### What the command did -/

section Command

variable {host : Host} {env : Env} {repo repo' : Repo} {source : GitSource}
  {revision into tip format actorName : String} {policy : AccessPolicy} {allowUpdate : Bool}
  {revisions : List String} {imported : Nat}

/-- The end of an import: the line is moved, and the repository is verified. -/
theorem publishImport_eq_ok {line : Line} {state : ImportState}
    (h : publishImport host line into tip actorName policy state = .ok (imported, repo')) :
    ∃ head, state.mapped[tip]? = some head ∧ imported = state.imported ∧
      repo'.snapshots = state.repo.snapshots ∧
      repo'.lines = state.repo.lines.insert (fileName into)
        { line with headSnapshot := some head, policy := policy } ∧
      Verified host repo' := by
  obtain ⟨head, hhead, h⟩ := Except.bind_eq_ok.mp h
  obtain ⟨changeId, -, h⟩ := Except.bind_eq_ok.mp h
  obtain ⟨adopted, hadopted, h⟩ := Except.bind_eq_ok.mp h
  obtain ⟨hverify, h⟩ := Except.bind_unit_eq_ok.mp h
  obtain ⟨rfl, rfl⟩ := Prod.mk.inj (Except.ok.inj h)
  obtain ⟨workspace, -, hadopted⟩ := Except.bind_eq_ok.mp hadopted
  obtain rfl := Except.ok.inj hadopted
  refine ⟨head, Except.ofOption_eq_ok.mp hhead, rfl, ?_, ?_, (verify_eq_ok.mp hverify).2⟩
  all_goals
    rw [recordOperation]
    split
    · rw [writeWorkspace]
      split <;> rfl
    · rfl

/-- The parts of a successful import, for what Git answered. -/
theorem importHistory_eq_ok (hformat : source.objectFormat = some format)
    (htip : source.revParse revision = some tip) (hlist : source.revList tip = some revisions)
    (h : importHistory host env repo source revision into actorName policy allowUpdate =
      .ok (imported, repo')) :
    ∃ line mapped state, Verified host repo ∧ importLine env repo into policy = .ok line ∧
      checkFastForward repo line format revisions = .ok () ∧
      mappedSnapshots repo format = .ok mapped ∧
      revisions.foldlM (importCommit host env source format tip into policy)
        ⟨repo, mapped, ∅, 0, none⟩ = .ok state ∧
      publishImport host line into tip actorName policy state = .ok (imported, repo') := by
  obtain ⟨⟨format', tip', line, revisions'⟩, hrequest, h⟩ := Except.bind_eq_ok.mp h
  obtain ⟨hverify, hrequest⟩ := Except.bind_unit_eq_ok.mp hrequest
  obtain ⟨-, hrequest⟩ := Except.bind_unit_eq_ok.mp hrequest
  obtain ⟨-, hrequest⟩ := Except.ite_error_eq_ok.mp hrequest
  obtain ⟨f, hf, hrequest⟩ := Except.bind_eq_ok.mp hrequest
  obtain ⟨length, -, hrequest⟩ := Except.bind_eq_ok.mp hrequest
  obtain ⟨t, ht, hrequest⟩ := Except.bind_eq_ok.mp hrequest
  obtain ⟨id, -, hrequest⟩ := Except.bind_eq_ok.mp hrequest
  obtain ⟨l, hline, hrequest⟩ := Except.bind_eq_ok.mp hrequest
  obtain ⟨-, hrequest⟩ := Except.ite_error_eq_ok.mp hrequest
  obtain ⟨r, hr, hrequest⟩ := Except.bind_eq_ok.mp hrequest
  obtain ⟨hforward, hrequest⟩ := Except.bind_unit_eq_ok.mp hrequest
  rw [Except.ofOption_eq_ok] at hf ht hr
  obtain rfl := Option.some.inj (hformat.symm.trans hf)
  obtain rfl := Option.some.inj (htip.symm.trans ht)
  obtain rfl := Option.some.inj (hlist.symm.trans hr)
  simp only [Except.pure_eq_ok, Except.ok.injEq, Prod.mk.injEq] at hrequest
  obtain ⟨rfl, rfl, rfl, rfl⟩ := hrequest
  obtain ⟨mapped, hmapped, h⟩ := Except.bind_eq_ok.mp h
  obtain ⟨state, hloop, h⟩ := Except.bind_eq_ok.mp h
  exact ⟨l, mapped, state, (verify_eq_ok.mp hverify).2, hline, hforward, hmapped, hloop, h⟩

theorem Verified.keyed (h : Verified host repo) (k : String) (s : Snapshot)
    (hget : repo.snapshots[k]? = some s) : s.id = k := by
  have hidentity := (Except.bind_unit_eq_ok.mp (h.snapshots k s hget)).1
  have hsame := (Except.bind_unit_eq_ok.mp hidentity).2
  exact (not_not.mp (Except.ite_error_eq_ok.mp hsame).1).symm

end Command

/-! ### Formats -/

/-- The hashes print the digits that the object formats ask for. -/
structure HexDigests (host : Host) : Prop where
  sha1 : ∀ bytes, (utf8Bytes (host.sha1 bytes)).length = 40
  sha256 : ∀ bytes, (utf8Bytes (host.hashBytes bytes)).length = 64

section Formats

variable {host : Host} {format : String}

theorem idLength_eq_ok {n : Nat} (h : idLength format = .ok n) :
    (format = "sha1" ∧ n = 40) ∨ (format = "sha256" ∧ n = 64) := by
  unfold idLength at h
  split at h
  · exact .inl ⟨rfl, (Except.ok.inj h).symm⟩
  · exact .inr ⟨rfl, (Except.ok.inj h).symm⟩
  · cases h

/-- The digits of an identifier tell its format. -/
theorem idLength_inj {format' : String} {n : Nat} (h : idLength format = .ok n)
    (h' : idLength format' = .ok n) : format = format' := by
  rcases idLength_eq_ok h with ⟨rfl, rfl⟩ | ⟨rfl, rfl⟩
  · rcases idLength_eq_ok h' with ⟨rfl, -⟩ | ⟨-, hn⟩
    · rfl
    · cases hn
  · rcases idLength_eq_ok h' with ⟨-, hn⟩ | ⟨rfl, -⟩
    · cases hn
    · rfl

theorem objectId_length (hdigests : HexDigests host) {kind id : String} {bytes : Bytes}
    (h : objectId host kind bytes format = .ok id) :
    idLength format = .ok (utf8Bytes id).length := by
  unfold objectId at h
  split at h
  · obtain rfl := Except.ok.inj h
    rw [hdigests.sha1, idLength]
  · obtain rfl := Except.ok.inj h
    rw [hdigests.sha256, idLength]
  · cases h

theorem parseId_length {bytes : Bytes} {id : String} (h : parseId bytes format = .ok id) :
    idLength format = .ok (utf8Bytes id).length := by
  obtain ⟨length, hlength, h⟩ := Except.bind_eq_ok.mp h
  obtain ⟨hbytes, h⟩ := Except.ite_error_eq_ok.mp h
  rw [Except.ofOption_eq_ok] at h
  rw [utf8Bytes_of_fromUtf8 h, hlength]
  rw [not_or, not_not] at hbytes
  rw [hbytes.1]

theorem onHeader_eq_ok {key : String} {line : Bytes} {found found' : Headers}
    {f : Bytes → Except CliError Headers} (h : onHeader key line found f = .ok found') :
    found' = found ∨ ∃ value, f value = .ok found' := by
  rw [onHeader] at h
  split at h
  · next value _ => exact .inr ⟨value, h⟩
  · exact .inl (Except.ok.inj h).symm

/-- The parents that a header line leaves are those before it, and at most one
more of the format. -/
theorem headerLine_parents {found found' : Headers} {line : Bytes}
    (h : headerLine format found line = .ok found')
    (hfound : ∀ id ∈ found.parents, idLength format = .ok (utf8Bytes id).length) :
    ∀ id ∈ found'.parents, idLength format = .ok (utf8Bytes id).length := by
  obtain ⟨f₁, h₁, h⟩ := Except.bind_eq_ok.mp h
  obtain ⟨f₂, h₂, h⟩ := Except.bind_eq_ok.mp h
  obtain ⟨f₃, h₃, h⟩ := Except.bind_eq_ok.mp h
  obtain ⟨f₄, h₄, h⟩ := Except.bind_eq_ok.mp h
  have hsame₁ : f₁.parents = found.parents := by
    rcases onHeader_eq_ok h₁ with rfl | ⟨value, h₁⟩
    · rfl
    · obtain ⟨identity, -, h₁⟩ := Except.bind_eq_ok.mp h₁
      obtain ⟨-, h₁⟩ := Except.ite_error_eq_ok.mp h₁
      obtain rfl := Except.ok.inj h₁
      rfl
  have hsame₂ : f₂.parents = f₁.parents := by
    rcases onHeader_eq_ok h₂ with rfl | ⟨value, h₂⟩
    · rfl
    · obtain ⟨-, h₂⟩ := Except.ite_error_eq_ok.mp h₂
      obtain ⟨tree, -, h₂⟩ := Except.bind_eq_ok.mp h₂
      obtain rfl := Except.ok.inj h₂
      rfl
  have hsame₃ : f₃.parents = f₂.parents := by
    rcases onHeader_eq_ok h₃ with rfl | ⟨value, h₃⟩
    · rfl
    · obtain ⟨id, -, h₃⟩ := Except.bind_eq_ok.mp h₃
      obtain ⟨-, h₃⟩ := Except.bind_unit_eq_ok.mp h₃
      obtain ⟨-, h₃⟩ := Except.ite_error_eq_ok.mp h₃
      obtain rfl := Except.ok.inj h₃
      rfl
  have hsame₅ : found'.parents = f₄.parents := by
    rcases onHeader_eq_ok h with rfl | ⟨value, h⟩
    · rfl
    · obtain ⟨part, -, h⟩ := Except.bind_eq_ok.mp h
      obtain ⟨text, -, h⟩ := Except.bind_eq_ok.mp h
      obtain ⟨stamp, -, h⟩ := Except.bind_eq_ok.mp h
      obtain rfl := Except.ok.inj h
      rfl
  rw [hsame₅]
  rcases onHeader_eq_ok h₄ with rfl | ⟨value, h₄⟩
  · rwa [hsame₃, hsame₂, hsame₁]
  · obtain ⟨parent, hparent, h₄⟩ := Except.bind_eq_ok.mp h₄
    obtain rfl := Except.ok.inj h₄
    intro id hid
    rw [List.mem_append, List.mem_singleton, hsame₃, hsame₂, hsame₁] at hid
    rcases hid with hid | rfl
    · exact hfound id hid
    · exact parseId_length hparent

/-- What a commit says of itself and of its parents has the digits of the format. -/
theorem parse_lengths (hdigests : HexDigests host) {m : CommitMetadata} {parsed : ParsedCommit}
    (h : m.parse host = .ok parsed) :
    idLength m.objectFormat = .ok (utf8Bytes m.objectId).length ∧
      ∀ id ∈ parsed.parents, idLength m.objectFormat = .ok (utf8Bytes id).length := by
  obtain ⟨id, hid, h⟩ := Except.bind_eq_ok.mp h
  obtain ⟨hsame, h⟩ := Except.ite_error_eq_ok.mp h
  rw [not_not.mp hsame] at hid
  obtain ⟨⟨header, message⟩, -, h⟩ := Except.bind_eq_ok.mp h
  obtain ⟨found, hloop, h⟩ := Except.bind_eq_ok.mp h
  obtain ⟨tree, -, h⟩ := Except.bind_eq_ok.mp h
  obtain ⟨timestamp, -, h⟩ := Except.bind_eq_ok.mp h
  obtain rfl := Except.ok.inj h
  refine ⟨objectId_length hdigests hid, ?_⟩
  refine foldlM_preserves (P := fun found : Headers => ∀ id ∈ found.parents,
    idLength m.objectFormat = .ok (utf8Bytes id).length) ?_ ?_ hloop
  · intro line _ before after hbefore hstep
    exact headerLine_parents hstep hbefore
  · intro id hid
    cases hid

end Formats

/-! ### The checks of `verify` on a snapshot that carries a commit -/

section Provenance

variable {host : Host} {repo : Repo}

/-- The tree and the parents of a snapshot are those of its commit. -/
theorem Verified.commit (h : Verified host repo) (hdigests : HexDigests host) {id : String}
    {snapshot : Snapshot} {m : CommitMetadata} (hget : repo.snapshots[id]? = some snapshot)
    (hgit : snapshot.git = some m) :
    ∃ parsed, m.parse host = .ok parsed ∧
      treeId host repo snapshot.files m.objectFormat = .ok parsed.tree ∧
      List.Forall₂ (Carries repo m.objectFormat) parsed.parents (parents snapshot) := by
  have hprovenance := h.provenance id snapshot hget
  rw [verifyProvenance, hgit] at hprovenance
  obtain ⟨parsed, hparsed, hprovenance⟩ := Except.bind_eq_ok.mp hprovenance
  obtain ⟨-, hprovenance⟩ := Except.bind_unit_eq_ok.mp hprovenance
  obtain ⟨-, hprovenance⟩ := Except.bind_unit_eq_ok.mp hprovenance
  obtain ⟨-, hprovenance⟩ := Except.bind_unit_eq_ok.mp hprovenance
  obtain ⟨tree, htree, hprovenance⟩ := Except.bind_eq_ok.mp hprovenance
  obtain ⟨hsame, hprovenance⟩ := Except.bind_unit_eq_ok.mp hprovenance
  obtain ⟨parentIds, hparents, hprovenance⟩ := Except.bind_eq_ok.mp hprovenance
  rw [eq_of_beq (require_eq_ok.mp hsame)] at htree
  rw [eq_of_beq (require_eq_ok.mp hprovenance)] at hparents
  refine ⟨parsed, hparsed, htree, ?_⟩
  have hlengths := (parse_lengths hdigests hparsed).2
  have hread := (List.forall₂_and_left (p := fun oid => oid ∈ parsed.parents) _ _).mpr
    ⟨fun oid hoid => hoid, List.Forall₂.flip (mapM_eq_ok.mp hparents)⟩
  refine hread.imp ?_
  rintro oid parentId ⟨hoid, hparent⟩
  obtain ⟨parent, hstored, hparent⟩ := Except.bind_eq_ok.mp hparent
  obtain ⟨provenance, hcommit, hparent⟩ := Except.bind_eq_ok.mp hparent
  rw [Except.ofOption_eq_ok] at hstored hcommit
  obtain rfl := Except.ok.inj hparent
  refine ⟨parent, provenance, hstored, hcommit, rfl, ?_⟩
  -- the digits of the parent's identifier are those of both formats
  have hchecked := h.provenance parentId parent hstored
  rw [verifyProvenance, hcommit] at hchecked
  obtain ⟨parsedParent, hparsedParent, -⟩ := Except.bind_eq_ok.mp hchecked
  exact idLength_inj (parse_lengths hdigests hparsedParent).1 (hlengths _ hoid)

end Provenance

/-! ### The history as Git has it -/

section Histories

variable (host : Host) (source : GitSource) (format : String)

/-- A commit of the source, as its bytes parse. -/
def GitCommit (oid : String) (parsed : ParsedCommit) : Prop :=
  ∃ raw, source.catFile oid "commit" = some raw ∧
    (CommitMetadata.mk oid format raw).parse host = .ok parsed

/-- The first commit names the second as a parent. -/
def GitParent (child parent : String) : Prop :=
  ∃ parsed, GitCommit host source format child parsed ∧ parent ∈ parsed.parents

/-- `rev-list` lists the ancestors of the tip.  Their order and number do not
matter: an import that meets a commit before its parents fails. -/
def ListsAncestors (tip : String) (revisions : List String) : Prop :=
  ∀ oid, oid ∈ revisions ↔ Relation.ReflTransGen (GitParent host source format) tip oid

/-- `cat-file` gives the bytes that an identifier names, and the commits at hand
do not collide with those that the repository has stored. -/
structure ExactObjects (repo : Repo) (revisions : List String) : Prop where
  named : ∀ oid ∈ revisions, ∃ raw, source.catFile oid "commit" = some raw ∧
    objectId host "commit" raw format = .ok oid
  distinct : ∀ (k : String) (s : Snapshot) (m : CommitMetadata) (raw : Bytes),
    repo.snapshots[k]? = some s → s.git = some m →
    source.catFile m.objectId "commit" = some raw →
    objectId host "commit" raw m.objectFormat = .ok m.objectId → raw = m.rawCommit

/-- The first snapshot names the second as a parent. -/
def SnapshotParent (repo : Repo) (child parent : String) : Prop :=
  ∃ snapshot, repo.snapshots[child]? = some snapshot ∧ parent ∈ parents snapshot

/-- The snapshots of a repository are a faithful image of the listed commits. -/
structure Faithful (repo : Repo) (revisions : List String) : Prop where
  /-- Every commit has one snapshot. -/
  carried : ∀ oid ∈ revisions, ∃! id, Carries repo format oid id
  /-- A snapshot has the tree of its commit, and the snapshots of the commit's
  parents as its own, in order. -/
  agrees : ∀ oid ∈ revisions, ∀ id, Carries repo format oid id →
    ∃ snapshot parsed, repo.snapshots[id]? = some snapshot ∧
      GitCommit host source format oid parsed ∧
      treeId host repo snapshot.files format = .ok parsed.tree ∧
      List.Forall₂ (Carries repo format) parsed.parents (parents snapshot)

end Histories

section Results

variable {host : Host} {env : Env} {repo repo' : Repo} {source : GitSource}
  {revision into tip format actorName : String} {policy : AccessPolicy} {allowUpdate : Bool}
  {revisions : List String} {imported : Nat}

/-- The loop leaves a faithful image, for what the last check accepts. -/
theorem Mapping.faithful {state : ImportState} (hdigests : HexDigests host)
    (hexact : ExactObjects host source format repo revisions)
    (hmapping : Mapping env source format repo state)
    (hmapped : ∀ oid ∈ revisions, ∃ id, state.mapped[oid]? = some id)
    (hsnapshots : repo'.snapshots = state.repo.snapshots) (hverified : Verified host repo') :
    Faithful host source format repo' revisions := by
  have hcarries : ∀ oid id, Carries repo' format oid id ↔ state.mapped[oid]? = some id := by
    intro oid id
    have hsame : Carries repo' format oid id ↔ Carries state.repo format oid id := by
      rw [Carries, Carries, hsnapshots]
    rw [hsame]
    exact ⟨hmapping.complete oid id, hmapping.sound oid id⟩
  refine ⟨?_, ?_⟩
  · intro oid hoid
    obtain ⟨id, hid⟩ := hmapped oid hoid
    refine ⟨id, (hcarries oid id).mpr hid, ?_⟩
    intro other hother
    exact Option.some.inj (((hcarries oid other).mp hother).symm.trans hid)
  · rintro oid hoid id ⟨snapshot, m, hget, hgit, rfl, rfl⟩
    obtain ⟨parsed, hparsed, htree, hparents⟩ := hverified.commit hdigests hget hgit
    refine ⟨snapshot, parsed, hget, ⟨m.rawCommit, ?_, hparsed⟩, htree, hparents⟩
    rw [hsnapshots] at hget
    rcases hmapping.bytes id snapshot m hget hgit with hold | hraw
    · obtain ⟨raw, hraw, hnamed⟩ := hexact.named m.objectId hoid
      rw [hraw, hexact.distinct id snapshot m raw hold hgit hraw hnamed]
    · exact hraw

/-- An ancestor among the commits is one among the snapshots. -/
theorem Faithful.ancestor (h : Faithful host source format repo revisions)
    (hlists : ListsAncestors host source format tip revisions) {oid head id : String}
    (hancestor : Relation.ReflTransGen (GitParent host source format) tip oid)
    (hhead : Carries repo format tip head) (hid : Carries repo format oid id) :
    Relation.ReflTransGen (SnapshotParent repo) head id := by
  induction hancestor generalizing id with
  | refl =>
      have hlisted := (hlists tip).mpr .refl
      rw [(h.carried tip hlisted).unique hhead hid]
  | tail hbefore hparent ih =>
      next child parent =>
      have hlisted := (hlists child).mpr hbefore
      obtain ⟨childId, hchild, -⟩ := h.carried child hlisted
      refine (ih hchild).tail ?_
      obtain ⟨snapshot, parsed, hget, ⟨raw, hraw, hparsed⟩, -, hparents⟩ :=
        h.agrees child hlisted childId hchild
      obtain ⟨parsed', ⟨raw', hraw', hparsed'⟩, hmem⟩ := hparent
      obtain rfl := Option.some.inj (hraw.symm.trans hraw')
      obtain rfl := Except.ok.inj (hparsed.symm.trans hparsed')
      obtain ⟨parentId, hmemId, hcarries⟩ : ∃ parentId ∈ parents snapshot,
          Carries repo format parent parentId := by
        obtain ⟨i, hi, rfl⟩ := List.getElem_of_mem hmem
        have hlength := hparents.length_eq
        exact ⟨(parents snapshot)[i], List.getElem_mem _, hparents.get hi (hlength ▸ hi)⟩
      have hparentListed := (hlists parent).mpr
        (hbefore.tail ⟨parsed, ⟨raw, hraw, hparsed⟩, hmem⟩)
      rw [(h.carried parent hparentListed).unique hid hcarries]
      exact ⟨snapshot, hget, hmemId⟩

/-- The head of a line, when there is one. -/
def lineHead (repo : Repo) (name : String) : Option String :=
  repo.lines[fileName name]?.bind (·.headSnapshot)

/-- A line that had a head was bound to a commit of the list. -/
theorem previous_carried {line : Line} {previous : String}
    (hline : importLine env repo into policy = .ok line)
    (hforward : checkFastForward repo line format revisions = .ok ())
    (hprevious : lineHead repo into = some previous) :
    ∃ snapshot m, repo.snapshots[previous]? = some snapshot ∧ snapshot.git = some m ∧
      m.objectFormat = format ∧ m.objectId ∈ revisions := by
  obtain ⟨stored, hstored, hhead⟩ := Option.bind_eq_some_iff.mp hprevious
  rw [importLine, if_pos (BTreeMap.contains_iff_get.mpr ⟨stored, hstored⟩)] at hline
  obtain ⟨-, hget, -⟩ := readLine_eq_ok.mp hline
  obtain rfl := Option.some.inj (hstored.symm.trans hget)
  rw [checkFastForward, Except.ifSome_eq_ok] at hforward
  obtain ⟨snapshot, hread, hcheck⟩ := Except.bind_eq_ok.mp (hforward previous hhead)
  obtain ⟨m, hgit, hcheck⟩ := Except.bind_eq_ok.mp hcheck
  obtain ⟨hsame, -⟩ := Except.ite_error_eq_ok.mp hcheck
  rw [not_or, not_not, not_not] at hsame
  exact ⟨snapshot, m, (readSnapshot_eq_ok.mp hread).2.1, Except.ofOption_eq_ok.mp hgit, hsame⟩

/-- An import of commits that are all carried adds nothing. -/
theorem importCommit_known {mapped : BTreeMap String String} {state : ImportState}
    (hmapped : ∀ oid ∈ revisions, ∃ id, mapped[oid]? = some id)
    (hloop : revisions.foldlM (importCommit host env source format tip into policy)
      ⟨repo, mapped, ∅, 0, none⟩ = .ok state) :
    state.repo = repo ∧ state.imported = 0 := by
  have hall : state.repo = repo ∧ state.mapped = mapped ∧ state.imported = 0 := by
    refine foldlM_preserves (P := fun st : ImportState =>
      st.repo = repo ∧ st.mapped = mapped ∧ st.imported = 0) ?_ ⟨rfl, rfl, rfl⟩ hloop
    rintro oid hoid st st' ⟨hrepo, hsame, hzero⟩ hstep
    cases importCommit_visit hstep with
    | known id _ hrepo' hsame' hcount =>
        exact ⟨hrepo'.trans hrepo, hsame'.trans hsame, hcount.trans hzero⟩
    | carried raw parsed snapshot hnone =>
        obtain ⟨id, hid⟩ := hmapped oid hoid
        rw [hsame, hid] at hnone
        cases hnone
  exact ⟨hall.1, hall.2.2⟩

/-- **An import that succeeds is faithful to the history.**  Each listed commit
has one snapshot, with the tree and the parents of the commit; a line that
had a head is moved to a descendant of it; and the tip can be imported again
without a new snapshot. -/
theorem importHistory_faithful (hdigests : HexDigests host)
    (hfresh : FreshSnapshots env repo (2 * revisions.length))
    (hformat : source.objectFormat = some format)
    (htip : source.revParse revision = some tip) (hlist : source.revList tip = some revisions)
    (hlists : ListsAncestors host source format tip revisions)
    (hexact : ExactObjects host source format repo revisions)
    (h : importHistory host env repo source revision into actorName policy allowUpdate =
      .ok (imported, repo')) :
    Faithful host source format repo' revisions ∧
    (∃ head, lineHead repo' into = some head ∧ Carries repo' format tip head ∧
      ∀ previous, lineHead repo into = some previous →
        Relation.ReflTransGen (SnapshotParent repo') head previous) ∧
    ∀ (host' : Host) (env' : Env) (revision' into' actorName' : String) (policy' : AccessPolicy)
      (allowUpdate' : Bool) (imported' : Nat) (repo'' : Repo),
      source.revParse revision' = some tip →
      importHistory host' env' repo' source revision' into' actorName' policy' allowUpdate' =
        .ok (imported', repo'') →
      imported' = 0 ∧ repo''.snapshots = repo'.snapshots := by
  obtain ⟨line, mapped, state, hverified, hline, hforward, hmapped, hloop, hpublish⟩ :=
    importHistory_eq_ok hformat htip hlist h
  obtain ⟨head, hhead, -, hsnapshots, hlines, hverified'⟩ := publishImport_eq_ok hpublish
  have hmapping : Mapping env source format repo state :=
    (Mapping.start hverified.keyed hmapped).run hfresh (by simp) hloop
  have hcovered := mapped_of_mem hloop
  have hfaithful := hmapping.faithful hdigests hexact hcovered hsnapshots hverified'
  have hcarriedHead : Carries repo' format tip head := by
    rw [Carries, hsnapshots]
    exact hmapping.sound tip head hhead
  refine ⟨hfaithful, ⟨head, ?_, hcarriedHead, ?_⟩, ?_⟩
  · rw [lineHead, hlines, BTreeMap.get_insert_self]
    rfl
  · intro previous hprevious
    obtain ⟨snapshot, m, hget, hgit, rfl, hlisted⟩ := previous_carried hline hforward hprevious
    refine hfaithful.ancestor hlists ((hlists m.objectId).mp hlisted) hcarriedHead ?_
    refine ⟨snapshot, m, ?_, hgit, rfl, rfl⟩
    rw [hsnapshots]
    refine (hmapping.kept previous snapshot hget).resolve_right ?_
    rw [hgit]
    exact Option.some_ne_none m
  · intro host' env' revision' into' actorName' policy' allowUpdate' imported' repo'' htip' hagain
    obtain ⟨line', mapped', state', -, -, -, hmapped', hloop', hpublish'⟩ :=
      importHistory_eq_ok hformat htip' hlist hagain
    obtain ⟨-, -, rfl, hsnapshots', -, -⟩ := publishImport_eq_ok hpublish'
    have hstart : Mapping env' source format repo' ⟨repo', mapped', ∅, 0, none⟩ :=
      Mapping.start hverified'.keyed hmapped'
    obtain ⟨hsame, hnone⟩ := importCommit_known (fun oid hoid => by
      obtain ⟨id, hid, -⟩ := hfaithful.carried oid hoid
      exact ⟨id, hstart.complete oid id hid⟩) hloop'
    exact ⟨hnone, by rw [hsnapshots', hsame]⟩

end Results

/-! ### A history of two commits -/

def firstId : String := "32a7a4388168917cf3333e3b9741cd006814ae07"
def secondId : String := "3d88e2807cf1070848f07ffe36f15e1fff4923f3"
def emptyTreeId : String := "4b825dc642cb6eb9a060e54bf8d69288fbee4904"

def firstCommit : Bytes := utf8Bytes
  s!"tree {emptyTreeId}\nauthor A <a@b> 1 +0000\ncommitter A <a@b> 1 +0000\n\nfirst\n"

def secondCommit : Bytes := utf8Bytes
  (s!"tree {emptyTreeId}\nparent {firstId}\nauthor A <a@b> 2 +0000\n" ++
    "committer A <a@b> 2 +0000\n\nsecond\n")

/-- The hashes of the empty tree, of the two commits and of the empty manifest. -/
def historyHost : Host where
  hashBytes bytes :=
    if bytes = [91, 93] then "4f53cda18c2baa0c0354bb5f9a3ecbe5ed12ab4d8e11ba873c2f11161202b945"
    else "0000000000000000000000000000000000000000000000000000000000000000"
  sha1 bytes :=
    match bytes.length with
    | 7 => emptyTreeId
    | 113 => firstId
    | 162 => secondId
    | _ => "0000000000000000000000000000000000000000"
  encodeManifest files := if files = [] then [91, 93] else []
  now := 0
  operationSuffix _ := zeroSuffix

def historySource : GitSource where
  fsck := true
  objectFormat := some "sha1"
  revParse _ := some secondId
  revList _ := some [firstId, secondId]
  catFile oid _ :=
    if oid = firstId then some firstCommit else if oid = secondId then some secondCommit else none
  lsTree _ := some []

def historyEnv : Env where
  now := 0
  newIdSuffix i :=
    match i with
    | 0 => "000000000001"
    | 1 => "000000000002"
    | 2 => "000000000003"
    | _ => "000000000004"
  diff := ⟨fun text => [text], fun _ _ => []⟩
  entries := []
  working _ := none

/-- The first commit has been imported before. -/
def historyRepo : Repo where
  workspaceId := none
  primaryRoot := ["home"]
  repoId := "repo_000000000000"
  git := ⟨∅, ∅⟩
  author := none
  workspace := ⟨some "chg_000000000000", none⟩
  pathPolicies := []
  actors := (∅ : BTreeMap String Actor).insert "root" ⟨"root", [adminDomain]⟩
  lines := (∅ : BTreeMap String Line).insert "main"
    ⟨"main", some "snap_000000000000", publicPolicy, 0⟩
  changes := (∅ : BTreeMap String Change).insert "chg_000000000000"
    ⟨"chg_000000000000", "first", none, "main", some "snap_000000000000", publicPolicy, 1000⟩
  snapshots := (∅ : BTreeMap String Snapshot).insert "snap_000000000000"
    ⟨none, some ⟨firstId, "sha1", firstCommit⟩, "snap_000000000000", "chg_000000000000", none, [],
      "first\n", "4f53cda18c2baa0c0354bb5f9a3ecbe5ed12ab4d8e11ba873c2f11161202b945", [],
      publicPolicy, 1000⟩
  conflicts := ∅
  blobs := ∅
  operations := []
  registry := []
  linkedWorkspaces := ∅
  pruned := ∅

/-- The commits of the source: the second has the first as its parent. -/
theorem historyParents : (((CommitMetadata.mk firstId "sha1" firstCommit).parse historyHost).map
      (·.parents)).toOption = some [] ∧
    (((CommitMetadata.mk secondId "sha1" secondCommit).parse historyHost).map
      (·.parents)).toOption = some [firstId] := by
  decide +kernel

theorem historyParent_iff {child parent : String} :
    GitParent historyHost historySource "sha1" child parent ↔
      child = secondId ∧ parent = firstId := by
  have hvalue : ∀ (m : CommitMetadata) (parsed : ParsedCommit) (ids : List String),
      m.parse historyHost = .ok parsed →
      ((m.parse historyHost).map (·.parents)).toOption = some ids → parsed.parents = ids := by
    intro m parsed ids hparsed hids
    rw [hparsed] at hids
    exact Option.some.inj hids
  constructor
  · rintro ⟨parsed, ⟨raw, hraw, hparsed⟩, hmem⟩
    simp only [historySource] at hraw
    split at hraw
    · next hchild =>
        subst hchild
        obtain rfl := Option.some.inj hraw
        rw [hvalue _ parsed _ hparsed historyParents.1] at hmem
        cases hmem
    · split at hraw
      · next hchild =>
          subst hchild
          obtain rfl := Option.some.inj hraw
          rw [hvalue _ parsed _ hparsed historyParents.2, List.mem_singleton] at hmem
          exact ⟨rfl, hmem⟩
      · cases hraw
  · rintro ⟨rfl, rfl⟩
    cases hparsed : (CommitMetadata.mk secondId "sha1" secondCommit).parse historyHost with
    | error e =>
        have hids := historyParents.2
        rw [hparsed] at hids
        cases hids
    | ok parsed =>
        refine ⟨parsed, ⟨secondCommit, rfl, hparsed⟩, ?_⟩
        rw [hvalue _ parsed _ hparsed historyParents.2]
        exact List.mem_singleton_self firstId

theorem historyLists :
    ListsAncestors historyHost historySource "sha1" secondId [firstId, secondId] := by
  intro oid
  rw [List.mem_cons, List.mem_singleton]
  constructor
  · rintro (rfl | rfl)
    · exact .single (historyParent_iff.mpr ⟨rfl, rfl⟩)
    · exact .refl
  · intro h
    rcases Relation.ReflTransGen.cases_tail h with rfl | ⟨child, -, hparent⟩
    · exact .inr rfl
    · exact .inl (historyParent_iff.mp hparent).2

theorem historyExact :
    ExactObjects historyHost historySource "sha1" historyRepo [firstId, secondId] := by
  refine ⟨?_, ?_⟩
  · intro oid hoid
    rw [List.mem_cons, List.mem_singleton] at hoid
    rcases hoid with rfl | rfl
    · exact ⟨firstCommit, rfl, by decide +kernel⟩
    · exact ⟨secondCommit, rfl, by decide +kernel⟩
  · intro k s m raw hget hgit hraw _
    rcases BTreeMap.get_insert_eq_some_iff.mp hget with ⟨-, rfl⟩ | ⟨-, hget⟩
    · obtain rfl := Option.some.inj hgit
      exact (Option.some.inj hraw).symm
    · simp at hget

theorem historyDigests : HexDigests historyHost := by
  refine ⟨?_, ?_⟩
  · intro bytes
    simp only [historyHost]
    split <;> decide
  · intro bytes
    simp only [historyHost]
    split <;> decide

theorem historyFresh : FreshSnapshots historyEnv historyRepo 4 := by
  refine ⟨?_, ?_⟩ <;> decide

/-- The second commit is fetched after the first one. -/
theorem importHistory_faithful_sample :
    ∃ repo', importHistory historyHost historyEnv historyRepo historySource "HEAD" "main" "root"
        publicPolicy true = .ok (1, repo') ∧
      Faithful historyHost historySource "sha1" repo' [firstId, secondId] := by
  have hrun : ((importHistory historyHost historyEnv historyRepo historySource "HEAD" "main"
      "root" publicPolicy true).map (·.1)).toOption = some 1 := by decide +kernel
  cases hresult : importHistory historyHost historyEnv historyRepo historySource "HEAD" "main"
      "root" publicPolicy true with
  | error e =>
      rw [hresult] at hrun
      cases hrun
  | ok result =>
      obtain ⟨imported, repo'⟩ := result
      rw [hresult] at hrun
      obtain rfl : imported = 1 := Option.some.inj hrun
      exact ⟨repo', rfl, (importHistory_faithful historyDigests historyFresh rfl rfl rfl
        historyLists historyExact hresult).1⟩

end RGit.Cli
