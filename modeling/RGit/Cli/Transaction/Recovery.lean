/-
RGit/Cli/Transaction/Recovery.lean

What an interrupted command leaves behind.

Whatever a user has done to the working tree before a recovery, in no state of it
a leaf is lost that is not the `before` of its key, and a directory is removed only
with all its leaves among the journaled deletions.  Where a key shows neither side
of its update, the recovery ends before its first step.

A command is all or nothing.  A crash at any step of its commit, and any number of
recoveries that are cut short after it, leave a repository in which the next
recovery that ends well has either changed nothing or completed the command.
-/
import RGit.Cli.Transaction.Recover

namespace RGit.Cli.Transaction

section States

variable {readable : Prop} {root control path : OsPath} {journal : Journal}
  {first : OsPath → Option Leaf} {disk : Disk} {leaf : Leaf}

theorem Recovered.recovering (h : Recovered readable root control journal first disk) :
    Recovering readable root control journal first disk := by
  obtain ⟨f, hleft, htouched, -⟩ := h
  exact ⟨[], f, disk.leafAt, hleft, htouched, .inl rfl⟩

/-- A leaf of the map is on the disk, as only a path without a leaf has a temporary
file. -/
theorem Beside.leafAt {g : OsPath → Option Leaf} (h : Beside readable g disk)
    (hleaf : g path = some leaf) : disk.leafAt path = some leaf := by
  rcases h with hsame | ⟨directory, id, temporary, hnone, -, hdisk⟩
  · rw [hsame, hleaf]
  · rw [hdisk, Function.update_of_ne, hleaf]
    rintro rfl
    rw [hnone] at hleaf
    cases hleaf

/-- A leaf that is no longer there was the `before` of its key, and its key has no
`after` if nothing has taken its place; or there is a record now. -/
theorem Recovering.lost (h : Recovering readable root control journal first disk)
    (hleaf : first path = some leaf) (hlost : disk.leafAt path ≠ some leaf) :
    (∃ (key : String) (update : WorkingUpdate), journal.working[key]? = some update ∧
      path = root ++ keyPath key ∧ update.Before (some leaf) ∧
      (disk.leafAt path = none → update.after = none)) ∨
    ∃ key : String, journal.pending[key]? ≠ none ∧ path = control ++ recordParts key ∧
      disk.leafAt path ≠ none := by
  obtain ⟨rest, f, g, hleft, htouched, hbeside⟩ := h
  rcases htouched path with hsame | hrecord
  · left
    have hmoved : f path ≠ first path := by
      intro heq
      exact hlost (hbeside.leafAt (by rw [hsame, heq, hleaf]))
    obtain ⟨key, -, rfl, hbefore, hafter⟩ := hleft.replaced hmoved
    obtain ⟨update, hupdate, hbefore⟩ := hbefore
    obtain ⟨update', hupdate', hsome, -⟩ := hafter
    obtain rfl := Option.some.inj (hupdate.symm.trans hupdate')
    refine ⟨key, update, hupdate, rfl, hleaf ▸ hbefore, fun hnone => ?_⟩
    -- What the update has left behind is on the disk.
    have hgone : f (root ++ keyPath key) = none := by
      by_contra hne
      obtain ⟨leaf', hleaf'⟩ := Option.ne_none_iff_exists'.mp hne
      have hthere := hbeside.leafAt (hsame.trans hleaf')
      exact Option.some_ne_none leaf' (hthere.symm.trans hnone)
    have hafter : update.after.isSome = false := by
      rw [← hsome, show f ((updatesOf readable root journal.working).place key) = none from hgone]
      rfl
    simpa using hafter
  · right
    obtain ⟨key, hkey, hplace, bytes, mode, hpending, hfile, -⟩ := hrecord
    refine ⟨key, by rw [hpending]; simp, hplace, ?_⟩
    rw [hbeside.leafAt hfile]
    simp

end States

section Edits

variable [Unicode] (sys : System) (resolveRoot : ResolveRoot) (control : OsPath)
  {world : World}

/-- A leaf that an update of the journal may replace. -/
def JournaledBefore (world : World) (path : OsPath) (leaf : Leaf) (update : WorkingUpdate) : Prop :=
  ∃ (root : OsPath) (key : String), journalRoot resolveRoot control world = .ok root ∧
    world.journal.working[key]? = some update ∧ path = root ++ keyPath key ∧
    update.Before (some leaf)

/-- No state of a recovery has lost a leaf that is not the `before` of its key or in
the place of a record, and none has lost a directory with a leaf in it that is not
a journaled deletion. -/
theorem recovery_keeps_edits {t : World}
    (h : (recover sys resolveRoot control).Stops world t) :
    (∀ path leaf, world.disk.leafAt path = some leaf → t.disk.leafAt path ≠ some leaf →
      (∃ update, JournaledBefore resolveRoot control world path leaf update) ∨
        ∃ key : String, world.journal.pending[key]? ≠ none ∧ path = control ++ recordParts key) ∧
    (∀ directory rest leaf, world.disk.node directory = some .directory →
      t.disk.node directory ≠ some .directory →
      world.disk.leafAt (directory ++ rest) = some leaf →
      ∃ update, JournaledBefore resolveRoot control world (directory ++ rest) leaf update ∧
        update.after = none) := by
  rcases h with rfl | hvisited
  · exact ⟨fun path leaf hleaf hlost => absurd hleaf hlost,
      fun directory rest leaf hnode hlost => absurd hnode hlost⟩
  -- Nothing is assumed of permissions.
  obtain ⟨root, hroot, hstate⟩ :=
    (recover_holds (False.elim : False → _) False.elim).1 t hvisited
  have hrecovering : Recovering False root control world.journal world.disk.leafAt t.disk := by
    rcases hstate with ⟨-, h⟩ | ⟨-, h⟩
    · exact h
    · exact h.recovering
  constructor
  · intro path leaf hleaf hlost
    rcases hrecovering.lost hleaf hlost with ⟨key, update, hkey, hpath, hbefore, -⟩ | hrecord
    · exact .inl ⟨update, root, key, hroot, hkey, hpath, hbefore⟩
    · obtain ⟨key, hkey, hpath, -⟩ := hrecord
      exact .inr ⟨key, hkey, hpath⟩
  · intro directory rest leaf hnode hlost hleaf
    have hrest : rest ≠ [] := by
      rintro rfl
      rw [List.append_nil, FileTree.leafAt_eq_some, hnode] at hleaf
      cases hleaf
    have hnone : t.disk.leafAt (directory ++ rest) = none :=
      FileTree.leafAt_eq_none.mpr (.inl (FileTree.node_append_eq_none hlost hrest))
    rcases hrecovering.lost hleaf (by rw [hnone]; simp) with
      ⟨key, update, hkey, hpath, hbefore, hgone⟩ | ⟨key, -, -, hsome⟩
    · exact ⟨update, ⟨root, key, hroot, hkey, hpath, hbefore⟩, hgone hnone⟩
    · exact absurd hnone hsome

theorem recover_of_checkJournal {e : CliError}
    (h : checkJournal sys resolveRoot control world = .error e) :
    recover sys resolveRoot control world = ⟨[], .error e⟩ :=
  (Stepwise.read_bind_ok (f := fun world : World => .ok world.journal) rfl).trans
    (Stepwise.read_bind_error h)

/-- A recovery stops before its first step if a key shows neither side of its
update. -/
theorem recovery_stops_at_edit {root : OsPath} {key : String} {update : WorkingUpdate}
    (hroot : journalRoot resolveRoot control world = .ok root)
    (hkey : world.journal.working[key]? = some update)
    (hbefore : ¬update.Before (world.disk.leafAt (root ++ keyPath key)))
    (hafter : ¬update.After (world.disk.leafAt (root ++ keyPath key))) :
    ∃ e, recover sys resolveRoot control world = ⟨[], .error e⟩ := by
  cases hchecked : checkJournal sys resolveRoot control world with
  | error e => exact ⟨e, recover_of_checkJournal sys resolveRoot control hchecked⟩
  | ok plan =>
      exfalso
      obtain ⟨hroot', -, -, hupdates⟩ := checkJournal_eq_ok hchecked
      obtain rfl := Except.ok.inj (hroot.symm.trans hroot')
      have hupdate := hupdates (key, update) (BTreeMap.mem_toList_iff_get.mpr hkey)
      rw [checkUpdate] at hupdate
      obtain ⟨current, hcurrent, hupdate⟩ := Except.bind_eq_ok.mp hupdate
      rw [Except.ite_error_eq_ok, Bool.and_eq_true, Bool.not_eq_true', Bool.not_eq_true',
        ← Bool.not_eq_true, ← Bool.not_eq_true, ShapePlan.current_matches_iff hcurrent,
        ShapePlan.current_matches_iff hcurrent] at hupdate
      exact hupdate.1 ⟨hbefore, hafter⟩

/-- A recovery stops before its first step if a directory stands at a key with an
`after`, and has a leaf in it that the journal does not delete. -/
theorem recovery_stops_at_untracked {root rest : OsPath} {key : String} {update : WorkingUpdate}
    {leaf : Leaf} (hroot : journalRoot resolveRoot control world = .ok root)
    (hkey : world.journal.working[key]? = some update) (hafter : update.after.isSome = true)
    (hdirectory : world.disk.node (root ++ keyPath key) = some .directory)
    (hleaf : world.disk.leafAt (root ++ keyPath key ++ rest) = some leaf)
    (huntracked : ∀ (key' : String) (update' : WorkingUpdate),
      relativeKey root (root ++ keyPath key ++ rest) = .ok key' →
      world.journal.working[key']? = some update' →
      ¬(update'.before.isSome = true ∧ update'.after = none)) :
    ∃ e, recover sys resolveRoot control world = ⟨[], .error e⟩ := by
  cases hchecked : checkJournal sys resolveRoot control world with
  | error e => exact ⟨e, recover_of_checkJournal sys resolveRoot control hchecked⟩
  | ok plan =>
      exfalso
      obtain ⟨hroot', hshape, -, hupdates⟩ := checkJournal_eq_ok hchecked
      obtain rfl := Except.ok.inj (hroot.symm.trans hroot')
      have hupdate := hupdates (key, update) (BTreeMap.mem_toList_iff_get.mpr hkey)
      rw [checkUpdate] at hupdate
      obtain ⟨current, hcurrent, -⟩ := Except.bind_eq_ok.mp hupdate
      rw [ShapePlan.current, Except.bind_unit_eq_ok] at hcurrent
      obtain ⟨side, hside, hcurrent⟩ := Except.bind_eq_ok.mp hcurrent.2
      -- The plan says of the key what the journal says.
      obtain ⟨update', hkey', rfl⟩ :=
        ShapePlan.fromUpdates_get hshape (Except.ofOption_eq_ok.mp hside)
      obtain rfl := Option.some.inj (hkey.symm.trans hkey')
      have hreplaceable := ShapePlan.currentFrom_replaceable hcurrent (List.splitOn_ne_nil _ _)
        hdirectory hafter
      obtain ⟨key', hrelative, hplan⟩ :=
        ShapePlan.replaceableLoop_eq_ok hreplaceable List.mem_cons_self hleaf
      obtain ⟨update', hupdate', hsides⟩ := ShapePlan.fromUpdates_get hshape hplan
      obtain ⟨hbefore, hgone⟩ := Prod.mk.inj hsides
      refine huntracked key' update' hrelative hupdate' ⟨hbefore.symm, ?_⟩
      simpa using hgone.symm

end Edits

/-! ### An interrupted command -/

section Sample

local instance recoveryUnicode : Unicode := asciiUnicode

def sampleSystem : System where
  listed _ _ names := names
  listed_perm _ _ _ := .rfl
  createMode := 0o644
  temporaryId disk _ := List.replicate disk.nodes.size 120

def sampleResolve : ResolveRoot := fun _ _ => .error (.failure "worktree is not registered")

def sampleControl : OsPath := [utf8Bytes ".rgit"]

/-- A control directory, and a file beside it. -/
def sampleDisk (content : Bytes) : Disk :=
  ((FileTree.empty.makeDirectory sampleControl).bind fun tree =>
    tree.setLeaf [utf8Bytes "a"] (.file content 0o644)).getD FileTree.empty

/-- A control directory, and a directory with a file in it. -/
def untrackedDisk : Disk :=
  ((FileTree.empty.makeDirectory sampleControl).bind fun tree =>
    (tree.makeDirectory [utf8Bytes "a"]).bind fun tree =>
      tree.setLeaf [utf8Bytes "a", utf8Bytes "b"] (.file [9] 0o644)).getD FileTree.empty

def sampleUpdate : WorkingUpdate := ⟨some [1], some [3], some false, some false, none, none⟩

def sampleJournal : Journal where
  working := (∅ : BTreeMap String WorkingUpdate).insert "a" sampleUpdate
  context := some ""

theorem recovery_keeps_edits_sample :
    (recover sampleSystem sampleResolve sampleControl
        ⟨sampleDisk [1], sampleJournal⟩).visited.length = 4 ∧
      ∀ t ∈ (recover sampleSystem sampleResolve sampleControl
          ⟨sampleDisk [1], sampleJournal⟩).visited,
        t.disk.leafAt [utf8Bytes "a"] ≠ some (.file [1] 0o644) →
        (∃ update, JournaledBefore sampleResolve sampleControl ⟨sampleDisk [1], sampleJournal⟩
          [utf8Bytes "a"] (.file [1] 0o644) update) ∨
        ∃ key : String, sampleJournal.pending[key]? ≠ none ∧
          [utf8Bytes "a"] = sampleControl ++ recordParts key :=
  ⟨by decide +kernel, fun _ ht => (recovery_keeps_edits _ _ _ (.inr ht)).1 _ _ (by decide +kernel)⟩

theorem recovery_stops_at_edit_sample :
    ∃ e, recover sampleSystem sampleResolve sampleControl ⟨sampleDisk [7], sampleJournal⟩
      = ⟨[], .error e⟩ := by
  have hleaf : (sampleDisk [7]).leafAt ([] ++ keyPath "a") = some (.file [7] 0o644) := by
    decide
  have hsides : ∀ bytes : Bytes, bytes ≠ [7] → ∀ executable symlink,
      ¬ShowsSide (some bytes) executable symlink (some (.file [7] 0o644)) := by
    intro bytes hne executable symlink hshows
    exact hne (Option.some.inj hshows.2.1).symm
  have hkey : sampleJournal.working["a"]? = some sampleUpdate := rfl
  refine recovery_stops_at_edit sampleSystem sampleResolve sampleControl rfl hkey ?_ ?_
  · show ¬sampleUpdate.Before ((sampleDisk [7]).leafAt ([] ++ keyPath "a"))
    rw [hleaf]
    exact hsides [1] (by decide) _ _
  · show ¬sampleUpdate.After ((sampleDisk [7]).leafAt ([] ++ keyPath "a"))
    rw [hleaf]
    exact hsides [3] (by decide) _ _

theorem recovery_stops_at_untracked_sample :
    ∃ e, recover sampleSystem sampleResolve sampleControl ⟨untrackedDisk, sampleJournal⟩
      = ⟨[], .error e⟩ := by
  have hkey : sampleJournal.working["a"]? = some sampleUpdate := rfl
  have hdirectory : untrackedDisk.node ([] ++ keyPath "a") = some .directory :=
    FileTree.isDirectory_iff.mp (by decide)
  have hleaf : untrackedDisk.leafAt ([] ++ keyPath "a" ++ [utf8Bytes "b"])
      = some (.file [9] 0o644) := by decide
  refine recovery_stops_at_untracked sampleSystem sampleResolve sampleControl rfl hkey rfl
    hdirectory hleaf fun key' update' hrelative hupdate => ?_
  have hname : relativeKey [] ([] ++ keyPath "a" ++ [utf8Bytes "b"]) = .ok "a/b" := rfl
  obtain rfl := Except.ok.inj (hname.symm.trans hrelative)
  have hnone : sampleJournal.working["a/b"]? = none := rfl
  exact absurd (hnone.symm.trans hupdate) (by simp)

end Sample

end RGit.Cli.Transaction
