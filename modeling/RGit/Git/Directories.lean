/-
RGit/Git/Directories.lean

The nested maps that the files of a tree are put into.

`Leaf dir path id mode` says which file a path leads to, and that is all a
directory is: a well-formed directory is determined by its leaves
(`WellFormed.ext`), so what is built from the same files in another order is
the same directory.  A file is put in exactly when its path is not a prefix
of the path of a leaf and no such path is a prefix of it
(`insertEntry_isOk_iff`), and then its leaf is the only one that is new
(`leaf_insertEntry`).
-/
import Mathlib.Data.String.Basic
import RGit.Git.Objects
import RGit.Lib.Lists

namespace RGit.Cli

/-- The map of one directory, in the order of the names. -/
abbrev Directory := List (String × TreeEntry)

/-- A path leads to a file. -/
inductive Leaf : Directory → List String → String → String → Prop
  | file {dir name id mode} : (name, .file id mode) ∈ dir → Leaf dir [name] id mode
  | inside {dir name child path id mode} : (name, .directory child) ∈ dir →
      Leaf child path id mode → Leaf dir (name :: path) id mode

/-- Names are sorted, and no directory inside is empty. -/
inductive WellFormed : Directory → Prop
  | mk {dir} : SortedKeys dir → (∀ name child, (name, .directory child) ∈ dir → child ≠ []) →
      (∀ name child, (name, .directory child) ∈ dir → WellFormed child) → WellFormed dir

/-! ### One map -/

section Maps

variable {dir : Directory} {name : String} {entry : TreeEntry}

theorem mem_putEntry (hdir : SortedKeys dir) {other : String} {e : TreeEntry} :
    (other, e) ∈ putEntry dir name entry ↔
      (other = name ∧ e = entry) ∨ (other ≠ name ∧ (other, e) ∈ dir) := by
  induction dir with
  | nil => simp [putEntry]
  | cons head rest ih =>
      obtain ⟨key, value⟩ := head
      have hrest : ∀ {k v}, (k, v) ∈ rest → key < k := fun hmem => hdir.head_lt hmem
      rw [putEntry]
      split
      · next hlt =>
          rw [compare_lt_iff_lt] at hlt
          have hother : (other, e) ∈ (key, value) :: rest → other ≠ name := by
            intro hmem heq
            rcases List.mem_cons.mp hmem with h | h
            · cases h
              exact hlt.ne heq.symm
            · exact (hlt.trans (hrest h)).ne heq.symm
          rw [List.mem_cons, Prod.mk.injEq]
          tauto
      · next heq =>
          rw [compare_eq_iff_eq] at heq
          subst heq
          have hother : (other, e) ∈ rest → other ≠ name := fun hmem => (hrest hmem).ne'
          simp only [List.mem_cons, Prod.mk.injEq]
          tauto
      · next hgt =>
          rw [compare_gt_iff_gt] at hgt
          rw [List.mem_cons, ih hdir.tail, List.mem_cons, Prod.mk.injEq]
          have hkey : other = key → other ≠ name := fun heq => heq ▸ hgt.ne
          tauto

theorem sortedKeys_putEntry (hdir : SortedKeys dir) : SortedKeys (putEntry dir name entry) := by
  induction dir with
  | nil => simp [putEntry, SortedKeys]
  | cons head rest ih =>
      obtain ⟨key, value⟩ := head
      rw [putEntry]
      split
      · next hlt =>
          rw [compare_lt_iff_lt] at hlt
          refine List.pairwise_cons.mpr ⟨fun k hk => ?_, hdir⟩
          rcases List.mem_cons.mp hk with rfl | hk
          · exact hlt
          · exact hlt.trans ((List.pairwise_cons.mp hdir).1 k hk)
      · next heq =>
          rw [compare_eq_iff_eq] at heq
          subst heq
          exact hdir
      · next hgt =>
          rw [compare_gt_iff_gt] at hgt
          refine List.pairwise_cons.mpr ⟨fun k hk => ?_, ih hdir.tail⟩
          obtain ⟨⟨k, e⟩, hmem, rfl⟩ := List.mem_map.mp hk
          rcases (mem_putEntry hdir.tail).mp hmem with ⟨rfl, -⟩ | ⟨-, hmem⟩
          · exact hgt
          · exact hdir.head_lt hmem

/-- A name stands for one entry. -/
theorem entry_unique {e e' : TreeEntry} (hdir : SortedKeys dir) (h : (name, e) ∈ dir)
    (h' : (name, e') ∈ dir) : e = e' := by
  rw [← lookupKey_eq_some_iff hdir.nodup] at h h'
  rw [h] at h'
  exact Option.some.inj h'

end Maps

/-! ### Leaves -/

section Leaves

variable {dir dir' child : Directory} {name id mode : String} {path : List String}

theorem not_leaf_nil : ¬Leaf dir [] id mode := by
  intro h
  cases h

theorem not_leaf_empty : ¬Leaf [] path id mode := by
  intro h
  cases h with
  | file hmem => cases hmem
  | inside hmem _ => cases hmem

/-- What a path leads to, past the name of an entry. -/
def Leads (entry : TreeEntry) (path : List String) (id mode : String) : Prop :=
  match entry with
  | .file i m => path = [] ∧ id = i ∧ mode = m
  | .directory child => Leaf child path id mode

theorem leaf_cons : Leaf dir (name :: path) id mode ↔
    ∃ entry, (name, entry) ∈ dir ∧ Leads entry path id mode := by
  constructor
  · intro h
    cases h with
    | file hmem => exact ⟨_, hmem, rfl, rfl, rfl⟩
    | inside hmem hleaf => exact ⟨_, hmem, hleaf⟩
  · rintro ⟨entry, hmem, hleads⟩
    cases entry with
    | file i m =>
        obtain ⟨rfl, rfl, rfl⟩ := hleads
        exact .file hmem
    | directory child => exact .inside hmem hleads

/-- Past a name there is what its entry leads to. -/
theorem leaf_cons_of_mem (hdir : SortedKeys dir) {entry : TreeEntry} (h : (name, entry) ∈ dir) :
    Leaf dir (name :: path) id mode ↔ Leads entry path id mode := by
  rw [leaf_cons]
  constructor
  · rintro ⟨entry', hmem, hleads⟩
    exact entry_unique hdir hmem h ▸ hleads
  · exact fun hleads => ⟨entry, h, hleads⟩

theorem WellFormed.sorted (h : WellFormed dir) : SortedKeys dir := by
  cases h with
  | mk hsorted _ _ => exact hsorted

theorem WellFormed.inside (h : WellFormed dir) (hmem : (name, .directory child) ∈ dir) :
    WellFormed child ∧ child ≠ [] := by
  cases h with
  | mk _ hne hwf => exact ⟨hwf name child hmem, hne name child hmem⟩

/-- A directory that is not empty has a leaf. -/
theorem WellFormed.exists_leaf (h : WellFormed dir) (hne : dir ≠ []) :
    ∃ path id mode, Leaf dir path id mode := by
  induction h with
  | mk _ hchild _ ih =>
      obtain ⟨⟨name, entry⟩, hmem⟩ := List.exists_mem_of_ne_nil _ hne
      cases entry with
      | file id mode => exact ⟨[name], id, mode, .file hmem⟩
      | directory child =>
          obtain ⟨path, id, mode, hleaf⟩ := ih name child hmem (hchild name child hmem)
          exact ⟨name :: path, id, mode, .inside hmem hleaf⟩

/-- There is a leaf below every name. -/
theorem WellFormed.exists_leaf_cons (h : WellFormed dir) {entry : TreeEntry}
    (hmem : (name, entry) ∈ dir) : ∃ path id mode, Leaf dir (name :: path) id mode := by
  cases entry with
  | file id mode => exact ⟨[], id, mode, .file hmem⟩
  | directory child =>
      obtain ⟨hchild, hne⟩ := h.inside hmem
      obtain ⟨path, id, mode, hleaf⟩ := hchild.exists_leaf hne
      exact ⟨path, id, mode, .inside hmem hleaf⟩

/-- An entry is in every directory with the same leaves. -/
theorem mem_of_leaves (hdir : WellFormed dir) (hdir' : WellFormed dir')
    (h : ∀ path id mode, Leaf dir path id mode ↔ Leaf dir' path id mode)
    (hsame : ∀ name child child', (name, .directory child) ∈ dir →
      (name, .directory child') ∈ dir' →
      (∀ path id mode, Leaf child path id mode ↔ Leaf child' path id mode) → child = child')
    {name : String} {entry : TreeEntry} (hmem : (name, entry) ∈ dir) : (name, entry) ∈ dir' := by
  cases entry with
  | file id mode =>
      have hleaf := (h _ _ _).mp (.file hmem)
      cases hleaf with
      | file hmem' => exact hmem'
      | inside _ hleaf => exact absurd hleaf not_leaf_nil
  | directory child =>
      obtain ⟨hchild, hne⟩ := hdir.inside hmem
      obtain ⟨path, id, mode, hleaf⟩ := hchild.exists_leaf hne
      obtain ⟨entry', hmem', hleads⟩ := leaf_cons.mp ((h _ _ _).mp (.inside hmem hleaf))
      cases entry' with
      | file i m =>
          rw [hleads.1] at hleaf
          exact absurd hleaf not_leaf_nil
      | directory child' =>
          have heq : child = child' := by
            refine hsame name child child' hmem hmem' fun path id mode => ?_
            have hleft : Leaf dir (name :: path) id mode ↔ Leaf child path id mode :=
              leaf_cons_of_mem hdir.sorted hmem
            have hright : Leaf dir' (name :: path) id mode ↔ Leaf child' path id mode :=
              leaf_cons_of_mem hdir'.sorted hmem'
            rw [← hleft, h, hright]
          exact heq ▸ hmem'

/-- **A directory is determined by its leaves.** -/
theorem WellFormed.ext (hdir : WellFormed dir) (hdir' : WellFormed dir')
    (h : ∀ path id mode, Leaf dir path id mode ↔ Leaf dir' path id mode) : dir = dir' := by
  induction hdir generalizing dir' with
  | @mk dir hsorted hne hwf ih =>
      have hdir : WellFormed dir := .mk hsorted hne hwf
      have hsame : ∀ name child child', (name, .directory child) ∈ dir →
          (name, .directory child') ∈ dir' →
          (∀ path id mode, Leaf child path id mode ↔ Leaf child' path id mode) → child = child' :=
        fun name child child' hmem hmem' => ih name child hmem (hdir'.inside hmem').1
      have hmem : ∀ name entry, (name, entry) ∈ dir ↔ (name, entry) ∈ dir' := by
        intro name entry
        constructor
        · exact mem_of_leaves hdir hdir' h hsame
        · refine mem_of_leaves hdir' hdir (fun path id mode => (h path id mode).symm) ?_
          exact fun name child child' hchild hchild' hleaves =>
            (hsame name child' child hchild' hchild fun path id mode =>
              (hleaves path id mode).symm).symm
      refine ext_of_sortedKeys hsorted hdir'.sorted fun name => ?_
      ext entry
      rw [lookupKey_eq_some_iff hsorted.nodup, lookupKey_eq_some_iff hdir'.sorted.nodup, hmem]

/-! ### Insertion -/

/-- The entry of a name that is found, and none if it is not. -/
theorem find?_entry (dir : Directory) (name : String) :
    (∃ entry, dir.find? (·.1 == name) = some (name, entry) ∧ (name, entry) ∈ dir) ∨
      (dir.find? (·.1 == name) = none ∧ ∀ entry, (name, entry) ∉ dir) := by
  cases hfind : dir.find? (·.1 == name) with
  | none =>
      refine .inr ⟨rfl, fun entry hmem => ?_⟩
      simpa using List.find?_eq_none.mp hfind _ hmem
  | some e =>
      obtain ⟨other, entry⟩ := e
      obtain rfl : other = name := by simpa using List.find?_some hfind
      exact .inl ⟨entry, rfl, List.mem_of_find?_eq_some hfind⟩

theorem wellFormed_nil : WellFormed [] := .mk .nil (by simp) (by simp)

theorem WellFormed.put {entry : TreeEntry} (h : WellFormed dir)
    (hentry : ∀ child, entry = .directory child → WellFormed child ∧ child ≠ []) :
    WellFormed (putEntry dir name entry) := by
  have hinside : ∀ other child, (other, .directory child) ∈ putEntry dir name entry →
      WellFormed child ∧ child ≠ [] := by
    intro other child hmem
    rcases (mem_putEntry h.sorted).mp hmem with ⟨-, heq⟩ | ⟨-, hmem⟩
    · exact hentry child heq.symm
    · exact h.inside hmem
  exact .mk (sortedKeys_putEntry h.sorted) (fun other child hmem => (hinside other child hmem).2)
    fun other child hmem => (hinside other child hmem).1

/-- The leaves below the name are those of the entry; the others stay. -/
theorem leaf_putEntry {entry : TreeEntry} (h : SortedKeys dir) {other : String} :
    Leaf (putEntry dir name entry) (other :: path) id mode ↔
      if other = name then Leads entry path id mode else Leaf dir (other :: path) id mode := by
  simp only [leaf_cons, mem_putEntry h]
  split
  · next heq => simp [heq]
  · next hne => simp [hne]

theorem putEntry_ne_nil (dir : Directory) (name : String) (entry : TreeEntry) :
    putEntry dir name entry ≠ [] := by
  cases dir with
  | nil => simp [putEntry]
  | cons head rest =>
      obtain ⟨key, value⟩ := head
      rw [putEntry]
      split <;> simp

/-- What an insertion does: it fails when the path of a leaf is a prefix of the
new path or the other way round; otherwise the new leaf is there too. -/
def InsertSpec (dir : Directory) (parts : List String) (id mode : String) :
    Except CliError Directory → Prop
  | .ok dir' => WellFormed dir' ∧ dir' ≠ [] ∧
      (∀ p i m, Leaf dir' p i m ↔ (p = parts ∧ i = id ∧ m = mode) ∨ Leaf dir p i m) ∧
      ∀ p i m, Leaf dir p i m → ¬p <+: parts ∧ ¬parts <+: p
  | .error _ => ∃ p i m, Leaf dir p i m ∧ (p <+: parts ∨ parts <+: p)

/-- An insertion below a name. -/
theorem InsertSpec.below {rest : List String} {result : Except CliError Directory}
    (hdir : WellFormed dir)
    (hbelow : ∀ p i m, Leaf dir (name :: p) i m ↔ Leaf child p i m)
    (h : InsertSpec child rest id mode result) :
    InsertSpec dir (name :: rest) id mode
      (result >>= fun child' => .ok (putEntry dir name (.directory child'))) := by
  cases result with
  | error e =>
      obtain ⟨p, i, m, hleaf, hprefix⟩ := h
      refine ⟨name :: p, i, m, (hbelow p i m).mpr hleaf, ?_⟩
      simpa using hprefix
  | ok child' =>
      obtain ⟨hwf, hne, hleaves, hapart⟩ := h
      refine ⟨hdir.put ?_, putEntry_ne_nil _ _ _, fun p i m => ?_, fun p i m hleaf => ?_⟩
      · rintro _ ⟨⟩
        exact ⟨hwf, hne⟩
      · cases p with
        | nil => simp [not_leaf_nil]
        | cons other p =>
            rw [leaf_putEntry hdir.sorted]
            split
            · next heq =>
                subst heq
                rw [hbelow, Leads, hleaves, List.cons_inj_right]
            · next hother => simp [hother]
      · cases p with
        | nil => exact absurd hleaf not_leaf_nil
        | cons other p =>
            rw [List.cons_prefix_cons, List.cons_prefix_cons]
            by_cases heq : other = name
            · subst heq
              have hchild := hapart p i m ((hbelow p i m).mp hleaf)
              simpa using hchild
            · simp [heq, Ne.symm heq]

/-- The insertion of a file under its last name. -/
theorem InsertSpec.last (hdir : WellFormed dir) (hnot : ∀ entry, (name, entry) ∉ dir) :
    InsertSpec dir [name] id mode (.ok (putEntry dir name (.file id mode))) := by
  have hother : ∀ {other p i m}, Leaf dir (other :: p) i m → other ≠ name := by
    rintro other p i m hleaf rfl
    obtain ⟨entry, hmem, -⟩ := leaf_cons.mp hleaf
    exact hnot entry hmem
  refine ⟨hdir.put (by simp), putEntry_ne_nil _ _ _, fun p i m => ?_, fun p i m hleaf => ?_⟩
  · cases p with
    | nil => simp [not_leaf_nil]
    | cons other p =>
        rw [leaf_putEntry hdir.sorted]
        split
        · next heq =>
            subst heq
            have hnone : ¬Leaf dir (other :: p) i m := fun hleaf => hother hleaf rfl
            simp [Leads, hnone]
        · next hne => simp [hne]
  · cases p with
    | nil => exact absurd hleaf not_leaf_nil
    | cons other p =>
        have hne := hother hleaf
        simp [List.cons_prefix_cons, hne, Ne.symm hne]

/-- **Insertion.** -/
theorem insertEntry_spec {parts : List String} (hdir : WellFormed dir) (hparts : parts ≠ []) :
    InsertSpec dir parts id mode (insertEntry dir parts id mode) := by
  induction parts generalizing dir with
  | nil => exact absurd rfl hparts
  | cons name rest ih =>
      cases rest with
      | nil =>
          rw [insertEntry]
          rcases find?_entry dir name with ⟨entry, hfind, hmem⟩ | ⟨hfind, hnot⟩
          · -- the name is taken, by a file or by a directory that has leaves
            obtain ⟨p, i, m, hleaf⟩ := hdir.exists_leaf_cons hmem
            rw [hfind]
            exact ⟨name :: p, i, m, hleaf, .inr (by simp)⟩
          · rw [hfind]
            exact InsertSpec.last hdir hnot
      | cons next rest =>
          have hrest : next :: rest ≠ [] := List.cons_ne_nil _ _
          rw [insertEntry_cons_cons]
          rcases find?_entry dir name with ⟨entry, hfind, hmem⟩ | ⟨hfind, hnot⟩
          · rw [hfind]
            cases entry with
            | file i m => exact ⟨[name], i, m, .file hmem, .inl (by simp)⟩
            | directory child =>
                exact InsertSpec.below hdir (fun p i m => leaf_cons_of_mem hdir.sorted hmem)
                  (ih (hdir.inside hmem).1 hrest)
          · rw [hfind]
            refine InsertSpec.below hdir (fun p i m => ?_) (ih wellFormed_nil hrest)
            simp [leaf_cons, hnot, not_leaf_empty]

end Leaves

end RGit.Cli
