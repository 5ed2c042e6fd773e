/-
RGit/Lib/FileTree.lean

Directory trees.

A tree has a directory or a leaf at each of finitely many paths.  The empty path
is a directory, and so is what a path goes through; the two are fields of the
tree, so the operations below cannot build anything else.  Each one changes what
is at one path (`ChangedAt`), and what it does to the leaves is said apart: a
directory comes and goes without a leaf changing (`makeDirectory_leafAt`,
`removeDirectory_leafAt`).

Nothing here mentions the modelled program.
-/
import Mathlib.Data.List.Induction
import Mathlib.Data.List.Nodup
import Mathlib.Logic.Function.Basic
import RGit.Lib.Maps

/-- What is at a path. -/
inductive Node (ν : Type) where
  | directory
  | leaf (value : ν)

def Node.leaf? {ν : Type} : Node ν → Option ν
  | .directory => none
  | .leaf v => some v

structure FileTree (α ν : Type) [Ord α] [Std.TransOrd (List α)] where
  nodes : BTreeMap (List α) (Node ν)
  root : nodes[([] : List α)]? = some .directory
  parents : ∀ path : List α, nodes[path]? ≠ none → path ≠ [] →
    nodes[path.dropLast]? = some .directory

namespace FileTree

variable {α ν : Type} [Ord α] [Std.TransOrd (List α)]

def node (tree : FileTree α ν) (path : List α) : Option (Node ν) := tree.nodes[path]?

/-- The leaf at a path. -/
def leafAt (tree : FileTree α ν) (path : List α) : Option ν := (tree.node path).bind Node.leaf?

def isDirectory (tree : FileTree α ν) (path : List α) : Bool :=
  match tree.node path with
  | some .directory => true
  | _ => false

/-- The last name of a path, if the path is in this directory. -/
def nameIn [DecidableEq α] (directory path : List α) : Option α :=
  if path.dropLast = directory then path.getLast? else none

/-- The names in a directory. -/
def names [DecidableEq α] (tree : FileTree α ν) (directory : List α) : List α :=
  (tree.nodes.toList.map (·.1)).filterMap (nameIn directory)

section Reading

variable {tree : FileTree α ν} {path path' : List α} {v : ν}

theorem isDirectory_iff : tree.isDirectory path = true ↔ tree.node path = some .directory := by
  rw [isDirectory]
  split
  · next h => simp [h]
  · next h => simpa using h

theorem leafAt_eq_some : tree.leafAt path = some v ↔ tree.node path = some (.leaf v) := by
  rw [leafAt]
  cases tree.node path with
  | none => simp
  | some node => cases node <;> simp [Node.leaf?]

theorem leafAt_eq_none :
    tree.leafAt path = none ↔ tree.node path = none ∨ tree.node path = some .directory := by
  rw [leafAt]
  cases tree.node path with
  | none => simp
  | some node => cases node <;> simp [Node.leaf?]

theorem node_nil : tree.node [] = some .directory := tree.root

theorem node_parent (h : tree.node path ≠ none) (hne : path ≠ []) :
    tree.node path.dropLast = some .directory := tree.parents path h hne

theorem node_parent_concat {name : α} (h : tree.node (path ++ [name]) ≠ none) :
    tree.node path = some .directory := by
  have hparent := node_parent h (by simp)
  rwa [List.dropLast_concat] at hparent

/-- What a path goes through is a directory. -/
theorem node_of_append {rest : List α} (h : tree.node (path ++ rest) ≠ none) (hne : rest ≠ []) :
    tree.node path = some .directory := by
  induction rest using List.reverseRecOn with
  | nil => exact absurd rfl hne
  | append_singleton rest name ih =>
      rw [← List.append_assoc] at h
      have hparent := node_parent_concat h
      cases rest with
      | nil => rwa [List.append_nil] at hparent
      | cons other rest => exact ih (by simp [hparent]) (List.cons_ne_nil _ _)

theorem node_append_eq_none {rest : List α} (h : tree.node path ≠ some .directory)
    (hne : rest ≠ []) : tree.node (path ++ rest) = none := by
  by_contra hsome
  exact h (node_of_append hsome hne)

variable [Std.LawfulEqOrd (List α)] [DecidableEq α]

omit [Ord α] [Std.TransOrd (List α)] [Std.LawfulEqOrd (List α)] in
theorem nameIn_eq_some {directory : List α} {name : α} :
    nameIn directory path = some name ↔ path = directory ++ [name] := by
  rw [nameIn]
  constructor
  · intro h
    split at h
    · next hparent =>
        obtain ⟨front, rfl⟩ := List.getLast?_eq_some_iff.mp h
        rw [List.dropLast_concat] at hparent
        rw [hparent]
    · cases h
  · rintro rfl
    rw [List.dropLast_concat, if_pos rfl, List.getLast?_concat]

theorem mem_names {directory : List α} {name : α} :
    name ∈ tree.names directory ↔ tree.node (directory ++ [name]) ≠ none := by
  simp only [names, List.mem_filterMap, nameIn_eq_some, List.mem_map, Prod.exists,
    BTreeMap.mem_toList_iff_get, exists_and_right, exists_eq_right, node]
  rw [Option.ne_none_iff_exists']

end Reading

/-! ### The operations -/

/-- A directory with nothing in it. -/
def empty [Std.LawfulEqOrd (List α)] : FileTree α ν where
  nodes := (∅ : BTreeMap (List α) (Node ν)).insert [] .directory
  root := BTreeMap.get_insert_self _ _ _
  parents path hpath hne := by
    rw [BTreeMap.get_insert_of_ne _ _ hne.symm] at hpath
    exact absurd Std.ExtTreeMap.getElem?_empty hpath

variable [Std.LawfulEqOrd (List α)]

section Changing

variable (tree : FileTree α ν) (path : List α)

/-- The tree with another node at a path, where what is there has nothing below. -/
def put (node : Node ν) (hne : path ≠ []) (hparent : tree.node path.dropLast = some .directory)
    (hdirectory : tree.node path ≠ some .directory) : FileTree α ν where
  nodes := tree.nodes.insert path node
  root := by
    rw [BTreeMap.get_insert_of_ne _ _ hne]
    exact tree.root
  parents other hother hother' := by
    have hself : path ≠ path.dropLast := fun h => by
      have hlength := congrArg List.length h
      have hpos := List.length_pos_iff.mpr hne
      rw [List.length_dropLast] at hlength
      omega
    by_cases heq : path = other
    · subst heq
      rw [BTreeMap.get_insert_of_ne _ _ hself]
      exact hparent
    · rw [BTreeMap.get_insert_of_ne _ _ heq] at hother
      have hold := tree.parents other hother hother'
      rwa [BTreeMap.get_insert_of_ne]
      rintro rfl
      exact hdirectory hold

/-- A leaf, new or in the place of another one. -/
def setLeaf (v : ν) : Option (FileTree α ν) :=
  if h : path ≠ [] ∧ tree.isDirectory path.dropLast = true ∧ tree.isDirectory path = false then
    some (tree.put path (.leaf v) h.1 (isDirectory_iff.mp h.2.1)
      fun hdirectory => by simp [isDirectory_iff.mpr hdirectory] at h)
  else none

/-- A new directory. -/
def makeDirectory : Option (FileTree α ν) :=
  if h : path ≠ [] ∧ tree.isDirectory path.dropLast = true ∧ (tree.node path).isNone = true then
    some (tree.put path .directory h.1 (isDirectory_iff.mp h.2.1)
      fun hdirectory => by simp [hdirectory] at h)
  else none

/-- The tree without a node that has nothing below. -/
def drop (hne : path ≠ []) (hbelow : ∀ other, tree.node other ≠ none → other ≠ [] →
    other.dropLast ≠ path) : FileTree α ν where
  nodes := tree.nodes.erase path
  root := by
    rw [BTreeMap.get_erase_eq_some_iff]
    exact ⟨hne, tree.root⟩
  parents other hother hother' := by
    obtain ⟨node, hnode⟩ := Option.ne_none_iff_exists'.mp hother
    obtain ⟨-, hold⟩ := BTreeMap.get_erase_eq_some_iff.mp hnode
    have hsome : tree.node other ≠ none := Option.ne_none_iff_exists'.mpr ⟨node, hold⟩
    exact BTreeMap.get_erase_eq_some_iff.mpr
      ⟨(hbelow other hsome hother').symm, tree.parents other hsome hother'⟩

/-- The tree without a leaf. -/
def removeLeaf : Option (FileTree α ν) :=
  if h : (tree.leafAt path).isSome = true then
    some (tree.drop path
      (fun heq => by
        subst heq
        obtain ⟨v, hv⟩ := Option.isSome_iff_exists.mp h
        rw [leafAt_eq_some, node_nil] at hv
        cases hv)
      (fun other hother hne heq => by
        have hparent := node_parent hother hne
        obtain ⟨v, hv⟩ := Option.isSome_iff_exists.mp h
        rw [heq, leafAt_eq_some.mp hv] at hparent
        cases hparent))
  else none

/-- The tree without an empty directory. -/
def removeDirectory [DecidableEq α] : Option (FileTree α ν) :=
  if h : path ≠ [] ∧ tree.isDirectory path = true ∧ tree.names path = [] then
    some (tree.drop path h.1 fun other hother hne heq => by
      have hlast := List.dropLast_append_getLast hne
      rw [heq] at hlast
      have hmem := mem_names.mpr (hlast.symm ▸ hother)
      rw [h.2.2] at hmem
      cases hmem)
  else none

/-- A leaf takes the place of what is at another path. -/
def rename (target : List α) : Option (FileTree α ν) := do
  let v ← tree.leafAt path
  let tree ← tree.removeLeaf path
  tree.setLeaf target v

end Changing

section Changes

variable {tree tree' : FileTree α ν} {path : List α} {v : ν}

/-- The trees differ at most at this path, where the second one has this. -/
def ChangedAt (tree tree' : FileTree α ν) (path : List α) (node : Option (Node ν)) : Prop :=
  tree'.node path = node ∧ ∀ other, other ≠ path → tree'.node other = tree.node other

omit [Std.LawfulEqOrd (List α)] in
theorem ChangedAt.leafAt [DecidableEq α] {node : Option (Node ν)}
    (h : ChangedAt tree tree' path node) :
    tree'.leafAt = Function.update tree.leafAt path
      (node.bind Node.leaf?) := by
  funext other
  by_cases hother : other = path
  · subst hother
    rw [Function.update_self, FileTree.leafAt, h.1]
  · rw [Function.update_of_ne hother, FileTree.leafAt, FileTree.leafAt, h.2 other hother]

theorem changedAt_put {node : Node ν} {hne : path ≠ []}
    {hparent : tree.node path.dropLast = some .directory}
    {hdirectory : tree.node path ≠ some .directory} :
    ChangedAt tree (tree.put path node hne hparent hdirectory) path (some node) :=
  ⟨BTreeMap.get_insert_self _ _ _, fun _ hother => BTreeMap.get_insert_of_ne _ _ hother.symm⟩

theorem changedAt_drop {hne : path ≠ []} {hbelow : ∀ other, tree.node other ≠ none → other ≠ [] →
    other.dropLast ≠ path} : ChangedAt tree (tree.drop path hne hbelow) path none := by
  constructor
  · by_contra hsome
    obtain ⟨node, hnode⟩ := Option.ne_none_iff_exists'.mp hsome
    exact (BTreeMap.get_erase_eq_some_iff.mp hnode).1 rfl
  · intro other hother
    ext node
    show (tree.nodes.erase path)[other]? = some node ↔ tree.nodes[other]? = some node
    rw [BTreeMap.get_erase_eq_some_iff]
    exact ⟨fun h => h.2, fun h => ⟨hother.symm, h⟩⟩

theorem setLeaf_changes (h : tree.setLeaf path v = some tree') :
    ChangedAt tree tree' path (some (.leaf v)) := by
  rw [setLeaf] at h
  split at h
  · obtain rfl := Option.some.inj h
    exact changedAt_put
  · cases h

theorem makeDirectory_changes (h : tree.makeDirectory path = some tree') :
    tree.node path = none ∧ ChangedAt tree tree' path (some .directory) := by
  rw [makeDirectory] at h
  split at h
  · next hcond =>
      obtain rfl := Option.some.inj h
      exact ⟨Option.isNone_iff_eq_none.mp hcond.2.2, changedAt_put⟩
  · cases h

theorem removeLeaf_changes (h : tree.removeLeaf path = some tree') :
    ChangedAt tree tree' path none := by
  rw [removeLeaf] at h
  split at h
  · obtain rfl := Option.some.inj h
    exact changedAt_drop
  · cases h

variable [DecidableEq α]

theorem removeDirectory_changes (h : tree.removeDirectory path = some tree') :
    tree.node path = some .directory ∧ ChangedAt tree tree' path none := by
  rw [removeDirectory] at h
  split at h
  · next hcond =>
      obtain rfl := Option.some.inj h
      exact ⟨isDirectory_iff.mp hcond.2.1, changedAt_drop⟩
  · cases h

/-! ### The leaves -/

theorem setLeaf_leafAt (h : tree.setLeaf path v = some tree') :
    tree'.leafAt = Function.update tree.leafAt path (some v) :=
  (setLeaf_changes h).leafAt

theorem removeLeaf_leafAt (h : tree.removeLeaf path = some tree') :
    tree'.leafAt = Function.update tree.leafAt path none :=
  (removeLeaf_changes h).leafAt

/-- A renamed leaf leaves its path. -/
theorem rename_leafAt {target : List α} (h : tree.rename path target = some tree') :
    ∃ v, tree.leafAt path = some v ∧
      tree'.leafAt = Function.update (Function.update tree.leafAt path none) target (some v) := by
  obtain ⟨v, hv, h⟩ := Option.bind_eq_some_iff.mp h
  obtain ⟨middle, hmiddle, h⟩ := Option.bind_eq_some_iff.mp h
  exact ⟨v, hv, by rw [setLeaf_leafAt h, removeLeaf_leafAt hmiddle]⟩

theorem makeDirectory_leafAt (h : tree.makeDirectory path = some tree') :
    tree'.leafAt = tree.leafAt := by
  obtain ⟨hnode, hchanged⟩ := makeDirectory_changes h
  have hnone : tree.leafAt path = none := leafAt_eq_none.mpr (.inl hnode)
  rw [hchanged.leafAt, ← Function.update_eq_self path tree.leafAt, hnone,
    Function.update_idem]
  rfl

theorem removeDirectory_leafAt (h : tree.removeDirectory path = some tree') :
    tree'.leafAt = tree.leafAt := by
  obtain ⟨hnode, hchanged⟩ := removeDirectory_changes h
  have hnone : tree.leafAt path = none := leafAt_eq_none.mpr (.inr hnode)
  rw [hchanged.leafAt, ← Function.update_eq_self path tree.leafAt, hnone,
    Function.update_idem]
  rfl

end Changes

end FileTree
