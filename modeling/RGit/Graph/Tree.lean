/-
RGit/Graph/Tree.lean

Tree entries and the portable collisions among them.

`firstPortableCollision` puts one path after the other into a tree whose
branches are keyed by the folded spelling of a segment.  `Represents` says
which paths such a tree holds; a path can be added exactly when it collides
with none of them (`Represents.insertPath`).
-/
import RGit.Objects.Typed
import RGit.Lib.Lists
import RGit.Lib.Maps

namespace RGit

/-- `PathKey`: the segments of a path as bytes. -/
abbrev PathKey := List Bytes

section Tree

variable [Unicode]

/-- A manifest target at a full path; the path of an entry is not empty. -/
structure TreeEntry where
  path : PortablePath
  target : ManifestTarget
  policyRef : PolicyRef
  nonempty : path.segments ≠ []
  deriving DecidableEq

inductive TreeEntryError where
  | emptyPath
  deriving DecidableEq

namespace TreeEntry

/-- `TreeEntry::new`. -/
def new (path : PortablePath) (target : ManifestTarget) (policyRef : PolicyRef) :
    Except TreeEntryError TreeEntry :=
  if h : path.segments = [] then .error .emptyPath else .ok ⟨path, target, policyRef, h⟩

end TreeEntry

theorem PortablePath.segments_injective : Function.Injective PortablePath.segments := by
  intro p q h
  cases p
  cases q
  cases h
  rfl

/-- `path_key_bytes`. -/
def pathKeyBytes (path : PortablePath) : PathKey :=
  path.segments.map fun segment => utf8Bytes segment.value

/-- `TreeEntry::path_key`. -/
def TreeEntry.pathKey (e : TreeEntry) : PathKey := pathKeyBytes e.path

/-! ### The tree of `first_portable_collision` -/

mutual

/-- `PortableTreeNode`, with its children by folded spelling. -/
inductive PortableTreeNode where
  | mk (terminal : Option PortablePath) (children : List (String × PortableTreeChild))

/-- `PortableTreeChild`. -/
inductive PortableTreeChild where
  | mk (spelling : String) (representative : PortablePath) (node : PortableTreeNode)

end

namespace PortableTreeNode

def terminal : PortableTreeNode → Option PortablePath
  | mk terminal _ => terminal

def children : PortableTreeNode → List (String × PortableTreeChild)
  | mk _ children => children

/-- `PortableTreeNode::default()`. -/
def empty : PortableTreeNode := mk none []

end PortableTreeNode

namespace PortableTreeChild

def spelling : PortableTreeChild → String
  | mk spelling _ _ => spelling

def representative : PortableTreeChild → PortablePath
  | mk _ representative _ => representative

def node : PortableTreeChild → PortableTreeNode
  | mk _ _ node => node

end PortableTreeChild

/-- `min_by_key(path_key_bytes)`; the children of a node stand for different
paths, so it does not matter in which order they are listed. -/
def leastPath (first : PortablePath) (rest : List PortablePath) : PortablePath :=
  rest.foldl (fun best path =>
    if compare (pathKeyBytes path) (pathKeyBytes best) = .lt then path else best) first

/-- The body of the loop over the entries: descend along `segments` and leave
`currentPath` there, or name a pair of paths that cannot coexist. -/
def insertPath (currentPath : PortablePath) :
    List PathSegment → PortableTreeNode → Except (PortablePath × PortablePath) PortableTreeNode
  | [], node =>
      match node.children with
      | [] => .ok (.mk (some currentPath) [])
      | (_, child) :: children =>
          .error (currentPath,
            leastPath child.representative (children.map fun (_, c) => c.representative))
  | segment :: segments, node =>
      match node.terminal with
      | some ancestor => .error (ancestor, currentPath)
      | none =>
          let folded := segment.caseFold
          let child := (lookupKey node.children folded).getD
            (.mk segment.value currentPath .empty)
          if child.spelling ≠ segment.value then .error (child.representative, currentPath)
          else do
            let below ← insertPath currentPath segments child.node
            .ok (.mk none (insertKey node.children folded
              (.mk child.spelling child.representative below)))

/-- `first_portable_collision`. -/
def firstPortableCollision (entries : BTreeMap PathKey TreeEntry) :
    Option (PortablePath × PortablePath) :=
  match entries.values.foldlM
      (fun root entry => insertPath entry.path entry.path.segments root) .empty with
  | .ok _ => none
  | .error pair => some pair

/-! ### Collisions -/

/-- Two paths that cannot be files of one portable tree: one is beneath the
other, or they spell a sibling differently. -/
def Collide (p q : List PathSegment) : Prop :=
  (∃ s rest, q = p ++ s :: rest) ∨ (∃ s rest, p = q ++ s :: rest) ∨
    ∃ dir s t rest rest', p = dir ++ s :: rest ∧ q = dir ++ t :: rest' ∧
      s.caseFold = t.caseFold ∧ s ≠ t

theorem Collide.symm {p q : List PathSegment} (h : Collide p q) : Collide q p := by
  rcases h with h | h | ⟨dir, s, t, rest, rest', hp, hq, hfold, hne⟩
  · exact .inr (.inl h)
  · exact .inl h
  · exact .inr (.inr ⟨dir, t, s, rest', rest, hq, hp, hfold.symm, hne.symm⟩)

theorem not_collide_self (p : List PathSegment) : ¬ Collide p p := by
  rintro (⟨s, rest, h⟩ | ⟨s, rest, h⟩ | ⟨dir, s, t, rest, rest', hp, hq, -, hne⟩)
  · simp at h
  · simp at h
  · rw [hp] at hq
    cases List.append_cancel_left hq
    exact hne rfl

theorem collide_nil_left {q : List PathSegment} : Collide [] q ↔ q ≠ [] := by
  constructor
  · rintro (⟨s, rest, rfl⟩ | ⟨s, rest, h⟩ | ⟨dir, s, t, rest, rest', hp, -⟩)
    · simp
    · simp at h
    · simp at hp
  · intro hq
    obtain ⟨s, rest, rfl⟩ := List.exists_cons_of_ne_nil hq
    exact .inl ⟨s, rest, rfl⟩

theorem collide_nil_right {p : List PathSegment} : Collide p [] ↔ p ≠ [] :=
  ⟨fun h => collide_nil_left.mp h.symm, fun h => (collide_nil_left.mpr h).symm⟩

theorem collide_cons {s t : PathSegment} {p q : List PathSegment} :
    Collide (s :: p) (t :: q) ↔
      (s.caseFold = t.caseFold ∧ s ≠ t) ∨ (s = t ∧ Collide p q) := by
  constructor
  · rintro (⟨u, rest, h⟩ | ⟨u, rest, h⟩ | ⟨dir, u, v, rest, rest', hp, hq, hfold, hne⟩)
    · cases h
      exact .inr ⟨rfl, .inl ⟨u, rest, rfl⟩⟩
    · cases h
      exact .inr ⟨rfl, .inr (.inl ⟨u, rest, rfl⟩)⟩
    · cases dir with
      | nil =>
          cases hp
          cases hq
          exact .inl ⟨hfold, hne⟩
      | cons d dir =>
          cases hp
          cases hq
          exact .inr ⟨rfl, .inr (.inr ⟨dir, u, v, rest, rest', rfl, rfl, hfold, hne⟩)⟩
  · rintro (⟨hfold, hne⟩ | ⟨rfl, h⟩)
    · exact .inr (.inr ⟨[], s, t, p, q, rfl, rfl, hfold, hne⟩)
    · rcases h with ⟨u, rest, rfl⟩ | ⟨u, rest, rfl⟩ | ⟨dir, u, v, rest, rest', rfl, rfl, h⟩
      · exact .inl ⟨u, rest, rfl⟩
      · exact .inr (.inl ⟨u, rest, rfl⟩)
      · exact .inr (.inr ⟨s :: dir, u, v, rest, rest', rfl, rfl, h⟩)

/-! ### What a tree holds -/

/-- What `paths` has beneath the segments with this folded spelling. -/
def beneath (folded : String) (paths : List (List PathSegment)) : List (List PathSegment) :=
  paths.filterMap fun
    | [] => none
    | s :: rest => if s.caseFold = folded then some rest else none

theorem mem_beneath {folded : String} {paths : List (List PathSegment)} {rest : List PathSegment} :
    rest ∈ beneath folded paths ↔ ∃ s, s :: rest ∈ paths ∧ s.caseFold = folded := by
  simp only [beneath, List.mem_filterMap]
  constructor
  · rintro ⟨_ | ⟨s, rest'⟩, hmem, h⟩
    · cases h
    · dsimp only at h
      split at h
      · cases h
        exact ⟨s, hmem, by assumption⟩
      · cases h
  · rintro ⟨s, hmem, hfold⟩
    exact ⟨s :: rest, hmem, if_pos hfold⟩

@[simp] theorem beneath_nil (folded : String) : beneath folded [] = [] := rfl

@[simp] theorem beneath_cons_nil (folded : String) (paths : List (List PathSegment)) :
    beneath folded ([] :: paths) = beneath folded paths := rfl

theorem beneath_cons_of_eq {folded : String} {s : PathSegment} (h : s.caseFold = folded)
    (rest : List PathSegment) (paths : List (List PathSegment)) :
    beneath folded ((s :: rest) :: paths) = rest :: beneath folded paths := by
  simp [beneath, h]

theorem beneath_cons_of_ne {folded : String} {s : PathSegment} (h : s.caseFold ≠ folded)
    (rest : List PathSegment) (paths : List (List PathSegment)) :
    beneath folded ((s :: rest) :: paths) = beneath folded paths := by
  simp [beneath, h]

/-- A node that holds these paths: it ends one of them or not, and each of its
children is spelled as all the paths through it and holds what follows. -/
inductive Represents : PortableTreeNode → List (List PathSegment) → Prop
  | mk {terminal : Option PortablePath} {children : List (String × PortableTreeChild)}
      {paths : List (List PathSegment)} (terminal_iff : terminal.isSome ↔ [] ∈ paths)
      (absent : ∀ folded, lookupKey children folded = none → beneath folded paths = [])
      (present : ∀ folded child, lookupKey children folded = some child →
        beneath folded paths ≠ [])
      (spelled : ∀ folded child, lookupKey children folded = some child →
        ∀ s rest, s :: rest ∈ paths → s.caseFold = folded → s.value = child.spelling)
      (inside : ∀ folded child, lookupKey children folded = some child →
        Represents child.node (beneath folded paths)) :
      Represents (.mk terminal children) paths

theorem Represents.empty : Represents .empty [] :=
  .mk (by simp) (fun _ _ => rfl) (fun _ _ h => by cases h) (fun _ _ h => by cases h)
    (fun _ _ h => by cases h)

/-- Below a segment that is spelled in one way only, a path collides with what
follows the segment. -/
theorem exists_collide_cons {paths : List (List PathSegment)} {s : PathSegment}
    {rest : List PathSegment} (hnil : [] ∉ paths)
    (hsame : ∀ t rest', t :: rest' ∈ paths → t.caseFold = s.caseFold → t = s) :
    (∃ p ∈ paths, Collide p (s :: rest)) ↔ ∃ p ∈ beneath s.caseFold paths, Collide p rest := by
  constructor
  · rintro ⟨_ | ⟨t, rest'⟩, hp, hc⟩
    · exact absurd hp hnil
    · rcases collide_cons.mp hc with ⟨hfold, hne⟩ | ⟨rfl, hrest⟩
      · exact absurd (hsame t rest' hp hfold) hne
      · exact ⟨rest', mem_beneath.mpr ⟨t, hp, rfl⟩, hrest⟩
  · rintro ⟨rest', hp, hc⟩
    obtain ⟨t, hmem, hfold⟩ := mem_beneath.mp hp
    obtain rfl := hsame t rest' hmem hfold
    exact ⟨t :: rest', hmem, collide_cons.mpr (.inr ⟨rfl, hc⟩)⟩

/-- A node with one more path through one of its children. -/
theorem represents_insertKey {children : List (String × PortableTreeChild)}
    {paths : List (List PathSegment)} {s : PathSegment} {rest : List PathSegment}
    {child : PortableTreeChild} {node' : PortableTreeNode} (hnil : [] ∉ paths)
    (absent : ∀ folded, lookupKey children folded = none → beneath folded paths = [])
    (present : ∀ folded child, lookupKey children folded = some child → beneath folded paths ≠ [])
    (spelled : ∀ folded child, lookupKey children folded = some child →
      ∀ s rest, s :: rest ∈ paths → s.caseFold = folded → s.value = child.spelling)
    (inside : ∀ folded child, lookupKey children folded = some child →
      Represents child.node (beneath folded paths))
    (hspell : ∀ t rest', t :: rest' ∈ paths → t.caseFold = s.caseFold →
      t.value = child.spelling) (hspelling : child.spelling = s.value)
    (hnode' : Represents node' (rest :: beneath s.caseFold paths)) :
    Represents (.mk none (insertKey children s.caseFold
      (.mk child.spelling child.representative node'))) ((s :: rest) :: paths) := by
  refine .mk (by simpa using hnil) ?_ ?_ ?_ ?_
  all_goals
    intro folded
    rw [lookupKey_insertKey]
    by_cases hfold : s.caseFold = folded
  · rw [if_pos hfold]
    rintro ⟨⟩
  · rw [if_neg hfold, beneath_cons_of_ne hfold]
    exact absent folded
  · rw [if_pos hfold, beneath_cons_of_eq hfold]
    rintro _ -
    simp
  · rw [if_neg hfold, beneath_cons_of_ne hfold]
    exact present folded
  · rw [if_pos hfold]
    rintro _ ⟨⟩ t rest' hmem hfold'
    rcases List.mem_cons.mp hmem with heq | hmem
    · cases heq
      exact hspelling.symm
    · exact hspell t rest' hmem (hfold'.trans hfold.symm)
  · rw [if_neg hfold]
    intro child' hchild' t rest' hmem hfold'
    rcases List.mem_cons.mp hmem with heq | hmem
    · cases heq
      exact absurd hfold' hfold
    · exact spelled folded child' hchild' t rest' hmem hfold'
  · rw [if_pos hfold, beneath_cons_of_eq hfold]
    rintro _ ⟨⟩
    exact hfold ▸ hnode'
  · rw [if_neg hfold, beneath_cons_of_ne hfold]
    exact inside folded

/-- **One path.**  A path is added exactly when it collides with none of the
paths of the tree. -/
theorem Represents.insertPath {node : PortableTreeNode} {paths : List (List PathSegment)}
    (h : Represents node paths) (current : PortablePath) {q : List PathSegment}
    (hq : q ∉ paths) :
    ((∀ p ∈ paths, ¬ Collide p q) ∧
      ∃ node', insertPath current q node = .ok node' ∧ Represents node' (q :: paths)) ∨
    (∃ p ∈ paths, Collide p q) ∧ ∃ pair, RGit.insertPath current q node = .error pair := by
  induction q generalizing node paths with
  | nil =>
      obtain @⟨terminal, children, paths, hterminal, habsent, hpresent, hspelled, hinside⟩ := h
      cases children with
      | nil =>
          have hnone : ∀ s rest, s :: rest ∉ paths := by
            intro s rest hmem
            have hbeneath := mem_beneath.mpr ⟨s, hmem, rfl⟩
            rw [habsent s.caseFold rfl] at hbeneath
            cases hbeneath
          refine .inl ⟨fun p hp => ?_, _, rfl, ?_⟩
          · cases p with
            | nil => exact absurd hp hq
            | cons s rest => exact absurd hp (hnone s rest)
          · refine .mk (by simp) (fun folded _ => habsent folded rfl) ?_ ?_ ?_
            all_goals
              intro folded child hchild
              cases hchild
      | cons entry children =>
          obtain ⟨folded, child⟩ := entry
          obtain ⟨rest, hrest⟩ := List.exists_mem_of_ne_nil _
            (hpresent folded child (lookupKey_cons_self _ _ _))
          obtain ⟨s, hs, -⟩ := mem_beneath.mp hrest
          exact .inr ⟨⟨s :: rest, hs, collide_nil_right.mpr (by simp)⟩, _, rfl⟩
  | cons s rest ih =>
      obtain @⟨terminal, children, paths, hterminal, habsent, hpresent, hspelled, hinside⟩ := h
      cases terminal with
      | some ancestor =>
          have hnil := hterminal.mp rfl
          exact .inr ⟨⟨[], hnil, collide_nil_left.mpr (by simp)⟩, _, rfl⟩
      | none =>
          have hnil : [] ∉ paths := fun hmem => by simpa using hterminal.mpr hmem
          rw [RGit.insertPath]
          dsimp only [PortableTreeNode.terminal, PortableTreeNode.children]
          -- the child that is there, or the one that is put there
          generalize hchild : (lookupKey children s.caseFold).getD
            (.mk s.value current .empty) = child
          have hfacts : Represents child.node (beneath s.caseFold paths) ∧
              (∀ t rest', t :: rest' ∈ paths → t.caseFold = s.caseFold →
                t.value = child.spelling) ∧
              (child.spelling ≠ s.value → beneath s.caseFold paths ≠ []) := by
            cases hlookup : lookupKey children s.caseFold with
            | none =>
                rw [hlookup] at hchild
                subst hchild
                have hbeneath := habsent _ hlookup
                refine ⟨hbeneath ▸ Represents.empty, fun t rest' hmem hfold => ?_,
                  fun hne => absurd rfl hne⟩
                have hmem := mem_beneath.mpr ⟨t, hmem, hfold⟩
                rw [hbeneath] at hmem
                cases hmem
            | some child' =>
                rw [hlookup] at hchild
                subst hchild
                exact ⟨hinside _ _ hlookup, hspelled _ _ hlookup, fun _ => hpresent _ _ hlookup⟩
          obtain ⟨hnode, hspell, hmismatch⟩ := hfacts
          by_cases hspelling : child.spelling = s.value
          · rw [if_neg (not_not.mpr hspelling)]
            have hsame : ∀ t rest', t :: rest' ∈ paths → t.caseFold = s.caseFold → t = s :=
              fun t rest' hmem hfold =>
                PathSegment.ext_value ((hspell t rest' hmem hfold).trans hspelling)
            have hcollide : (∃ p ∈ paths, Collide p (s :: rest)) ↔
                ∃ p ∈ beneath s.caseFold paths, Collide p rest :=
              exists_collide_cons hnil hsame
            have hfresh : rest ∉ beneath s.caseFold paths := by
              intro hmem
              obtain ⟨t, hmem, hfold⟩ := mem_beneath.mp hmem
              exact hq (hsame t rest hmem hfold ▸ hmem)
            rcases ih hnode hfresh with ⟨hall, node', hinsert, hrepresents⟩ | ⟨hex, e, herror⟩
            · refine .inl ⟨fun p hp hc => ?_, _, Except.bind_eq_ok.mpr ⟨node', hinsert, rfl⟩, ?_⟩
              · obtain ⟨p', hp', hc'⟩ := hcollide.mp ⟨p, hp, hc⟩
                exact hall p' hp' hc'
              · exact represents_insertKey hnil habsent hpresent hspelled hinside
                  (hspelling ▸ hspell) hspelling hrepresents
            · exact .inr ⟨hcollide.mpr hex, e, by rw [herror]; rfl⟩
          · rw [if_pos hspelling]
            obtain ⟨rest', hrest'⟩ := List.exists_mem_of_ne_nil _ (hmismatch hspelling)
            obtain ⟨t, hmem, hfold⟩ := mem_beneath.mp hrest'
            refine .inr ⟨⟨t :: rest', hmem, collide_cons.mpr (.inl ⟨hfold, ?_⟩)⟩, _, rfl⟩
            rintro rfl
            exact hspelling (hspell t rest' hmem rfl).symm

/-- **All paths.**  No collision is found exactly when no two entries collide. -/
theorem firstPortableCollision_eq_none {entries : BTreeMap PathKey TreeEntry}
    (hnodup : (entries.values.map (·.path.segments)).Nodup) :
    firstPortableCollision entries = none ↔
      entries.values.Pairwise fun a b => ¬ Collide a.path.segments b.path.segments := by
  have hloop : ∀ (l : List TreeEntry) (node : PortableTreeNode) (paths : List (List PathSegment)),
      Represents node paths → (l.map (·.path.segments)).Nodup →
      (∀ e ∈ l, e.path.segments ∉ paths) →
      ((∃ node', l.foldlM (fun root entry =>
          insertPath entry.path entry.path.segments root) node = .ok node') ↔
        (∀ e ∈ l, ∀ p ∈ paths, ¬ Collide p e.path.segments) ∧
        l.Pairwise fun a b => ¬ Collide a.path.segments b.path.segments) := by
    intro l
    induction l with
    | nil =>
        intro node paths _ _ _
        simp [pure, Except.pure]
    | cons e l ih =>
        intro node paths hrep hnodup hfresh
        rw [List.map_cons, List.nodup_cons] at hnodup
        rw [List.forall_mem_cons] at hfresh
        simp only [List.foldlM_cons, List.forall_mem_cons, List.pairwise_cons]
        rcases hrep.insertPath e.path hfresh.1 with
          ⟨hall, node', hinsert, hrep'⟩ | ⟨⟨p, hp, hc⟩, pair, herror⟩
        · have hfresh' : ∀ e' ∈ l, e'.path.segments ∉ e.path.segments :: paths := by
            intro e' he' hmem
            rcases List.mem_cons.mp hmem with heq | hmem
            · exact hnodup.1 (List.mem_map.mpr ⟨e', he', heq⟩)
            · exact hfresh.2 e' he' hmem
          rw [hinsert]
          refine (ih node' _ hrep' hnodup.2 hfresh').trans ?_
          simp only [List.forall_mem_cons]
          constructor
          · rintro ⟨hcross, hpairs⟩
            exact ⟨⟨hall, fun e' he' => (hcross e' he').2⟩, fun e' he' => (hcross e' he').1, hpairs⟩
          · rintro ⟨⟨-, hcross⟩, hfirst, hpairs⟩
            exact ⟨fun e' he' => ⟨hfirst e' he', hcross e' he'⟩, hpairs⟩
        · rw [herror]
          constructor
          · rintro ⟨_, ⟨⟩⟩
          · rintro ⟨⟨hall, -⟩, -⟩
            exact absurd hc (hall p hp)
  have hrun := hloop entries.values .empty [] .empty hnodup (by simp)
  rw [firstPortableCollision]
  cases hfold : entries.values.foldlM
      (fun root entry => insertPath entry.path entry.path.segments root) .empty with
  | ok node =>
      rw [hfold] at hrun
      simpa using (hrun.mp ⟨node, rfl⟩).2
  | error pair =>
      rw [hfold] at hrun
      simp only [reduceCtorEq, exists_false, List.not_mem_nil, false_imp_iff, implies_true,
        true_and, false_iff] at hrun
      simpa using hrun

end Tree

end RGit
