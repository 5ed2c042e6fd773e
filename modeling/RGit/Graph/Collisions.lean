/-
RGit/Graph/Collisions.lean

The pair that `first_portable_collision` names.

Every child of the tree stands for a path that was put into it: the
representative of the child goes through the child.  So when a path cannot be
added, the two paths that are named are paths of the set, and they collide
(`firstPortableCollision_spec`).
-/
import RGit.Graph.Merge

namespace RGit

section Collisions

variable [Unicode]

/-- A node at the directory `dir` of a tree of the `stored` paths: what it
names are stored paths, which end at the node or go through the child. -/
inductive Stands (stored : List PortablePath) : List PathSegment → PortableTreeNode → Prop
  | mk {dir : List PathSegment} {terminal : Option PortablePath}
      {children : List (String × PortableTreeChild)}
      (ended : ∀ path ∈ terminal, path ∈ stored ∧ path.segments = dir)
      (through : ∀ folded child, (folded, child) ∈ children →
        child.representative ∈ stored ∧ ∃ s rest,
          child.representative.segments = dir ++ s :: rest ∧ s.value = child.spelling ∧
            s.caseFold = folded)
      (inside : ∀ folded child s rest, (folded, child) ∈ children →
        child.representative.segments = dir ++ s :: rest →
        Stands stored (dir ++ [s]) child.node) :
      Stands stored dir (.mk terminal children)

variable {stored : List PortablePath} {dir : List PathSegment} {node : PortableTreeNode}

theorem Stands.empty : Stands stored dir .empty :=
  .mk (by simp) (fun _ _ h => by cases h) (fun _ _ _ _ h => by cases h)

/-- More stored paths. -/
theorem Stands.mono {stored' : List PortablePath} (hsubset : stored ⊆ stored')
    (h : Stands stored dir node) : Stands stored' dir node := by
  induction h with
  | mk ended through _ ih =>
      refine .mk (fun path hpath => ?_) (fun folded child hchild => ?_) ih
      · exact ⟨hsubset (ended path hpath).1, (ended path hpath).2⟩
      · exact ⟨hsubset (through folded child hchild).1, (through folded child hchild).2⟩

omit [Unicode] in
theorem leastPath_mem [Unicode] (first : PortablePath) (rest : List PortablePath) :
    leastPath first rest ∈ first :: rest := by
  rw [leastPath]
  induction rest generalizing first with
  | nil => exact List.mem_cons_self
  | cons path rest ih =>
      rw [List.foldl_cons]
      split
      · exact List.mem_cons_of_mem _ (ih path)
      · rcases List.mem_cons.mp (ih first) with h | h
        · rw [h]
          exact List.mem_cons_self
        · exact List.mem_cons_of_mem _ (List.mem_cons_of_mem _ h)

/-- **One path.**  A path that is put into the tree is stored there; if it is
not, the pair that is named consists of it and of a stored path, and collides. -/
theorem Stands.insertPath {current : PortablePath} {q : List PathSegment}
    (h : Stands stored dir node) (hcurrent : current.segments = dir ++ q) :
    match insertPath current q node with
    | .ok node' => Stands (current :: stored) dir node'
    | .error (a, b) => a ∈ current :: stored ∧ b ∈ current :: stored ∧
        Collide a.segments b.segments := by
  induction q generalizing dir node with
  | nil =>
      obtain @⟨dir, terminal, children, hended, hthrough, hinside⟩ := h
      rw [List.append_nil] at hcurrent
      cases children with
      | nil =>
          refine .mk (fun path hpath => ?_) (fun _ _ h => by cases h) (fun _ _ _ _ h => by cases h)
          obtain rfl := Option.some.inj hpath
          exact ⟨List.mem_cons_self, hcurrent⟩
      | cons entry children =>
          obtain ⟨folded, child⟩ := entry
          dsimp only [RGit.insertPath, PortableTreeNode.children]
          -- whichever child is named, its representative lies beneath the path
          have hnamed : ∀ path ∈ child.representative :: children.map (fun entry =>
              entry.2.representative), path ∈ stored ∧ ∃ s rest, path.segments = dir ++ s :: rest := by
            intro path hpath
            rw [← List.map_cons (f := fun (e : String × PortableTreeChild) => e.2.representative)
              (a := (folded, child))] at hpath
            obtain ⟨⟨folded', child'⟩, hmem, rfl⟩ := List.mem_map.mp hpath
            obtain ⟨hstored, s, rest, hsegments, -⟩ := hthrough folded' child' hmem
            exact ⟨hstored, s, rest, hsegments⟩
          obtain ⟨hstored, s, rest, hsegments⟩ := hnamed _ (leastPath_mem _ _)
          refine ⟨List.mem_cons_self, List.mem_cons_of_mem _ hstored, .inl ⟨s, rest, ?_⟩⟩
          rw [hsegments, hcurrent]
  | cons s q ih =>
      obtain @⟨dir, terminal, children, hended, hthrough, hinside⟩ := h
      cases terminal with
      | some ancestor =>
          obtain ⟨hstored, hsegments⟩ := hended ancestor rfl
          refine ⟨List.mem_cons_of_mem _ hstored, List.mem_cons_self, .inl ⟨s, q, ?_⟩⟩
          rw [hsegments, hcurrent]
      | none =>
          rw [RGit.insertPath]
          dsimp only [PortableTreeNode.terminal, PortableTreeNode.children]
          -- the child that is there, or the one that is put there
          generalize hchild : (lookupKey children s.caseFold).getD
            (.mk s.value current .empty) = child
          obtain ⟨hstored, t, rest, hsegments, hspelled, hfold, hnode⟩ :
              child.representative ∈ current :: stored ∧ ∃ t rest,
                child.representative.segments = dir ++ t :: rest ∧ t.value = child.spelling ∧
                  t.caseFold = s.caseFold ∧ Stands stored (dir ++ [t]) child.node := by
            cases hlookup : lookupKey children s.caseFold with
            | none =>
                rw [hlookup] at hchild
                subst hchild
                exact ⟨List.mem_cons_self, s, q, hcurrent, rfl, rfl, .empty⟩
            | some child' =>
                rw [hlookup] at hchild
                subst hchild
                have hmem := mem_of_lookupKey hlookup
                obtain ⟨hstored, t, rest, hsegments, hspelled, hfold⟩ := hthrough _ _ hmem
                exact ⟨List.mem_cons_of_mem _ hstored, t, rest, hsegments, hspelled, hfold,
                  hinside _ _ t rest hmem hsegments⟩
          by_cases hspelling : child.spelling = s.value
          · rw [if_neg (not_not.mpr hspelling)]
            obtain rfl : t = s := PathSegment.ext_value (hspelled.trans hspelling)
            have hbelow := ih hnode (by rw [hcurrent, List.append_assoc]; rfl)
            cases hinsert : RGit.insertPath current q child.node with
            | error pair =>
                rw [hinsert] at hbelow
                exact hbelow
            | ok node' =>
                rw [hinsert] at hbelow
                have hgrow : stored ⊆ current :: stored := List.subset_cons_self _ _
                refine .mk (by simp) (fun folded child' hmem => ?_)
                  (fun folded child' s' rest' hmem hsegments' => ?_)
                · rcases List.mem_cons.mp hmem with heq | hmem
                  · cases heq
                    exact ⟨hstored, t, rest, hsegments, hspelled, rfl⟩
                  · obtain ⟨hstored', h⟩ := hthrough _ _ (List.mem_filter.mp hmem).1
                    exact ⟨hgrow hstored', h⟩
                · rcases List.mem_cons.mp hmem with heq | hmem
                  · cases heq
                    have hsame := List.append_cancel_left (hsegments'.symm.trans hsegments)
                    obtain rfl := (List.cons.inj hsame).1
                    exact hbelow
                  · exact (hinside _ _ s' rest' (List.mem_filter.mp hmem).1 hsegments').mono hgrow
          · rw [if_pos hspelling]
            refine ⟨hstored, List.mem_cons_self,
              .inr (.inr ⟨dir, t, s, rest, q, hsegments, hcurrent, hfold, ?_⟩)⟩
            rintro rfl
            exact hspelling hspelled.symm

/-- **When a tree is refused, and for which pair.**  No pair is named exactly
when no two paths of the set collide; and a pair that is named consists of
two paths of the set that collide. -/
theorem firstPortableCollision_spec (entries : BTreeMap PathKey TreeEntry)
    (hdistinct : (entries.values.map (·.path)).Nodup) :
    (firstPortableCollision entries = none ↔
      ∀ a ∈ entries.values, ∀ b ∈ entries.values, ¬ Collide a.path.segments b.path.segments) ∧
    ∀ p q, firstPortableCollision entries = some (p, q) →
      p ∈ entries.values.map (·.path) ∧ q ∈ entries.values.map (·.path) ∧
        Collide p.segments q.segments := by
  constructor
  · have hnodup : (entries.values.map (·.path.segments)).Nodup := by
      have hmap := hdistinct.map PortablePath.segments_injective
      rwa [List.map_map] at hmap
    rw [firstPortableCollision_eq_none hnodup]
    constructor
    · intro hpairs
      have hsymm : Std.Symm fun a b : TreeEntry => ¬ Collide a.path.segments b.path.segments :=
        ⟨fun a b h hc => h hc.symm⟩
      exact fun a ha b hb => hpairs.forall_of_forall (fun e _ => not_collide_self _) ha hb
    · intro hall
      exact List.pairwise_iff_forall_sublist.mpr fun {a b} hsub =>
        hall a (hsub.subset (by simp)) b (hsub.subset (by simp))
  · -- the loop keeps a tree of the paths it has seen
    have hloop : ∀ (l : List TreeEntry) (stored : List PortablePath) (node : PortableTreeNode)
        (pair : PortablePath × PortablePath), Stands stored [] node →
        l.foldlM (fun root entry => RGit.insertPath entry.path entry.path.segments root) node =
          .error pair →
        pair.1 ∈ l.map (·.path) ++ stored ∧ pair.2 ∈ l.map (·.path) ++ stored ∧
          Collide pair.1.segments pair.2.segments := by
      intro l
      induction l with
      | nil =>
          intro stored node pair _ h
          cases h
      | cons entry l ih =>
          intro stored node pair hnode h
          have hsegments : entry.path.segments = [] ++ entry.path.segments := rfl
          have hstep := hnode.insertPath hsegments
          rw [List.foldlM_cons] at h
          have hsubset : entry.path :: stored ⊆ (entry :: l).map (·.path) ++ stored := by
            intro path hpath
            rcases List.mem_cons.mp hpath with rfl | hpath
            · exact List.mem_append_left _ List.mem_cons_self
            · exact List.mem_append_right _ hpath
          cases hinsert : RGit.insertPath entry.path entry.path.segments node with
          | error pair' =>
              rw [hinsert] at h hstep
              cases h
              exact ⟨hsubset hstep.1, hsubset hstep.2.1, hstep.2.2⟩
          | ok node' =>
              rw [hinsert] at h hstep
              obtain ⟨hfirst, hsecond, hcollide⟩ := ih _ node' pair hstep h
              have hmove : l.map (·.path) ++ entry.path :: stored ⊆
                  (entry :: l).map (·.path) ++ stored := by
                intro path hpath
                rcases List.mem_append.mp hpath with hpath | hpath
                · exact List.mem_append_left _ (List.mem_cons_of_mem _ hpath)
                · exact hsubset hpath
              exact ⟨hmove hfirst, hmove hsecond, hcollide⟩
    intro p q hpair
    rw [firstPortableCollision] at hpair
    cases hfold : entries.values.foldlM
        (fun root entry => RGit.insertPath entry.path entry.path.segments root) .empty with
    | ok node =>
        rw [hfold] at hpair
        cases hpair
    | error pair =>
        rw [hfold] at hpair
        obtain rfl := Option.some.inj hpair
        have hnamed := hloop entries.values [] .empty (p, q) .empty hfold
        rwa [List.append_nil] at hnamed

end Collisions

section Sample

open RGit.Graph

local instance collisionsUnicode : Unicode := asciiUnicode

/-- A file and a file beneath it. -/
def nestedEntries : BTreeMap PathKey TreeEntry :=
  (∅ : BTreeMap PathKey TreeEntry).insert (pathKeyBytes pathD)
    (sampleFile pathD 0 segments_pathD) |>.insert (pathKeyBytes pathDX) (fileDX 0)

theorem firstPortableCollision_spec_nested :
    firstPortableCollision nestedEntries = some (pathD, pathDX) ∧
      Collide pathD.segments pathDX.segments := by
  have hpair : firstPortableCollision nestedEntries = some (pathD, pathDX) := by decide +kernel
  have hdistinct : (nestedEntries.values.map (·.path)).Nodup := by decide +kernel
  obtain ⟨-, hnamed⟩ := firstPortableCollision_spec nestedEntries hdistinct
  obtain ⟨-, -, hcollide⟩ := hnamed pathD pathDX hpair
  exact ⟨hpair, hcollide⟩

end Sample

end RGit
