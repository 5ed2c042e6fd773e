/-
RGit/Graph/Resolutions.lean

Resolving the conflicts of a three-way merge.

A contested path is present in two of the three trees at least.  So it shares
a tree with every other contested path, and with every surviving path but one
kind: a path that one side added alone while it deleted the contested path
(`Displaces`).  The check of the merged entries does not see such a pair, and
a plan with one cannot be resolved by keeping the contested path.
-/
import RGit.Graph.Merge

namespace RGit.Graph

section Resolutions

variable [Unicode]

/-- What is decided about one conflict. -/
inductive Choice where
  | line
  | incoming
  | delete
  deriving DecidableEq

/-- The side of a conflict that a choice keeps. -/
def Choice.side : Choice → MergeConflict → Option ConflictSide
  | .line, c => c.line
  | .incoming, c => c.incoming
  | .delete, _ => none

/-- The paths of the merged entries and of the sides that were chosen. -/
def resolvedPaths (plan : MergePlan) (choose : MergeConflict → Choice) : List PortablePath :=
  plan.mergedEntries.map (·.path) ++
    plan.conflicts.filterMap fun c => ((choose c).side c).map fun _ => c.path

/-- Whatever is chosen, the result is a portable tree. -/
def Resolvable (plan : MergePlan) : Prop :=
  ∀ choose, (resolvedPaths plan choose).Pairwise fun p q => ¬ Collide p.segments q.segments

/-- `one` side added a path alone that collides with a path which it deleted
and the `other` side modified. -/
def Displaces (base one other : List TreeEntry) : Prop :=
  ∃ p q : PortablePath,
    (entryAt base q = none ∧ entryAt other q = none ∧ entryAt one q ≠ none) ∧
    (entryAt one p = none ∧ entryAt base p ≠ none ∧ entryAt other p ≠ none ∧
      entryAt base p ≠ entryAt other p) ∧
    Collide p.segments q.segments

variable {base line incoming : List TreeEntry} {plan : MergePlan}

/-- Two paths of one tree do not collide. -/
theorem ValidTree.not_collide {entries : List TreeEntry} (h : ValidTree entries)
    {p q : PortablePath} (hp : entryAt entries p ≠ none) (hq : entryAt entries q ≠ none) :
    ¬ Collide p.segments q.segments := by
  obtain ⟨e, he⟩ := Option.ne_none_iff_exists'.mp hp
  obtain ⟨e', he'⟩ := Option.ne_none_iff_exists'.mp hq
  obtain ⟨hmem, rfl⟩ := (entryAt_eq_some h.1).mp he
  obtain ⟨hmem', rfl⟩ := (entryAt_eq_some h.1).mp he'
  by_cases hsame : e = e'
  · subst hsame
    exact not_collide_self _
  · have : Std.Symm fun a b : TreeEntry => ¬ Collide a.path.segments b.path.segments :=
      ⟨fun _ _ hab hba => hab hba.symm⟩
    exact h.2.forall hmem hmem' hsame

/-- A contested path is missing from one tree at most. -/
theorem Contested.present {b l i : Option TreeEntry} (h : Contested b l i) :
    (l ≠ none ∨ i ≠ none) ∧ (b ≠ none ∨ l ≠ none) ∧ (b ≠ none ∨ i ≠ none) := by
  obtain ⟨hli, hbl, hbi⟩ := h
  refine ⟨?_, ?_, ?_⟩
  all_goals
    by_contra hnone
    push Not at hnone
    simp_all

theorem mem_mergedPaths (h : mergeThreeWay base line incoming = .ok plan) {p : PortablePath} :
    p ∈ plan.mergedEntries.map (·.path) ↔
      kept (entryAt base p) (entryAt line p) (entryAt incoming p) ≠ none := by
  rw [← entryAt_plan h, ne_eq, entryAt_eq_none, not_not]

/-- Two contested paths never collide. -/
theorem not_collide_contested (h : mergeThreeWay base line incoming = .ok plan)
    {p q : PortablePath} (hp : Contested (entryAt base p) (entryAt line p) (entryAt incoming p))
    (hq : Contested (entryAt base q) (entryAt line q) (entryAt incoming q)) :
    ¬ Collide p.segments q.segments := by
  obtain ⟨hbase, hline, hincoming⟩ := validTree_of_merge h
  intro hcollide
  -- two trees out of three meet two trees out of three
  have hb := fun hp hq => hbase.not_collide (p := p) (q := q) hp hq hcollide
  have hl := fun hp hq => hline.not_collide (p := p) (q := q) hp hq hcollide
  have hi := fun hp hq => hincoming.not_collide (p := p) (q := q) hp hq hcollide
  have hp := hp.present
  have hq := hq.present
  tauto

/-- A contested path only collides with a surviving one that displaces it. -/
theorem displaces_of_collide (h : mergeThreeWay base line incoming = .ok plan)
    {p q : PortablePath} (hp : Contested (entryAt base p) (entryAt line p) (entryAt incoming p))
    (hq : kept (entryAt base q) (entryAt line q) (entryAt incoming q) ≠ none)
    (hcollide : Collide p.segments q.segments) :
    Displaces base line incoming ∨ Displaces base incoming line := by
  obtain ⟨hbase, hline, hincoming⟩ := validTree_of_merge h
  have hb := fun hp hq => hbase.not_collide (p := p) (q := q) hp hq hcollide
  have hl := fun hp hq => hline.not_collide (p := p) (q := q) hp hq hcollide
  have hi := fun hp hq => hincoming.not_collide (p := p) (q := q) hp hq hcollide
  have hpresent := hp.present
  have hside : entryAt line q ≠ none ∨ entryAt incoming q ≠ none := by
    obtain ⟨e, he⟩ := Option.ne_none_iff_exists'.mp hq
    rcases kept_mem he with he | he <;> simp [he]
  rcases hside with hside | hside
  · have hpl : entryAt line p = none := by
      by_contra hpl
      exact hl hpl hside
    have hpb : entryAt base p ≠ none := by tauto
    have hpi : entryAt incoming p ≠ none := by tauto
    refine .inl ⟨p, q, ⟨?_, ?_, hside⟩, ⟨hpl, hpb, hpi, hp.2.2⟩, hcollide⟩
    · by_contra hqb
      exact hb hpb hqb
    · by_contra hqi
      exact hi hpi hqi
  · have hpi : entryAt incoming p = none := by
      by_contra hpi
      exact hi hpi hside
    have hpb : entryAt base p ≠ none := by tauto
    have hpl : entryAt line p ≠ none := by tauto
    refine .inr ⟨p, q, ⟨?_, ?_, hside⟩, ⟨hpi, hpb, hpl, hp.2.1⟩, hcollide⟩
    · by_contra hqb
      exact hb hpb hqb
    · by_contra hql
      exact hl hpl hql

theorem mem_resolvedPaths {choose : MergeConflict → Choice} {p : PortablePath}
    (h : p ∈ resolvedPaths plan choose) :
    p ∈ plan.mergedEntries.map (·.path) ∨ p ∈ plan.conflicts.map (·.path) := by
  rcases List.mem_append.mp h with h | h
  · exact .inl h
  · obtain ⟨c, hc, hside⟩ := List.mem_filterMap.mp h
    obtain ⟨-, -, rfl⟩ := Option.map_eq_some_iff.mp hside
    exact .inr (List.mem_map_of_mem hc)

theorem sublist_chosenPaths (conflicts : List MergeConflict) (choose : MergeConflict → Choice) :
    (conflicts.filterMap fun c => ((choose c).side c).map fun _ => c.path).Sublist
      (conflicts.map (·.path)) := by
  induction conflicts with
  | nil => exact .refl _
  | cons c conflicts ih =>
      rw [List.filterMap_cons, List.map_cons]
      cases (choose c).side c with
      | none => exact ih.cons _
      | some side => exact ih.cons_cons _

/-- The conflict at a contested path holds the entries of both sides. -/
theorem exists_conflict (h : mergeThreeWay base line incoming = .ok plan) {p : PortablePath}
    (hp : Contested (entryAt base p) (entryAt line p) (entryAt incoming p)) :
    ∃ c ∈ plan.conflicts, c.path = p ∧ c.line = (entryAt line p).map ConflictSide.ofEntry ∧
      c.incoming = (entryAt incoming p).map ConflictSide.ofEntry := by
  obtain ⟨c, hc, hpath⟩ := List.mem_map.mp ((mem_conflictPaths h).mpr hp)
  have hmem : c ∈ plan.conflicts.filter fun c => c.path = p := by simp [hc, hpath]
  rw [conflictsAt_plan h, Option.mem_toList] at hmem
  obtain ⟨-, source, -, rfl⟩ := contested_eq_some.mp hmem
  exact ⟨_, hc, hpath, rfl, rfl⟩

/-- A surviving path that collides with a side of a conflict excludes that
side. -/
theorem not_resolvable {c : MergeConflict} {q : PortablePath} (choice : Choice)
    (hc : c ∈ plan.conflicts) (hside : choice.side c ≠ none)
    (hq : q ∈ plan.mergedEntries.map (·.path)) (hcollide : Collide c.path.segments q.segments) :
    ¬ Resolvable plan := by
  intro hresolvable
  have : Std.Symm fun p q : PortablePath => ¬ Collide p.segments q.segments :=
    ⟨fun _ _ hab hba => hab hba.symm⟩
  obtain ⟨side, hside⟩ := Option.ne_none_iff_exists'.mp hside
  have hp : c.path ∈ resolvedPaths plan fun _ => choice := by
    refine List.mem_append_right _ (List.mem_filterMap.mpr ⟨c, hc, ?_⟩)
    rw [hside, Option.map_some]
  have hne : c.path ≠ q := by
    intro heq
    exact not_collide_self _ (heq ▸ hcollide)
  exact (hresolvable fun _ => choice).forall hp (List.mem_append_left _ hq) hne hcollide

/-- **Which plans can be resolved.**  Every choice gives a portable tree
exactly when neither side added a path over one that it deleted and the other
side modified. -/
theorem mergeThreeWay_resolvable (base line incoming : List TreeEntry) (plan : MergePlan)
    (h : mergeThreeWay base line incoming = .ok plan) :
    Resolvable plan ↔ ¬ Displaces base line incoming ∧ ¬ Displaces base incoming line := by
  constructor
  · intro hresolvable
    constructor
    · rintro ⟨p, q, ⟨hbq, hiq, hlq⟩, ⟨hlp, hbp, hip, hne⟩, hcollide⟩
      have hmerged : q ∈ plan.mergedEntries.map (·.path) := by
        rw [mem_mergedPaths h, hbq, hiq]
        simp [kept, hlq, hlq.symm]
      obtain ⟨c, hc, rfl, -, hside⟩ := exists_conflict h ⟨hlp ▸ hip.symm, hlp ▸ hbp, hne⟩
      refine not_resolvable .incoming hc ?_ hmerged hcollide hresolvable
      simpa [Choice.side, hside] using hip
    · rintro ⟨p, q, ⟨hbq, hlq, hiq⟩, ⟨hip, hbp, hlp, hne⟩, hcollide⟩
      have hmerged : q ∈ plan.mergedEntries.map (·.path) := by
        rw [mem_mergedPaths h, hbq, hlq]
        simp [kept, hiq, hiq.symm]
      obtain ⟨c, hc, rfl, hside, -⟩ := exists_conflict h ⟨hip ▸ hlp, hne, hip ▸ hbp⟩
      refine not_resolvable .line hc ?_ hmerged hcollide hresolvable
      simpa [Choice.side, hside] using hlp
  · rintro ⟨hline, hincoming⟩ choose
    have hdisplaced : ∀ {p q : PortablePath}, p ∈ plan.conflicts.map (·.path) →
        q ∈ plan.mergedEntries.map (·.path) → ¬ Collide p.segments q.segments := by
      intro p q hp hq hcollide
      exact (displaces_of_collide h ((mem_conflictPaths h).mp hp) ((mem_mergedPaths h).mp hq)
        hcollide).elim hline hincoming
    obtain ⟨b, l, i, hb, hl, hi, hplan, hvalid⟩ := mergeThreeWay_eq_ok.mp h
    have hnodup : (resolvedPaths plan choose).Nodup := by
      have hall := nodup_planOf (entriesByPath_keyed hb) (entriesByPath_keyed hl)
        (entriesByPath_keyed hi)
      rw [← hplan] at hall
      exact hall.sublist ((sublist_chosenPaths plan.conflicts choose).append_left _)
    refine hnodup.pairwise_of_forall_ne fun p hp q hq _ hcollide => ?_
    rcases mem_resolvedPaths hp with hp | hp <;> rcases mem_resolvedPaths hq with hq | hq
    · have hpresent : ∀ {p}, p ∈ plan.mergedEntries.map (·.path) →
          entryAt plan.mergedEntries p ≠ none := fun hp => mt entryAt_eq_none.mp (not_not.mpr hp)
      exact hvalid.not_collide (hpresent hp) (hpresent hq) hcollide
    · exact hdisplaced hq hp hcollide.symm
    · exact hdisplaced hp hq hcollide
    · exact not_collide_contested h ((mem_conflictPaths h).mp hp) ((mem_conflictPaths h).mp hq)
        hcollide

end Resolutions

section Sample

local instance resolutionsUnicode : Unicode := asciiUnicode

/-- The file `d` with the given content. -/
def fileD (content : UInt8) : TreeEntry := sampleFile pathD content segments_pathD

/-- Both sides changed `d/x`: either version can be kept. -/
theorem mergeThreeWay_resolvable_changed :
    ∃ plan, mergeThreeWay [fileDX 0] [fileDX 1] [fileDX 2] = .ok plan ∧ Resolvable plan := by
  obtain ⟨plan, hplan⟩ : ∃ plan, mergeThreeWay [fileDX 0] [fileDX 1] [fileDX 2] = .ok plan :=
    Except.isOk_iff.mp (by decide)
  have hadded : ∀ (content content' : UInt8) (q : PortablePath),
      entryAt [fileDX content] q = none → entryAt [fileDX content'] q = none := by
    intro content content' q hq
    rw [entryAt_eq_none] at hq ⊢
    exact hq
  refine ⟨plan, hplan, (mergeThreeWay_resolvable _ _ _ _ hplan).mpr ⟨?_, ?_⟩⟩
  · rintro ⟨p, q, ⟨hbase, -, hline⟩, -⟩
    exact hline (hadded 0 1 q hbase)
  · rintro ⟨p, q, ⟨hbase, -, hincoming⟩, -⟩
    exact hincoming (hadded 0 2 q hbase)

/-- One side replaced the directory `d` by a file, the other one changed `d/x`:
the merged entries are `d` alone, and the change of `d/x` cannot be kept. -/
theorem mergeThreeWay_displaced :
    ValidTree [fileDX 0] ∧ ValidTree [fileDX 1] ∧ ValidTree [fileD 2] ∧
      ∃ plan, mergeThreeWay [fileDX 0] [fileDX 1] [fileD 2] = .ok plan ∧ ¬ Resolvable plan := by
  refine ⟨validTree_singleton _, validTree_singleton _, validTree_singleton _, ?_⟩
  have hplan : mergeThreeWay [fileDX 0] [fileDX 1] [fileD 2] =
      .ok ⟨[fileD 2], [conflict pathDX (some (fileDX 0)) (some (fileDX 1)) none]⟩ := by
    decide
  refine ⟨_, hplan, ?_⟩
  refine not_resolvable .line (List.mem_singleton_self _) (by simp [Choice.side, conflict])
    (List.mem_singleton_self _) ?_
  exact .inr (.inl ⟨_, [], rfl⟩)

end Sample

end RGit.Graph
