/-
RGit/Merge/ValidGraph.lean

The depth-first check of the snapshot graph.

An entry of the stack is an ancestor of the snapshots that are entered below
it (`Visiting`); so a graph without a cycle is accepted, however often a
snapshot is on the stack.  In the other direction, everything that a snapshot
names is left, or above it on the stack, until the snapshot is left itself
(`Finishing`); so what was left has no cycle above it.
-/
import RGit.Lib.Worklist
import RGit.Merge.Ancestry
import Mathlib.Logic.Relation

namespace RGit.Cli

open Relation

section ValidGraph

variable {graph : BTreeMap String Snapshot}

/-- `p` is a parent of the snapshot `n` of the graph. -/
def NamedParent (graph : BTreeMap String Snapshot) (p n : String) : Prop :=
  ∃ snapshot, graph[n]? = some snapshot ∧ p ∈ parents snapshot

theorem mem_of_namedParent {p n : String} (h : NamedParent graph p n) : n ∈ graph := by
  obtain ⟨snapshot, hget, -⟩ := h
  exact BTreeMap.mem_iff_get.mpr ⟨snapshot, hget⟩

/-! ### The passes of the search -/

/-- The passes over the snapshots that have no colour. -/
def uncolored (graph : BTreeMap String Snapshot) (colors : BTreeMap String Color) : Nat :=
  weightOutside (fun snapshot => (parents snapshot).length + 1) graph.toList colors.contains

/-- What is left to do, as an upper bound of the passes. -/
def visitWork (graph : BTreeMap String Snapshot) (stack : List (String × Bool))
    (colors : BTreeMap String Color) : Nat := stack.length + uncolored graph colors

/-- What the search pushes when it enters a snapshot. -/
def entering (k : String) (snapshot : Snapshot) (stack : List (String × Bool)) :
    List (String × Bool) :=
  (parents snapshot).reverse.map (fun parent => (parent, false)) ++ (k, true) :: stack

variable {fuel : Nat} {stack : List (String × Bool)} {colors colors' : BTreeMap String Color}
  {k : String}

/-- Leaving a snapshot takes one pass. -/
theorem visitWork_leave (entry : String × Bool) :
    visitWork graph stack (colors.insert k .left) + 1 ≤ visitWork graph (entry :: stack) colors := by
  have hle : uncolored graph (colors.insert k .left) ≤ uncolored graph colors := by
    refine weightOutside_le _ _ fun k' hk' => ?_
    rw [Std.ExtTreeMap.contains_insert, hk', Bool.or_true]
  rw [visitWork, visitWork, List.length_cons]
  omega

/-- Entering a snapshot takes the pass of the snapshot. -/
theorem visitWork_enter {snapshot : Snapshot} (hget : graph[k]? = some snapshot)
    (hcolor : colors[k]? = none) :
    visitWork graph (entering k snapshot stack) (colors.insert k .entered) + 1 ≤
      visitWork graph ((k, false) :: stack) colors := by
  have hgone : uncolored graph (colors.insert k .entered) + ((parents snapshot).length + 1) =
      uncolored graph colors :=
    weightOutside_insert _ graph.nodup_keys (BTreeMap.mem_toList_iff_get.mpr hget)
      (BTreeMap.contains_eq_false_iff.mpr hcolor) Std.ExtTreeMap.contains_insert_self
      fun _ hne => BTreeMap.contains_insert_of_ne _ _ hne
  rw [visitWork, visitWork, entering, List.length_append, List.length_map, List.length_reverse,
    List.length_cons, List.length_cons]
  omega

/-- **One pass.** -/
theorem visitLoop_cons (entry : String × Bool) :
    visitLoop graph (fuel + 1) (entry :: stack) colors =
      if entry.2 then visitLoop graph fuel stack (colors.insert entry.1 .left)
      else
        match colors[entry.1]?, graph[entry.1]? with
        | some .left, _ => visitLoop graph fuel stack colors
        | some .entered, _ => .error (.failure "snapshot ancestry contains a cycle")
        | none, none => .error (.failure "missing snapshot parent")
        | none, some snapshot =>
            if ¬ (parents snapshot).Nodup then .error (.failure "snapshot has duplicate parents")
            else visitLoop graph fuel (entering entry.1 snapshot stack)
              (colors.insert entry.1 .entered) := by
  obtain ⟨k, leaving⟩ := entry
  rw [visitLoop]
  split
  · rfl
  · cases colors[k]? with
    | none => cases graph[k]? <;> rfl
    | some color => cases color <;> rfl

/-- More passes than there is work change nothing. -/
theorem visitLoop_fuel (more : Nat) (hfuel : visitWork graph stack colors ≤ fuel) :
    visitLoop graph (fuel + more) stack colors = visitLoop graph fuel stack colors := by
  induction fuel generalizing stack colors with
  | zero =>
      cases stack with
      | nil =>
          cases more <;> rfl
      | cons entry stack => simp [visitWork] at hfuel
  | succ fuel ih =>
      cases stack with
      | nil =>
          rw [Nat.succ_add]
          rfl
      | cons entry stack =>
          obtain ⟨k, leaving⟩ := entry
          rw [Nat.succ_add, visitLoop_cons, visitLoop_cons]
          dsimp only
          have hskip : visitWork graph stack colors ≤ fuel := by
            rw [visitWork, List.length_cons] at hfuel
            rw [visitWork]
            omega
          split
          · exact ih (Nat.le_of_succ_le_succ ((visitWork_leave _).trans hfuel))
          · rename_i hleaving
            rw [Bool.not_eq_true] at hleaving
            subst hleaving
            cases hcolor : colors[k]? with
            | some color =>
                cases color with
                | left => exact ih hskip
                | entered => rfl
            | none =>
                cases hget : graph[k]? with
                | none => rfl
                | some snapshot =>
                    dsimp only
                    split
                    · rfl
                    · exact ih (Nat.le_of_succ_le_succ ((visitWork_enter hget hcolor).trans hfuel))

/-! ### What is accepted -/

/-- The relation between the entries of a stack: an entry is an ancestor of the
snapshots that are entered below it. -/
def StackPath (graph : BTreeMap String Snapshot) (stack : List (String × Bool)) : Prop :=
  stack.Pairwise fun a b => b.2 = true → TransGen (NamedParent graph) a.1 b.1

/-- What the check keeps on a graph without cycles. -/
structure Visiting (graph : BTreeMap String Snapshot) (stack : List (String × Bool))
    (colors : BTreeMap String Color) : Prop where
  path : StackPath graph stack
  named : ∀ entry ∈ stack, entry.1 ∈ graph ∨ ∃ n, NamedParent graph entry.1 n
  entered : ∀ k : String, colors[k]? = some .entered → (k, true) ∈ stack

/-- A graph in which every parent is a snapshot, no parent is named twice and
no snapshot is its own ancestor. -/
structure ValidGraph (graph : BTreeMap String Snapshot) : Prop where
  present : ∀ p n, NamedParent graph p n → p ∈ graph
  distinct : ∀ (k : String) (snapshot : Snapshot), graph[k]? = some snapshot →
    (parents snapshot).Nodup
  acyclic : ∀ k, ¬ TransGen (NamedParent graph) k k

/-- The errors of a graph without cycles. -/
inductive Refused (graph : BTreeMap String Snapshot) : CliError → Prop where
  | missing {p n : String} : NamedParent graph p n → p ∉ graph →
      Refused graph (.failure "missing snapshot parent")
  | repeated {n : String} {snapshot : Snapshot} : graph[n]? = some snapshot →
      ¬ (parents snapshot).Nodup → Refused graph (.failure "snapshot has duplicate parents")

theorem Refused.ne_cycle {e : CliError} (h : Refused graph e) :
    e ≠ .failure "snapshot ancestry contains a cycle" := by
  cases h with
  | missing => simp
  | repeated => simp

/-- Entering a snapshot keeps the stack a path. -/
theorem Visiting.enter {snapshot : Snapshot} (h : Visiting graph ((k, false) :: stack) colors)
    (hget : graph[k]? = some snapshot) :
    Visiting graph (entering k snapshot stack) (colors.insert k .entered) := by
  obtain ⟨habove, hpath⟩ := List.pairwise_cons.mp h.path
  obtain ⟨hk, hnamed⟩ := List.forall_mem_cons.mp h.named
  have hparent : ∀ {p}, p ∈ (parents snapshot).reverse → NamedParent graph p k :=
    fun hp => ⟨snapshot, hget, List.mem_reverse.mp hp⟩
  refine ⟨?_, ?_, fun k' hk' => ?_⟩
  · refine List.pairwise_append.mpr ⟨?_, List.pairwise_cons.mpr
      ⟨fun b hb hleaving => habove b hb hleaving, hpath⟩, ?_⟩
    · refine List.pairwise_map.mpr (List.pairwise_of_forall fun _ _ h => ?_)
      cases h
    · intro a ha b hb hleaving
      obtain ⟨p, hp, rfl⟩ := List.mem_map.mp ha
      rcases List.mem_cons.mp hb with rfl | hb
      · exact .single (hparent hp)
      · exact .head (hparent hp) (habove b hb hleaving)
  · refine List.forall_mem_append.mpr ⟨fun a ha => ?_, List.forall_mem_cons.mpr ⟨hk, hnamed⟩⟩
    obtain ⟨p, hp, rfl⟩ := List.mem_map.mp ha
    exact .inr ⟨k, hparent hp⟩
  · rcases BTreeMap.get_insert_eq_some_iff.mp hk' with ⟨rfl, -⟩ | ⟨-, hcolor'⟩
    · simp [entering]
    · have hmem := h.entered k' hcolor'
      simp only [List.mem_cons, Prod.mk.injEq, Bool.true_eq_false, and_false, false_or] at hmem
      simp [entering, hmem]

/-- **A graph without cycles is never said to have one**: the search returns
with nothing on the stack, or refuses a parent. -/
theorem Visiting.run (hacyclic : ∀ k, ¬ TransGen (NamedParent graph) k k)
    (h : Visiting graph stack colors) (hfuel : visitWork graph stack colors ≤ fuel) :
    (∃ colors', visitLoop graph fuel stack colors = .ok colors' ∧ Visiting graph [] colors') ∨
      ∃ e, visitLoop graph fuel stack colors = .error e ∧ Refused graph e := by
  induction fuel generalizing stack colors with
  | zero =>
      cases stack with
      | nil => exact .inl ⟨colors, rfl, h⟩
      | cons entry stack => simp [visitWork] at hfuel
  | succ fuel ih =>
      cases stack with
      | nil => exact .inl ⟨colors, rfl, h⟩
      | cons entry stack =>
          obtain ⟨k, leaving⟩ := entry
          obtain ⟨habove, hpath⟩ := List.pairwise_cons.mp h.path
          obtain ⟨hk, hnamed⟩ := List.forall_mem_cons.mp h.named
          rw [visitLoop_cons]
          cases leaving with
          | true =>
              rw [if_pos rfl]
              refine ih ⟨hpath, hnamed, fun k' hk' => ?_⟩
                (Nat.le_of_succ_le_succ ((visitWork_leave _).trans hfuel))
              rcases BTreeMap.get_insert_eq_some_iff.mp hk' with ⟨-, hcolor⟩ | ⟨hne, hcolor⟩
              · cases hcolor
              · simpa [Ne.symm hne] using h.entered k' hcolor
          | false =>
              rw [if_neg Bool.false_ne_true]
              cases hcolor : colors[k]? with
              | some color =>
                  cases color with
                  | left =>
                      refine ih ⟨hpath, hnamed, fun k' hk' => ?_⟩ ?_
                      · simpa using h.entered k' hk'
                      · rw [visitWork, List.length_cons] at hfuel
                        rw [visitWork]
                        omega
                  | entered =>
                      have hmem : (k, true) ∈ stack := by simpa using h.entered k hcolor
                      exact absurd (habove (k, true) hmem rfl) (hacyclic k)
              | none =>
                  cases hget : graph[k]? with
                  | none =>
                      have hmissing : k ∉ graph := by
                        intro hmem
                        obtain ⟨snapshot, hget'⟩ := BTreeMap.mem_iff_get.mp hmem
                        rw [hget] at hget'
                        cases hget'
                      obtain ⟨n, hn⟩ := hk.resolve_left hmissing
                      exact .inr ⟨_, rfl, .missing hn hmissing⟩
                  | some snapshot =>
                      dsimp only
                      split
                      · rename_i hrepeated
                        exact .inr ⟨_, rfl, .repeated hget hrepeated⟩
                      · exact ih (h.enter hget)
                          (Nat.le_of_succ_le_succ ((visitWork_enter hget hcolor).trans hfuel))

/-- The work of one root. -/
theorem visitWork_root (root : String) :
    visitWork graph [(root, false)] colors ≤ passes graph + 1 := by
  have hall : uncolored graph ∅ = passes graph := by simp [uncolored, weightOutside, passes]
  have hle : uncolored graph colors ≤ uncolored graph ∅ :=
    weightOutside_le _ _ fun k hk => by simp at hk
  rw [visitWork, List.length_singleton]
  omega

/-- The answers on a graph without cycles. -/
theorem validateGraph_acyclic (hacyclic : ∀ k, ¬ TransGen (NamedParent graph) k k) :
    validateGraph graph = .ok () ∨ ∃ e, validateGraph graph = .error e ∧ Refused graph e := by
  have hloop : ∀ (roots : List String) (colors : BTreeMap String Color),
      (∀ root ∈ roots, root ∈ graph) → Visiting graph [] colors →
      (∃ colors', roots.foldlM (fun colors root =>
        visitLoop graph (passes graph + 1) [(root, false)] colors) colors = .ok colors') ∨
      ∃ e, roots.foldlM (fun colors root =>
        visitLoop graph (passes graph + 1) [(root, false)] colors) colors = .error e ∧
        Refused graph e := by
    intro roots
    induction roots with
    | nil => exact fun colors _ _ => .inl ⟨colors, rfl⟩
    | cons root roots ih =>
        intro colors hroots hvisiting
        obtain ⟨hroot, hroots⟩ := List.forall_mem_cons.mp hroots
        have hstart : Visiting graph [(root, false)] colors := by
          refine ⟨List.pairwise_singleton _ _, by simp [hroot], fun k hk => ?_⟩
          exact absurd (hvisiting.entered k hk) List.not_mem_nil
        rw [List.foldlM_cons]
        rcases hstart.run hacyclic (visitWork_root root) with
          ⟨colors₁, hvisit, hvisiting₁⟩ | ⟨e, hvisit, hrefused⟩
        · rw [hvisit, Except.ok_bind]
          exact ih colors₁ hroots hvisiting₁
        · rw [hvisit]
          exact .inr ⟨e, rfl, hrefused⟩
  rw [validateGraph]
  rcases hloop graph.keys ∅ (fun root hroot => Std.ExtTreeMap.mem_keys.mp hroot)
    ⟨.nil, nofun, by simp⟩ with ⟨colors', hrun⟩ | ⟨e, hrun, hrefused⟩
  · rw [hrun]
    exact .inl rfl
  · rw [hrun]
    exact .inr ⟨e, rfl, hrefused⟩

theorem validateGraph_of_valid (hvalid : ValidGraph graph) : validateGraph graph = .ok () := by
  rcases validateGraph_acyclic hvalid.acyclic with hok | ⟨e, -, hrefused⟩
  · exact hok
  · cases hrefused with
    | missing hp hmissing => exact absurd (hvalid.present _ _ hp) hmissing
    | repeated hget hrepeated => exact absurd (hvalid.distinct _ _ hget) hrepeated

/-! ### What acceptance says -/

/-- What the check keeps on any graph: the snapshots that are being left are
entered, once each, and what they name is left or above them; the ones that
were left name only such snapshots, and have no cycle above them. -/
structure Finishing (graph : BTreeMap String Snapshot) (stack : List (String × Bool))
    (colors : BTreeMap String Color) : Prop where
  entered : ∀ k : String, colors[k]? = some .entered ↔ (k, true) ∈ stack
  once : (stack.filter (·.2)).Nodup
  checked : ∀ k ∈ colors, ∃ snapshot, graph[k]? = some snapshot ∧ (parents snapshot).Nodup
  left : ∀ k : String, colors[k]? = some .left →
    ∀ p, NamedParent graph p k → colors[p]? = some .left
  acyclic : ∀ k : String, colors[k]? = some .left → ¬ TransGen (NamedParent graph) k k
  named : ∀ above k below, stack = above ++ (k, true) :: below →
    ∀ p, NamedParent graph p k → colors[p]? = some .left ∨ ∃ leaving, (p, leaving) ∈ above

/-- What is above a snapshot that was left was left. -/
theorem Finishing.left_of_ancestor (h : Finishing graph stack colors) {p n : String}
    (hpath : ReflTransGen (NamedParent graph) p n) (hn : colors[n]? = some .left) :
    colors[p]? = some .left := by
  induction hpath using ReflTransGen.head_induction_on with
  | refl => exact hn
  | head hp _ ih => exact h.left _ ih _ hp

/-- The search starts at a root. -/
theorem Finishing.start {root : String} (h : Finishing graph [] colors) :
    Finishing graph [(root, false)] colors := by
  refine ⟨fun k' => ?_, by simp, h.checked, h.left, h.acyclic, ?_⟩
  · rw [h.entered]
    simp
  · intro above k' below hsplit
    rcases List.append_eq_cons_iff.mp hsplit.symm with ⟨-, heq⟩ | ⟨above', -, heq⟩
    · cases heq
    · simp at heq

/-- A snapshot is left: all it names was left before. -/
theorem Finishing.leave (h : Finishing graph ((k, true) :: stack) colors) :
    Finishing graph stack (colors.insert k .left) := by
  have hk : colors[k]? = some .entered := (h.entered k).mpr List.mem_cons_self
  have honce : (k, true) ∉ stack ∧ (stack.filter (·.2)).Nodup := by
    have hnodup := h.once
    rw [List.filter_cons_of_pos rfl, List.nodup_cons] at hnodup
    exact ⟨fun hmem => hnodup.1 (List.mem_filter.mpr ⟨hmem, rfl⟩), hnodup.2⟩
  have hgrow : ∀ {p : String}, colors[p]? = some .left →
      (colors.insert k .left)[p]? = some .left := by
    intro p hp
    by_cases hkp : k = p
    · subst hkp
      exact BTreeMap.get_insert_self _ _ _
    · rwa [BTreeMap.get_insert_of_ne _ _ hkp]
  have hparents : ∀ p, NamedParent graph p k → colors[p]? = some .left := by
    intro p hp
    rcases h.named [] k stack rfl p hp with hleft | ⟨_, hmem⟩
    · exact hleft
    · cases hmem
  refine ⟨fun k' => ?_, honce.2, fun k' hk' => ?_, fun k' hk' p hp => ?_, fun k' hk' => ?_, ?_⟩
  · rw [BTreeMap.get_insert_eq_some_iff, h.entered, List.mem_cons, Prod.mk.injEq]
    constructor
    · rintro (⟨-, hcolor⟩ | ⟨hne, ⟨rfl, -⟩ | hmem⟩)
      · cases hcolor
      · exact absurd rfl hne
      · exact hmem
    · intro hmem
      refine .inr ⟨?_, .inr hmem⟩
      rintro rfl
      exact honce.1 hmem
  · rw [Std.ExtTreeMap.mem_insert, Std.LawfulEqCmp.compare_eq_iff_eq] at hk'
    rcases hk' with rfl | hk'
    · exact h.checked k (BTreeMap.mem_iff_get.mpr ⟨_, hk⟩)
    · exact h.checked k' hk'
  · rcases BTreeMap.get_insert_eq_some_iff.mp hk' with ⟨rfl, -⟩ | ⟨-, hk'⟩
    · exact hgrow (hparents p hp)
    · exact hgrow (h.left k' hk' p hp)
  · rcases BTreeMap.get_insert_eq_some_iff.mp hk' with ⟨rfl, -⟩ | ⟨-, hk'⟩
    · -- a cycle would have left the snapshot before
      intro hcycle
      obtain ⟨p, hpath, hlast⟩ := TransGen.tail'_iff.mp hcycle
      have hleft := h.left_of_ancestor hpath (hparents p hlast)
      rw [hk] at hleft
      cases hleft
    · exact h.acyclic k' hk'
  · intro above k' below hsplit p hp
    rcases h.named ((k, true) :: above) k' below (by rw [hsplit]; rfl) p hp with
      hleft | ⟨leaving, hmem⟩
    · exact .inl (hgrow hleft)
    · rcases List.mem_cons.mp hmem with heq | hmem
      · cases heq
        exact .inl (BTreeMap.get_insert_self _ _ _)
      · exact .inr ⟨leaving, hmem⟩

/-- A snapshot that was left is skipped. -/
theorem Finishing.skip (h : Finishing graph ((k, false) :: stack) colors)
    (hk : colors[k]? = some .left) : Finishing graph stack colors := by
  refine ⟨fun k' => ?_, ?_, h.checked, h.left, h.acyclic, ?_⟩
  · rw [h.entered, List.mem_cons, Prod.mk.injEq]
    simp
  · have honce := h.once
    rwa [List.filter_cons_of_neg (by simp)] at honce
  · intro above k' below hsplit p hp
    rcases h.named ((k, false) :: above) k' below (by rw [hsplit]; rfl) p hp with
      hleft | ⟨leaving, hmem⟩
    · exact .inl hleft
    · rcases List.mem_cons.mp hmem with heq | hmem
      · cases heq
        exact .inl hk
      · exact .inr ⟨leaving, hmem⟩

/-- A snapshot without a colour is entered, below all it names. -/
theorem Finishing.enter {snapshot : Snapshot} (h : Finishing graph ((k, false) :: stack) colors)
    (hk : colors[k]? = none) (hget : graph[k]? = some snapshot)
    (hdistinct : (parents snapshot).Nodup) :
    Finishing graph (entering k snapshot stack) (colors.insert k .entered) := by
  have hnew : (k, true) ∉ stack := by
    intro hmem
    have hentered := (h.entered k).mpr (List.mem_cons_of_mem _ hmem)
    rw [hk] at hentered
    cases hentered
  have hgrow : ∀ {p : String}, colors[p]? = some .left →
      (colors.insert k .entered)[p]? = some .left := by
    intro p hp
    rw [BTreeMap.get_insert_of_ne]
    · exact hp
    · rintro rfl
      rw [hk] at hp
      cases hp
  have hold : ∀ {k' : String}, (colors.insert k .entered)[k']? = some .left →
      colors[k']? = some .left := by
    intro k' hk'
    rcases BTreeMap.get_insert_eq_some_iff.mp hk' with ⟨-, hcolor⟩ | ⟨-, hcolor⟩
    · cases hcolor
    · exact hcolor
  refine ⟨fun k' => ?_, ?_, fun k' hk' => ?_, fun k' hk' p hp => hgrow (h.left k' (hold hk') p hp),
    fun k' hk' => h.acyclic k' (hold hk'), ?_⟩
  · rw [BTreeMap.get_insert_eq_some_iff, h.entered, entering]
    simp only [List.mem_append, List.mem_map, List.mem_cons, Prod.mk.injEq, Bool.false_eq_true,
      Bool.true_eq_false, and_false, exists_false, false_or, and_true]
    constructor
    · rintro (rfl | ⟨-, hmem⟩)
      · exact .inl rfl
      · exact .inr hmem
    · rintro (rfl | hmem)
      · exact .inl rfl
      · refine .inr ⟨?_, hmem⟩
        rintro rfl
        exact hnew hmem
  · have hfalse : (((parents snapshot).reverse.map fun parent => (parent, false)).filter (·.2)) =
        [] := by simp
    have honce := h.once
    rw [List.filter_cons_of_neg (by simp)] at honce
    rw [entering, List.filter_append, hfalse, List.nil_append, List.filter_cons_of_pos rfl]
    exact List.nodup_cons.mpr ⟨fun hmem => hnew (List.mem_filter.mp hmem).1, honce⟩
  · rw [Std.ExtTreeMap.mem_insert, Std.LawfulEqCmp.compare_eq_iff_eq] at hk'
    rcases hk' with rfl | hk'
    · exact ⟨snapshot, hget, hdistinct⟩
    · exact h.checked k' hk'
  · intro above k' below hsplit p hp
    rw [entering] at hsplit
    -- what the entered snapshot names was pushed above it
    have hpushed : ∀ {p}, NamedParent graph p k →
        (p, false) ∈ (parents snapshot).reverse.map fun parent => (parent, false) := by
      rintro p ⟨snapshot', hget', hp⟩
      obtain rfl := Option.some.inj (hget.symm.trans hget')
      exact List.mem_map_of_mem (List.mem_reverse.mpr hp)
    rcases List.append_eq_append_iff.mp hsplit with ⟨more, habove, hrest⟩ | ⟨more, hpush, hrest⟩
    · cases more with
      | nil =>
          cases hrest
          rw [List.append_nil] at habove
          exact .inr ⟨false, habove ▸ hpushed hp⟩
      | cons entry more =>
          obtain ⟨rfl, hstack⟩ := List.cons.inj hrest
          rcases h.named ((k, false) :: more) k' below (by rw [hstack]; rfl) p hp with
            hleft | ⟨leaving, hmem⟩
          · exact .inl (hgrow hleft)
          · rcases List.mem_cons.mp hmem with heq | hmem
            · cases heq
              exact .inr ⟨true, by rw [habove]; simp⟩
            · exact .inr ⟨leaving, by rw [habove]; simp [hmem]⟩
    · cases more with
      | nil =>
          cases hrest
          rw [List.append_nil] at hpush
          exact .inr ⟨false, hpush ▸ hpushed hp⟩
      | cons entry more =>
          obtain ⟨rfl, -⟩ := List.cons.inj hrest
          have hmem : (k', true) ∈ (parents snapshot).reverse.map fun parent => (parent, false) := by
            rw [hpush]
            simp
          simp at hmem

/-- **A search that returns** has coloured all it was given, and left it. -/
theorem Finishing.run (h : Finishing graph stack colors)
    (hfuel : visitWork graph stack colors ≤ fuel)
    (hloop : visitLoop graph fuel stack colors = .ok colors') :
    Finishing graph [] colors' ∧ (∀ k ∈ colors, k ∈ colors') ∧
      ∀ entry ∈ stack, entry.1 ∈ colors' := by
  induction fuel generalizing stack colors with
  | zero =>
      cases stack with
      | nil =>
          cases hloop
          exact ⟨h, fun _ hk => hk, nofun⟩
      | cons entry stack => simp [visitWork] at hfuel
  | succ fuel ih =>
      cases stack with
      | nil =>
          cases hloop
          exact ⟨h, fun _ hk => hk, nofun⟩
      | cons entry stack =>
          obtain ⟨k, leaving⟩ := entry
          rw [visitLoop_cons] at hloop
          have hinsert : ∀ {k' : String} {color : Color}, k' ∈ colors → k' ∈ colors.insert k color :=
            fun hk' => Std.ExtTreeMap.mem_insert.mpr (.inr hk')
          cases leaving with
          | true =>
              rw [if_pos rfl] at hloop
              obtain ⟨hdone, hcolored, hstack⟩ := ih h.leave
                (Nat.le_of_succ_le_succ ((visitWork_leave _).trans hfuel)) hloop
              refine ⟨hdone, fun k' hk' => hcolored k' (hinsert hk'),
                List.forall_mem_cons.mpr ⟨?_, hstack⟩⟩
              exact hcolored k Std.ExtTreeMap.mem_insert_self
          | false =>
              rw [if_neg Bool.false_ne_true] at hloop
              cases hcolor : colors[k]? with
              | some color =>
                  rw [hcolor] at hloop
                  cases color with
                  | entered => cases hloop
                  | left =>
                      obtain ⟨hdone, hcolored, hstack⟩ := ih (h.skip hcolor) (by
                        rw [visitWork, List.length_cons] at hfuel
                        rw [visitWork]
                        omega) hloop
                      refine ⟨hdone, hcolored, List.forall_mem_cons.mpr ⟨?_, hstack⟩⟩
                      exact hcolored k (BTreeMap.mem_iff_get.mpr ⟨_, hcolor⟩)
              | none =>
                  rw [hcolor] at hloop
                  cases hget : graph[k]? with
                  | none =>
                      rw [hget] at hloop
                      cases hloop
                  | some snapshot =>
                      rw [hget] at hloop
                      dsimp only at hloop
                      split at hloop
                      · cases hloop
                      · rename_i hdistinct
                        obtain ⟨hdone, hcolored, hstack⟩ :=
                          ih (h.enter hcolor hget (not_not.mp hdistinct))
                            (Nat.le_of_succ_le_succ ((visitWork_enter hget hcolor).trans hfuel))
                            hloop
                        refine ⟨hdone, fun k' hk' => hcolored k' (hinsert hk'),
                          List.forall_mem_cons.mpr ⟨?_, fun entry hentry => ?_⟩⟩
                        · exact hcolored k Std.ExtTreeMap.mem_insert_self
                        · refine hstack entry (List.mem_append_right _ ?_)
                          exact List.mem_cons_of_mem _ hentry

/-- The roots, one after the other. -/
theorem Finishing.roots {roots : List String} (h : Finishing graph [] colors)
    (hloop : roots.foldlM (fun colors root =>
      visitLoop graph (passes graph + 1) [(root, false)] colors) colors = .ok colors') :
    Finishing graph [] colors' ∧ (∀ k ∈ colors, k ∈ colors') ∧ ∀ root ∈ roots, root ∈ colors' := by
  induction roots generalizing colors with
  | nil =>
      cases hloop
      exact ⟨h, fun _ hk => hk, nofun⟩
  | cons root roots ih =>
      rw [List.foldlM_cons] at hloop
      obtain ⟨colors₁, hvisit, hrest⟩ := Except.bind_eq_ok.mp hloop
      obtain ⟨hdone₁, hcolored₁, hroot⟩ := h.start.run (visitWork_root root) hvisit
      obtain ⟨hdone, hcolored, hroots⟩ := ih hdone₁ hrest
      refine ⟨hdone, fun k hk => hcolored k (hcolored₁ k hk), List.forall_mem_cons.mpr ⟨?_, hroots⟩⟩
      exact hcolored root (hroot (root, false) List.mem_cons_self)

/-- When nothing is on the stack, every snapshot with a colour was left. -/
theorem Finishing.left_of_mem (h : Finishing graph [] colors) (hk : k ∈ colors) :
    colors[k]? = some .left := by
  obtain ⟨color, hcolor⟩ := BTreeMap.mem_iff_get.mp hk
  cases color with
  | left => exact hcolor
  | entered => exact absurd ((h.entered k).mp hcolor) List.not_mem_nil

/-- **The check rejects everything else.** -/
theorem valid_of_validateGraph (h : validateGraph graph = .ok ()) : ValidGraph graph := by
  rw [validateGraph] at h
  obtain ⟨colors, hrun, -⟩ := Except.bind_eq_ok.mp h
  have hinit : Finishing graph [] ∅ := by
    refine ⟨by simp, List.nodup_nil, by simp, by simp, by simp, ?_⟩
    intro above k below hsplit
    simp at hsplit
  obtain ⟨hdone, -, hroots⟩ := hinit.roots hrun
  have hleft : ∀ {k : String}, k ∈ graph → colors[k]? = some .left := by
    intro k hk
    exact hdone.left_of_mem (hroots k (Std.ExtTreeMap.mem_keys.mpr hk))
  refine ⟨fun p n hp => ?_, fun k snapshot hget => ?_, fun k hcycle => ?_⟩
  · have hp' := hdone.left n (hleft (mem_of_namedParent hp)) p hp
    obtain ⟨snapshot, hget, -⟩ := hdone.checked p (BTreeMap.mem_iff_get.mpr ⟨_, hp'⟩)
    exact BTreeMap.mem_iff_get.mpr ⟨snapshot, hget⟩
  · have hk := hroots k (Std.ExtTreeMap.mem_keys.mpr (BTreeMap.mem_iff_get.mpr ⟨_, hget⟩))
    obtain ⟨snapshot', hget', hdistinct⟩ := hdone.checked k hk
    obtain rfl := Option.some.inj (hget.symm.trans hget')
    exact hdistinct
  · obtain ⟨p, -, hlast⟩ := TransGen.tail'_iff.mp hcycle
    exact hdone.acyclic k (hleft (mem_of_namedParent hlast)) hcycle

/-- **`validate_graph` accepts the valid graphs and no others**, and says that
there is a cycle only when there is one.  Its loops are done when the bound on
their passes is: a larger bound changes no answer. -/
theorem validateGraph_spec (snapshots : BTreeMap String Snapshot) :
    (validateGraph snapshots = .ok () ↔
      (∀ (n : String) (snapshot : Snapshot), snapshots[n]? = some snapshot →
        (∀ p ∈ parents snapshot, p ∈ snapshots) ∧ (parents snapshot).Nodup) ∧
      ∀ k, ¬ TransGen (NamedParent snapshots) k k) ∧
    (validateGraph snapshots = .error (.failure "snapshot ancestry contains a cycle") →
      ∃ k, TransGen (NamedParent snapshots) k k) ∧
    ∀ (root : String) (colors : BTreeMap String Color) (more : Nat),
      visitLoop snapshots (passes snapshots + 1 + more) [(root, false)] colors =
        visitLoop snapshots (passes snapshots + 1) [(root, false)] colors := by
  refine ⟨⟨fun h => ?_, fun ⟨hnodes, hacyclic⟩ => validateGraph_of_valid ⟨?_, ?_, hacyclic⟩⟩,
    fun h => ?_, ?_⟩
  · have hvalid := valid_of_validateGraph h
    refine ⟨fun n snapshot hget => ⟨fun p hp => ?_, hvalid.distinct n snapshot hget⟩,
      hvalid.acyclic⟩
    exact hvalid.present p n ⟨snapshot, hget, hp⟩
  · rintro p n ⟨snapshot, hget, hp⟩
    exact (hnodes n snapshot hget).1 p hp
  · exact fun k snapshot hget => (hnodes k snapshot hget).2
  · by_contra hnone
    rcases validateGraph_acyclic (not_exists.mp hnone) with hok | ⟨e, herror, hrefused⟩
    · rw [h] at hok
      cases hok
    · exact hrefused.ne_cycle (Except.error.inj (herror.symm.trans h))
  · exact fun root colors more => visitLoop_fuel more (visitWork_root root)

end ValidGraph

end RGit.Cli
