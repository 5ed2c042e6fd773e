/-
RGit/Lib/PostOrder.lean

Depth-first post-order with a stack of entries and exits.

A node is marked when it is entered, and listed when it is left; what leads to
it is pushed in between.  A marked node that is met again is skipped although
it may not be listed yet: it is then being left, above the node that names it,
or there is a cycle (`Emitting.skip`).  The list that comes out has everything
that leads to the root, once, each node after all that lead to it
(`postLoop_spec`).

Nothing here mentions the modelled program.
-/
import RGit.Lib.Topological
import RGit.Lib.Worklist

open Relation

section PostOrder

variable {K : Type} [Ord K] [Std.TransOrd K] [Std.LawfulEqOrd K]

/-- What entering a node leaves on the stack. -/
def entered (next : K → List K) (k : K) (stack : List (K × Bool)) : List (K × Bool) :=
  (next k).reverse.map (fun n => (n, false)) ++ (k, true) :: stack

/-- `while let Some((node, leaving)) = stack.pop()`.  The top of the stack is the
head of the list; `fuel` bounds the number of passes. -/
def postLoop (next : K → List K) : Nat → List (K × Bool) → BTreeSet K → List K → List K
  | _, [], _, order => order
  | 0, _ :: _, _, order => order
  | fuel + 1, (k, leaving) :: stack, visited, order =>
      if leaving then postLoop next fuel stack visited (order ++ [k])
      else if visited.contains k then postLoop next fuel stack visited order
      else postLoop next fuel (entered next k stack) (visited.insert k) order

/-- `p` is pushed when `n` is entered. -/
def LeadsTo (next : K → List K) (p n : K) : Prop := p ∈ next n

/-- What the loop keeps: what is marked is listed or being left; the list has
every node after those that lead to it; a node that is being left is above what
it leads to, and what leads to it is listed or above it. -/
structure Emitting (next : K → List K) (root : K) (stack : List (K × Bool))
    (visited : BTreeSet K) (order : List K) : Prop where
  marked : ∀ k, k ∈ visited ↔ k ∈ order ∨ (k, true) ∈ stack
  nodup : order.Nodup
  once : (stack.filter (·.2)).Nodup
  apart : ∀ k ∈ order, (k, true) ∉ stack
  follows : Follows (LeadsTo next) order
  path : stack.Pairwise fun a b => b.2 = true → TransGen (LeadsTo next) a.1 b.1
  named : ∀ above k below, stack = above ++ (k, true) :: below →
    ∀ p, LeadsTo next p k → p ∈ order ∨ ∃ leaving, (p, leaving) ∈ above
  listed : ∀ k ∈ order, ReflTransGen (LeadsTo next) k root
  reached : ∀ entry ∈ stack, ReflTransGen (LeadsTo next) entry.1 root
  root : root ∈ order ∨ ∃ leaving, (root, leaving) ∈ stack

variable {next : K → List K} {root k : K} {stack : List (K × Bool)} {visited : BTreeSet K}
  {order : List K}

omit [Std.LawfulEqOrd K] in
theorem Emitting.start (next : K → List K) (root : K) :
    Emitting next root [(root, false)] ∅ [] where
  marked k := by simp
  nodup := List.nodup_nil
  once := by simp
  apart k hk := absurd hk List.not_mem_nil
  follows above n below h := by simp at h
  path := List.pairwise_singleton _ _
  named above k below h := by
    rcases List.append_eq_cons_iff.mp h.symm with ⟨-, heq⟩ | ⟨above', -, heq⟩
    · cases heq
    · simp at heq
  listed k hk := absurd hk List.not_mem_nil
  reached entry hentry := by
    rw [List.mem_singleton.mp hentry]
  root := .inr ⟨false, List.mem_singleton.mpr rfl⟩

omit [Std.LawfulEqOrd K] in
/-- A node is left: all that leads to it is listed. -/
theorem Emitting.leave (h : Emitting next root ((k, true) :: stack) visited order) :
    Emitting next root stack visited (order ++ [k]) := by
  have honce : (k, true) ∉ stack ∧ (stack.filter (·.2)).Nodup := by
    have hnodup := h.once
    rw [List.filter_cons_of_pos rfl, List.nodup_cons] at hnodup
    exact ⟨fun hmem => hnodup.1 (List.mem_filter.mpr ⟨hmem, rfl⟩), hnodup.2⟩
  have hnew : k ∉ order := fun hk => h.apart k hk List.mem_cons_self
  have hlisted : ∀ p, LeadsTo next p k → p ∈ order := by
    intro p hp
    rcases h.named [] k stack rfl p hp with hp | ⟨_, hmem⟩
    · exact hp
    · cases hmem
  refine ⟨fun k' => ?_, ?_, honce.2, ?_, h.follows.concat hlisted, (List.pairwise_cons.mp h.path).2,
    ?_, ?_, fun entry hentry => h.reached entry (List.mem_cons_of_mem _ hentry), ?_⟩
  · rw [h.marked, List.mem_append, List.mem_singleton, List.mem_cons, Prod.mk.injEq, or_assoc,
      and_iff_left rfl]
  · exact List.nodup_append.mpr ⟨h.nodup, List.nodup_singleton k, fun a ha b hb heq =>
      hnew (List.mem_singleton.mp hb ▸ heq ▸ ha)⟩
  · intro k' hk' hmem
    rcases List.mem_append.mp hk' with hk' | hk'
    · exact h.apart k' hk' (List.mem_cons_of_mem _ hmem)
    · exact honce.1 (List.mem_singleton.mp hk' ▸ hmem)
  · intro above k' below hsplit p hp
    rcases h.named ((k, true) :: above) k' below (by rw [hsplit]; rfl) p hp with
      hp | ⟨leaving, hmem⟩
    · exact .inl (List.mem_append_left _ hp)
    · rcases List.mem_cons.mp hmem with heq | hmem
      · cases heq
        exact .inl (List.mem_append_right _ (List.mem_singleton.mpr rfl))
      · exact .inr ⟨leaving, hmem⟩
  · intro k' hk'
    rcases List.mem_append.mp hk' with hk' | hk'
    · exact h.listed k' hk'
    · rw [List.mem_singleton.mp hk']
      exact h.reached _ List.mem_cons_self
  · rcases h.root with hroot | ⟨leaving, hroot⟩
    · exact .inl (List.mem_append_left _ hroot)
    · rcases List.mem_cons.mp hroot with heq | hroot
      · cases heq
        exact .inl (List.mem_append_right _ (List.mem_singleton.mpr rfl))
      · exact .inr ⟨leaving, hroot⟩

omit [Std.LawfulEqOrd K] in
/-- A marked node is skipped: it is listed, or being left above what it leads to. -/
theorem Emitting.skip (h : Emitting next root ((k, false) :: stack) visited order)
    (hacyclic : ¬ TransGen (LeadsTo next) k k) (hk : k ∈ visited) :
    Emitting next root stack visited order := by
  have hwhere : k ∈ order ∨ (k, true) ∈ stack := by
    rcases (h.marked k).mp hk with hk | hk
    · exact .inl hk
    · exact .inr ((List.mem_cons.mp hk).resolve_left (by simp))
  have hpath := (List.pairwise_cons.mp h.path).2
  refine ⟨fun k' => ?_, h.nodup, ?_, fun k' hk' hmem => h.apart k' hk' (List.mem_cons_of_mem _ hmem),
    h.follows, hpath, ?_, h.listed,
    fun entry hentry => h.reached entry (List.mem_cons_of_mem _ hentry), ?_⟩
  · rw [h.marked, List.mem_cons, Prod.mk.injEq]
    simp
  · have honce := h.once
    rwa [List.filter_cons_of_neg (by simp)] at honce
  · intro above m below hsplit p hp
    rcases h.named ((k, false) :: above) m below (by rw [hsplit]; rfl) p hp with
      hp | ⟨leaving, hmem⟩
    · exact .inl hp
    · rcases List.mem_cons.mp hmem with heq | hmem
      · cases heq
        rcases hwhere with hk | hk
        · exact .inl hk
        · -- the exit of `k` is above the one of `m`: otherwise `m` leads back to `k`
          rw [hsplit] at hk hpath
          rcases List.mem_append.mp hk with hk | hk
          · exact .inr ⟨true, hk⟩
          · rcases List.mem_cons.mp hk with heq | hk
            · cases heq
              exact absurd (.single hp) hacyclic
            · have hback := (List.pairwise_cons.mp (List.pairwise_append.mp hpath).2.1).1 _ hk rfl
              exact absurd (.head hp hback) hacyclic
      · exact .inr ⟨leaving, hmem⟩
  · rcases h.root with hroot | ⟨leaving, hroot⟩
    · exact .inl hroot
    · rcases List.mem_cons.mp hroot with heq | hroot
      · cases heq
        exact hwhere.imp id fun hk => ⟨true, hk⟩
      · exact .inr ⟨leaving, hroot⟩

/-- A new node is entered, below all that leads to it. -/
theorem Emitting.enter (h : Emitting next root ((k, false) :: stack) visited order)
    (hk : k ∉ visited) :
    Emitting next root (entered next k stack) (visited.insert k) order := by
  have hnew : k ∉ order ∧ (k, true) ∉ stack := by
    rw [h.marked, not_or, List.mem_cons, not_or] at hk
    exact ⟨hk.1, hk.2.2⟩
  obtain ⟨habove, hpath⟩ := List.pairwise_cons.mp h.path
  have hparent : ∀ {p}, p ∈ (next k).reverse → LeadsTo next p k := fun hp =>
    List.mem_reverse.mp hp
  have hexit : ∀ {k'}, (k', true) ∈ entered next k stack ↔ k' = k ∨ (k', true) ∈ stack := by
    intro k'
    simp [entered]
  have hself : ReflTransGen (LeadsTo next) k root := h.reached _ List.mem_cons_self
  refine ⟨fun k' => ?_, h.nodup, ?_, fun k' hk' hmem => ?_, h.follows, ?_, ?_, h.listed, ?_, ?_⟩
  · rw [BTreeSet.mem_insert_iff, h.marked, hexit, List.mem_cons, Prod.mk.injEq]
    simp only [Bool.true_eq_false, and_false, false_or]
    rw [or_left_comm, eq_comm]
  · have hpushed : ((next k).reverse.map fun n => (n, false)).filter (·.2) = [] := by simp
    have honce := h.once
    rw [List.filter_cons_of_neg (by simp)] at honce
    rw [entered, List.filter_append, hpushed, List.nil_append, List.filter_cons_of_pos rfl]
    exact List.nodup_cons.mpr ⟨fun hmem => hnew.2 (List.mem_filter.mp hmem).1, honce⟩
  · rcases hexit.mp hmem with rfl | hmem
    · exact hnew.1 hk'
    · exact h.apart k' hk' (List.mem_cons_of_mem _ hmem)
  · refine List.pairwise_append.mpr ⟨?_, List.pairwise_cons.mpr
      ⟨fun b hb hleaving => habove b hb hleaving, hpath⟩, ?_⟩
    · refine List.pairwise_map.mpr (List.pairwise_of_forall fun _ _ hleaving => ?_)
      cases hleaving
    · intro a ha b hb hleaving
      obtain ⟨p, hp, rfl⟩ := List.mem_map.mp ha
      rcases List.mem_cons.mp hb with rfl | hb
      · exact .single (hparent hp)
      · exact .head (hparent hp) (habove b hb hleaving)
  · intro above m below hsplit p hp
    rw [entered] at hsplit
    rcases List.append_eq_append_iff.mp hsplit with ⟨more, hmore, hrest⟩ | ⟨more, hpush, hrest⟩
    · cases more with
      | nil =>
          cases hrest
          refine .inr ⟨false, ?_⟩
          rw [hmore, List.append_nil]
          exact List.mem_map_of_mem (List.mem_reverse.mpr hp)
      | cons entry more =>
          obtain ⟨rfl, hstack⟩ := List.cons.inj hrest
          rcases h.named ((k, false) :: more) m below (by rw [hstack]; rfl) p hp with
            hp | ⟨leaving, hmem⟩
          · exact .inl hp
          · rw [hmore]
            rcases List.mem_cons.mp hmem with heq | hmem
            · cases heq
              exact .inr ⟨true, List.mem_append_right _ List.mem_cons_self⟩
            · exact .inr ⟨leaving, List.mem_append_right _ (List.mem_cons_of_mem _ hmem)⟩
    · cases more with
      | nil =>
          cases hrest
          rw [List.append_nil] at hpush
          exact .inr ⟨false, hpush ▸ List.mem_map_of_mem (List.mem_reverse.mpr hp)⟩
      | cons entry more =>
          -- an exit is not among what was pushed
          obtain ⟨rfl, -⟩ := List.cons.inj hrest
          have hmem : (m, true) ∈ (next k).reverse.map fun n => (n, false) := by
            rw [hpush]
            exact List.mem_append_right _ List.mem_cons_self
          simp at hmem
  · intro entry hentry
    rcases List.mem_append.mp hentry with hentry | hentry
    · obtain ⟨p, hp, rfl⟩ := List.mem_map.mp hentry
      exact .head (hparent hp) hself
    · rcases List.mem_cons.mp hentry with rfl | hentry
      · exact hself
      · exact h.reached entry (List.mem_cons_of_mem _ hentry)
  · rcases h.root with hroot | ⟨leaving, hroot⟩
    · exact .inl hroot
    · rcases List.mem_cons.mp hroot with heq | hroot
      · cases heq
        exact .inr ⟨true, List.mem_append_right _ List.mem_cons_self⟩
      · exact .inr ⟨leaving, List.mem_append_right _ (List.mem_cons_of_mem _ hroot)⟩

/-! ### The run -/

/-- An upper bound of the passes: the entries of the stack, and for every node
that is not marked its exit and what it pushes. -/
def postWork (next : K → List K) (nodes : List K) (stack : List (K × Bool))
    (visited : BTreeSet K) : Nat :=
  stack.length +
    weightOutside (fun k => (next k).length + 1) (nodes.map fun k => (k, k)) visited.contains

/-- With enough passes the loop ends with an empty stack. -/
theorem Emitting.run {nodes : List K} (hnodes : nodes.Nodup)
    (hmem : ∀ k, ReflTransGen (LeadsTo next) k root → k ∈ nodes)
    (hacyclic : ∀ k, ReflTransGen (LeadsTo next) k root → ¬ TransGen (LeadsTo next) k k)
    {fuel : Nat} (h : Emitting next root stack visited order)
    (hfuel : postWork next nodes stack visited ≤ fuel) :
    ∃ visited', Emitting next root [] visited' (postLoop next fuel stack visited order) := by
  induction fuel generalizing stack visited order with
  | zero =>
      cases stack with
      | nil => exact ⟨visited, h⟩
      | cons entry stack => simp [postWork] at hfuel
  | succ fuel ih =>
      cases stack with
      | nil => exact ⟨visited, h⟩
      | cons entry stack =>
          obtain ⟨k, leaving⟩ := entry
          rw [postWork, List.length_cons] at hfuel
          have hk : ReflTransGen (LeadsTo next) k root := h.reached _ List.mem_cons_self
          rw [postLoop]
          cases leaving with
          | true => exact ih h.leave (by rw [postWork]; omega)
          | false =>
              rw [if_neg Bool.false_ne_true]
              by_cases hseen : k ∈ visited
              · rw [if_pos (Std.ExtTreeSet.mem_iff_contains.mp hseen)]
                exact ih (h.skip (hacyclic k hk) hseen) (by rw [postWork]; omega)
              · have hunseen : visited.contains k = false :=
                  Bool.not_eq_true _ ▸ fun hc => hseen (Std.ExtTreeSet.mem_iff_contains.mpr hc)
                rw [if_neg (Bool.not_eq_true _ ▸ hunseen)]
                refine ih (h.enter hseen) ?_
                have hkeys : ((nodes.map fun k => (k, k)).map (·.1)).Nodup := by
                  rwa [List.map_map, show ((·.1) ∘ fun k : K => (k, k)) = id from rfl, List.map_id]
                have hother : ∀ k', k ≠ k' → (visited.insert k).contains k' = visited.contains k' := by
                  intro k' hne
                  rw [Std.ExtTreeSet.contains_insert]
                  simp [hne]
                have hgone : weightOutside (fun k => (next k).length + 1)
                    (nodes.map fun k => (k, k)) (visited.insert k).contains +
                      ((next k).length + 1) = weightOutside (fun k => (next k).length + 1)
                        (nodes.map fun k => (k, k)) visited.contains :=
                  weightOutside_insert _ hkeys (List.mem_map_of_mem (hmem k hk)) hunseen
                    Std.ExtTreeSet.contains_insert_self hother
                rw [postWork, entered, List.length_append, List.length_map, List.length_reverse,
                  List.length_cons]
                omega

/-- **Post-order**: everything that leads to the root, once, each node after all
that lead to it, and the root last. -/
theorem postLoop_spec {nodes : List K} (hnodes : nodes.Nodup)
    (hmem : ∀ k, ReflTransGen (LeadsTo next) k root → k ∈ nodes)
    (hacyclic : ∀ k, ReflTransGen (LeadsTo next) k root → ¬ TransGen (LeadsTo next) k k)
    {fuel : Nat} (hfuel : postWork next nodes [(root, false)] ∅ ≤ fuel) :
    let order := postLoop next fuel [(root, false)] ∅ []
    order.Nodup ∧ (∀ k, k ∈ order ↔ ReflTransGen (LeadsTo next) k root) ∧
      Follows (LeadsTo next) order ∧ order.getLast? = some root := by
  obtain ⟨visited, h⟩ := (Emitting.start next root).run hnodes hmem hacyclic hfuel
  have hroot : root ∈ postLoop next fuel [(root, false)] ∅ [] := by
    rcases h.root with hroot | ⟨_, hroot⟩
    · exact hroot
    · cases hroot
  refine ⟨h.nodup, fun k => ⟨h.listed k, fun hpath => h.follows.mem_of_path hpath hroot⟩,
    h.follows, h.follows.getLast?_eq h.nodup hroot h.listed⟩

end PostOrder
