/-
RGit/Lib/Search.lean

Search with a stack and a set of the nodes seen so far.

A node that is popped is looked at once: when it is new, what follows it is
pushed.  What the search has seen in the end is what can be reached
(`mem_searchLoop`), provided that it may make as many passes as there are
edges out of new nodes and entries on the stack (`searchWork`).

Nothing here mentions the modelled program.
-/
import RGit.Lib.Worklist
import Mathlib.Logic.Relation

open Relation

section Search

variable {K : Type} [Ord K] [Std.TransOrd K] [Std.LawfulEqOrd K]

/-- `while let Some(node) = pending.pop() { if seen.insert(node) { .. } }`. -/
def searchLoop (next : K → List K) : Nat → List K → BTreeSet K → BTreeSet K
  | _, [], seen => seen
  | 0, _ :: _, seen => seen
  | fuel + 1, k :: pending, seen =>
      if seen.contains k then searchLoop next fuel pending seen
      else searchLoop next fuel (next k ++ pending) (seen.insert k)

/-- One step of the search. -/
def NextOf (next : K → List K) (a b : K) : Prop := b ∈ next a

variable {next : K → List K} {fuel : Nat} {pending : List K} {seen : BTreeSet K}

/-- What is seen stays seen. -/
theorem mem_searchLoop_of_seen {k : K} (h : k ∈ seen) :
    k ∈ searchLoop next fuel pending seen := by
  induction fuel generalizing pending seen with
  | zero => cases pending <;> exact h
  | succ fuel ih =>
      cases pending with
      | nil => exact h
      | cons c pending =>
          rw [searchLoop]
          split
          · exact ih h
          · exact ih (BTreeSet.mem_insert_iff.mpr (.inr h))

/-- What follows a seen node is seen or on the stack. -/
def SeenClosed (next : K → List K) (pending : List K) (seen : BTreeSet K) : Prop :=
  ∀ k ∈ seen, ∀ n ∈ next k, n ∈ pending ∨ n ∈ seen

omit [Std.LawfulEqOrd K] in
/-- From a seen node one gets to seen nodes, or through the stack. -/
theorem SeenClosed.of_path (h : SeenClosed next pending seen) {c k : K} (hc : c ∈ seen)
    (hpath : ReflTransGen (NextOf next) c k) :
    k ∈ seen ∨ ∃ c' ∈ pending, ReflTransGen (NextOf next) c' k := by
  induction hpath using ReflTransGen.head_induction_on with
  | refl => exact .inl hc
  | head hstep hrest ih =>
      rcases h _ hc _ hstep with hpending | hseen
      · exact .inr ⟨_, hpending, hrest⟩
      · exact ih hseen

/-- The edges out of the nodes that are not seen, and the stack. -/
def searchWork (next : K → List K) (nodes : List K) (pending : List K) (seen : BTreeSet K) : Nat :=
  pending.length +
    weightOutside (fun k => (next k).length) (nodes.map fun k => (k, k)) seen.contains

/-- **What a search sees**: what it had seen, and what can be reached from
its stack.  The nodes with an edge are listed once each. -/
theorem mem_searchLoop {nodes : List K} (hnodes : nodes.Nodup)
    (hedges : ∀ k, next k ≠ [] → k ∈ nodes) (hclosed : SeenClosed next pending seen)
    (hfuel : searchWork next nodes pending seen ≤ fuel) {k : K} :
    k ∈ searchLoop next fuel pending seen ↔
      k ∈ seen ∨ ∃ c ∈ pending, ReflTransGen (NextOf next) c k := by
  induction fuel generalizing pending seen with
  | zero =>
      cases pending with
      | nil => simp [searchLoop]
      | cons c pending => simp [searchWork] at hfuel
  | succ fuel ih =>
      cases pending with
      | nil => simp [searchLoop]
      | cons c pending =>
          rw [searchWork, List.length_cons] at hfuel
          rw [searchLoop]
          split
          · rename_i hseen
            have hc : c ∈ seen := Std.ExtTreeSet.mem_iff_contains.mpr hseen
            have hclosed' : SeenClosed next pending seen := by
              intro k hk n hn
              rcases hclosed k hk n hn with hpending | hseen
              · rcases List.mem_cons.mp hpending with rfl | hpending
                · exact .inr hc
                · exact .inl hpending
              · exact .inr hseen
            rw [ih hclosed' (by rw [searchWork]; omega)]
            constructor
            · rintro (h | ⟨c', hc', hpath⟩)
              · exact .inl h
              · exact .inr ⟨c', List.mem_cons_of_mem _ hc', hpath⟩
            · rintro (h | ⟨c', hc', hpath⟩)
              · exact .inl h
              · rcases List.mem_cons.mp hc' with rfl | hc'
                · exact hclosed'.of_path hc hpath
                · exact .inr ⟨c', hc', hpath⟩
          · rename_i hnew
            have hclosed' : SeenClosed next (next c ++ pending) (seen.insert c) := by
              intro k hk n hn
              rcases BTreeSet.mem_insert_iff.mp hk with rfl | hk
              · exact .inl (List.mem_append_left _ hn)
              · rcases hclosed k hk n hn with hpending | hseen
                · rcases List.mem_cons.mp hpending with rfl | hpending
                  · exact .inr (BTreeSet.mem_insert_iff.mpr (.inl rfl))
                  · exact .inl (List.mem_append_right _ hpending)
                · exact .inr (BTreeSet.mem_insert_iff.mpr (.inr hseen))
            have hwork : searchWork next nodes (next c ++ pending) (seen.insert c) ≤ fuel := by
              rw [searchWork, List.length_append]
              by_cases hempty : next c = []
              · have hle : weightOutside (fun k => (next k).length) (nodes.map fun k => (k, k))
                    (seen.insert c).contains ≤ weightOutside (fun k => (next k).length)
                      (nodes.map fun k => (k, k)) seen.contains :=
                  weightOutside_le _ _ fun k hk => by
                    rw [Std.ExtTreeSet.contains_insert, hk, Bool.or_true]
                rw [hempty, List.length_nil]
                omega
              · have hkeys : ((nodes.map fun k => (k, k)).map (·.1)).Nodup := by
                  rwa [List.map_map, show ((·.1) ∘ fun k : K => (k, k)) = id from rfl, List.map_id]
                have hmem : (c, c) ∈ nodes.map fun k => (k, k) :=
                  List.mem_map_of_mem (hedges c hempty)
                have hother : ∀ k, c ≠ k → (seen.insert c).contains k = seen.contains k := by
                  intro k hne
                  rw [Std.ExtTreeSet.contains_insert]
                  simp [hne]
                have hgone : weightOutside (fun k => (next k).length) (nodes.map fun k => (k, k))
                    (seen.insert c).contains + (next c).length =
                      weightOutside (fun k => (next k).length) (nodes.map fun k => (k, k))
                        seen.contains :=
                  weightOutside_insert _ hkeys hmem (Bool.not_eq_true _ ▸ hnew)
                    Std.ExtTreeSet.contains_insert_self hother
                omega
            rw [ih hclosed' hwork, BTreeSet.mem_insert_iff]
            constructor
            · rintro ((rfl | h) | ⟨c', hc', hpath⟩)
              · exact .inr ⟨_, List.mem_cons_self, .refl⟩
              · exact .inl h
              · rcases List.mem_append.mp hc' with hc' | hc'
                · exact .inr ⟨c, List.mem_cons_self, .head hc' hpath⟩
                · exact .inr ⟨c', List.mem_cons_of_mem _ hc', hpath⟩
            · rintro (h | ⟨c', hc', hpath⟩)
              · exact .inl (.inr h)
              · rcases List.mem_cons.mp hc' with rfl | hc'
                · rcases hpath.cases_head with rfl | ⟨n, hn, hrest⟩
                  · exact .inl (.inl rfl)
                  · exact .inr ⟨n, List.mem_append_left _ hn, hrest⟩
                · exact .inr ⟨c', List.mem_append_right _ hc', hpath⟩

end Search
