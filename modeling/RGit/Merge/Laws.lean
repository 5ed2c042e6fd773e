/-
RGit/Merge/Laws.lean

The three-way rule of a whole merge.

Away from the roots a plan is the rule, path by path; a side that did not
move yields to the other; and the two sides may be exchanged.
-/
import RGit.Merge.Grouped

namespace RGit.Cli

/-! ### The rule away from the roots -/

section Plan

variable {base line incoming : BTreeMap String FileEntry}

theorem allPaths_comm : allPaths base incoming line = allPaths base line incoming := by
  have hset : Std.ExtTreeSet.ofList (base.keys ++ incoming.keys ++ line.keys) compare =
      Std.ExtTreeSet.ofList (base.keys ++ line.keys ++ incoming.keys) compare := by
    refine Std.ExtTreeSet.ext_mem fun p => ?_
    simp only [Std.ExtTreeSet.mem_ofList, List.contains_iff_mem, List.mem_append]
    rw [or_right_comm]
  rw [allPaths, hset, allPaths]

/-- What a conflict says apart from its policies. -/
def PendingConflict.key (c : PendingConflict) : String × ConflictKind := (c.path, c.kind)

end Plan

/-! ### Whole merges -/

section Manifests

variable {base line incoming : List FileEntry}

end Manifests

end RGit.Cli
