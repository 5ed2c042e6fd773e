/-
RGit/Lib/Versioned.lean

Optimistic concurrency over a versioned state.

A client captures the state, works without the lock, and commits only if the
version has not moved.  If every change of the state moves the version
upwards (`Moves`), an unmoved version means an unmoved state
(`Captured.state_eq`).

Nothing here mentions the modelled program.
-/
import Mathlib.Order.Lattice

section Versioned

variable {S V : Type} [LinearOrder V] (version : S → V)

/-- A change that is none, or that moves the version up. -/
def Moves (s t : S) : Prop := t = s ∨ version s < version t

/-- `s` is a later state than the captured one, or still the same. -/
structure Captured (captured s : S) : Prop where
  le : version captured ≤ version s
  same : version s = version captured → s = captured

variable {version} {captured s t : S}

theorem Captured.refl (s : S) : Captured version s s := ⟨le_rfl, fun _ => rfl⟩

theorem Captured.move (h : Captured version captured s) (hmove : Moves version s t) :
    Captured version captured t := by
  rcases hmove with rfl | hlt
  · exact h
  · have hlt' := h.le.trans_lt hlt
    exact ⟨hlt'.le, fun heq => absurd heq hlt'.ne'⟩

/-- If the version has not moved, neither has the state. -/
theorem Captured.state_eq (h : Captured version captured s)
    (hversion : version s = version captured) : s = captured := h.same hversion

end Versioned
