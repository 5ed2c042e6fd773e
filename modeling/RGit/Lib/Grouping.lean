/-
RGit/Lib/Grouping.lean

Grouping nested elements.

In a set ordered by a relation "is at or above", the roots are the topmost
elements that have another element beneath them.  Replacing everything at or
beneath a root by the root leaves an antichain (`Grouped.antichain`) and
loses nothing (`grouped_or_beneath`).

Nothing here mentions the modelled program.
-/
import Mathlib.Order.WellFounded

universe u

section Grouping

variable {α : Type u} (le : α → α → Prop) (P : α → Prop)

/-- A topmost element of `P` with another one beneath it. -/
structure IsRoot (r : α) : Prop where
  mem : P r
  above : ∃ p, P p ∧ p ≠ r ∧ le r p
  topmost : ∀ q, P q → le q r → q = r

/-- `P` with every nest replaced by its root. -/
def Grouped (p : α) : Prop := IsRoot le P p ∨ (P p ∧ ∀ r, IsRoot le P r → ¬le r p)

variable {le P}

/-- Above every element there is a topmost one. -/
theorem exists_topmost (hwf : WellFounded fun a b => le a b ∧ a ≠ b)
    (htrans : ∀ a b c, le a b → le b c → le a c) (hrefl : ∀ a, le a a) {p : α} (hp : P p) :
    ∃ m, P m ∧ le m p ∧ ∀ q, P q → le q m → q = m := by
  obtain ⟨m, ⟨hm, hmp⟩, hmin⟩ := hwf.has_min {q | P q ∧ le q p} ⟨p, hp, hrefl p⟩
  refine ⟨m, hm, hmp, fun q hq hqm => ?_⟩
  by_contra hne
  exact hmin q ⟨hq, htrans q m p hqm hmp⟩ ⟨hqm, hne⟩

/-- **What is grouped is an antichain.** -/
theorem Grouped.antichain (hwf : WellFounded fun a b => le a b ∧ a ≠ b)
    (htrans : ∀ a b c, le a b → le b c → le a c) (hrefl : ∀ a, le a a) {p q : α}
    (hp : Grouped le P p) (hq : Grouped le P q) (hle : le p q) : p = q := by
  rcases hq with hq | ⟨hq, hfree⟩
  · rcases hp with hp | ⟨hp, -⟩
    · exact hq.topmost p hp.mem hle
    · exact hq.topmost p hp hle
  · rcases hp with hp | ⟨hp, -⟩
    · exact absurd hle (hfree p hp)
    · by_contra hne
      -- the topmost element above `p` has `q` beneath it
      obtain ⟨m, hm, hmp, htop⟩ := exists_topmost hwf htrans hrefl hp
      have hmq := htrans m p q hmp hle
      refine hfree m ⟨hm, ⟨q, hq, ?_, hmq⟩, htop⟩ hmq
      rintro rfl
      exact hne (htop p hp hle)

/-- Nothing is lost. -/
theorem grouped_or_beneath {p : α} (hp : P p) :
    Grouped le P p ∨ ∃ r, IsRoot le P r ∧ le r p := by
  by_cases h : ∃ r, IsRoot le P r ∧ le r p
  · exact .inr h
  · exact .inl (.inr ⟨hp, fun r hr hle => h ⟨r, hr, hle⟩⟩)

end Grouping
