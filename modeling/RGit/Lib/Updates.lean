/-
RGit/Lib/Updates.lean

Updates of a map, one after the other.

Every update has a key and a place; `before` says what it may replace and `after`
what it leaves behind.  `Left` says of a map that some of the updates are left and
the others are through, and a run of updates with a place each keeps it
(`Left.skip`, `Left.set`).  Of updates that may share a place less can be said:
every place has what it had at first, or what an update at this place leaves
behind (`Touched`).

Nothing here mentions the modelled program.
-/
import Mathlib.Logic.Function.Basic
import Mathlib.Data.List.Basic

structure Updates (κ P V : Type) where
  keys : List κ
  place : κ → P
  before : κ → Option V → Prop
  after : κ → Option V → Prop

namespace Updates

variable {κ P V : Type} {u : Updates κ P V} {first f : P → Option V} {k : κ}
  {rest : List κ}

/-- The updates in `rest` are left, and the others are through. -/
structure Left (u : Updates κ P V) (first : P → Option V) (rest : List κ) (f : P → Option V) :
    Prop where
  elsewhere : ∀ p, (∀ k ∈ u.keys, p ≠ u.place k) → f p = first p
  pending : ∀ k ∈ rest, f (u.place k) = first (u.place k)
  finished : ∀ k ∈ u.keys, k ∉ rest → u.after k (f (u.place k)) ∧
    (f (u.place k) = first (u.place k) ∨ u.before k (first (u.place k)))

theorem left_all (h : ∀ k ∈ u.keys, k ∈ rest) : u.Left first rest first where
  elsewhere _ _ := rfl
  pending _ _ := rfl
  finished k hk hrest := absurd (h k hk) hrest

/-- An update has nothing to do. -/
theorem Left.skip (h : u.Left first (k :: rest) f) (hafter : u.after k (f (u.place k))) :
    u.Left first rest f where
  elsewhere := h.elsewhere
  pending k' hk' := h.pending k' (List.mem_cons_of_mem k hk')
  finished k' hk' hrest := by
    by_cases heq : k' = k
    · subst heq
      exact ⟨hafter, .inl (h.pending k' List.mem_cons_self)⟩
    · exact h.finished k' hk' (List.not_mem_cons_of_ne_of_not_mem heq hrest)

/-- An update is carried out. -/
theorem Left.set [DecidableEq P] {v : Option V} (h : u.Left first (k :: rest) f)
    (hplaces : ∀ k ∈ u.keys, ∀ k' ∈ u.keys, u.place k = u.place k' → k = k')
    (hkeys : ∀ k' ∈ k :: rest, k' ∈ u.keys) (hrest : k ∉ rest)
    (hbefore : u.before k (f (u.place k))) (hafter : u.after k v) :
    u.Left first rest (Function.update f (u.place k) v) := by
  have hk : k ∈ u.keys := hkeys k List.mem_cons_self
  have hother : ∀ k' ∈ u.keys, k' ≠ k →
      Function.update f (u.place k) v (u.place k') = f (u.place k') := fun k' hk' hne =>
    Function.update_of_ne (fun heq => hne (hplaces k' hk' k hk heq)) v f
  constructor
  case elsewhere =>
    intro p hp
    rw [Function.update_of_ne (hp k hk)]
    exact h.elsewhere p hp
  case pending =>
    intro k' hk'
    have hmem := List.mem_cons_of_mem k hk'
    rw [hother k' (hkeys k' hmem) fun heq => hrest (heq ▸ hk')]
    exact h.pending k' hmem
  case finished =>
    intro k' hk' hrest'
    by_cases heq : k' = k
    · subst heq
      rw [Function.update_self, ← h.pending k' List.mem_cons_self]
      exact ⟨hafter, .inr hbefore⟩
    · rw [hother k' hk' heq]
      exact h.finished k' hk' (List.not_mem_cons_of_ne_of_not_mem heq hrest')

/-- What a place has lost is what its update may replace. -/
theorem Left.replaced [DecidableEq κ] (h : u.Left first rest f) {p : P} (hp : f p ≠ first p) :
    ∃ k ∈ u.keys, p = u.place k ∧ u.before k (first p) ∧ u.after k (f p) := by
  by_cases hplace : ∀ k ∈ u.keys, p ≠ u.place k
  · exact absurd (h.elsewhere p hplace) hp
  · push Not at hplace
    obtain ⟨k, hk, rfl⟩ := hplace
    by_cases hrest : k ∈ rest
    · exact absurd (h.pending k hrest) hp
    · obtain ⟨hafter, heq | hbefore⟩ := h.finished k hk hrest
      · exact absurd heq hp
      · exact ⟨k, hk, rfl, hbefore, hafter⟩

/-- Every place has what it had, or what an update leaves behind. -/
def Touched (u : Updates κ P V) (first f : P → Option V) : Prop :=
  ∀ p, f p = first p ∨ ∃ k ∈ u.keys, p = u.place k ∧ u.after k (f p)

theorem Left.touched [DecidableEq κ] (h : u.Left first rest f) : u.Touched first f := by
  intro p
  by_cases hp : f p = first p
  · exact .inl hp
  · obtain ⟨k, hk, hplace, -, hafter⟩ := h.replaced hp
    exact .inr ⟨k, hk, hplace, hafter⟩

theorem touched_refl : u.Touched first first := fun _ => .inl rfl

theorem Touched.set [DecidableEq P] {v : Option V} (h : u.Touched first f) (hk : k ∈ u.keys)
    (hafter : u.after k v) : u.Touched first (Function.update f (u.place k) v) := by
  intro p
  by_cases hp : p = u.place k
  · subst hp
    rw [Function.update_self]
    exact .inr ⟨k, hk, rfl, hafter⟩
  · rw [Function.update_of_ne hp]
    exact h p

/-- An update at the place of this one has left something behind. -/
def Done (u : Updates κ P V) (f : P → Option V) (k : κ) : Prop :=
  ∃ k' ∈ u.keys, u.place k' = u.place k ∧ u.after k' (f (u.place k))

theorem Done.set [DecidableEq P] {v : Option V} {k' : κ} (h : u.Done f k') (hk : k ∈ u.keys)
    (hafter : u.after k v) : u.Done (Function.update f (u.place k) v) k' := by
  by_cases hplace : u.place k' = u.place k
  · exact ⟨k, hk, hplace.symm, by rwa [hplace, Function.update_self]⟩
  · obtain ⟨other, hother, hsame, hdone⟩ := h
    exact ⟨other, hother, hsame, by rwa [Function.update_of_ne hplace]⟩

theorem done_set_self [DecidableEq P] {v : Option V} (hk : k ∈ u.keys) (hafter : u.after k v) :
    u.Done (Function.update f (u.place k) v) k :=
  ⟨k, hk, rfl, by rwa [Function.update_self]⟩

end Updates
