/-
RGit/Lib/Chunking.lean

Cutting a stream into chunks.

A chunker looks at the elements since the last cut, with a state that it
carries along, and says whether to cut after the newest one; a cut resets
it.  What it returns then depends on the stream alone and not on how it
arrives (`push_append`), and from every cut on it behaves as at the start
(`chunks_append`).

Nothing here mentions the modelled program.
-/
import Mathlib.Data.List.Basic

universe u v

/-- A chunker: the state at the start of a chunk, and the state after one more
element, for the pending elements up to that one; `none` is a cut. -/
structure Chunker (α : Type u) (σ : Type v) where
  start : σ
  advance : σ → List α → Option σ

namespace Chunker

variable {α : Type u} {σ : Type v} (k : Chunker α σ)

/-- One element: the pending ones with the state after it, and the chunk that
it completes. -/
def step (s : List α × σ) (a : α) : (List α × σ) × List (List α) :=
  match k.advance s.2 (s.1 ++ [a]) with
  | some state => ((s.1 ++ [a], state), [])
  | none => (([], k.start), [s.1 ++ [a]])

/-- A part of the stream. -/
def push (s : List α × σ) : List α → (List α × σ) × List (List α)
  | [] => (s, [])
  | a :: rest =>
      let next := push (k.step s a).1 rest
      (next.1, (k.step s a).2 ++ next.2)

/-- The end of the stream. -/
def flush (s : List α × σ) : List (List α) := if s.1.isEmpty then [] else [s.1]

/-- The chunks of a whole stream that goes on from a state. -/
def chunksFrom (s : List α × σ) (input : List α) : List (List α) :=
  (k.push s input).2 ++ flush (k.push s input).1

/-- The chunks of a whole stream. -/
def chunks (input : List α) : List (List α) := k.chunksFrom ([], k.start) input

/-- **The parts do not matter.** -/
theorem push_append (s : List α × σ) (l l' : List α) :
    k.push s (l ++ l') =
      ((k.push (k.push s l).1 l').1, (k.push s l).2 ++ (k.push (k.push s l).1 l').2) := by
  induction l generalizing s with
  | nil => rfl
  | cons a l ih => simp only [List.cons_append, push, ih, List.append_assoc]

/-- Nothing is lost: what was pending and what came is in the chunks or pending. -/
theorem push_flatten (s : List α × σ) (input : List α) :
    (k.push s input).2.flatten ++ (k.push s input).1.1 = s.1 ++ input := by
  induction input generalizing s with
  | nil => simp [push]
  | cons a input ih =>
      have hstep : (k.step s a).2.flatten ++ (k.step s a).1.1 = s.1 ++ [a] := by
        rw [step]
        split <;> simp
      simp only [push, List.flatten_append, List.append_assoc, ih]
      rw [← List.append_assoc, hstep, List.append_assoc]
      rfl

theorem flatten_flush (s : List α × σ) : (flush s).flatten = s.1 := by
  rw [flush]
  split
  · next h => simp [List.isEmpty_iff.mp h]
  · simp

theorem chunks_flatten (input : List α) : (k.chunks input).flatten = input := by
  rw [chunks, chunksFrom, List.flatten_append, flatten_flush, push_flatten, List.nil_append]

/-- The chunks are one last chunk, or a first one and the chunks of the rest. -/
theorem chunksFrom_cases (s : List α × σ) (input : List α) :
    (k.push s input).2 = [] ∨
      ∃ chunk rest, s.1 ++ input = chunk ++ rest ∧ chunk ≠ [] ∧
        k.chunksFrom s input = chunk :: k.chunks rest := by
  induction input generalizing s with
  | nil => exact .inl rfl
  | cons a input ih =>
      rw [push, chunksFrom, push]
      cases hadvance : k.advance s.2 (s.1 ++ [a]) with
      | some state =>
          have hstep : k.step s a = ((s.1 ++ [a], state), []) := by rw [step, hadvance]
          rw [hstep]
          dsimp only
          rw [List.nil_append]
          rcases ih (s.1 ++ [a], state) with hnone | ⟨chunk, rest, hsplit, hne, hchunks⟩
          · exact .inl hnone
          · refine .inr ⟨chunk, rest, ?_, hne, hchunks⟩
            rw [← hsplit, List.append_assoc]
            rfl
      | none =>
          have hstep : k.step s a = (([], k.start), [s.1 ++ [a]]) := by rw [step, hadvance]
          rw [hstep]
          exact .inr ⟨s.1 ++ [a], input, by simp, by simp, rfl⟩

/-- **A cut is a new start.** -/
theorem chunks_append {input : List α} {before after : List (List α)}
    (h : k.chunks input = before ++ after) : k.chunks after.flatten = after := by
  induction before generalizing input with
  | nil =>
      rw [List.nil_append] at h
      rw [← h, chunks_flatten]
  | cons chunk before ih =>
      rcases k.chunksFrom_cases ([], k.start) input with hnone | ⟨first, rest, -, -, hchunks⟩
      · have hflush : k.chunks input = flush (k.push ([], k.start) input).1 := by
          rw [chunks, chunksFrom, hnone, List.nil_append]
        rw [hflush, flush] at h
        split at h
        · cases h
        · have hnil : before ++ after = [] := (List.cons.inj h).2.symm
          obtain ⟨-, rfl⟩ := List.append_eq_nil_iff.mp hnil
          rfl
      · rw [chunks, hchunks, List.cons_append, List.cons.injEq] at h
        exact ih h.2

/-! ### Lengths -/

section Lengths

variable {k} {low high : ℕ}

theorem length_lt_of_advance (hhigh : ∀ s p state, k.advance s p = some state → p.length ≠ high)
    {s : List α × σ} (hs : s.1.length < high) {a : α} {state : σ}
    (h : k.advance s.2 (s.1 ++ [a]) = some state) : (s.1 ++ [a]).length < high := by
  have hne := hhigh _ _ _ h
  rw [List.length_append, List.length_singleton] at hne ⊢
  omega

/-- The pending elements of a state that goes on are few. -/
theorem length_push (hhigh : ∀ s p state, k.advance s p = some state → p.length ≠ high)
    (hpos : 0 < high) {s : List α × σ} (hs : s.1.length < high) (input : List α) :
    (k.push s input).1.1.length < high := by
  induction input generalizing s with
  | nil => exact hs
  | cons a input ih =>
      rw [push]
      refine ih ?_
      rw [step]
      split
      · next state hadvance => exact length_lt_of_advance hhigh hs hadvance
      · exact hpos

/-- A chunk that was cut has a length between the bounds. -/
theorem length_of_mem_push (hlow : ∀ s p, k.advance s p = none → low ≤ p.length)
    (hhigh : ∀ s p state, k.advance s p = some state → p.length ≠ high) (hpos : 0 < high)
    {s : List α × σ} (hs : s.1.length < high) {input chunk : List α}
    (hchunk : chunk ∈ (k.push s input).2) : low ≤ chunk.length ∧ chunk.length ≤ high := by
  induction input generalizing s with
  | nil => cases hchunk
  | cons a input ih =>
      rw [push] at hchunk
      cases hadvance : k.advance s.2 (s.1 ++ [a]) with
      | some state =>
          have hstep : k.step s a = ((s.1 ++ [a], state), []) := by rw [step, hadvance]
          rw [hstep] at hchunk
          exact ih (length_lt_of_advance hhigh hs hadvance) hchunk
      | none =>
          have hstep : k.step s a = (([], k.start), [s.1 ++ [a]]) := by rw [step, hadvance]
          rw [hstep] at hchunk
          rcases List.mem_append.mp hchunk with hfirst | hrest
          · obtain rfl := List.mem_singleton.mp hfirst
            refine ⟨hlow _ _ hadvance, ?_⟩
            rw [List.length_append, List.length_singleton]
            exact hs
          · exact ih (s := ([], k.start)) hpos hrest

/-- Every chunk but the last has a length between the bounds; the last has at
least one element. -/
theorem length_of_mem_chunks (hlow : ∀ s p, k.advance s p = none → low ≤ p.length)
    (hhigh : ∀ s p state, k.advance s p = some state → p.length ≠ high) (hpos : 0 < high)
    (hone : 0 < low) (input : List α) :
    (∀ chunk ∈ (k.chunks input).dropLast, low ≤ chunk.length ∧ chunk.length ≤ high) ∧
      ∀ chunk ∈ (k.chunks input).getLast?, 1 ≤ chunk.length ∧ chunk.length ≤ high := by
  have hcut : ∀ chunk ∈ (k.push ([], k.start) input).2,
      low ≤ chunk.length ∧ chunk.length ≤ high :=
    fun chunk hchunk => length_of_mem_push (s := ([], k.start)) hlow hhigh hpos hpos hchunk
  have hpending := length_push hhigh hpos (s := ([], k.start)) hpos input
  rw [chunks, chunksFrom, flush]
  split
  · rw [List.append_nil]
    refine ⟨fun chunk hchunk => hcut chunk ((List.dropLast_sublist _).subset hchunk), ?_⟩
    intro chunk hchunk
    have hbounds := hcut chunk (List.mem_of_mem_getLast? hchunk)
    omega
  · next hne =>
      rw [List.dropLast_concat, List.getLast?_concat]
      refine ⟨hcut, ?_⟩
      intro chunk hchunk
      obtain rfl := Option.some.inj hchunk
      refine ⟨?_, Nat.le_of_lt hpending⟩
      rw [Nat.one_le_iff_ne_zero, Ne, List.length_eq_zero_iff, ← List.isEmpty_iff]
      exact hne

end Lengths

end Chunker
