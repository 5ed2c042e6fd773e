/-
RGit/Objects/FastCdc.lean

The content-defined chunker of schema 0.

`FastCdcV0` is fed bytes in parts of any size.  The bytes since the last cut
and a rolling hash over those past the minimum decide where it cuts; both are
reset there.
-/
import RGit.Lib.Chunking
import RGit.Objects.Typed

namespace RGit

def fastcdcV0GearSeed : UInt64 := 0x7267697466636463

def fastcdcV0EarlyMask : UInt64 := ((1 : UInt64) <<< 21) - 1

def fastcdcV0LateMask : UInt64 := ((1 : UInt64) <<< 19) - 1

/-- `fastcdc_v0_gear`: one entry of the gear table. -/
def fastcdcV0Gear (byte : UInt8) : UInt64 :=
  let value := fastcdcV0GearSeed + (byte.toUInt64 + 1) * 0x9e3779b97f4a7c15
  let value := (value ^^^ (value >>> 30)) * 0xbf58476d1ce4e5b9
  let value := (value ^^^ (value >>> 27)) * 0x94d049bb133111eb
  value ^^^ (value >>> 31)

/-- `u64::rotate_left(1)`. -/
def rotateLeftOne (value : UInt64) : UInt64 := (value <<< 1) ||| (value >>> 63)

structure FastCdcV0 where
  pending : Bytes := []
  rolling : UInt64 := 0

namespace FastCdcV0

/-- `FastCdcV0::new`. -/
def new : FastCdcV0 := ⟨[], 0⟩

/-- One pass of the loop of `push`, with the chunks completed so far. -/
def pushByte (state : FastCdcV0 × List Bytes) (byte : UInt8) : FastCdcV0 × List Bytes :=
  let pending := state.1.pending ++ [byte]
  let length := pending.length
  if length < fastcdcV0MinSize.toNat then (⟨pending, state.1.rolling⟩, state.2)
  else
    let rolling := rotateLeftOne state.1.rolling + fastcdcV0Gear byte
    let mask := if length < fastcdcV0TargetSize.toNat then fastcdcV0EarlyMask else fastcdcV0LateMask
    if rolling &&& mask = 0 ∨ length = fastcdcV0MaxSize.toNat then (⟨[], 0⟩, state.2 ++ [pending])
    else (⟨pending, rolling⟩, state.2)

/-- `FastCdcV0::push`. -/
def push (chunker : FastCdcV0) (input : Bytes) : FastCdcV0 × List Bytes :=
  input.foldl pushByte (chunker, [])

/-- `FastCdcV0::finish`. -/
def finish (chunker : FastCdcV0) : List Bytes :=
  if chunker.pending.isEmpty then [] else [chunker.pending]

/-- Several calls of `push`, with all the chunks they return. -/
def pushes (chunker : FastCdcV0) : List Bytes → FastCdcV0 × List Bytes
  | [] => (chunker, [])
  | input :: inputs =>
      let (chunker, completed) := chunker.push input
      let (chunker, more) := chunker.pushes inputs
      (chunker, completed ++ more)

end FastCdcV0

/-- `fastcdc_v0_chunks`. -/
def fastcdcV0Chunks (bytes : Bytes) : List Bytes :=
  let (chunker, chunks) := FastCdcV0.new.push bytes
  chunks ++ chunker.finish

/-! ### As a chunker with a reset -/

/-- The rolling hash after one more byte, or a cut. -/
def fastcdcV0Advance (rolling : UInt64) (pending : Bytes) : Option UInt64 :=
  if pending.length < fastcdcV0MinSize.toNat then some rolling
  else
    let rolling := rotateLeftOne rolling + fastcdcV0Gear (pending.getLast?.getD 0)
    let mask := if pending.length < fastcdcV0TargetSize.toNat then fastcdcV0EarlyMask
      else fastcdcV0LateMask
    if rolling &&& mask = 0 ∨ pending.length = fastcdcV0MaxSize.toNat then none else some rolling

/-- `FastCdcV0` as a chunker of the library. -/
def fastcdcV0 : Chunker UInt8 UInt64 := ⟨0, fastcdcV0Advance⟩

namespace FastCdcV0

theorem pushByte_eq (chunker : FastCdcV0) (completed : List Bytes) (byte : UInt8) :
    pushByte (chunker, completed) byte =
      (⟨(fastcdcV0.step (chunker.pending, chunker.rolling) byte).1.1,
        (fastcdcV0.step (chunker.pending, chunker.rolling) byte).1.2⟩,
        completed ++ (fastcdcV0.step (chunker.pending, chunker.rolling) byte).2) := by
  simp only [pushByte, Chunker.step, fastcdcV0, fastcdcV0Advance, List.getLast?_concat,
    Option.getD_some]
  by_cases hmin : (chunker.pending ++ [byte]).length < fastcdcV0MinSize.toNat
  · simp only [if_pos hmin, List.append_nil]
  · simp only [if_neg hmin]
    generalize (if (chunker.pending ++ [byte]).length < fastcdcV0TargetSize.toNat then
      fastcdcV0EarlyMask else fastcdcV0LateMask) = mask
    by_cases hcut : rotateLeftOne chunker.rolling + fastcdcV0Gear byte &&& mask = 0 ∨
        (chunker.pending ++ [byte]).length = fastcdcV0MaxSize.toNat
    · simp only [if_pos hcut]
    · simp only [if_neg hcut, List.append_nil]

theorem push_eq (chunker : FastCdcV0) (input : Bytes) :
    chunker.push input =
      (⟨(fastcdcV0.push (chunker.pending, chunker.rolling) input).1.1,
        (fastcdcV0.push (chunker.pending, chunker.rolling) input).1.2⟩,
        (fastcdcV0.push (chunker.pending, chunker.rolling) input).2) := by
  have hloop : ∀ (input : Bytes) (chunker : FastCdcV0) (completed : List Bytes),
      input.foldl pushByte (chunker, completed) =
        (⟨(fastcdcV0.push (chunker.pending, chunker.rolling) input).1.1,
          (fastcdcV0.push (chunker.pending, chunker.rolling) input).1.2⟩,
          completed ++ (fastcdcV0.push (chunker.pending, chunker.rolling) input).2) := by
    intro input
    induction input with
    | nil =>
        intro chunker completed
        simp [Chunker.push]
    | cons byte input ih =>
        intro chunker completed
        rw [List.foldl_cons, pushByte_eq, ih, Chunker.push, List.append_assoc]
  rw [push, hloop, List.nil_append]

/-- Pushing part after part is pushing the whole. -/
theorem pushes_eq (chunker : FastCdcV0) (inputs : List Bytes) :
    chunker.pushes inputs = chunker.push inputs.flatten := by
  induction inputs generalizing chunker with
  | nil => rfl
  | cons input inputs ih =>
      rw [pushes, List.flatten_cons, push_eq chunker (input ++ inputs.flatten),
        Chunker.push_append]
      simp only [ih, push_eq]

end FastCdcV0

theorem fastcdcV0Chunks_eq (bytes : Bytes) : fastcdcV0Chunks bytes = fastcdcV0.chunks bytes := by
  simp only [fastcdcV0Chunks, FastCdcV0.push_eq]
  rfl

theorem fastcdcV0_low {rolling : UInt64} {pending : Bytes}
    (h : fastcdcV0.advance rolling pending = none) :
    fastcdcV0MinSize.toNat ≤ pending.length := by
  by_contra hlt
  have hsome : fastcdcV0.advance rolling pending = some rolling := if_pos (Nat.lt_of_not_le hlt)
  rw [hsome] at h
  cases h

theorem fastcdcV0_high {rolling state : UInt64} {pending : Bytes}
    (h : fastcdcV0.advance rolling pending = some state) :
    pending.length ≠ fastcdcV0MaxSize.toNat := by
  intro hmax
  have hnone : fastcdcV0.advance rolling pending = none := by
    simp only [fastcdcV0, fastcdcV0Advance, hmax, or_true, if_true]
    exact if_neg (by decide)
  rw [hnone] at h
  cases h

theorem fastcdcV0Chunks_flatten (bytes : Bytes) : (fastcdcV0Chunks bytes).flatten = bytes := by
  rw [fastcdcV0Chunks_eq]
  exact fastcdcV0.chunks_flatten bytes

/-- The lengths of the chunks are within the profile, up to the last one. -/
theorem fastcdcV0Chunks_lengths (bytes : Bytes) :
    (∀ chunk ∈ (fastcdcV0Chunks bytes).dropLast,
      fastcdcV0MinSize.toNat ≤ chunk.length ∧ chunk.length ≤ fastcdcV0MaxSize.toNat) ∧
    ∀ chunk ∈ (fastcdcV0Chunks bytes).getLast?,
      1 ≤ chunk.length ∧ chunk.length ≤ fastcdcV0MaxSize.toNat := by
  rw [fastcdcV0Chunks_eq]
  exact Chunker.length_of_mem_chunks (k := fastcdcV0) (fun s p h => fastcdcV0_low h)
    (fun s p state h => fastcdcV0_high h) (by decide) (by decide) bytes

/-- **Chunks depend on the bytes alone.**  However the bytes arrive, the chunks
are those of the whole; they make up the bytes, their lengths are within the
profile, and from every boundary on the chunks are those of the rest. -/
theorem fastcdcV0_chunks (bytes : Bytes) :
    (∀ inputs : List Bytes, inputs.flatten = bytes →
      (FastCdcV0.new.pushes inputs).2 ++ (FastCdcV0.new.pushes inputs).1.finish =
        fastcdcV0Chunks bytes) ∧
    (fastcdcV0Chunks bytes).flatten = bytes ∧
    (∀ chunk ∈ (fastcdcV0Chunks bytes).dropLast,
      fastcdcV0MinSize.toNat ≤ chunk.length ∧ chunk.length ≤ fastcdcV0MaxSize.toNat) ∧
    (∀ chunk ∈ (fastcdcV0Chunks bytes).getLast?,
      1 ≤ chunk.length ∧ chunk.length ≤ fastcdcV0MaxSize.toNat) ∧
    ∀ before after, fastcdcV0Chunks bytes = before ++ after →
      fastcdcV0Chunks after.flatten = after := by
  obtain ⟨hlengths, hlast⟩ := fastcdcV0Chunks_lengths bytes
  refine ⟨?_, fastcdcV0Chunks_flatten bytes, hlengths, hlast, ?_⟩
  · rintro inputs rfl
    rw [FastCdcV0.pushes_eq]
    rfl
  · intro before after h
    rw [fastcdcV0Chunks_eq] at h ⊢
    exact fastcdcV0.chunks_append h

/-- A short stream that arrives in three parts is one chunk. -/
theorem fastcdcV0_chunks_sample :
    (FastCdcV0.new.pushes [[1, 2], [], [3]]).2 ++
        (FastCdcV0.new.pushes [[1, 2], [], [3]]).1.finish = [[1, 2, 3]] ∧
      fastcdcV0Chunks [1, 2, 3] = [[1, 2, 3]] := by
  have hwhole : fastcdcV0Chunks [1, 2, 3] = [[1, 2, 3]] := by decide
  have hparts := (fastcdcV0_chunks [1, 2, 3]).1 [[1, 2], [], [3]] rfl
  rw [hwhole] at hparts
  exact ⟨hparts, hwhole⟩

end RGit
