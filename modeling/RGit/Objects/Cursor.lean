/-
RGit/Objects/Cursor.lean

`read_varint` with the position that it moves.

The reader gets the whole slice and a position.  It reads the byte at the
position only where there is one, and leaves the position within the slice
whether it succeeds or not (`readVarintAt_eq`); what it returns is what
`readVarint` returns for the bytes from the position on.
-/
import RGit.Objects.Varint

namespace RGit

/-- The loop of `read_varint`: `index` bytes from `start` on are already consumed,
`groups` more may follow. -/
def readVarintLoopAt (bytes : Bytes) (start : Nat) :
    Nat → Nat → UInt64 → Nat → Except ObjectIdError UInt64 × Nat
  | 0, _, _, position => (.error .length, position)
  | groups + 1, index, result, position =>
      match bytes[position]? with
      | none => (.error .length, position)
      | some byte =>
          let position := position + 1
          if index = 9 ∧ byte > 1 then (.error .length, position)
          else
            let result := result ||| ((byte &&& 0x7f).toUInt64 <<< (7 * index).toUInt64)
            if byte &&& 0x80 = 0 then
              if (pushVarint result).length ≠ position - start then
                (.error .nonMinimalVarint, position)
              else (.ok result, position)
            else readVarintLoopAt bytes start groups (index + 1) result position

/-- `read_varint`: the value, and the position after it. -/
def readVarintAt (bytes : Bytes) (position : Nat) : Except ObjectIdError UInt64 × Nat :=
  readVarintLoopAt bytes position 10 0 0 position

variable {bytes : Bytes} {start position : Nat}

/-- The loop stays within the slice, and returns what the loop over the bytes that
are left returns. -/
theorem readVarintLoopAt_eq {groups index : Nat} {result : UInt64}
    (hposition : position = start + index) (hwithin : position ≤ bytes.length) :
    (readVarintLoopAt bytes start groups index result position).2 ≤ bytes.length ∧
      readVarintLoop groups index result (bytes.drop position) =
        (readVarintLoopAt bytes start groups index result position).1.map fun v =>
          (v, bytes.drop (readVarintLoopAt bytes start groups index result position).2) := by
  induction groups generalizing index result position with
  | zero => exact ⟨hwithin, rfl⟩
  | succ groups ih =>
      rw [readVarintLoopAt]
      by_cases hend : position < bytes.length
      · rw [List.getElem?_eq_getElem hend, List.drop_eq_getElem_cons hend, readVarintLoop]
        have hconsumed : position + 1 - start = index + 1 := by omega
        dsimp only
        rw [hconsumed]
        split
        · exact ⟨hend, rfl⟩
        · split
          · split
            · exact ⟨hend, rfl⟩
            · exact ⟨hend, rfl⟩
          · exact ih (by omega) hend
      · rw [List.getElem?_eq_none (by omega), List.drop_of_length_le (by omega)]
        exact ⟨hwithin, rfl⟩

theorem readVarintAt_eq (hwithin : position ≤ bytes.length) :
    (readVarintAt bytes position).2 ≤ bytes.length ∧
      readVarint (bytes.drop position) =
        (readVarintAt bytes position).1.map fun v =>
          (v, bytes.drop (readVarintAt bytes position).2) :=
  readVarintLoopAt_eq (Nat.add_zero _).symm hwithin

/-- What is read moves the position forward. -/
theorem le_readVarintLoopAt {groups index : Nat} {result : UInt64} :
    position ≤ (readVarintLoopAt bytes start groups index result position).2 := by
  induction groups generalizing index result position with
  | zero => exact Nat.le_refl _
  | succ groups ih =>
      rw [readVarintLoopAt]
      split
      · exact Nat.le_refl _
      · dsimp only
        split
        · exact Nat.le_succ _
        · split
          · split
            · exact Nat.le_succ _
            · exact Nat.le_succ _
          · exact Nat.le_of_succ_le ih

/-- **One spelling**: a number is read where its word stands, up to its end, and
nothing is read anywhere else. -/
theorem readVarintAt_eq_ok {v : UInt64} {s : Bytes} {stop : Nat} :
    readVarintAt (s ++ bytes) s.length = (.ok v, stop) ↔
      ∃ t, bytes = pushVarint v ++ t ∧ stop = s.length + (pushVarint v).length := by
  have hwithin : s.length ≤ (s ++ bytes).length := by simp
  obtain ⟨hstop, hread⟩ := readVarintAt_eq hwithin
  rw [List.drop_left] at hread
  constructor
  · intro h
    rw [h] at hread hstop
    have hsplit := readVarint_eq_ok.mp hread
    refine ⟨_, hsplit, ?_⟩
    have hle : s.length ≤ stop := by
      have hle := @le_readVarintLoopAt (s ++ bytes) s.length s.length 10 0 0
      rwa [show readVarintLoopAt (s ++ bytes) s.length 10 0 0 s.length = (.ok v, stop) from h] at hle
    have hlength := congrArg List.length hsplit
    rw [List.length_append, List.length_drop, List.length_append] at hlength
    rw [List.length_append] at hstop
    dsimp only at hlength hstop
    omega
  · rintro ⟨t, rfl, rfl⟩
    rw [readVarint_eq_ok.mpr rfl] at hread
    obtain ⟨w, hw, heq⟩ := Except.map_eq_ok.mp hread.symm
    obtain ⟨rfl, ht⟩ := Prod.mk.inj heq
    refine Prod.ext hw ?_
    have hle : s.length ≤ (readVarintAt (s ++ (pushVarint w ++ t)) s.length).2 :=
      le_readVarintLoopAt
    have hlength := congrArg List.length ht
    rw [List.length_drop] at hlength
    rw [List.length_append, List.length_append] at hlength hstop
    dsimp only
    omega

/-- Identifiers and varints have one binary form.  An identifier is read from its
own bytes only; a varint is read where it stands, up to its end; where no varint
stands, the reader fails, with its position within the slice. -/
theorem ObjectId.binary_spec :
    (∀ (b : Bytes) (id : ObjectId), ObjectId.fromBytes b = .ok id ↔ b = id.toBytes) ∧
      (∀ (v : UInt64) (s t : Bytes),
        readVarintAt (s ++ (pushVarint v ++ t)) s.length =
          (.ok v, (s ++ pushVarint v).length)) ∧
      ∀ s b : Bytes, (∀ v, ¬ pushVarint v <+: b) → ∃ e stop,
        readVarintAt (s ++ b) s.length = (.error e, stop) ∧ s.length ≤ stop ∧
          stop ≤ (s ++ b).length := by
  refine ⟨fun _ _ => ObjectId.fromBytes_eq_ok, fun v s t => ?_, fun s b hb => ?_⟩
  · rw [List.length_append]
    exact readVarintAt_eq_ok.mpr ⟨t, rfl, rfl⟩
  · have hwithin : s.length ≤ (s ++ b).length := by simp
    cases hread : readVarintAt (s ++ b) s.length with
    | mk outcome stop =>
        have hstop := (readVarintAt_eq hwithin).1
        have hle : s.length ≤ (readVarintAt (s ++ b) s.length).2 := le_readVarintLoopAt
        rw [hread] at hstop hle
        cases outcome with
        | error e => exact ⟨e, stop, rfl, hle, hstop⟩
        | ok v =>
            obtain ⟨t, rfl, -⟩ := readVarintAt_eq_ok.mp hread
            exact absurd (List.prefix_append _ _) (hb v)

/-- A byte that goes on at the end of the slice. -/
theorem ObjectId.binary_spec_truncated : ∃ e stop,
    readVarintAt ([0x12] ++ [0x80]) 1 = (.error e, stop) ∧ 1 ≤ stop ∧ stop ≤ 2 := by
  refine ObjectId.binary_spec.2.2 [0x12] [0x80] ?_
  rintro v ⟨t, ht⟩
  have hread : readVarint [0x80] = .ok (v, t) := readVarint_eq_ok.mpr ht.symm
  cases hread

end RGit
