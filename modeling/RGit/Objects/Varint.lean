/-
RGit/Objects/Varint.lean

Varints are written and read in one way.

`push_varint` writes the shortest word of a number (`pushVarint_eq`), and
`read_varint` accepts exactly the shortest words of 64-bit numbers
(`readVarint_eq_ok`).
-/
import RGit.Lib.Leb128
import RGit.Objects.Id
import Mathlib.Tactic.Ring

namespace RGit

/-! ### Bits -/

theorem toNat_shiftRight_seven (v : UInt64) : (v >>> 7).toNat = v.toNat / 128 := by
  rw [UInt64.toNat_shiftRight]
  simp [Nat.shiftRight_eq_div_pow]

theorem toNat_low_group (v : UInt64) : (v &&& 0x7f).toUInt8.toNat = v.toNat % 128 := by
  have hmask : (0x7f : UInt64).toNat = 2 ^ 7 - 1 := rfl
  rw [UInt64.toNat_toUInt8, UInt64.toNat_and, hmask, Nat.and_two_pow_sub_one_eq_mod]
  omega

theorem toNat_low_bits (b : UInt8) : (b &&& 0x7f).toNat = b.toNat % 128 := by
  have hmask : (0x7f : UInt8).toNat = 2 ^ 7 - 1 := rfl
  rw [UInt8.toNat_and, hmask, Nat.and_two_pow_sub_one_eq_mod]

theorem toNat_or_high_bit {b : UInt8} (h : b.toNat < 128) : (b ||| 0x80).toNat = b.toNat + 128 := by
  have hbit : (0x80 : UInt8).toNat = 2 ^ 7 * 1 := rfl
  rw [UInt8.toNat_or, hbit, Nat.or_comm, ← Nat.two_pow_add_eq_or_of_lt h]
  omega

theorem high_bit_eq_zero_iff (b : UInt8) : b &&& 0x80 = 0 ↔ b.toNat < 128 := by
  have hall : ∀ i : Fin 256, UInt8.ofNat i &&& 0x80 = 0 ↔ i.1 < 128 := by decide +kernel
  have hcase := hall ⟨b.toNat, b.toNat_lt⟩
  rwa [show UInt8.ofNat b.toNat = b from UInt8.ofNat_toNat] at hcase

/-! ### Writing -/

theorem pushVarintLoop_eq {fuel : Nat} {v : UInt64} (h : v.toNat < 128 ^ fuel) (hpos : 0 < fuel) :
    pushVarintLoop fuel v = leb128 v.toNat := by
  induction fuel generalizing v with
  | zero => omega
  | succ fuel ih =>
      rw [pushVarintLoop]
      by_cases hv : v.toNat < 128
      · have hzero : v >>> 7 = 0 := by
          apply UInt64.toNat_inj.mp
          rw [toNat_shiftRight_seven, UInt64.toNat_zero]
          omega
        rw [if_pos hzero, leb128_of_lt hv, List.cons.injEq]
        refine ⟨UInt8.toNat_inj.mp ?_, rfl⟩
        rw [toNat_low_group, UInt8.toNat_ofNat']
        omega
      · have hne : ¬ v >>> 7 = 0 := by
          intro hzero
          have := congrArg UInt64.toNat hzero
          rw [toNat_shiftRight_seven, UInt64.toNat_zero] at this
          omega
        rw [Nat.pow_succ] at h
        have hfuel : 0 < fuel := by
          rcases Nat.eq_zero_or_pos fuel with rfl | hfuel
          · omega
          · exact hfuel
        have hrest : (v >>> 7).toNat < 128 ^ fuel := by
          rw [toNat_shiftRight_seven]
          exact Nat.div_lt_of_lt_mul (by rwa [Nat.mul_comm])
        rw [if_neg hne, leb128_of_ge (by omega), ih hrest hfuel, toNat_shiftRight_seven,
          List.cons.injEq]
        refine ⟨UInt8.toNat_inj.mp ?_, rfl⟩
        rw [toNat_or_high_bit (by rw [toNat_low_group]; omega), toNat_low_group,
          UInt8.toNat_ofNat']
        omega

theorem pushVarint_eq (v : UInt64) : pushVarint v = leb128 v.toNat := by
  have hv := v.toNat_lt
  exact pushVarintLoop_eq (by omega) (by omega)

theorem pushVarint_append_inj {a b : UInt64} {x y : Bytes}
    (h : pushVarint a ++ x = pushVarint b ++ y) : a = b ∧ x = y := by
  rw [pushVarint_eq, pushVarint_eq] at h
  obtain ⟨hab, hxy⟩ := leb128_append_inj h
  exact ⟨UInt64.toNat_inj.mp hab, hxy⟩

theorem length_pushVarint_le (v : UInt64) : (pushVarint v).length ≤ 10 := by
  have hv := v.toNat_lt
  rw [pushVarint_eq]
  exact length_leb128_le (by omega) (by omega)

theorem FixedBytes.append_inj {n : Nat} {a b : FixedBytes n} {x y : Bytes}
    (h : a.1 ++ x = b.1 ++ y) : a = b ∧ x = y := by
  obtain ⟨hab, hxy⟩ := List.append_inj h (a.2.trans b.2.symm)
  exact ⟨Subtype.ext hab, hxy⟩

/-! ### Reading -/

/-- One more group is put above those read so far. -/
theorem toNat_addGroup {result : UInt64} {byte : UInt8} {index : Nat}
    (hresult : result.toNat < 128 ^ index) (hindex : index ≤ 9) (hlast : index = 9 → byte.toNat ≤ 1) :
    (result ||| ((byte &&& 0x7f).toUInt64 <<< (7 * index).toUInt64)).toNat =
      result.toNat + byte.toNat % 128 * 128 ^ index := by
  have hpow : 128 ^ index = 2 ^ (7 * index) := by rw [Nat.pow_mul]
  have hshift : ((7 * index).toUInt64).toNat % 64 = 7 * index := by
    rw [Nat.toUInt64_eq, UInt64.toNat_ofNat']
    omega
  have hsmall : byte.toNat % 128 * 2 ^ (7 * index) < 2 ^ 64 := by
    by_cases h : index = 9
    · subst h
      have := hlast rfl
      have : byte.toNat % 128 ≤ 1 := by omega
      omega
    · have hle : 2 ^ (7 * index) ≤ 2 ^ 56 := Nat.pow_le_pow_right (by omega) (by omega)
      have hmod : byte.toNat % 128 ≤ 127 := by omega
      calc byte.toNat % 128 * 2 ^ (7 * index) ≤ 127 * 2 ^ 56 := Nat.mul_le_mul hmod hle
        _ < 2 ^ 64 := by decide
  rw [hpow] at hresult
  rw [UInt64.toNat_or, UInt64.toNat_shiftLeft, UInt8.toNat_toUInt64, toNat_low_bits, hshift,
    Nat.shiftLeft_eq, Nat.mod_eq_of_lt hsmall, hpow, Nat.or_comm, ← Nat.shiftLeft_eq,
    ← Nat.shiftLeft_add_eq_or_of_lt hresult, Nat.add_comm]

/-- What the loop of `read_varint` accepts. -/
theorem readVarintLoop_eq_ok {groups index : Nat} {result n : UInt64} {bytes rest : Bytes}
    (hgroups : groups + index = 10) (hresult : result.toNat < 128 ^ index) :
    readVarintLoop groups index result bytes = .ok (n, rest) ↔
      ∃ w v, bytes = w ++ rest ∧ Word w v ∧ w.length ≤ groups ∧
        n.toNat = result.toNat + v * 128 ^ index ∧ (pushVarint n).length = index + w.length := by
  induction groups generalizing index result bytes with
  | zero =>
      refine ⟨nofun, ?_⟩
      rintro ⟨w, v, -, hword, hlen, -⟩
      have := hword.length_pos
      omega
  | succ groups ih =>
      cases bytes with
      | nil =>
          refine ⟨nofun, ?_⟩
          rintro ⟨w, v, hbytes, hword, -⟩
          have hpos := hword.length_pos
          have hlen := congrArg List.length hbytes
          rw [List.length_append, List.length_nil] at hlen
          omega
      | cons byte bytes =>
          rw [readVarintLoop, Except.ite_error_eq_ok, not_and, gt_iff_lt, UInt8.not_lt,
            UInt8.le_iff_toNat_le, show (1 : UInt8).toNat = 1 from rfl]
          dsimp only
          have hgroup := @toNat_addGroup result byte index hresult (by omega)
          generalize result ||| ((byte &&& 0x7f).toUInt64 <<< (7 * index).toUInt64) = next at hgroup ⊢
          by_cases hbyte : byte.toNat < 128
          · rw [if_pos ((high_bit_eq_zero_iff byte).mpr hbyte), Except.ite_error_eq_ok, not_not,
              Except.ok.injEq, Prod.mk.injEq]
            constructor
            · rintro ⟨hlast, hlen, rfl, rfl⟩
              refine ⟨[byte], byte.toNat, rfl, .last hbyte, by simp, ?_, hlen⟩
              rw [hgroup hlast, Nat.mod_eq_of_lt hbyte]
            · rintro ⟨w, v, hbytes, hword, -, hn, hlen⟩
              cases hword with
              | more hmore _ =>
                  cases hbytes
                  omega
              | last _ =>
                  cases hbytes
                  have hlast : index = 9 → byte.toNat ≤ 1 := by
                    rintro rfl
                    have := n.toNat_lt
                    omega
                  have hnext : next = n := by
                    apply UInt64.toNat_inj.mp
                    rw [hgroup hlast, hn, Nat.mod_eq_of_lt hbyte]
                  exact ⟨hlast, hnext ▸ hlen, hnext, rfl⟩
          · rw [if_neg (mt (high_bit_eq_zero_iff byte).mp hbyte)]
            have hmod : byte.toNat % 128 = byte.toNat - 128 := by
              have := byte.toNat_lt
              omega
            -- a group that goes on is not the tenth
            constructor
            · rintro ⟨hlast, hrest⟩
              have hindex : index ≠ 9 := by
                rintro rfl
                have := hlast rfl
                omega
              have hnext : next.toNat < 128 ^ (index + 1) := by
                rw [hgroup hlast, Nat.pow_succ]
                have : byte.toNat % 128 * 128 ^ index ≤ 127 * 128 ^ index :=
                  Nat.mul_le_mul_right _ (by omega)
                omega
              obtain ⟨w, v, rfl, hword, hle, hn, hlen⟩ := (ih (by omega) hnext).mp hrest
              refine ⟨byte :: w, _, rfl, .more (by omega) hword, by simpa using hle, ?_, ?_⟩
              · rw [hn, hgroup hlast, hmod, Nat.pow_succ]
                ring
              · rw [hlen, List.length_cons]
                omega
            · rintro ⟨w, v, hbytes, hword, hle, hn, hlen⟩
              cases hword with
              | last hlast =>
                  cases hbytes
                  exact absurd hlast hbyte
              | @more _ w v hmore hword =>
                  rw [List.cons_append, List.cons.injEq] at hbytes
                  obtain ⟨rfl, rfl⟩ := hbytes
                  have hpos := hword.length_pos
                  rw [List.length_cons] at hle hlen
                  have hindex : index ≠ 9 := by omega
                  have hlast : index = 9 → byte.toNat ≤ 1 := fun h => absurd h hindex
                  have hnext : next.toNat < 128 ^ (index + 1) := by
                    rw [hgroup hlast, Nat.pow_succ]
                    have : byte.toNat % 128 * 128 ^ index ≤ 127 * 128 ^ index :=
                      Nat.mul_le_mul_right _ (by omega)
                    omega
                  refine ⟨hlast, (ih (by omega) hnext).mpr
                    ⟨w, v, rfl, hword, by omega, ?_, by omega⟩⟩
                  rw [hn, hgroup hlast, hmod, Nat.pow_succ]
                  ring

/-- **A varint is read as it was written**, and nothing else is read. -/
theorem readVarint_eq_ok {n : UInt64} {bytes rest : Bytes} :
    readVarint bytes = .ok (n, rest) ↔ bytes = pushVarint n ++ rest := by
  rw [readVarint, readVarintLoop_eq_ok (by omega) (by decide), pushVarint_eq]
  simp only [UInt64.toNat_zero, Nat.pow_zero, Nat.mul_one, Nat.zero_add]
  constructor
  · rintro ⟨w, v, rfl, hword, -, rfl, hlen⟩
    rw [hword.eq_leb128 hlen]
  · rintro rfl
    have hlen := length_pushVarint_le n
    rw [pushVarint_eq] at hlen
    exact ⟨_, _, rfl, word_leb128 _, hlen, rfl, rfl⟩

end RGit
