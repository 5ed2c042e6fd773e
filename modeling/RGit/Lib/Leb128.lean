/-
RGit/Lib/Leb128.lean

Numbers as bytes of seven bits, lowest first.

A word is a run of bytes with the high bit set, ended by one without it;
`Word w n` says that the word `w` stands for `n`.  Words are prefix-free
(`Word.append_inj`), and among the words of one number the shortest is the
one that `leb128` writes (`Word.eq_leb128`).

Nothing here mentions the modelled program.
-/
import Mathlib.Algebra.Group.Nat.Defs
import Mathlib.Data.List.Basic
import Mathlib.Data.Nat.Basic

/-- The shortest word of a number. -/
def leb128 (n : Nat) : List UInt8 :=
  if n < 128 then [UInt8.ofNat n] else UInt8.ofNat (n % 128 + 128) :: leb128 (n / 128)
termination_by n
decreasing_by omega

/-- The bytes `w` are a word for `n`. -/
inductive Word : List UInt8 → Nat → Prop
  | last {b : UInt8} : b.toNat < 128 → Word [b] b.toNat
  | more {b : UInt8} {w : List UInt8} {n : Nat} : 128 ≤ b.toNat → Word w n →
      Word (b :: w) (b.toNat - 128 + 128 * n)

theorem leb128_of_lt {n : Nat} (h : n < 128) : leb128 n = [UInt8.ofNat n] := by
  rw [leb128, if_pos h]

theorem leb128_of_ge {n : Nat} (h : 128 ≤ n) :
    leb128 n = UInt8.ofNat (n % 128 + 128) :: leb128 (n / 128) := by
  rw [leb128, if_neg (by omega)]

theorem word_leb128 (n : Nat) : Word (leb128 n) n := by
  induction n using Nat.strongRecOn with
  | ind n ih =>
      by_cases h : n < 128
      · have hbyte : (UInt8.ofNat n).toNat = n := by
          rw [UInt8.toNat_ofNat']
          omega
        have hword : Word [UInt8.ofNat n] (UInt8.ofNat n).toNat := .last (by omega)
        rwa [hbyte, ← leb128_of_lt h] at hword
      · have hbyte : (UInt8.ofNat (n % 128 + 128)).toNat = n % 128 + 128 := by
          rw [UInt8.toNat_ofNat']
          omega
        have hword := Word.more (b := UInt8.ofNat (n % 128 + 128)) (by omega)
          (ih (n / 128) (by omega))
        rw [hbyte, ← leb128_of_ge (by omega)] at hword
        have hsum : n % 128 + 128 - 128 + 128 * (n / 128) = n := by omega
        rwa [hsum] at hword

namespace Word

variable {w w' x y : List UInt8} {n n' : Nat}

theorem length_pos (h : Word w n) : 0 < w.length := by
  cases h <;> simp

/-- No word is the beginning of another one. -/
theorem append_inj (h : Word w n) (h' : Word w' n') (heq : w ++ x = w' ++ y) :
    w = w' ∧ n = n' ∧ x = y := by
  induction h generalizing w' n' with
  | last hb =>
      cases h' with
      | last hb' =>
          cases heq
          exact ⟨rfl, rfl, rfl⟩
      | more hb' _ =>
          cases heq
          omega
  | more hb _ ih =>
      cases h' with
      | last hb' =>
          cases heq
          omega
      | more hb' hw' =>
          rw [List.cons_append, List.cons_append, List.cons.injEq] at heq
          obtain ⟨rfl, heq⟩ := heq
          obtain ⟨rfl, rfl, rfl⟩ := ih hw' heq
          exact ⟨rfl, rfl, rfl⟩

/-- `leb128` is as short as a word can be, and the only one of its length. -/
theorem leb128_shortest (h : Word w n) :
    (leb128 n).length ≤ w.length ∧ ((leb128 n).length = w.length → w = leb128 n) := by
  induction h with
  | @last b hb =>
      rw [leb128_of_lt hb, UInt8.ofNat_toNat]
      exact ⟨le_rfl, fun _ => rfl⟩
  | @more b w n hb _ ih =>
      have hbyte := b.toNat_lt
      by_cases hn : n = 0
      · -- the word goes on although nothing is left
        subst hn
        rw [leb128_of_lt (by omega)]
        have hpos : 0 < w.length := by
          cases w with
          | nil =>
              rw [leb128_of_lt (by omega)] at ih
              simp at ih
          | cons c w => simp
        rw [List.length_singleton, List.length_cons]
        exact ⟨by omega, fun h => by omega⟩
      · have hmod : (b.toNat - 128 + 128 * n) % 128 + 128 = b.toNat := by omega
        have hdiv : (b.toNat - 128 + 128 * n) / 128 = n := by omega
        rw [leb128_of_ge (by omega), hmod, hdiv, UInt8.ofNat_toNat, List.length_cons,
          List.length_cons]
        refine ⟨by omega, fun hlen => ?_⟩
        rw [← ih.2 (by omega)]

theorem eq_leb128 (h : Word w n) (hlen : (leb128 n).length = w.length) : w = leb128 n :=
  h.leb128_shortest.2 hlen

/-- Behind bytes that go on, a word has a rest that is a word. -/
theorem of_append {c : List UInt8} (hc : ∀ b ∈ c, 128 ≤ b.toNat) (h : Word (c ++ w) n) :
    ∃ m, Word w m ∧ m * 128 ^ c.length ≤ n := by
  induction c generalizing n with
  | nil => exact ⟨n, h, by simp⟩
  | cons b c ih =>
      rw [List.forall_mem_cons] at hc
      generalize hw : b :: c ++ w = word at h
      rw [List.cons_append] at hw
      cases h with
      | last hlast =>
          obtain ⟨rfl, -⟩ := List.cons.inj hw
          omega
      | more hmore hword =>
          obtain ⟨rfl, rfl⟩ := List.cons.inj hw
          obtain ⟨m, hm, hle⟩ := ih hc.2 hword
          refine ⟨m, hm, ?_⟩
          rw [List.length_cons, Nat.pow_succ, ← Nat.mul_assoc]
          omega

end Word

theorem leb128_append_inj {a b : Nat} {x y : List UInt8} (h : leb128 a ++ x = leb128 b ++ y) :
    a = b ∧ x = y :=
  ((word_leb128 a).append_inj (word_leb128 b) h).2

theorem length_leb128_le {n k : Nat} (h : n < 128 ^ k) (hk : 0 < k) : (leb128 n).length ≤ k := by
  induction k generalizing n with
  | zero => omega
  | succ k ih =>
      by_cases hn : n < 128
      · rw [leb128_of_lt hn, List.length_singleton]
        omega
      · rw [leb128_of_ge (by omega), List.length_cons]
        rw [Nat.pow_succ] at h
        have hk : 0 < k := by
          rcases Nat.eq_zero_or_pos k with rfl | hk
          · omega
          · exact hk
        have hdiv : n / 128 < 128 ^ k := Nat.div_lt_of_lt_mul (by rwa [Nat.mul_comm])
        have := ih hdiv hk
        omega
