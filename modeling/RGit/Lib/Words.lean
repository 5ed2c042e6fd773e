/-
RGit/Lib/Words.lean

Machine words as Mathlib linear orders.  The order, the decision procedures
and `min`/`max` are the ones the core library already gives these types.

Nothing here mentions the modelled program.
-/
import Mathlib.Order.Lattice
import Mathlib.Order.Defs.LinearOrder

theorem lt_iff_uint8 (a b : UInt8) : a < b ↔ a ≤ b ∧ ¬b ≤ a := by
  simp only [UInt8.lt_iff_toNat_lt, UInt8.le_iff_toNat_le]
  omega

theorem min_uint8 (a b : UInt8) : min a b = if a ≤ b then a else b := rfl

theorem max_uint8 (a b : UInt8) : max a b = if a ≤ b then b else a := rfl

theorem compare_uint8 (a b : UInt8) : compare a b = compareOfLessAndEq a b := rfl

instance linearOrder_uint8 : LinearOrder UInt8 where
  le_refl _ := UInt8.le_refl _
  le_trans _ _ _ := UInt8.le_trans
  le_antisymm _ _ := UInt8.le_antisymm
  le_total := UInt8.le_total
  lt_iff_le_not_ge := lt_iff_uint8
  toDecidableLE := inferInstance
  toDecidableEq := inferInstance
  toDecidableLT := inferInstance
  min_def := min_uint8
  max_def := max_uint8
  compare_eq_compareOfLessAndEq := compare_uint8

theorem lt_iff_uint64 (a b : UInt64) : a < b ↔ a ≤ b ∧ ¬b ≤ a := by
  simp only [UInt64.lt_iff_toNat_lt, UInt64.le_iff_toNat_le]
  omega

theorem min_uint64 (a b : UInt64) : min a b = if a ≤ b then a else b := rfl

theorem max_uint64 (a b : UInt64) : max a b = if a ≤ b then b else a := rfl

theorem compare_uint64 (a b : UInt64) : compare a b = compareOfLessAndEq a b := rfl

instance linearOrder_uint64 : LinearOrder UInt64 where
  le_refl _ := UInt64.le_refl _
  le_trans _ _ _ := UInt64.le_trans
  le_antisymm _ _ := UInt64.le_antisymm
  le_total := UInt64.le_total
  lt_iff_le_not_ge := lt_iff_uint64
  toDecidableLE := inferInstance
  toDecidableEq := inferInstance
  toDecidableLT := inferInstance
  min_def := min_uint64
  max_def := max_uint64
  compare_eq_compareOfLessAndEq := compare_uint64
