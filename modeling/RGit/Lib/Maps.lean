/-
RGit/Lib/Maps.lean

Ordered maps and sets.  `BTreeMap` and `BTreeSet` are the extensional tree
maps and sets of the standard library at the order of their keys; the lemmas
below say with equality of keys what the library says with comparison.

Nothing here mentions the modelled program.
-/
import RGit.Lib.Result
import Mathlib.Data.List.Basic
import Std.Data.ExtTreeMap
import Std.Data.ExtTreeSet

universe u v

abbrev BTreeMap (K : Type u) (V : Type v) [Ord K] := Std.ExtTreeMap K V compare

abbrev BTreeSet (K : Type u) [Ord K] := Std.ExtTreeSet K compare

section Maps

variable {K : Type u} {V : Type v} [Ord K] [Std.TransOrd K] [Std.LawfulEqOrd K]

omit [Std.TransOrd K] in
theorem compare_ne_eq_iff {a b : K} : compare a b ≠ .eq ↔ a ≠ b :=
  not_congr Std.LawfulEqCmp.compare_eq_iff_eq

namespace BTreeMap

variable {m : BTreeMap K V} {k a : K} {v : V}

omit [Std.LawfulEqOrd K] in
theorem get_insert_self (m : BTreeMap K V) (k : K) (v : V) : (m.insert k v)[k]? = some v :=
  Std.ExtTreeMap.getElem?_insert_self

theorem get_insert_of_ne (m : BTreeMap K V) (v : V) (h : k ≠ a) :
    (m.insert k v)[a]? = m[a]? := by
  rw [Std.ExtTreeMap.getElem?_insert, if_neg (compare_ne_eq_iff.mpr h)]

theorem get_insert_eq_some_iff {w : V} :
    (m.insert k v)[a]? = some w ↔ (k = a ∧ v = w) ∨ (k ≠ a ∧ m[a]? = some w) := by
  by_cases h : k = a
  · subst h
    simp
  · simp [get_insert_of_ne m v h, h]

omit [Std.LawfulEqOrd K] in
theorem mem_iff_get : a ∈ m ↔ ∃ w, m[a]? = some w := by
  rw [Std.ExtTreeMap.mem_iff_isSome_getElem?, Option.isSome_iff_exists]

omit [Std.LawfulEqOrd K] in
theorem contains_iff_get : m.contains a = true ↔ ∃ w, m[a]? = some w := by
  rw [← mem_iff_get, Std.ExtTreeMap.mem_iff_contains]

omit [Std.LawfulEqOrd K] in
theorem contains_eq_false_iff : m.contains a = false ↔ m[a]? = none := by
  rw [← Bool.not_eq_true, contains_iff_get, ← Option.isSome_iff_exists, Bool.not_eq_true,
    Option.isSome_eq_false_iff, Option.isNone_iff_eq_none]

theorem mem_toList_iff_get : (a, v) ∈ m.toList ↔ m[a]? = some v :=
  Std.ExtTreeMap.mem_toList_iff_getElem?_eq_some

theorem contains_insert_of_ne (m : BTreeMap K V) (v : V) (h : k ≠ a) :
    (m.insert k v).contains a = m.contains a := by
  rw [Std.ExtTreeMap.contains_insert]
  simp [h]

theorem get_erase_eq_some_iff : (m.erase k)[a]? = some v ↔ k ≠ a ∧ m[a]? = some v := by
  rw [Std.ExtTreeMap.getElem?_erase]
  by_cases h : k = a
  · subst h
    simp
  · rw [if_neg (compare_ne_eq_iff.mpr h)]
    simp [h]

/-- The keys are listed once. -/
theorem nodup_keys (m : BTreeMap K V) : (m.toList.map (·.1)).Nodup := by
  rw [List.Nodup, List.pairwise_map]
  exact Std.ExtTreeMap.distinct_keys_toList.imp fun h => compare_ne_eq_iff.mp h

omit [Std.LawfulEqOrd K] in
theorem values_eq_map_toList (m : BTreeMap K V) : m.values = m.toList.map (·.2) := by
  obtain ⟨⟨m⟩⟩ := m
  induction m using Quotient.ind with
  | _ m =>
      show m.inner.values = (Std.DTreeMap.Internal.Impl.Const.toList m.inner).map (·.2)
      rw [Std.DTreeMap.Internal.Impl.values_eq_map_snd,
        Std.DTreeMap.Internal.Impl.Const.toList_eq_toListModel_map]
      simp

theorem mem_values_iff : v ∈ m.values ↔ ∃ k : K, m[k]? = some v := by
  rw [values_eq_map_toList, List.mem_map]
  simp only [Prod.exists, mem_toList_iff_get, exists_eq_right]

end BTreeMap

namespace BTreeSet

variable {s : BTreeSet K} {k a : K}

theorem mem_insert_iff : a ∈ s.insert k ↔ k = a ∨ a ∈ s := by
  rw [Std.ExtTreeSet.mem_insert, Std.LawfulEqCmp.compare_eq_iff_eq]

theorem mem_erase_iff : a ∈ s.erase k ↔ k ≠ a ∧ a ∈ s := by
  rw [Std.ExtTreeSet.mem_erase, compare_ne_eq_iff]

theorem mem_filter_iff {p : K → Bool} : a ∈ s.filter p ↔ a ∈ s ∧ p a = true := by
  rw [← Std.ExtTreeSet.mem_toList, Std.ExtTreeSet.toList_filter, List.mem_filter,
    Std.ExtTreeSet.mem_toList]

end BTreeSet

/-! ### Filling a map -/

section Fill

variable {ε α : Type} {K V : Type} [Ord K] [Std.TransOrd K] [Std.LawfulEqOrd K]

/-- Store every element of a list under its key; a key that is taken is an
error. -/
def insertUnique (key : α → K) (value : α → V) (error : α → ε) (l : List α)
    (m : BTreeMap K V) : Except ε (BTreeMap K V) :=
  l.foldlM (fun m a =>
    if m.contains (key a) then .error (error a) else .ok (m.insert (key a) (value a))) m

variable {key : α → K} {value : α → V} {error : α → ε} {l : List α} {m m' : BTreeMap K V}

theorem insertUnique_isOk :
    (∃ m', insertUnique key value error l m = .ok m') ↔
      (l.map key).Nodup ∧ ∀ a ∈ l, key a ∉ m := by
  induction l generalizing m with
  | nil => simp [insertUnique, pure, Except.pure]
  | cons a l ih =>
      have hinsert : ∀ x, x ∉ m.insert (key a) (value a) ↔ key a ≠ x ∧ x ∉ m := by
        intro x
        rw [Std.ExtTreeMap.mem_insert, not_or, Std.LawfulEqCmp.compare_eq_iff_eq]
      have hcons : (∃ m', insertUnique key value error (a :: l) m = .ok m') ↔
          key a ∉ m ∧
            ∃ m', insertUnique key value error l (m.insert (key a) (value a)) = .ok m' := by
        simp only [insertUnique, List.foldlM_cons, Except.bind_eq_ok, Except.ite_error_eq_ok,
          Except.ok.injEq, ← Std.ExtTreeMap.mem_iff_contains]
        constructor
        · rintro ⟨m', _, ⟨hnew, rfl⟩, h⟩
          exact ⟨hnew, m', h⟩
        · rintro ⟨hnew, m', h⟩
          exact ⟨m', _, ⟨hnew, rfl⟩, h⟩
      rw [hcons, ih, List.map_cons, List.nodup_cons, List.forall_mem_cons]
      simp only [hinsert]
      constructor
      · rintro ⟨hnew, hnodup, hall⟩
        refine ⟨⟨fun hmem => ?_, hnodup⟩, hnew, fun b hb => (hall b hb).2⟩
        obtain ⟨b, hb, heq⟩ := List.mem_map.mp hmem
        exact (hall b hb).1 heq.symm
      · rintro ⟨⟨hkey, hnodup⟩, hnew, hall⟩
        refine ⟨hnew, hnodup, fun b hb => ⟨fun heq => hkey ?_, hall b hb⟩⟩
        exact List.mem_map.mpr ⟨b, hb, heq.symm⟩

theorem insertUnique_get (h : insertUnique key value error l m = .ok m') {k : K} {v : V} :
    m'[k]? = some v ↔ m[k]? = some v ∨ ∃ a ∈ l, key a = k ∧ value a = v := by
  induction l generalizing m with
  | nil =>
      cases h
      simp
  | cons a l ih =>
      rw [insertUnique, List.foldlM_cons] at h
      simp only [Except.bind_eq_ok, Except.ite_error_eq_ok, Except.ok.injEq] at h
      obtain ⟨_, ⟨hnew, rfl⟩, h⟩ := h
      rw [Bool.not_eq_true, BTreeMap.contains_eq_false_iff] at hnew
      rw [ih h, BTreeMap.get_insert_eq_some_iff, List.exists_mem_cons_iff]
      by_cases hk : key a = k
      · subst hk
        simp [hnew]
      · simp [hk]

end Fill

end Maps
